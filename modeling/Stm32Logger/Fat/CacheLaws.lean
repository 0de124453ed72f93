import Stm32Logger.Effect
import Stm32Logger.Fat.SdStore
import Stm32Logger.WriteLog

/-!
# What the sector cache keeps

The volume as OpenFAT sees it is the card overlaid with the dirty buffer.
Moving sectors through the buffer leaves that overlay alone, an edit changes
one sector of it, and every write the card takes makes the card equal to the
overlay of that moment.
-/

namespace Stm32Logger

-- ---------------------------------------------------------------------------
-- Running a call
-- ---------------------------------------------------------------------------

section
variable {α β : Type}

theorem getVol_bind {k : FatVolHandle → FatM β} {s : FatState} :
    (getVol >>= k) s = k s.vol s := rfl

theorem getHandle_bind {k : FatFileHandle → FatM β} {s : FatState} :
    (getHandle r >>= k) s = k (s.handle r) s := rfl

def FatState.withHandle (s : FatState) (r : HandleRef) (h : FatFileHandle) : FatState :=
  { s with handle := Function.update s.handle r h }

theorem modifyHandle_bind {k : PUnit → FatM β} {s : FatState} :
    (modifyHandle r f >>= k) s = k ⟨⟩ (s.withHandle r (f (s.handle r))) := rfl

theorem setHandle_bind {k : PUnit → FatM β} {s : FatState} :
    (setHandle r h >>= k) s = k ⟨⟩ (s.withHandle r h) := rfl

theorem fatOf_bind {k : FatVolHandle → FatM β} {s : FatState} (h : hd.fat = true) :
    (fatOf hd >>= k) s = k s.vol s := by
  rw [fatOf, if_pos h, getVol_bind]

end

theorem returning_ok {m : FatM α} (h : m s = .ok a s') : returning v m s = .ok a s' := by
  simp only [returning, tryCatch, tryCatchThe, MonadExceptOf.tryCatch, EStateM.tryCatch, h]

theorem returning_eio {m : FatM α} (h : m s = .error .eio s') : returning v m s = .ok v s' := by
  simp only [returning, tryCatch, tryCatchThe, MonadExceptOf.tryCatch, EStateM.tryCatch, h]
  rfl

-- ---------------------------------------------------------------------------
-- The volume under the cache
-- ---------------------------------------------------------------------------

/-- The sectors of a volume, by the numbers OpenFAT uses. -/
abbrev Disk := Nat → Sector

/-- The volume as a partition shows it on a card. -/
def MbrPartition.view (p : MbrPartition) (image : Nat → Sector) : Disk := fun n =>
  if n < 2 ^ 32 then image (u32 (p.firstLba + n)) else fun _ => 0

def FatState.stored (s : FatState) : Disk := s.part.view s.card.image

def FatState.disk (s : FatState) : Disk := fun n =>
  if s.cache.dirty ∧ s.cache.sector = n then s.buf else s.stored n

/-- Mounted, on a card whose reads all succeed. -/
structure FatState.Mounted (s : FatState) : Prop where
  ready : s.part.ready = true
  dev : s.vol.dev = .part
  label : s.cache.sector < 2 ^ 32
  bldev : s.cache.dirty = true → s.cache.bldev = .part
  reads : ∀ b ∈ s.card.readFaults, b = false

/-- Every write still to come succeeds. -/
def FatState.Quiet (s : FatState) : Prop := ∀ b ∈ s.card.writeFaults, b = false

/-- A hit on sector `n` finds its bytes in the buffer. -/
def FatState.CacheOk (s : FatState) (n : Nat) : Prop :=
  s.cache.bldev = .part → s.cache.sector = n → s.buf = s.disk n

structure FatState.Loaded (s : FatState) (n : Nat) : Prop where
  bldev : s.cache.bldev = .part
  label : s.cache.sector = n
  buf : s.buf = s.disk n

/-- The card took some writes between two states, and after each of them the
volume satisfied `P`. -/
def Writes (P : Disk → Prop) (s s' : FatState) : Prop :=
  ∃ ws, s'.card.writes = s.card.writes ++ ws ∧ s'.card.image = WriteLog.replay s.card.image ws ∧
    WriteLog.Cuts (fun i => P (s.part.view i)) s.card.image ws

/-- A call that returned on a mounted volume, with the writes it made on the way. -/
structure Ran (P : Disk → Prop) (s s' : FatState) : Prop where
  part : s'.part = s.part
  mounted : s'.Mounted
  quiet : s.Quiet → s'.Quiet
  writes : Writes P s s'

variable {P : Disk → Prop} {s s' s'' : FatState}

theorem Writes.refl : Writes P s s := ⟨[], by simp, rfl, trivial⟩

theorem Writes.of_card (hw : s'.card.writes = s.card.writes)
    (hi : s'.card.image = s.card.image) : Writes P s s' := by
  refine ⟨[], ?_, ?_, trivial⟩
  · simp [hw]
  · simp [hi]

theorem Writes.trans (h : Writes P s s') (hp : s'.part = s.part) (h' : Writes P s' s'') :
    Writes P s s'' := by
  obtain ⟨ws, hw, hi, hc⟩ := h
  obtain ⟨ws', hw', hi', hc'⟩ := h'
  refine ⟨ws ++ ws', by rw [hw', hw, List.append_assoc], ?_, ?_⟩
  · rw [hi', hi, WriteLog.replay_append]
  · rw [hi, hp] at hc'
    exact WriteLog.cuts_append hc hc'

theorem Writes.mono (h : Writes P s s') (hPQ : ∀ d, P d → Q d) : Writes Q s s' := by
  obtain ⟨ws, hw, hi, hc⟩ := h
  exact ⟨ws, hw, hi, hc.mono fun _ => hPQ _⟩

theorem Ran.refl (h : s.Mounted) : Ran P s s := ⟨rfl, h, id, Writes.refl⟩

theorem Ran.trans (h : Ran P s s') (h' : Ran P s' s'') : Ran P s s'' :=
  ⟨h'.part.trans h.part, h'.mounted, fun hq => h'.quiet (h.quiet hq), h.writes.trans h.part h'.writes⟩

theorem Ran.mono (h : Ran P s s') (hPQ : ∀ d, P d → Q d) : Ran Q s s' :=
  ⟨h.part, h.mounted, h.quiet, h.writes.mono hPQ⟩

@[simp] theorem withHandle_vol : (s.withHandle r h).vol = s.vol := rfl

@[simp] theorem withHandle_disk : (s.withHandle r h).disk = s.disk := rfl

@[simp] theorem withHandle_cache : (s.withHandle r h).cache = s.cache := rfl

@[simp] theorem withHandle_handle : (s.withHandle r h).handle r = h := Function.update_self ..

theorem withHandle_of_ne (hr : r' ≠ r) : (s.withHandle r h).handle r' = s.handle r' :=
  Function.update_of_ne hr ..

theorem FatState.CacheOk.withHandle (hc : s.CacheOk n) : (s.withHandle r h).CacheOk n := hc

theorem FatState.Loaded.withHandle (hl : s.Loaded n) : (s.withHandle r h).Loaded n :=
  ⟨hl.bldev, hl.label, hl.buf⟩

theorem Ran.withHandle (hr : Ran P s s') : Ran P s (s'.withHandle r h) := by
  obtain ⟨hp, ⟨h1, h2, h3, h4, h5⟩, hq, hw⟩ := hr
  exact ⟨hp, ⟨h1, h2, h3, h4, h5⟩, hq, hw⟩

theorem FatState.Loaded.cacheOk (h : s.Loaded n) (m : Nat) : s.CacheOk m := by
  intro _ hm
  rw [← hm, h.label]
  exact h.buf

theorem FatState.disk_clean (h : s.cache.dirty = false) : s.disk = s.stored := by
  funext n
  simp [disk, h]

theorem view_update {p : MbrPartition} {image : Nat → Sector} (hn : n < 2 ^ 32) :
    p.view (Function.update image (u32 (p.firstLba + n)) b) =
      Function.update (p.view image) n b := by
  funext m
  simp only [MbrPartition.view, Function.update_apply, u32]
  by_cases hmn : m = n
  · simp only [hmn, if_pos hn, if_true]
  · by_cases hm : m < 2 ^ 32
    · have hne : ¬ (p.firstLba + m) % 2 ^ 32 = (p.firstLba + n) % 2 ^ 32 := by omega
      simp only [if_pos hm, if_neg hmn, if_neg hne]
    · simp only [if_neg hm, if_neg hmn]

-- ---------------------------------------------------------------------------
-- The macros
-- ---------------------------------------------------------------------------

theorem mbrReadSectors_run (hs : s.Mounted) :
    mbrReadSectors .part n s = .ok (some (s.card.image (u32 (s.part.firstLba + n))))
      { s with card := { s.card with readFaults := s.card.readFaults.tail } } := by
  have hf : s.card.readFaults.headD false = false := by
    cases h : s.card.readFaults with
    | nil => rfl
    | cons b bs => exact hs.reads b (by simp [h])
  simp only [mbrReadSectors, get_bind, reduceCtorEq, hs.ready, Bool.not_true, Bool.false_eq_true,
    or_self, if_false, sdDrvReadSector, set_bind, hf, pure_run]

theorem mbrWriteSectors_ok (hs : s.Mounted) (hf : s.card.writeFaults.headD false = false) :
    mbrWriteSectors .part n b s = .ok true
      { s with card :=
        { s.card with
          image := Function.update s.card.image (u32 (s.part.firstLba + n)) b
          writes := s.card.writes ++ [(u32 (s.part.firstLba + n), b)]
          writeFaults := s.card.writeFaults.tail } } := by
  simp only [mbrWriteSectors, get_bind, reduceCtorEq, hs.ready, Bool.not_true, Bool.false_eq_true,
    or_self, if_false, sdDrvWriteSector, set_bind, hf, pure_run]

theorem mbrWriteSectors_fault (hs : s.Mounted) (hf : s.card.writeFaults.headD false = true) :
    mbrWriteSectors .part n b s = .ok false
      { s with card := { s.card with writeFaults := s.card.writeFaults.tail } } := by
  simp only [mbrWriteSectors, get_bind, reduceCtorEq, hs.ready, Bool.not_true, Bool.false_eq_true,
    or_self, if_false, if_true, sdDrvWriteSector, set_bind, hf, pure_run]

/-- A call after which the volume is `d`, with the volume's and the files' handles as they were. -/
structure Became (P : Disk → Prop) (d : Disk) (s s' : FatState) : Prop extends Ran P s s' where
  disk : s'.disk = d
  vol : s'.vol = s.vol
  handle : s'.handle = s.handle

abbrev Kept (P : Disk → Prop) (s s' : FatState) : Prop := Became P s.disk s s'

theorem Kept.refl (h : s.Mounted) : Kept P s s := ⟨.refl h, rfl, rfl, rfl⟩

theorem Became.trans (h : Became P d s s') (h' : Became P d' s' s'') : Became P d' s s'' :=
  ⟨h.toRan.trans h'.toRan, h'.disk, h'.vol.trans h.vol, h'.handle.trans h.handle⟩

theorem Kept.trans (h : Kept P s s') (h' : Kept P s' s'') : Kept P s s'' := by
  have := Became.trans h h'
  rwa [h.disk] at this

theorem Kept.cacheOk (h : Kept P s s') (hb : s'.cache.bldev = s.cache.bldev)
    (hl : s'.cache.sector = s.cache.sector) (hbuf : s'.buf = s.buf) (hc : s.CacheOk n) :
    s'.CacheOk n := by
  intro hd hn
  rw [hbuf, h.disk]
  exact hc (hb ▸ hd) (hl ▸ hn)

theorem not_quiet (h : s.card.writeFaults.headD false = true) : ¬ s.Quiet := by
  intro hq
  cases hf : s.card.writeFaults with
  | nil => simp [hf] at h
  | cons b bs =>
    have hb := hq b (by simp [hf])
    simp [hf, hb] at h

theorem kept_of_card (card : SdCard) (cache : FatCache) (hs : s.Mounted)
    (hr : ∀ b ∈ card.readFaults, b ∈ s.card.readFaults)
    (hw : ∀ b ∈ card.writeFaults, b ∈ s.card.writeFaults)
    (hc : Writes P s { s with card, cache }) (hl : cache.sector < 2 ^ 32)
    (hb : cache.dirty = true → cache.bldev = .part)
    (hd : ({ s with card, cache } : FatState).disk = s.disk) : Kept P s { s with card, cache } :=
  ⟨⟨rfl, ⟨hs.ready, hs.dev, hl, hb, fun b h => hs.reads b (hr b h)⟩,
    fun hq b h => hq b (hw b h), hc⟩, hd, rfl, rfl⟩

theorem flush_cases (hs : s.Mounted) (hP : P s.disk) :
    (∃ s', flushSector s = .ok ⟨⟩ s' ∧ Kept P s s' ∧
      s'.cache = { s.cache with dirty := false } ∧ s'.buf = s.buf) ∨
    (¬ s.Quiet ∧ ∃ s', flushSector s = .error .eio s' ∧ Kept P s s' ∧ s'.cache = s.cache ∧
      s'.buf = s.buf) := by
  by_cases hd : s.cache.dirty = true
  · have hb := hs.bldev hd
    cases hf : s.card.writeFaults.headD false with
    | true =>
      let t : FatState := { s with card := { s.card with writeFaults := s.card.writeFaults.tail } }
      have hk : Kept P s t := kept_of_card _ s.cache hs (fun _ h => h)
        (fun _ => List.mem_of_mem_tail) (.of_card rfl rfl) hs.label hs.bldev rfl
      refine .inr ⟨not_quiet hf, t, ?_, hk, rfl, rfl⟩
      simp only [flushSector, get_bind, hd, if_true, hb, bind_ok (mbrWriteSectors_fault hs hf)]
      rfl
    | false =>
      have hclean : s.part.view
          (Function.update s.card.image (u32 (s.part.firstLba + s.cache.sector)) s.buf) = s.disk := by
        rw [view_update hs.label]
        funext m
        simp only [FatState.disk, hd, true_and, Function.update_apply, FatState.stored, eq_comm]
      let w := (u32 (s.part.firstLba + s.cache.sector), s.buf)
      let t : FatState := { s with
        card := { s.card with
          image := Function.update s.card.image w.1 w.2
          writes := s.card.writes ++ [w]
          writeFaults := s.card.writeFaults.tail }
        cache := { s.cache with dirty := false } }
      have hk : Kept P s t := kept_of_card _ _ hs (fun _ h => h) (fun _ => List.mem_of_mem_tail)
        ⟨[w], rfl, rfl, by simpa only [w, hclean] using hP, trivial⟩ hs.label
        (fun h => absurd h (by simp)) (by rw [FatState.disk_clean rfl]; exact hclean)
      refine .inl ⟨t, ?_, hk, rfl, rfl⟩
      simp only [flushSector, get_bind, hd, if_true, hb, bind_ok (mbrWriteSectors_ok hs hf)]
      rfl
  · have hd := Bool.eq_false_iff.mpr hd
    let t : FatState := { s with cache := { s.cache with dirty := false } }
    have hk : Kept P s t := kept_of_card s.card _ hs (fun _ h => h) (fun _ h => h)
      (.of_card rfl rfl) hs.label (fun h => absurd h (by simp))
      (by rw [FatState.disk_clean rfl, FatState.disk_clean hd]; rfl)
    refine .inl ⟨t, ?_, hk, rfl, rfl⟩
    simp only [flushSector, get_bind, hd, Bool.false_eq_true, if_false]
    rfl

theorem load_run (hs : s.Mounted) (hd : s.cache.dirty = false) (hn : n < 2 ^ 32) :
    ∃ s', (do
        modify fun t => { t with cache := { t.cache with bldev := .part, sector := n } }
        match ← mbrReadSectors .part n with
        | none => throw .eio
        | some buf => modify fun t => { t with buf } : FatM Unit) s = .ok ⟨⟩ s' ∧
      Kept P s s' ∧ s'.Loaded n := by
  let t : FatState := { s with cache := { s.cache with bldev := .part, sector := n } }
  have ht : t.Mounted := ⟨hs.ready, hs.dev, hn, fun _ => rfl, hs.reads⟩
  let u : FatState := { t with
    card := { s.card with readFaults := s.card.readFaults.tail }
    buf := s.card.image (u32 (s.part.firstLba + n)) }
  have hdisk : u.disk = s.disk := by
    rw [FatState.disk_clean (s := u) hd, FatState.disk_clean hd]
    rfl
  refine ⟨u, ?_, ⟨⟨rfl, ?_, id, .of_card rfl rfl⟩, hdisk, rfl, rfl⟩, rfl, rfl, ?_⟩
  · rw [modify_bind, bind_ok (mbrReadSectors_run ht)]
    rfl
  · exact ⟨hs.ready, hs.dev, hn, fun _ => rfl, fun b h => hs.reads b (List.mem_of_mem_tail h)⟩
  · rw [hdisk, FatState.disk_clean hd]
    simp only [FatState.stored, MbrPartition.view, if_pos hn, u]

theorem get_cases (hs : s.Mounted) (hP : P s.disk) (hn : n < 2 ^ 32) (hc : s.CacheOk n) :
    (∃ s', getSector n s = .ok ⟨⟩ s' ∧ Kept P s s' ∧ s'.Loaded n) ∨
    (¬ s.Quiet ∧ ∃ s', getSector n s = .error .eio s' ∧ Kept P s s' ∧ s'.cache = s.cache ∧
      s'.buf = s.buf) := by
  by_cases hhit : s.cache.bldev = .part ∧ s.cache.sector = n
  · refine .inl ⟨s, ?_, .refl hs, hhit.1, hhit.2, hc hhit.1 hhit.2⟩
    simp only [getSector, get_bind, hs.dev, hhit, and_self, if_true]
    rfl
  · rcases flush_cases hs hP with ⟨t, hok, hk, hcache, -⟩ | ⟨hq, t, herr, hk, hcache, hbuf⟩
    · obtain ⟨u, hrun, hk', hl⟩ := load_run (P := P) hk.mounted (by rw [hcache]) hn
      refine .inl ⟨u, ?_, hk.trans hk', hl⟩
      simp only [getSector, get_bind, hs.dev, hhit, if_false, bind_ok hok]
      exact hrun
    · refine .inr ⟨hq, t, ?_, hk, hcache, hbuf⟩
      simp only [getSector, get_bind, hs.dev, hhit, if_false, bind_error herr]

-- ---------------------------------------------------------------------------
-- Editing a sector
-- ---------------------------------------------------------------------------

/-- `f` stored into the buffer, and the buffer marked as sector `n`. -/
def FatState.edited (s : FatState) (n : Nat) (f : Sector → Sector) : FatState :=
  { s with buf := f s.buf, cache := { bldev := .part, sector := n, dirty := true } }

def Disk.edit (d : Disk) (n : Nat) (f : Sector → Sector) : Disk := Function.update d n (f (d n))

theorem Disk.edit_self (d : Disk) : d.edit n f n = f (d n) := Function.update_self ..

theorem Disk.edit_of_ne (d : Disk) (h : m ≠ n) : d.edit n f m = d m := Function.update_of_ne h ..

theorem store_bind {k : PUnit → FatM β} (hd : s.vol.dev = .part) (hl : s.Loaded n) :
    (modifyBuf f >>= fun _ => putSector n >>= k) s = k ⟨⟩ (s.edited n f) := by
  have hput : putSector n { s with buf := f s.buf } = .ok ⟨⟩ (s.edited n f) := by
    simp only [putSector, get_bind, hl.bldev, hd, hl.label, ne_eq, not_true_eq_false, or_self,
      if_false]
    rfl
  rw [modifyBuf, modify_bind, bind_ok hput]

theorem Loaded.edited (hs : s.Mounted) (hl : s.Loaded n) :
    Became P (s.disk.edit n f) s (s.edited n f) ∧ (s.edited n f).Loaded n := by
  have hdisk : (s.edited n f).disk = s.disk.edit n f := by
    funext m
    by_cases hm : m = n
    · subst hm
      rw [Disk.edit_self, ← hl.buf]
      simp [FatState.disk, FatState.edited]
    · have hm' : ¬ n = m := fun h => hm h.symm
      have hl' : ¬ s.cache.sector = m := hl.label ▸ hm'
      rw [Disk.edit_of_ne _ hm]
      simp only [FatState.disk, FatState.edited, FatState.stored, hm', hl', and_false, if_false]
  refine ⟨⟨⟨rfl, ?_, id, .of_card rfl rfl⟩, hdisk, rfl, rfl⟩, rfl, rfl, ?_⟩
  · exact ⟨hs.ready, hs.dev, hl.label ▸ hs.label, fun _ => rfl, hs.reads⟩
  · rw [hdisk, Disk.edit_self, ← hl.buf]
    rfl

/-- `FAT_GET_SECTOR`, a store, `FAT_PUT_SECTOR`. -/
theorem edit_cases (f : Sector → Sector) (hs : s.Mounted) (hP : P s.disk) (hn : n < 2 ^ 32)
    (hc : s.CacheOk n) :
    (∃ s', (∀ (β : Type) (k : PUnit → FatM β),
        (getSector n >>= fun _ => modifyBuf f >>= fun _ => putSector n >>= k) s = k ⟨⟩ s') ∧
      Became P (s.disk.edit n f) s s' ∧ s'.Loaded n) ∨
    (¬ s.Quiet ∧ ∃ s', (∀ (β : Type) (k : PUnit → FatM β),
        (getSector n >>= k) s = .error .eio s') ∧
      Kept P s s' ∧ s'.cache = s.cache ∧ s'.buf = s.buf) := by
  rcases get_cases hs hP hn hc with ⟨t, hok, hk, hl⟩ | ⟨hq, t, herr, hk⟩
  · obtain ⟨he, hl'⟩ := Loaded.edited (P := P) (f := f) hk.mounted hl
    refine .inl ⟨t.edited n f, fun β k => ?_, ?_, hl'⟩
    · rw [bind_ok hok, store_bind hk.mounted.dev hl]
    · exact hk.disk ▸ Became.trans hk he
  · exact .inr ⟨hq, t, fun β k => bind_error herr, hk⟩

theorem get_run (hs : s.Mounted) (hq : s.Quiet) (hP : P s.disk) (hn : n < 2 ^ 32)
    (hc : s.CacheOk n) : ∃ s', getSector n s = .ok ⟨⟩ s' ∧ Kept P s s' ∧ s'.Loaded n := by
  rcases get_cases hs hP hn hc with h | ⟨hnq, -⟩
  · exact h
  · exact absurd hq hnq

theorem edit_run (f : Sector → Sector) (hs : s.Mounted) (hq : s.Quiet) (hP : P s.disk)
    (hn : n < 2 ^ 32) (hc : s.CacheOk n) :
    ∃ s', (∀ (β : Type) (k : PUnit → FatM β),
        (getSector n >>= fun _ => modifyBuf f >>= fun _ => putSector n >>= k) s = k ⟨⟩ s') ∧
      Became P (s.disk.edit n f) s s' ∧ s'.Loaded n := by
  rcases edit_cases f hs hP hn hc with h | ⟨hnq, -⟩
  · exact h
  · exact absurd hq hnq

end Stm32Logger
