import Stm32Logger.Fat.Alloc

/-!
# Setting the entry of any number

`fat_set_next_cluster` is also called for numbers that are no cluster of the
volume. Their entries lie in whatever sectors come behind the table, counted
from every copy. A cluster linked there is cleared, and the buffer stays zeroed
under the label of the last of these sectors.
-/

namespace Stm32Logger

/-- The sector of an entry of copy `k` and the offset there, for any number. -/
def fatEntryAt (v : FatVolHandle) (k c : Nat) : Nat × Nat :=
  fatEntrySector v k (if v.type = .fat32 then c else u16 c)

/-- The sector that setting the entry leaves in the buffer. -/
def entryEnd (v : FatVolHandle) (k c : Nat) : Nat :=
  if v.type = .fat12 ∧ (fatEntryAt v k c).2 = 511 then u32 ((fatEntryAt v k c).1 + 1) else (fatEntryAt v k c).1

/-- What `fat12_set_next_cluster` stores in the second sector of an entry on a boundary. -/
def straddleEdit (c x : Nat) (b : Sector) : Sector :=
  if u16 c % 2 = 1 then put8 0 (u16 (u16 x * 16) / 256) b
  else put8 0 ((b 0).toNat / 16 * 16 + u16 x / 256 % 16) b

/-- What `fat_set_next_cluster` stores in the first sector of an entry. -/
def entryEdit (t : FatType) (c x offset : Nat) (b : Sector) : Sector :=
  match t with
  | .none => b
  | .fat32 => put32 offset (x % 2 ^ 28 + le32 b offset / 2 ^ 28 * 2 ^ 28) b
  | .fat16 => put16 offset (u16 x) b
  | .fat12 =>
    if offset = 511 then
      if u16 c % 2 = 1 then put8 511 ((b 511).toNat % 16 + u16 (u16 x * 16) / 16 % 16 * 16) b
      else put8 511 (u16 x % 256) b
    else
      put16 offset
        (if u16 c % 2 = 1 then u16 (u16 x * 16) + le16 b offset % 16
        else u16 x % 4096 + le16 b offset / 4096 * 4096) b

/-- The volume with the entry of `c` set to `x` in copy `k`. -/
def setOne (v : FatVolHandle) (k c x : Nat) (d : Disk) : Disk :=
  let (sector, offset) := fatEntryAt v k c
  let d := d.edit sector (entryEdit v.type c x offset)
  if v.type = .fat12 ∧ offset = 511 then d.edit (u32 (sector + 1)) (straddleEdit c x) else d

/-- The same in the `n` copies from `k` on. -/
def setCopies (v : FatVolHandle) (c x : Nat) : (n k : Nat) → Disk → Disk
  | 0, _, d => d
  | n + 1, k, d => setCopies v c x n (k + 1) (setOne v k c x d)

def setNext (v : FatVolHandle) (c x : Nat) (d : Disk) : Disk := setCopies v c x v.numFats 0 d

def wipe (b : Sector) : Sector := fun i => if i < 512 then 0 else b i

instance (v : FatVolHandle) (c n : Nat) : Decidable (v.InCluster c n) := inferInstanceAs (Decidable (_ ∧ _))

/-- The volume with cluster `c` linked behind `last`. -/
def linkNext (v : FatVolHandle) (last c : Nat) (d : Disk) : Disk := setNext v last c (setNext v c (fatEoc v) d)

/-- The same with the sectors of `c` cleared. -/
def growNext (v : FatVolHandle) (last c : Nat) (d : Disk) : Disk := fun n =>
  if v.InCluster c n then wipe (linkNext v last c d (entryEnd v (v.numFats - 1) last))
    else linkNext v last c d n

/-- The buffer is zeroed under the label of sector `n`. -/
structure FatState.Wiped (s : FatState) (n : Nat) : Prop where
  bldev : s.cache.bldev = .part
  label : s.cache.sector = n
  clean : s.cache.dirty = false
  buf : s.buf = wipe (s.disk n)

variable {s t : FatState} {v : FatVolHandle} {d : Disk}

theorem wipe_wipe (b : Sector) : wipe (wipe b) = wipe b := by
  funext i
  simp only [wipe]
  split
  next => rfl
  next => rfl

theorem FatState.Wiped.cacheOk (h : s.Wiped n) (hm : m ≠ n) : s.CacheOk m := fun _ hlabel =>
  absurd (hlabel.symm.trans h.label) hm

theorem returning_eq {α : Type} {w : α} {m m' : FatM α} (h : m s = m' t) :
    returning w m s = returning w m' t := by
  simp only [returning, tryCatch, tryCatchThe, MonadExceptOf.tryCatch, EStateM.tryCatch, h]

theorem fatEntryAt_lt (v : FatVolHandle) (k c : Nat) : (fatEntryAt v k c).1 < 2 ^ 32 := Nat.mod_lt _ (by decide)

/-- One edit for every type of table, and a second one for an entry on a boundary. -/
theorem fatSetNextOne_eq (k c x : Nat) (hv : s.vol.Shape) : fatSetNextOne k c x s = returning minusEIO (do
    getSector (fatEntryAt s.vol k c).1
    modifyBuf (entryEdit s.vol.type c x (fatEntryAt s.vol k c).2)
    putSector (fatEntryAt s.vol k c).1
    if s.vol.type = .fat12 ∧ (fatEntryAt s.vol k c).2 = 511 then
      getSector (u32 ((fatEntryAt s.vol k c).1 + 1))
      modifyBuf (straddleEdit c x)
      putSector (u32 ((fatEntryAt s.vol k c).1 + 1))
    pure 0) s := by
  rw [fatSetNextOne, getVol_bind]
  cases ht : s.vol.type with
  | none => exact absurd ht hv.type
  | fat32 =>
    have hat : fatEntryAt s.vol k c = fatEntrySector s.vol k c := by rw [fatEntryAt, if_pos ht]
    simp only [reduceCtorEq, false_and, if_false, hat]
    refine returning_eq ?_
    rw [getVol_bind]
    rfl
  | fat16 =>
    have hat :
      fatEntryAt s.vol k c = fatEntrySector s.vol k (u16 c) := by rw [fatEntryAt, if_neg (by rw [ht]; decide)]
    simp only [reduceCtorEq, false_and, if_false, hat]
    refine returning_eq ?_
    rw [getVol_bind]
    rfl
  | fat12 =>
    have hat :
      fatEntryAt s.vol k c = fatEntrySector s.vol k (u16 c) := by rw [fatEntryAt, if_neg (by rw [ht]; decide)]
    simp only [hat, true_and]
    refine returning_eq ?_
    rw [getVol_bind, hv.bytes]
    by_cases hstr : (fatEntrySector s.vol k (u16 c)).2 = 511
    · by_cases hodd : u16 c % 2 = 1
      · have h1 : entryEdit .fat12 c x 511 =
            fun b => put8 511 ((b 511).toNat % 16 + u16 (u16 x * 16) / 16 % 16 * 16) b := by
          funext b
          simp only [entryEdit, hodd, if_true]
        have h2 : straddleEdit c x = put8 0 (u16 (u16 x * 16) / 256) := by
          funext b
          simp only [straddleEdit, hodd, if_true]
        simp only [hstr, hodd, if_true, h1, h2]
      · have h1 : entryEdit .fat12 c x 511 = put8 511 (u16 x % 256) := by
          funext b
          simp only [entryEdit, hodd, if_true, if_false]
        have h2 : straddleEdit c x = fun b => put8 0 ((b 0).toNat / 16 * 16 + u16 x / 256 % 16) b := by
          funext b
          simp only [straddleEdit, hodd, if_false]
        simp only [hstr, hodd, if_true, if_false, h1, h2]
    · have h1 : entryEdit .fat12 c x (fatEntrySector s.vol k (u16 c)).2 = fun b =>
          put16 (fatEntrySector s.vol k (u16 c)).2
            (if u16 c % 2 = 1 then u16 (u16 x * 16) + le16 b (fatEntrySector s.vol k (u16 c)).2 % 16
            else u16 x % 4096 + le16 b (fatEntrySector s.vol k (u16 c)).2 / 4096 * 4096) b := by
        funext b
        simp only [entryEdit, hstr, if_false]
      simp only [hstr, if_false, h1]

theorem fatSetNextOne_any (k c x : Nat) (hs : s.Mounted) (hq : s.Quiet) (hv : s.vol.Shape)
    (hok : s.CacheOk (fatEntryAt s.vol k c).1) :
    ∃ t, fatSetNextOne k c x s = .ok 0 t ∧ Became (fun _ => True) (setOne s.vol k c x s.disk) s t ∧
      t.Loaded (entryEnd s.vol k c) := by
  obtain ⟨t, hrun, hb, hl⟩ :=
    edit_run (P := fun _ => True) (entryEdit s.vol.type c x (fatEntryAt s.vol k c).2) hs hq
    trivial (fatEntryAt_lt s.vol k c) hok
  by_cases hstr : s.vol.type = .fat12 ∧ (fatEntryAt s.vol k c).2 = 511
  · obtain ⟨u, hrun', hb', hl'⟩ :=
      edit_run (P := fun _ => True) (straddleEdit c x) hb.mounted (hb.quiet hq) trivial
      (show u32 ((fatEntryAt s.vol k c).1 + 1) < 2 ^ 32 from Nat.mod_lt _ (by decide)) (hl.cacheOk _)
    have hall := hb.trans hb'
    rw [hb.disk] at hall
    refine ⟨u, ?_, ?_, ?_⟩
    · rw [fatSetNextOne_eq k c x hv]
      refine returning_ok ?_
      simp only [hstr, and_self, if_true] at hrun ⊢
      rw [hrun, hrun', pure_run]
    · simpa only [setOne, if_pos hstr] using hall
    · simpa only [entryEnd, if_pos hstr] using hl'
  · refine ⟨t, ?_, ?_, ?_⟩
    · rw [fatSetNextOne_eq k c x hv]
      refine returning_ok ?_
      rw [if_neg hstr]
      exact hrun _ _
    · simpa only [setOne, if_neg hstr] using hb
    · simpa only [entryEnd, if_neg hstr] using hl

theorem setNextLoop_any (c x n k : Nat) (hs : s.Mounted) (hq : s.Quiet) (hv : s.vol.Shape)
    (hok : s.CacheOk (fatEntryAt s.vol k c).1) :
    ∃ t, setNextLoop c x (n + 1) k 0 s = .ok 0 t ∧
      Became (fun _ => True) (setCopies s.vol c x (n + 1) k s.disk) s t ∧
        t.Loaded (entryEnd s.vol (k + n) c) := by
  induction n generalizing s k with
  | zero =>
    obtain ⟨t, hrun, hb, hl⟩ := fatSetNextOne_any k c x hs hq hv hok
    refine ⟨t, ?_, hb, hl⟩
    rw [setNextLoop, bind_ok hrun]
    rfl
  | succ n ih =>
    obtain ⟨t, hrun, hb, hl⟩ := fatSetNextOne_any k c x hs hq hv hok
    obtain ⟨u, hrun', hb', hl'⟩ := ih (k + 1) hb.mounted (hb.quiet hq) (hb.vol ▸ hv) (hl.cacheOk _)
    rw [hb.vol, hb.disk] at hb'
    rw [hb.vol, Nat.add_right_comm, Nat.add_assoc] at hl'
    refine ⟨u, ?_, hb.trans hb', hl'⟩
    rw [setNextLoop, bind_ok hrun]
    exact hrun'

theorem fatSetNextCluster_any (c x : Nat) (hs : s.Mounted) (hq : s.Quiet) (hv : s.vol.Shape)
    (hok : s.CacheOk (fatEntryAt s.vol 0 c).1) :
    ∃ t, fatSetNextCluster c x s = .ok 0 t ∧ Became (fun _ => True) (setNext s.vol c x s.disk) s t ∧
      t.Loaded (entryEnd s.vol (s.vol.numFats - 1) c) := by
  obtain ⟨n, hn⟩ : ∃ n, s.vol.numFats = n + 1 := ⟨s.vol.numFats - 1, by have := hv.numFats; omega⟩
  obtain ⟨t, hrun, hb, hl⟩ := setNextLoop_any c x n 0 hs hq hv hok
  refine ⟨t, ?_, ?_, ?_⟩
  · rw [fatSetNextCluster, getVol_bind, hn]
    exact hrun
  · rwa [setNext, hn]
  · rwa [hn, Nat.add_sub_cancel, ← Nat.zero_add n]

-- ---------------------------------------------------------------------------
-- Behind the sector of the label
-- ---------------------------------------------------------------------------

theorem setOne_rest (h : m ≠ (fatEntryAt v k c).1)
    (h' : v.type = .fat12 ∧ (fatEntryAt v k c).2 = 511 → m ≠ u32 ((fatEntryAt v k c).1 + 1)) :
    setOne v k c x d m = d m := by
  simp only [setOne]
  split
  next hstr => rw [Disk.edit_of_ne _ (h' hstr), Disk.edit_of_ne _ h]
  next => rw [Disk.edit_of_ne _ h]

theorem setCopies_rest (n k : Nat) (h : ∀ j, k ≤ j → j < k + n → m ≠ (fatEntryAt v j c).1 ∧
    (v.type = .fat12 ∧ (fatEntryAt v j c).2 = 511 → m ≠ u32 ((fatEntryAt v j c).1 + 1))) :
    setCopies v c x n k d m = d m := by
  induction n generalizing k d with
  | zero => rfl
  | succ n ih =>
    obtain ⟨h1, h2⟩ := h k (Nat.le_refl k) (by omega)
    rw [setCopies, ih (k + 1) fun j hj hj' => h j (by omega) (by omega), setOne_rest h1 h2]

/-- A link whose last sector is `n` has not been written to the next one. -/
theorem setNext_behind (hv : v.Shape) (hroom : v.firstDataSector < 2 ^ 32) (hn : n + 1 < 2 ^ 32)
    (hend : entryEnd v (v.numFats - 1) c = n) : setNext v c x d (n + 1) = d (n + 1) := by
  have hfats := hv.numFats
  have hdata := hv.data
  have hres := hv.reserved
  have hsize : 1 ≤ v.fatSize := by
    by_contra h0
    have he := hv.entries
    have hstride : 2 ≤ v.type.stride * (v.clusterCount + 2) := by
      have hs : 1 ≤ v.type.stride := by
        cases ht : v.type with
        | none => exact absurd ht hv.type
        | _ => decide
      exact Nat.le_trans (by omega) (Nat.mul_le_mul_right (v.clusterCount + 2) hs)
    have : v.fatSize = 0 := by omega
    rw [this] at he
    omega
  have hoff : ∀ k, (fatEntryAt v k c).2 = (fatEntryAt v 0 c).2 := fun _ => rfl
  have hat : ∀ k, (fatEntryAt v k c).1 = u32 (v.reservedSectorCount + k * v.fatSize +
      fatOffset v.type (if v.type = .fat32 then c else u16 c) / v.bytesPerSector) := fun _ => rfl
  have hlast : v.numFats * v.fatSize = (v.numFats - 1) * v.fatSize + v.fatSize := by
    rw [← Nat.succ_mul]
    congr 1
    omega
  refine setCopies_rest _ _ fun j _ hj => ?_
  have hle : j * v.fatSize ≤ (v.numFats - 1) * v.fatSize := Nat.mul_le_mul_right _ (by omega)
  rw [entryEnd, hoff, hat] at hend
  rw [hoff, hat]
  generalize fatOffset v.type (if v.type = .fat32 then c else u16 c) / v.bytesPerSector = q at *
  generalize j * v.fatSize = a at *
  generalize (v.numFats - 1) * v.fatSize = b at *
  simp only [u32] at *
  by_cases hstr : v.type = .fat12 ∧ (fatEntryAt v 0 c).2 = 511
  · rw [if_pos hstr] at hend
    exact ⟨by omega, fun _ => by omega⟩
  · rw [if_neg hstr] at hend
    exact ⟨by omega, fun h => absurd h hstr⟩

theorem setNext_entrySet (hs : s.Mounted) (hq : s.Quiet) (hv : s.vol.Shape) (hc : s.vol.HasEntry c)
    (hx : x < 16 ^ s.vol.type.width) (hco : s.Coherent) :
    EntrySet s.vol (fun _ => True) c x s.disk (setNext s.vol c x s.disk) := by
  obtain ⟨t, hrun, hb, -⟩ := fatSetNextCluster_any c x hs hq hv (hco _)
  obtain ⟨u, hrun', hw⟩ :=
    fatSetNextCluster_run (P := fun _ => True) hs hq hv hc hx (fun _ _ => trivial) (hco _)
  cases hrun.symm.trans hrun'
  rw [← hb.disk]
  exact hw.set

/-- An entry on the boundary behind the zeroed sector does not read as free: its second
half has the end mark. -/
theorem growNext_mark (last : Nat) (hs : s.Mounted) (hq : s.Quiet) (hv : s.vol.Shape) (hco : s.Coherent)
    (hc : s.vol.IsCluster c) (ht : s.vol.type = .fat12) (hstr : fatOffset s.vol.type c % 512 = 511)
    (hend : entryEnd s.vol (s.vol.numFats - 1) last = fatNextSector s.vol c) :
    fatNext s.vol ((growNext s.vol last c s.disk).edit (fatNextSector s.vol c) wipe) c ≠ 0 := by
  have he := entryByte_lt hv hc.2
  have hoff := fatOffset_eq hv hc.2
  rw [hoff] at hstr
  have hsec := fatNextSector_eq hv hc.2
  have hin : s.vol.InFat (fatNextSector s.vol c + 1) := by
    rw [hsec]
    exact fatSector_inFat (k := 0) (m := s.vol.entryByte c / 512 + 1) hv.numFats (by omega)
  have hlt : fatNextSector s.vol c + 1 < 2 ^ 32 := by
    rw [hsec]
    exact fatSector_lt hv hv.numFats (m := s.vol.entryByte c / 512 + 1) (by omega)
  have hroom : s.vol.firstDataSector < 2 ^ 32 := by
    have hfits := hv.fits
    have hspc := spc_pos hv
    have hcount : 1 ≤ s.vol.clusterCount := by
      have := hc.1
      have := hc.2
      omega
    have := Nat.mul_le_mul hcount hspc
    omega
  have hself := (setNext_entrySet hs hq hv hc.2 (fatEoc_lt s.vol hv) hco).fatEntry_self hv.numFats trivial
    (fatEoc_lt s.vol hv)
  rw [← fatNext_eq hv hc.2] at hself
  have hsecond : (growNext s.vol last c s.disk).edit (fatNextSector s.vol c) wipe (fatNextSector s.vol c + 1) =
      setNext s.vol c (fatEoc s.vol) s.disk (fatNextSector s.vol c + 1) := by
    rw [Disk.edit_of_ne _ (Nat.succ_ne_self _), growNext,
      if_neg fun h => not_inFat_of_cluster hv h hin, linkNext,
      setNext_behind hv hroom hlt hend]
  have hfirst :
      (growNext s.vol last c s.disk).edit (fatNextSector s.vol c) wipe (fatNextSector s.vol c) 511 = 0 := by
    rw [Disk.edit_self]
    rfl
  have hword : u32 (fatNextSector s.vol c + 1) = fatNextSector s.vol c + 1 := Nat.mod_eq_of_lt hlt
  have heoc : fatEoc s.vol = 0xFF8 := by rw [fatEoc, ht]
  rw [heoc] at hself hsecond
  rw [ht] at hoff
  simp only [fatNext, ht, hoff, hstr, if_true, hword] at hself ⊢
  rw [hsecond, hfirst]
  have hlow := (setNext s.vol c 0xFF8 s.disk (fatNextSector s.vol c) 511).toNat_lt
  generalize (setNext s.vol c 0xFF8 s.disk (fatNextSector s.vol c) 511).toNat = low at *
  generalize (setNext s.vol c 0xFF8 s.disk (fatNextSector s.vol c + 1) 0).toNat = high at *
  change (if c % 2 = 1 then (0 + 256 * high) / 16 else (0 + 256 * high) % 4096) ≠ 0
  split at hself
  next h => rw [if_pos h]; omega
  next h => rw [if_neg h]; omega

theorem setCopies_hint (i n k : Nat) :
    setCopies { v with lastClusterAlloc := i } c x n k d = setCopies v c x n k d := by
  induction n generalizing k d with
  | zero => rfl
  | succ n ih => exact ih (k + 1)

theorem setNext_hint (i : Nat) : setNext { v with lastClusterAlloc :=
  i } c x d =
    setNext v c x d :=
    setCopies_hint i _ _

-- ---------------------------------------------------------------------------
-- The buffer zeroed under a label
-- ---------------------------------------------------------------------------

/-- The zeroed buffer taken for the sector it has the label of. -/
def FatState.trusted (s : FatState) : FatState := { s with cache := { s.cache with dirty := true } }

theorem getSector_hit (hd : s.vol.dev = .part) (hb : s.cache.bldev = .part) (hl : s.cache.sector = n) :
    getSector n s = .ok ⟨⟩ s := by
  simp only [getSector, get_bind, hd, hb, hl, and_self, if_true]
  rfl

theorem store_hit {k : PUnit → FatM β} (f : Sector → Sector) (hd : s.vol.dev = .part)
    (hb : s.cache.bldev = .part) (hl : s.cache.sector = n) :
    (getSector n >>= fun _ => modifyBuf f >>= fun _ => putSector n >>= k) s = k ⟨⟩ (s.edited n f) := by
  have hput : putSector n { s with buf := f s.buf } = .ok ⟨⟩ (s.edited n f) := by
    simp only [putSector, get_bind, hb, hd, hl, ne_eq, not_true_eq_false, or_self, if_false]
    rfl
  rw [bind_ok (getSector_hit hd hb hl), modifyBuf, modify_bind, bind_ok hput]

theorem Wiped.trusted (hs : s.Mounted) (hw : s.Wiped n) :
    s.trusted.Mounted ∧ s.trusted.disk = s.disk.edit n wipe ∧ s.trusted.Coherent := by
  have hdisk : s.trusted.disk = s.disk.edit n wipe := by
    funext m
    by_cases hm : m = n
    · subst hm
      rw [Disk.edit_self, ← hw.buf]
      exact if_pos ⟨rfl, hw.label⟩
    · rw [Disk.edit_of_ne _ hm, FatState.disk_clean hw.clean]
      exact if_neg fun h => hm (h.2.symm.trans hw.label)
  refine ⟨⟨hs.ready, hs.dev, hs.label, fun _ => hw.bldev, hs.reads⟩, hdisk, fun m _ hm => ?_⟩
  have hmn : m = n := hm.symm.trans hw.label
  rw [hmn, hdisk, Disk.edit_self]
  exact hw.buf

/-- Setting an entry there stores the zeroes with it. -/
theorem fatSetNextCluster_wiped (c x : Nat) (hs : s.Mounted) (hq : s.Quiet) (hv : s.vol.Shape)
    (hw : s.Wiped (fatEntryAt s.vol 0 c).1) :
    ∃ t, fatSetNextCluster c x s = .ok 0 t ∧ Ran (fun _ => True) s t ∧ t.vol = s.vol ∧ t.handle = s.handle ∧
      t.disk = setNext s.vol c x (s.disk.edit (fatEntryAt s.vol 0 c).1 wipe) ∧ t.Coherent := by
  obtain ⟨hm, hdisk, hco⟩ := Wiped.trusted hs hw
  obtain ⟨t, hrun, hb, hl⟩ := fatSetNextCluster_any c x hm (s := s.trusted) hq hv (hco _)
  have hsame : fatSetNextOne 0 c x s = fatSetNextOne 0 c x s.trusted := by
    rw [fatSetNextOne_eq 0 c x hv, fatSetNextOne_eq (s := s.trusted) 0 c x hv]
    refine returning_eq ?_
    rw [show s.trusted.vol = s.vol from rfl, store_hit _ hs.dev hw.bldev hw.label,
      store_hit _ hm.dev hw.bldev hw.label]
    rfl
  refine ⟨t, ?_, ⟨hb.part, hb.mounted, hb.quiet, hb.writes⟩, hb.vol, hb.handle, ?_, hl.coherent⟩
  · rw [← hrun]
    unfold fatSetNextCluster
    rw [getVol_bind, getVol_bind]
    obtain ⟨n, hn⟩ : ∃ n, s.vol.numFats = n + 1 := ⟨s.vol.numFats - 1, by have := hv.numFats; omega⟩
    have hn' : s.trusted.vol.numFats = n + 1 := hn
    rw [hn, hn', setNextLoop]
    simp only [bind, EStateM.bind, hsame]
  · rw [hb.disk, hdisk]
    rfl

/-- The search, both entries and the zeroes, for any last number that reads as the end. -/
theorem alloc_grow (last : Nat) (hs : s.Mounted) (hq : s.Quiet) (hv : s.vol.Shape) (hh : s.vol.HintOk)
    (hco : s.Coherent) (he : fatNext s.vol s.disk last = fatEoc s.vol) (hf : freeCluster s.vol s.disk ≠ 0) :
    ∃ t, fatAllocNextCluster last true s = .ok (freeCluster s.vol s.disk) t ∧ Ran (fun _ => True) s t ∧
      t.vol = { s.vol with lastClusterAlloc := freeCluster s.vol s.disk } ∧ t.handle = s.handle ∧
      t.disk = growNext s.vol last (freeCluster s.vol s.disk) s.disk ∧
      t.Wiped (entryEnd s.vol (s.vol.numFats - 1) last) := by
  have hcl := (freeCluster_spec hh hf).1
  obtain ⟨a, hnext, hk, hco⟩ :=
    fatGetNextCluster_next (P := fun _ => True) (c := last) hs hq hv.bytes trivial (hco _)
  obtain ⟨b, hfind, hfd, -, hco⟩ :=
    fatFindFreeCluster_run (P := fun _ => True) hk.mounted (hk.quiet hq) (hk.vol ▸ hv)
    (hk.vol ▸ hh) trivial hco.tableOk
  rw [hk.vol, hk.disk] at hfind hfd hco
  have hbvol : b.vol = { s.vol with lastClusterAlloc := freeCluster s.vol s.disk } := by
    rw [hfd.vol, if_neg hf, hk.vol]
  have hbdisk : b.disk = s.disk := hfd.disk.trans hk.disk
  generalize freeCluster s.vol s.disk = c at *
  have hvb : b.vol.Shape := hbvol ▸ hv.hint c
  obtain ⟨w, hset, hw, hwl⟩ := fatSetNextCluster_any c (fatEoc s.vol) hfd.mounted (hfd.quiet (hk.quiet hq)) hvb
    (hco (.inr hf) _)
  obtain ⟨x, hlink, hx, hxl⟩ := fatSetNextCluster_any last c hw.mounted (hw.quiet (hfd.quiet (hk.quiet hq)))
    (hw.vol ▸ hvb) (hwl.cacheOk _)
  have hxvol : x.vol = { s.vol with lastClusterAlloc := c } := hx.vol.trans (hw.vol.trans hbvol)
  have hsame : ∀ m y d, setNext b.vol m y d = setNext s.vol m y d := fun m y d => by
    rw [hbvol]
    exact setNext_hint c
  have hxdisk : x.disk = linkNext s.vol last c s.disk := by
    rw [hx.disk, hw.vol, hw.disk, hsame, hsame, hbdisk, linkNext]
  have hxl : x.Loaded (entryEnd s.vol (s.vol.numFats - 1) last) := by
    rw [hw.vol, hbvol] at hxl
    exact hxl
  have hqx := hx.quiet (hw.quiet (hfd.quiet (hk.quiet hq)))
  obtain ⟨y, hflush, hy, hcache, hbuf⟩ := flush_run (P := fun _ => True) hx.mounted hqx trivial
  let u : FatState := { y with buf := fun i => if i < s.vol.bytesPerSector then 0 else y.buf i }
  have hclean : y.cache.dirty = false := by rw [hcache]
  have hudisk : u.disk = x.disk := by
    rw [← hy.disk, FatState.disk_clean (s := u) hclean, FatState.disk_clean hclean]
    rfl
  have hubuf : u.buf = wipe (linkNext s.vol last c s.disk (entryEnd s.vol (s.vol.numFats - 1) last)) := by
    funext i
    simp only [u, wipe, hv.bytes, hbuf, hxl.buf, hxdisk]
  obtain ⟨z, hclear, hz, hzvol, hzh, hzcache, hzbuf, hzdisk⟩ := clearLoop_run (P := fun _ => True) (s := u)
    s.vol.sectorsPerCluster (s.vol.clusterSector c)
    ⟨hy.mounted.ready, hy.mounted.dev, hy.mounted.label, hy.mounted.bldev, hy.mounted.reads⟩
    (hy.quiet hqx) hclean
    (clusterSector_le hv hcl) fun _ _ => trivial
  have hzdisk : z.disk = growNext s.vol last c s.disk := by
    funext n
    rw [hzdisk, hubuf, hudisk, hxdisk]
    rfl
  refine ⟨z, returning_ok ?_, ?_, hzvol.trans (hy.vol.trans hxvol), ?_, hzdisk, ?_⟩
  · rw [getVol_bind, bind_ok hnext, if_neg (not_not.mpr he), bind_ok hfind, if_neg hf]
    simp only [bind_ok hset, bind_ok hlink, if_true, bind_ok hflush]
    rw [modifyBuf, modify_bind, fatFirstSectorOfCluster_eq hv hcl]
    exact bind_ok hclear
  · have hran := ((hk.toRan.trans hfd.toRan).trans hw.toRan).trans (hx.toRan.trans hy.toRan)
    exact ⟨hz.part.trans hran.part, hz.mounted, fun h => hz.quiet (hran.quiet h),
      hran.writes.trans hran.part hz.writes⟩
  · rw [hzh, ← hk.handle, ← hfd.handle, ← hw.handle, ← hx.handle, ← hy.handle]
  · refine ⟨?_, ?_, ?_, ?_⟩
    · rw [hzcache]
      show y.cache.bldev = .part
      rw [hcache]
      exact hxl.bldev
    · rw [hzcache]
      show y.cache.sector = _
      rw [hcache]
      exact hxl.label
    · rw [hzcache]
      exact hclean
    · rw [hzbuf, hubuf, hzdisk, growNext]
      split
      · exact (wipe_wipe _).symm
      · rfl

end Stm32Logger
