import Stm32Logger.Fat.CardFull
import Stm32Logger.Fat.LargeVolume

/-!
# How bytes are split over calls

Two calls of `WriteToFile` against one with the bytes of both. A single call
goes from sector to sector by number; a new one finds its sector from the
position and the current cluster.
-/

namespace Stm32Logger

structure SameFile (e : Slot) (t u : SdStore) : Prop where
  handle : u.fs.handle .file = t.fs.handle .file
  fat : ∀ n, t.fs.vol.InFat n → ∀ i < 512, u.fs.stored n i = t.fs.stored n i
  entry : ∀ i < 32, slotBytes u.fs.stored e i = slotBytes t.fs.stored e i
  content : readFile u.fs.vol u.fs.stored e = readFile t.fs.vol t.fs.stored e

/-- Writing `b₁` and then `b₂` leaves the same as writing both at once. -/
def SplitAgrees (e : Slot) (s : SdStore) (b₁ b₂ : List UInt8) : Prop :=
  ∃ t u, runAll writeToFile [b₁, b₂] s = .ok ⟨⟩ t ∧ writeToFile (b₁ ++ b₂) s = .ok ⟨⟩ u ∧ SameFile e t u

/-- No allocation fails, neither of the two calls nor of the single one. -/
def SdStore.SplitAllocOk (s : SdStore) (b₁ b₂ : List UInt8) : Prop :=
  Along writeToFile SdStore.AllocOk [b₁, b₂] s ∧ s.AllocOk (b₁ ++ b₂)

/-- The file with `n` more bytes ends before the first sector boundary that
`fat_write` gets wrong, if there is one, and within 32 bits. -/
def SdStore.Within (s : SdStore) (n : Nat) : Prop :=
  s.fs.vol.Tests ((s.fs.handle .file).position + n) ∧ (s.fs.handle .file).position + n < 2 ^ 32

/-- A call that keeps within these bounds, and none of whose allocations fails. -/
def SdStore.CallOk (s : SdStore) (b : List UInt8) : Prop := s.Within b.length ∧ s.AllocOk b

variable {s t : SdStore} {e : Slot} {cs : List Nat} {log b b₁ b₂ : List UInt8}

theorem Writing.within (h : Writing s e cs log) (hr : s.Within n) :
    s.fs.vol.Tests (log.length + n) ∧ log.length + n < 2 ^ 32 := by
  rwa [SdStore.Within, h.stands.position] at hr

theorem SameFile.refl (e : Slot) (t : SdStore) : SameFile e t t :=
  ⟨rfl, fun _ _ _ _ => rfl, fun _ _ => rfl, rfl⟩

-- ---------------------------------------------------------------------------
-- The clusters
-- ---------------------------------------------------------------------------

theorem div_add_le (hn : n ≤ k) (hk : 0 < k) : (m + n) / k ≤ m / k + 1 := by
  have h : (m + n) / k ≤ (m + k) / k := Nat.div_le_div_right (by omega)
  rwa [Nat.add_div_right m hk] at h

theorem one_cluster (h : Writing s e cs log) (hb : 0 < b₁.length) (hlen : b₁.length + b₂.length ≤ 255)
    (h₁ : LogWritten P Q .file e cs cs₁ log b₁ s.fs t.fs) (ht : Writing t e cs₁ (log ++ b₁))
    (h₂ : LogWritten P' Q' .file e cs₁ cs₂ (log ++ b₁) b₂ t.fs u.fs) (hu : Writing u e cs₂ (log ++ b₁ ++ b₂)) :
    cs₁ = cs ∨ cs₂ = cs₁ := by
  obtain ⟨d₁, hw₁, -⟩ := h₁.disk
  obtain ⟨d₂, hw₂, -⟩ := h₂.disk
  have hne₁ : log ++ b₁ ≠ [] := List.append_ne_nil_of_right_ne_nil _ (List.ne_nil_of_length_pos hb)
  have hl₁ := ht.length_eq hne₁
  have hl₂ := hu.length_eq (List.append_ne_nil_of_left_ne_nil hne₁ _)
  rw [h₂.vol.clusterBytes, h₁.vol.clusterBytes] at hl₂
  rw [h₁.vol.clusterBytes] at hl₁
  have hle := le_clusterBytes h.shape
  have hpos := clusterBytes_pos h.shape
  rw [List.length_append] at hl₁
  rw [List.length_append, List.length_append] at hl₂
  have hmono : (log.length + b₁.length) / s.fs.vol.clusterBytes ≤
      (log.length + b₁.length + b₂.length) / s.fs.vol.clusterBytes := Nat.div_le_div_right (by omega)
  have hstep : (log.length + b₁.length + b₂.length) / s.fs.vol.clusterBytes ≤
      log.length / s.fs.vol.clusterBytes + 1 := by
    rw [Nat.add_assoc]
    exact div_add_le (by omega) hpos
  by_cases hlog : log = []
  · -- an empty file: the first cluster holds the bytes of both calls
    right
    refine (hw₂.grown.eq_of_length ?_).symm
    rw [hlog, List.length_nil, Nat.zero_add] at hl₁ hl₂
    rw [hl₁, hl₂, Nat.div_eq_of_lt (by omega), Nat.div_eq_of_lt (by omega)]
  · have hl := h.length_eq hlog
    have hmono' : log.length / s.fs.vol.clusterBytes ≤ (log.length + b₁.length) / s.fs.vol.clusterBytes :=
      Nat.div_le_div_right (by omega)
    by_cases h0 : cs₁.length = cs.length
    · exact .inl (hw₁.grown.eq_of_length h0.symm).symm
    · exact .inr (hw₂.grown.eq_of_length (by omega)).symm

-- ---------------------------------------------------------------------------
-- The two runs
-- ---------------------------------------------------------------------------

theorem TableAfter.eq_of_length (h : TableAfter v cs d cs₁ d₁) (h' : TableAfter v cs d cs₂ d₂)
    (hl : cs₁.length = cs₂.length) : cs₁ = cs₂ := by
  cases h with
  | same =>
    cases h' with
    | same => rfl
    | snoc => simp at hl
  | snoc =>
    cases h' with
    | same => simp at hl
    | snoc => rfl

theorem TableAfter.same_of_eq (h : TableAfter v cs d cs' d') (he : cs' = cs) : ∀ n, v.InFat n → d' n = d n := by
  cases h with
  | same h => exact h
  | snoc => exact absurd he (by simp)

theorem LogWritten.after (h : LogWritten P Q .file e cs cs' log b s.fs t.fs) (hs : Writing s e cs log) :
    TableAfter s.fs.vol cs s.fs.disk cs' t.fs.disk := by
  obtain ⟨d, hw, hd⟩ := h.disk
  refine hw.after.congr hs.shape hs.hint hs.holds.isCluster fun n hn => ?_
  rw [hd]
  exact Disk.edit_of_ne _ fun he => hs.place.fat (he ▸ hn)

theorem LogWritten.after_two (h : Writing s e cs log) (hb : 0 < b₁.length) (hlen : b₁.length + b₂.length ≤ 255)
    (h₁ : LogWritten P Q .file e cs cs₁ log b₁ s.fs t.fs) (ht : Writing t e cs₁ (log ++ b₁))
    (h₂ : LogWritten P' Q' .file e cs₁ cs₂ (log ++ b₁) b₂ t.fs u.fs) (hu : Writing u e cs₂ (log ++ b₁ ++ b₂)) :
    TableAfter s.fs.vol cs s.fs.disk cs₂ u.fs.disk := by
  have ha₁ := h₁.after h
  have ha₂ := h₂.after ht
  rcases one_cluster h hb hlen h₁ ht h₂ hu with he | he
  · rw [h₁.hint he] at ha₂
    exact ha₁.trans h.shape h.hint h.holds.isCluster ha₂ (.inl he)
  · have hsame := ha₂.same_of_eq he
    rw [he]
    exact ha₁.congr h.shape h.hint h.holds.isCluster fun n hn => hsame n (h₁.vol.inFat.mpr hn)

theorem LogWritten.slotBytes (h : LogWritten P Q .file e cs cs' log b s.fs t.fs) (hs : Writing s e cs log)
    (i : Nat) : slotBytes t.fs.disk e i =
      syncDirent e.offset (cs'.headD 0) (log ++ b).length (s.fs.disk e.sector) (e.offset + i) := by
  obtain ⟨d, hw, hd⟩ := h.disk
  have hslot := hw.area.slotBytes hs.shape hs.hint hs.holds hs.place i
  rw [hd, Stm32Logger.slotBytes, Disk.edit_self]
  exact syncDirent_congr (.inl hslot)

theorem Writing.split (h : Writing s e cs log) (hb₁ : 0 < b₁.length) (hb₂ : 0 < b₂.length)
    (hlen : b₁.length + b₂.length ≤ 255) (hr : s.Within (b₁.length + b₂.length))
    (hal : s.SplitAllocOk b₁ b₂) : SplitAgrees e s b₁ b₂ := by
  obtain ⟨ht, h32⟩ := h.within hr
  rw [← Nat.add_assoc] at ht h32
  obtain ⟨⟨hal₁, hal₂⟩, hal⟩ := hal
  obtain ⟨f₁, cs₁, hrun₁, hw₁, hs₁⟩ := h.append hb₁ (by omega) (ht.mono (by omega)) (by omega) hal₁
  obtain ⟨i, hvol, -⟩ := hw₁.vol
  have ht₁ : f₁.vol.Tests ((log ++ b₁).length + b₂.length) := by
    rw [hvol, List.length_append]
    exact ht
  obtain ⟨f₂, cs₂, hrun₂, hw₂, hs₂⟩ := hs₁.append hb₂ (by omega) ht₁
    (by rw [List.length_append]; exact h32) (hal₂ _ hrun₁).1
  have hb : (b₁ ++ b₂).length = b₁.length + b₂.length := List.length_append
  obtain ⟨f, cs', hrun, hw, hs⟩ := h.append (b := b₁ ++ b₂) (by omega) (by omega)
    (by rw [hb, ← Nat.add_assoc]; exact ht) (by omega) hal
  have hlog : log ++ b₁ ++ b₂ = log ++ (b₁ ++ b₂) := List.append_assoc ..
  have hvol₂ := hw₁.vol.trans hw₂.vol
  have ha := hw.after (t := { s with fs := f }) h
  have ha₂ :=
    LogWritten.after_two (t := { s with fs := f₁ }) (u := { s with fs := f₂ }) h hb₁ hlen hw₁ hs₁ hw₂ hs₂
  have hcs : cs' = cs₂ := by
    refine ha.eq_of_length ha₂ ?_
    have hne : log ++ (b₁ ++ b₂) ≠ [] :=
      List.append_ne_nil_of_right_ne_nil _ (List.append_ne_nil_of_left_ne_nil (List.ne_nil_of_length_pos hb₁) _)
    rw [hs.length_eq hne, hs₂.length_eq (hlog ▸ hne), hlog]
    show _ / f.vol.clusterBytes + 1 = _ / f₂.vol.clusterBytes + 1
    rw [hw.vol.clusterBytes, hvol₂.clusterBytes]
  subst hcs
  have hd : f.disk = f.stored := FatState.disk_clean hw.clean
  have hd₂ : f₂.disk = f₂.stored := FatState.disk_clean hw₂.clean
  refine ⟨{ s with fs := f₂ }, { s with fs := f }, runAll_cons hrun₁ (runAll_cons hrun₂ rfl), hrun,
    ?_, ?_, ?_, ?_⟩
  · show f.handle .file = f₂.handle .file
    rw [hw.handle, hw₂.handle, hw₁.handle, Function.update_self, Function.update_self,
      Function.update_self, hlog]
    rfl
  · intro n hn j hj
    have hn : s.fs.vol.InFat n := hvol₂.inFat.mp hn
    show f.stored n j = f₂.stored n j
    rw [← hd, ← hd₂]
    exact fat_ext (fun k hk j hj => ha₂.fatNibble ha rfl hk hj) hn hj
  · intro j _
    show slotBytes f.stored e j = slotBytes f₂.stored e j
    rw [← hd, ← hd₂, hw.slotBytes (t := { s with fs := f }) h,
      hw₂.slotBytes (s := { s with fs := f₁ }) (t := { s with fs := f₂ }) hs₁, ← hlog]
    refine syncDirent_congr ?_
    have hslot : f₁.disk e.sector (e.offset + j) = _ := hw₁.slotBytes (t := { s with fs := f₁ }) h j
    by_cases hj : e.offset + j = e.offset + 20 ∨ e.offset + j = e.offset + 21 ∨
        e.offset + 26 ≤ e.offset + j ∧ e.offset + j < e.offset + 32
    · exact .inr hj
    · rw [hslot]
      exact .inl (syncDirent_of_ne hj).symm
  · show readFile f.vol f.stored e = readFile f₂.vol f₂.stored e
    rw [← hd, ← hd₂, hs.readFile, hs₂.readFile, hlog]

theorem Writing.splitAgrees (h : Writing s e cs log) (hlen : b₁.length + b₂.length ≤ 255)
    (hr : s.Within (b₁.length + b₂.length)) (hal : s.SplitAllocOk b₁ b₂) : SplitAgrees e s b₁ b₂ := by
  obtain ⟨t, cs', hrun, ht⟩ := h.write (b := b₁ ++ b₂) (by rw [List.length_append]; exact hlen)
    (by rw [List.length_append]; exact h.within hr) hal.2
  cases hb₁ : b₁ with
  | nil =>
    subst hb₁
    exact ⟨t, t, runAll_cons h.write_nil (runAll_cons hrun rfl), hrun, .refl e t⟩
  | cons x xs =>
    cases hb₂ : b₂ with
    | nil =>
      subst hb₂
      rw [List.append_nil] at hrun
      rw [← hb₁]
      refine ⟨t, t, runAll_cons hrun (runAll_cons ht.write_nil rfl), ?_, .refl e t⟩
      rwa [List.append_nil]
    | cons y ys =>
      rw [← hb₁, ← hb₂]
      exact h.split (by rw [hb₁]; exact Nat.succ_pos _) (by rw [hb₂]; exact Nat.succ_pos _) hlen hr hal

theorem Writing.writeLines (h : Writing s e cs log) (hlen : ∀ b ∈ bs, b.length ≤ 255)
    (hok : Along writeToFile SdStore.CallOk bs s) :
    ∃ t cs', runAll writeToFile bs s = .ok ⟨⟩ t ∧ Writing t e cs' (log ++ bs.flatten) := by
  induction bs generalizing s cs log with
  | nil => exact ⟨s, cs, rfl, by rwa [List.flatten_nil, List.append_nil]⟩
  | cons b bs ih =>
    obtain ⟨t, cs', hrun, ht⟩ := h.write (hlen b List.mem_cons_self) (h.within hok.1.1) hok.1.2
    obtain ⟨u, cs'', hrun', hu⟩ := ih ht (fun b' hb' => hlen b' (List.mem_cons_of_mem b hb')) (hok.2 t hrun)
    refine ⟨u, cs'', runAll_cons hrun hrun', ?_⟩
    rwa [List.flatten_cons, ← List.append_assoc]

/-- In every state of a run that keeps to the boundaries `fat_write` gets
right, the bytes of the next line may come in one call or in two. -/
theorem splits_agree (bs : List (List UInt8)) (h : Opened s.fs .file e [] []) (hq : s.fs.Quiet)
    (hlen : ∀ b ∈ bs, b.length ≤ 255) (hok : Along writeToFile SdStore.CallOk bs s) :
    ∃ t, runAll writeToFile bs s = .ok ⟨⟩ t ∧
      ∀ b₁ b₂ : List UInt8, b₁.length + b₂.length ≤ 255 → t.Within (b₁.length + b₂.length) →
        t.SplitAllocOk b₁ b₂ → SplitAgrees e t b₁ b₂ := by
  have hw : Writing s e [] [] := ⟨h, hq, fun hne => absurd rfl hne⟩
  obtain ⟨t, cs, hrun, ht⟩ := hw.writeLines hlen hok
  exact ⟨t, hrun, fun b₁ b₂ hlen' hr hal => ht.splitAgrees hlen' hr hal⟩

theorem Logging.callOk (h : Logging d e s cs log) (hlen : ∀ b ∈ bs, b.length ≤ 255)
    (h32 : log.length + bs.flatten.length < 2 ^ 32) (hal : Along writeToFile SdStore.AllocOk bs s) :
    Along writeToFile SdStore.CallOk bs s := by
  induction bs generalizing s cs log with
  | nil => trivial
  | cons b bs ih =>
    rw [List.flatten_cons, List.length_append] at h32
    obtain ⟨t, cs', hrun, ht, -⟩ := h.write (hlen b List.mem_cons_self) (by omega) hal.1
    refine ⟨⟨⟨h.layout.tests _, ?_⟩, hal.1⟩, fun t' hrun' => ?_⟩
    · rw [h.stands.position]
      omega
    · rw [hrun] at hrun'
      cases hrun'
      refine ih ht (fun b' hb' => hlen b' (List.mem_cons_of_mem b hb')) ?_ (hal.2 t hrun)
      rw [List.length_append]
      omega

/-- Behind 257 lines the first cluster has room for one byte, and the next two may come apart. -/
theorem splits_agree_boundary : ∃ t, runAll writeToFile (endlessLines.take 257) largeStore = .ok ⟨⟩ t ∧
    SplitAgrees ⟨768, 0⟩ t [65] [66] := by
  have hlen : (endlessLines.take 257).flatten.length = 65535 := endlessLines_take (by
    rw [endlessLines, List.length_append, List.length_replicate]
    decide)
  have hshort : ∀ b ∈ endlessLines.take 257, b.length ≤ 255 := fun b hb =>
    endlessLines_length_le b (List.mem_of_mem_take hb)
  have hal : ∀ bs : List (List UInt8), (∀ b ∈ bs, b.length ≤ 255) → bs.flatten.length ≤ 2 →
      Along writeToFile SdStore.AllocOk (endlessLines.take 257 ++ bs) largeStore := fun bs hbs htwo => by
    refine largeStore_allocOk (fun b hb => (List.mem_append.mp hb).elim (hshort b) (hbs b)) fun k _ => ?_
    refine Nat.lt_of_le_of_lt (length_flatten_take_le _ k) ?_
    rw [List.flatten_append, List.length_append, hlen]
    omega
  obtain ⟨t, cs, hrun, ht, -⟩ :=
    largeStore_logging.writeLines hshort (by rw [hlen]; decide) (endlessLines_allocOk.take _)
  obtain ⟨t', hrun', hagree⟩ :=
    splits_agree (endlessLines.take 257) largeStore_logOpen.opened largeStore_quiet hshort
    (largeStore_logging.callOk hshort (by rw [hlen]; decide) (endlessLines_allocOk.take _))
  rw [hrun] at hrun'
  cases hrun'
  refine ⟨t, hrun, hagree [65] [66] (by decide) ⟨ht.layout.tests _, ?_⟩ ⟨?_, ?_⟩⟩
  · rw [ht.stands.position, List.nil_append, hlen]
    decide
  · exact (hal [[65], [66]] (by decide) (by decide)).append.2 t hrun
  · exact ((hal [[65, 66]] (by decide) (by decide)).append.2 t hrun).1

/-- A FAT12 volume with two sectors to a cluster whose data area starts on an
odd sector, with a new file in the first slot of its root directory. -/
def misalignedFs : FatState where
  card := { image := fun _ _ => 0 }
  part := { ready := true }
  vol :=
    { dev := .part, type := .fat12, bytesPerSector := 512, sectorsPerCluster := 2
      reservedSectorCount := 1, numFats := 1, firstDataSector := 3, clusterCount := 8, fatSize := 1
      rootWord := 1 + 65536 * 2, lastClusterAlloc := 2 }
  handle r := if r = .file then { fat := true, flags := oWronly, direntSector := 2 } else { fat := true }

def misalignedStore : SdStore := { fs := misalignedFs }

theorem misalignedFs_opened : Opened misalignedFs .file ⟨2, 0⟩ [] [] where
  mounted := ⟨rfl, rfl, Nat.two_pow_pos 32, fun h => Bool.noConfusion h, fun _ h => absurd h List.not_mem_nil⟩
  shape :=
    { bytes := rfl
      type := fun h => FatType.noConfusion h
      spc := ⟨1, by decide, rfl⟩
      numFats := Nat.le_refl 1
      reserved := Nat.le_refl 1
      data := (by decide : 1 + 1 * 1 ≤ 3)
      fits := (by decide : 3 + 8 * 2 ≤ 2 ^ 32)
      entries := (by decide : 3 * (8 + 2) ≤ 1024 * 1)
      count := (by decide : 8 ≤ 4084) }
  hint := ⟨Nat.le_refl 2, by decide⟩
  holds := .nil ..
  stands := ⟨rfl, rfl, rfl, rfl, rfl⟩
  size_le := Nat.le_refl 0
  sector := rfl
  offset := rfl
  flags := (by decide : oWronly / oAsync % 2 = 0)
  place := by
    refine ⟨Nat.two_pos, (by decide : 2 < 2 ^ 32), by decide, fun h => ?_, fun c _ h => ?_⟩
    · exact absurd h.2 (by decide : ¬ 2 < 1 + 1 * 1)
    · have h : 3 + (c - 2) * 2 ≤ 2 := h.1
      omega
  coherent _ h := BlockDev.noConfusion h
  size := rfl
  entry := ⟨rfl, fun h => absurd h (Nat.lt_irrefl 0)⟩

def lookAt (e : Slot) (k : Nat) (t : SdStore) : Nat × Option UInt8 × Bool :=
  (slotSize t.fs.stored e, (readFile t.fs.vol t.fs.stored e).map (·.getD k 0),
    decide (freeCluster t.fs.vol t.fs.disk ≠ 0))

/-- Lines that end four bytes short of the second cluster. -/
def nearlyFull : List (List UInt8) := List.replicate 4 (List.replicate 255 65)

/-- A line that crosses into the second cluster goes to a sector of the third. -/
theorem misaligned_split_differs :
    Opened misalignedFs .file ⟨2, 0⟩ [] [] ∧ misalignedFs.Quiet ∧
      stateAfter (runAll writeToFile (nearlyFull ++ [List.replicate 4 65, [66]])) misalignedStore
        (lookAt ⟨2, 0⟩ 1024) = some (1025, some 66, true) ∧
      stateAfter (runAll writeToFile (nearlyFull ++ [List.replicate 4 65 ++ [66]])) misalignedStore
        (lookAt ⟨2, 0⟩ 1024) = some (1025, some 65, true) ∧
      ∃ t, runAll writeToFile nearlyFull misalignedStore = .ok ⟨⟩ t ∧
        ¬ SplitAgrees ⟨2, 0⟩ t (List.replicate 4 65) [66] := by
  have h₂ : stateAfter (runAll writeToFile (nearlyFull ++ [List.replicate 4 65, [66]])) misalignedStore
      (lookAt ⟨2, 0⟩ 1024) = some (1025, some 66, true) := by decide +kernel
  have h₁ : stateAfter (runAll writeToFile (nearlyFull ++ [List.replicate 4 65 ++ [66]])) misalignedStore
      (lookAt ⟨2, 0⟩ 1024) = some (1025, some 65, true) := by decide +kernel
  have h₀ :
    (stateAfter (runAll writeToFile nearlyFull) misalignedStore fun _ => ()) = some () := by decide +kernel
  refine ⟨misalignedFs_opened, fun _ h => absurd h List.not_mem_nil, h₂, h₁, ?_⟩
  cases hrun : runAll writeToFile nearlyFull misalignedStore with
  | error e t => simp [stateAfter, hrun] at h₀
  | ok a t =>
    refine ⟨t, rfl, ?_⟩
    rintro ⟨u, w, hu, hw, hsame⟩
    have hu := stateAfter_ok (lookAt ⟨2, 0⟩ 1024) (runAll_append hrun hu)
    have hw := stateAfter_ok (lookAt ⟨2, 0⟩ 1024) (runAll_concat hrun hw)
    rw [h₂] at hu
    rw [h₁] at hw
    have h66 := congrArg (fun x => x.2.1) (Option.some.inj hu)
    have h65 := congrArg (fun x => x.2.1) (Option.some.inj hw)
    simp only [lookAt, hsame.content] at h66 h65
    rw [← h66] at h65
    exact absurd h65 (by decide)

end Stm32Logger
