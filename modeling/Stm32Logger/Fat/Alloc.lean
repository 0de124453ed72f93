import Stm32Logger.Fat.TableLaws

/-!
# Allocation

The search for a free cluster as a function of the table, and what
`fatFindFreeCluster` and `fatAllocNextCluster` do to a volume.
-/

namespace Stm32Logger

variable {P : Disk → Prop} {s s' : FatState}

/-- The first of the `n` clusters from `i` on whose entry is 0; 0 when there is none. -/
def firstFree (v : FatVolHandle) (d : Disk) : (n : Nat) → (i : Nat) → Nat
  | 0, _ => 0
  | n + 1, i => if fatEntry v d 0 i = 0 then i else firstFree v d n (i + 1)

/-- The cluster the next allocation takes; 0 when the search finds none. -/
def freeCluster (v : FatVolHandle) (d : Disk) : Nat :=
  let i := firstFree v d (v.clusterCount - v.lastClusterAlloc) v.lastClusterAlloc
  if i ≠ 0 then i else firstFree v d (v.lastClusterAlloc - 2) 2

/-- The search hint lies in the table. -/
def FatVolHandle.HintOk (v : FatVolHandle) : Prop :=
  2 ≤ v.lastClusterAlloc ∧ v.lastClusterAlloc ≤ v.clusterCount + 2

theorem firstFree_spec (h : firstFree v d n i ≠ 0) :
    i ≤ firstFree v d n i ∧ firstFree v d n i < i + n ∧ fatEntry v d 0 (firstFree v d n i) = 0 := by
  induction n generalizing i with
  | zero => exact absurd rfl h
  | succ n ih =>
    unfold firstFree at h ⊢
    split
    next he => exact ⟨Nat.le_refl _, by omega, he⟩
    next he =>
      rw [if_neg he] at h
      have := ih h
      omega

theorem freeCluster_spec {v : FatVolHandle} (hh : v.HintOk) (h : freeCluster v d ≠ 0) :
    v.IsCluster (freeCluster v d) ∧ fatEntry v d 0 (freeCluster v d) = 0 := by
  obtain ⟨hl, hl'⟩ := hh
  unfold FatVolHandle.IsCluster
  simp only [freeCluster] at h ⊢
  split
  next hi =>
    have := firstFree_spec hi
    exact ⟨by omega, this.2.2⟩
  next hi =>
    rw [if_neg hi] at h
    have := firstFree_spec h
    exact ⟨by omega, this.2.2⟩

theorem firstFree_none (h : firstFree v d n i = 0) (hi : 0 < i) (hj : i ≤ j) (hj' : j < i + n) :
    fatEntry v d 0 j ≠ 0 := by
  induction n generalizing i with
  | zero => omega
  | succ n ih =>
    rw [firstFree] at h
    by_cases he : fatEntry v d 0 i = 0
    · rw [if_pos he] at h
      omega
    · rw [if_neg he] at h
      by_cases hji : j = i
      · rwa [hji]
      · exact ih h (Nat.succ_pos i) (by omega) (by omega)

/-- The search that found nothing has seen every cluster below `cluster_count` and below the hint. -/
theorem freeCluster_none {v : FatVolHandle} (hh : v.HintOk) (h : freeCluster v d = 0) (hj : 2 ≤ j)
    (hj' : j < max v.lastClusterAlloc v.clusterCount) : fatEntry v d 0 j ≠ 0 := by
  obtain ⟨hl, -⟩ := hh
  simp only [freeCluster] at h
  split at h
  next h1 => exact absurd h h1
  next h1 =>
    have h1' := not_not.mp h1
    rcases Nat.lt_or_ge j v.lastClusterAlloc with hlt | hge
    · exact firstFree_none h Nat.two_pos hj (by omega)
    · exact firstFree_none h1' (by omega) hge (by omega)

theorem firstFree_congr (h : ∀ j, i ≤ j → j < i + n → fatEntry v d' 0 j = fatEntry v d 0 j) :
    firstFree v d' n i = firstFree v d n i := by
  induction n generalizing i with
  | zero => rfl
  | succ n ih =>
    simp only [firstFree, h i (Nat.le_refl i) (by omega)]
    rw [ih fun j hj hj' => h j (by omega) (by omega)]

def FatState.TableOk (s : FatState) : Prop := ∀ m < s.vol.fatSize, s.CacheOk (s.vol.fatSector 0 m)

theorem FatState.Coherent.tableOk (h : s.Coherent) : s.TableOk := fun _ _ => h _

theorem FatState.TableOk.entry (h : s.TableOk) (hv : s.vol.Shape) (hc : s.vol.HasEntry c) :
    s.CacheOk (s.vol.fatSector 0 (s.vol.entryByte c / 512)) :=
  h _ (by have := entryByte_lt hv hc; omega)

structure Found (P : Disk → Prop) (c : Nat) (s s' : FatState) : Prop extends Ran P s s' where
  disk : s'.disk = s.disk
  handle : s'.handle = s.handle
  vol : s'.vol = if c = 0 then s.vol else { s.vol with lastClusterAlloc := c }

theorem findFreeFrom_run (n i : Nat) (hs : s.Mounted) (hq : s.Quiet) (hv : s.vol.Shape)
    (hP : P s.disk) (hi : 0 < i) (hn : i + n ≤ s.vol.clusterCount + 2) (hok : s.TableOk) :
    ∃ s', findFreeFrom n i s = .ok (firstFree s.vol s.disk n i) s' ∧
      Found P (firstFree s.vol s.disk n i) s s' ∧ s'.TableOk ∧
      (s.Coherent ∨ firstFree s.vol s.disk n i ≠ 0 → s'.Coherent) := by
  induction n generalizing s i with
  | zero =>
    exact ⟨s, rfl, ⟨.refl hs, rfl, rfl, rfl⟩, hok, fun h => h.resolve_right fun h => h rfl⟩
  | succ n ih =>
    have hc : s.vol.HasEntry i := by unfold FatVolHandle.HasEntry; omega
    obtain ⟨t, hrun, hk, hco⟩ := fatGetNextCluster_run (P := P) hs hq hv hc hP (hok.entry hv hc)
    simp only [findFreeFrom, bind_ok hrun, firstFree]
    split
    next he =>
      refine ⟨_, rfl, ⟨⟨hk.part, ⟨hk.mounted.ready, hk.mounted.dev, hk.mounted.label,
        hk.mounted.bldev, hk.mounted.reads⟩, hk.quiet, hk.writes⟩, hk.disk, hk.handle, ?_⟩, ?_, ?_⟩
      · rw [if_neg (by omega)]
        simp only [hk.vol]
      · exact fun m _ => hco _
      · exact fun _ n => hco n
    next he =>
      obtain ⟨u, hrun', hf, hok', hco'⟩ := ih (s := t) (i + 1) hk.mounted (hk.quiet hq) (hk.vol ▸ hv)
        (hk.disk ▸ hP) (by omega) (by rw [hk.vol]; omega) hco.tableOk
      rw [hk.vol, hk.disk] at hrun' hf hco'
      refine ⟨u, hrun', ⟨hk.toRan.trans hf.toRan, hf.disk.trans hk.disk, hf.handle.trans hk.handle, ?_⟩,
        hok', fun _ => hco' (.inl hco)⟩
      rw [hf.vol, hk.vol]

theorem fatFindFreeCluster_run (hs : s.Mounted) (hq : s.Quiet) (hv : s.vol.Shape)
    (hh : s.vol.HintOk) (hP : P s.disk) (hok : s.TableOk) :
    ∃ s', fatFindFreeCluster s = .ok (freeCluster s.vol s.disk) s' ∧
      Found P (freeCluster s.vol s.disk) s s' ∧ s'.TableOk ∧
      (s.Coherent ∨ freeCluster s.vol s.disk ≠ 0 → s'.Coherent) := by
  obtain ⟨hl, hl'⟩ := hh
  obtain ⟨t, hrun, hf, hok', hco⟩ := findFreeFrom_run (P := P)
    (s.vol.clusterCount - s.vol.lastClusterAlloc) s.vol.lastClusterAlloc hs hq hv hP (by omega)
    (by omega) hok
  simp only [fatFindFreeCluster, getVol_bind, bind_ok hrun, freeCluster]
  split
  next hi => exact ⟨t, rfl, hf, hok', hco⟩
  next hi =>
    have hvol : t.vol = s.vol := by rw [hf.vol, if_pos (not_not.mp hi)]
    obtain ⟨u, hrun', hf', hok'', hco'⟩ := findFreeFrom_run (P := P) (s.vol.lastClusterAlloc - 2) 2
      hf.mounted (hf.quiet hq) (hvol ▸ hv) (hf.disk ▸ hP) (by omega) (by rw [hvol]; omega) hok'
    rw [hvol, hf.disk] at hrun' hf' hco'
    refine ⟨u, hrun', ⟨hf.toRan.trans hf'.toRan, hf'.disk.trans hf.disk,
      hf'.handle.trans hf.handle, ?_⟩, hok'', fun h => ?_⟩
    · rw [hf'.vol, hvol]
    · rcases h with h | h
      · exact hco' (.inl (hco (.inl h)))
      · exact hco' (.inr h)

-- ---------------------------------------------------------------------------
-- Clusters on the volume
-- ---------------------------------------------------------------------------

section
variable {v : FatVolHandle}

def FatVolHandle.clusterSector (v : FatVolHandle) (c : Nat) : Nat :=
  v.firstDataSector + (c - 2) * v.sectorsPerCluster

def FatVolHandle.InCluster (v : FatVolHandle) (c n : Nat) : Prop :=
  v.clusterSector c ≤ n ∧ n < v.clusterSector c + v.sectorsPerCluster

theorem spc_pos (hv : v.Shape) : 0 < v.sectorsPerCluster := by
  obtain ⟨e, -, h⟩ := hv.spc
  rw [h]
  exact Nat.two_pow_pos e

theorem clusterSector_le (hv : v.Shape) (hc : v.IsCluster c) :
    v.clusterSector c + v.sectorsPerCluster ≤ 2 ^ 32 := by
  obtain ⟨h2, hc⟩ := hc
  have hm : (c - 2 + 1) * v.sectorsPerCluster ≤ v.clusterCount * v.sectorsPerCluster :=
    Nat.mul_le_mul_right _ (by omega)
  have hf := hv.fits
  rw [Nat.succ_mul] at hm
  unfold FatVolHandle.clusterSector
  omega

theorem fatFirstSectorOfCluster_eq (hv : v.Shape) (hc : v.IsCluster c) :
    fatFirstSectorOfCluster v c = v.clusterSector c := by
  have hle := clusterSector_le hv hc
  have hpos := spc_pos hv
  have hm := maxClusters_le v.type
  have hn := hv.count
  obtain ⟨h2, hc⟩ := hc
  have hsub : sub32 c 2 = c - 2 := by
    simp only [sub32, u32]
    omega
  rw [fatFirstSectorOfCluster, hsub, u32, Nat.add_comm]
  exact Nat.mod_eq_of_lt (by unfold FatVolHandle.clusterSector at hle; omega)

theorem inCluster_lt (hv : v.Shape) (hc : v.IsCluster c) (hn : v.InCluster c n) : n < 2 ^ 32 := by
  have := clusterSector_le hv hc
  have := hn.2
  omega

theorem not_inFat_of_le (hv : v.Shape) (h : v.firstDataSector ≤ n) : ¬ v.InFat n := by
  have hd := hv.data
  rintro ⟨-, h'⟩
  omega

theorem not_inFat_of_cluster (hv : v.Shape) (hn : v.InCluster c n) : ¬ v.InFat n := by
  refine not_inFat_of_le hv ?_
  have := hn.1
  unfold FatVolHandle.clusterSector at this
  omega

theorem cluster_unique (hc : 2 ≤ c) (hc' : 2 ≤ c') (h : v.InCluster c n) (h' : v.InCluster c' n) :
    c = c' := by
  obtain ⟨h1, h2⟩ := h
  obtain ⟨h3, h4⟩ := h'
  unfold FatVolHandle.clusterSector at h1 h2 h3 h4
  rcases Nat.lt_trichotomy c c' with hlt | heq | hlt
  · have hm : (c - 2 + 1) * v.sectorsPerCluster ≤ (c' - 2) * v.sectorsPerCluster :=
      Nat.mul_le_mul_right _ (by omega)
    rw [Nat.succ_mul] at hm
    omega
  · exact heq
  · have hm : (c' - 2 + 1) * v.sectorsPerCluster ≤ (c - 2) * v.sectorsPerCluster :=
      Nat.mul_le_mul_right _ (by omega)
    rw [Nat.succ_mul] at hm
    omega

theorem fatEoc_lt (v : FatVolHandle) (hv : v.Shape) : fatEoc v < 16 ^ v.type.width := by
  cases ht : v.type with
  | none => exact absurd ht hv.type
  | _ => simp only [fatEoc, ht, FatType.width]; decide

theorem hasEntry_lt_eoc (hv : v.Shape) (hc : v.HasEntry c) : c < fatEoc v := by
  have hn := hv.count
  have hc : c < v.clusterCount + 2 := hc
  cases ht : v.type with
  | none => exact absurd ht hv.type
  | _ =>
    simp only [ht, FatType.maxClusters] at hn
    simp only [fatEoc, ht]
    omega

theorem hasEntry_lt (hv : v.Shape) (hc : v.HasEntry c) : c < 16 ^ v.type.width :=
  (hasEntry_lt_eoc hv hc).trans (fatEoc_lt v hv)

end

-- ---------------------------------------------------------------------------
-- Zeroing a cluster
-- ---------------------------------------------------------------------------

theorem clearLoop_run (n m : Nat) (hs : s.Mounted) (hq : s.Quiet) (hd : s.cache.dirty = false)
    (hm : m + n ≤ 2 ^ 32)
    (hP : ∀ k, k ≤ n → P fun i => if m ≤ i ∧ i < m + k then s.buf else s.disk i) :
    ∃ s', clearLoop n m s = .ok ⟨⟩ s' ∧ Ran P s s' ∧ s'.vol = s.vol ∧ s'.handle = s.handle ∧
      s'.cache = s.cache ∧ s'.buf = s.buf ∧
      s'.disk = fun i => if m ≤ i ∧ i < m + n then s.buf else s.disk i := by
  induction n generalizing s m with
  | zero =>
    refine ⟨s, rfl, .refl hs, rfl, rfl, rfl, rfl, ?_⟩
    funext i
    rw [if_neg (by omega)]
  | succ n ih =>
    have hf : s.card.writeFaults.headD false = false := by
      cases h : s.card.writeFaults with
      | nil => rfl
      | cons b bs => exact hq b (by simp [h])
    have hmlt : m < 2 ^ 32 := by omega
    let w := (u32 (s.part.firstLba + m), s.buf)
    let t : FatState := { s with
      card := { s.card with
        image := Function.update s.card.image w.1 w.2
        writes := s.card.writes ++ [w]
        writeFaults := s.card.writeFaults.tail } }
    have hdisk : t.disk = fun i => if m ≤ i ∧ i < m + 1 then s.buf else s.disk i := by
      rw [FatState.disk_clean (s := t) hd, FatState.disk_clean hd]
      have : t.stored = Function.update s.stored m s.buf := view_update hmlt
      rw [this]
      funext i
      by_cases hi : i = m
      · subst hi
        rw [Function.update_self, if_pos (by omega)]
      · rw [Function.update_of_ne hi, if_neg (by omega)]
    have hran : Ran P s t := by
      refine ⟨rfl, ⟨hs.ready, hs.dev, hs.label, hs.bldev, hs.reads⟩,
        fun _ b hb => hq b (List.mem_of_mem_tail hb), [w], rfl, rfl, ?_, trivial⟩
      have : t.stored = t.disk := (FatState.disk_clean (s := t) hd).symm
      show P t.stored
      rw [this, hdisk]
      exact hP 1 (by omega)
    have hstep : ∀ k, (fun i => if m + 1 ≤ i ∧ i < m + 1 + k then t.buf else t.disk i) =
        fun i => if m ≤ i ∧ i < m + (k + 1) then s.buf else s.disk i := by
      intro k
      funext i
      simp only [hdisk]
      by_cases hi : m + 1 ≤ i ∧ i < m + 1 + k
      · rw [if_pos hi, if_pos (by omega)]
      · rw [if_neg hi]
        by_cases hi' : i = m
        · rw [if_pos (by omega), if_pos (by omega)]
        · rw [if_neg (by omega), if_neg (by omega)]
    obtain ⟨u, hrun, hran', hvol, hh, hcache, hbuf, hdisk'⟩ := ih (s := t) (m + 1) hran.mounted
      (hran.quiet hq) hd (by omega) fun k hk => by rw [hstep k]; exact hP (k + 1) (by omega)
    refine ⟨u, ?_, hran.trans hran', hvol, hh, hcache, hbuf, hdisk'.trans (hstep n)⟩
    simp only [clearLoop, get_bind, hs.dev, u32, Nat.mod_eq_of_lt hmlt, bind_ok (mbrWriteSectors_ok hs hf)]
    exact hrun

-- ---------------------------------------------------------------------------
-- Extending a chain
-- ---------------------------------------------------------------------------

def CopiesEqual (v : FatVolHandle) (d : Disk) : Prop :=
  ∀ k < v.numFats, ∀ j < 1024 * v.fatSize, fatNibble v d k j = fatNibble v d 0 j

structure Linked (v : FatVolHandle) (last c : Nat) (d d' : Disk) : Prop where
  entry : ∀ k < v.numFats, ∀ j, v.HasEntry j → fatEntry v d' k j =
    if j = last then c else if j = c then fatEoc v else fatEntry v d k j
  copies : CopiesEqual v d → CopiesEqual v d'
  agree : Agree v (fun j => j = c ∨ j = last) (fun _ _ => False) d d'

structure Zeroed (v : FatVolHandle) (c : Nat) (d d' : Disk) : Prop where
  zero : ∀ n, v.InCluster c n → ∀ i < 512, d' n i = 0
  rest : ∀ n, ¬ v.InCluster c n → d' n = d n

section
variable {v : FatVolHandle} {d d' d'' : Disk}

theorem EntrySet.copiesEqual (hv : v.Shape)
    (h : EntrySet v (fun _ => True) c x d d') (hd : CopiesEqual v d) : CopiesEqual v d' := by
  intro k hk j hj
  have h0 := hv.numFats
  by_cases hin : v.InEntry c j
  · obtain ⟨i, rfl⟩ := Nat.exists_eq_add_of_le hin.1
    have hi : i < v.type.width := by have := hin.2; omega
    rw [h.set k hk trivial i hi, h.set 0 h0 trivial i hi]
  · have hout : ∀ {k : Nat}, ¬ (True ∧ v.InEntry c j) := fun hj => hin hj.2
    rw [h.keep k hk j hj (hout (k := k)), h.keep 0 h0 j hj (hout (k := 0)), hd k hk j hj]

theorem Linked.of_sets (hv : v.Shape) (hc : v.HasEntry c) (hl : v.HasEntry last) (hne : c ≠ last)
    (h : EntrySet v (fun _ => True) c (fatEoc v) d d')
    (h' : EntrySet v (fun _ => True) last c d' d'') : Linked v last c d d'' := by
  refine ⟨fun k hk j hj => ?_, fun hd => h'.copiesEqual hv (h.copiesEqual hv hd),
    (h.agree (.inl rfl)).trans (h'.agree (.inr rfl))⟩
  split
  next hj' => subst hj'; exact h'.fatEntry_self hk trivial (hasEntry_lt hv hc)
  next hj' =>
    rw [h'.fatEntry_of_ne hv hk hj hj']
    split
    next hj'' => subst hj''; exact h.fatEntry_self hk trivial (fatEoc_lt v hv)
    next hj'' => exact h.fatEntry_of_ne hv hk hj hj''

theorem fatNibble_congr (hk : k < v.numFats) (hj : j < 1024 * v.fatSize)
    (h : ∀ n, v.InFat n → d' n = d n) : fatNibble v d' k j = fatNibble v d k j := by
  rw [fatNibble, fatNibble, fatByte, fatByte, h _ (fatSector_inFat hk (by omega))]

theorem fatEntry_congr (hv : v.Shape) (hk : k < v.numFats) (hc : v.HasEntry c)
    (h : ∀ n, v.InFat n → d' n = d n) : fatEntry v d' k c = fatEntry v d k c := by
  rw [fatEntry_eq, fatEntry_eq]
  have hw := v.type.width_le_stride
  exact ofNibbles_congr fun i hi =>
    fatNibble_congr hk (inEntry_lt hv hc ⟨Nat.le_add_right .., by omega⟩) h

theorem Zeroed.inFat (hv : v.Shape) (h : Zeroed v c d d') : ∀ n, v.InFat n → d' n = d n :=
  fun n hn => h.rest n fun hn' => not_inFat_of_cluster hv hn' hn

end

/-- What extending a chain leads to. With `clear` the buffer was zeroed under
the label of the last copy of the FAT, so a hit there is not to be trusted. -/
structure Extended (P : Disk → Prop) (clear : Bool) (last c : Nat) (s s' : FatState) : Prop
    extends Ran P s s' where
  handle : s'.handle = s.handle
  vol : s'.vol = { s.vol with lastClusterAlloc := c }
  disk : ∃ d, Linked s.vol last c s.disk d ∧ (clear = false → s'.disk = d) ∧
    (clear = true → Zeroed s.vol c d s'.disk)
  coherent : clear = false → s'.Coherent
  cacheOk : ∀ n, ¬ s.vol.InFat n → s'.CacheOk n
  tableOk : 2 ≤ s.vol.numFats → s'.TableOk

theorem FatVolHandle.Shape.hint {v : FatVolHandle} (h : v.Shape) (i : Nat) :
    ({ v with lastClusterAlloc := i } : FatVolHandle).Shape :=
  ⟨h.bytes, h.type, h.spc, h.numFats, h.reserved, h.data, h.fits, h.entries, h.count⟩

theorem EntrySet.of_hint {v : FatVolHandle}
    (h : EntrySet { v with lastClusterAlloc := i } K c x d d') : EntrySet v K c x d d' :=
  ⟨h.set, h.keep, h.rest, h.tail⟩

theorem Agree.of_hint {v : FatVolHandle}
    (h : Agree { v with lastClusterAlloc := i } C B d d') : Agree v C B d d' := ⟨h.fat, h.rest⟩

theorem flush_run (hs : s.Mounted) (hq : s.Quiet) (hP : P s.disk) :
    ∃ s', flushSector s = .ok ⟨⟩ s' ∧ Kept P s s' ∧
      s'.cache = { s.cache with dirty := false } ∧ s'.buf = s.buf := by
  rcases flush_cases hs hP with h | ⟨hnq, -⟩
  · exact h
  · exact absurd hq hnq

/-- A link that is not the end mark is followed, wherever it leads. -/
theorem alloc_next (clear : Bool) (c : Nat) (hs : s.Mounted) (hq : s.Quiet) (hb : s.vol.bytesPerSector = 512)
    (hP : P s.disk) (hok : s.CacheOk (fatNextSector s.vol c)) (he : fatNext s.vol s.disk c ≠ fatEoc s.vol) :
    ∃ s', fatAllocNextCluster c clear s = .ok (fatNext s.vol s.disk c) s' ∧ Kept P s s' ∧ s'.Coherent := by
  obtain ⟨t, hrun, hk, hco⟩ := fatGetNextCluster_next (P := P) hs hq hb hP hok
  refine ⟨t, returning_ok ?_, hk, hco⟩
  rw [getVol_bind, bind_ok hrun, if_pos he, pure_run]

theorem alloc_full (clear : Bool) (c : Nat) (hs : s.Mounted) (hq : s.Quiet) (hv : s.vol.Shape)
    (hh : s.vol.HintOk) (hP : P s.disk) (hok : s.CacheOk (fatNextSector s.vol c))
    (he : fatNext s.vol s.disk c = fatEoc s.vol) (hf : freeCluster s.vol s.disk = 0) :
    ∃ s', fatAllocNextCluster c clear s = .ok 0 s' ∧ Kept P s s' ∧ s'.Coherent := by
  obtain ⟨t, hrun, hk, hco⟩ := fatGetNextCluster_next (P := P) hs hq hv.bytes hP hok
  obtain ⟨u, hrun', hfd, -, hco'⟩ := fatFindFreeCluster_run (P := P) hk.mounted (hk.quiet hq)
    (hk.vol ▸ hv) (hk.vol ▸ hh) (hk.disk ▸ hP) hco.tableOk
  rw [hk.vol, hk.disk] at hrun' hfd
  rw [hf] at hrun' hfd
  refine ⟨u, returning_ok ?_, ⟨hk.toRan.trans hfd.toRan, hfd.disk.trans hk.disk, ?_,
    hfd.handle.trans hk.handle⟩, hco' (.inl hco)⟩
  · rw [getVol_bind, bind_ok hrun, if_neg (not_not.mpr he), bind_ok hrun', if_pos rfl, pure_run]
  · rw [hfd.vol, if_pos rfl, hk.vol]

theorem alloc_existing (clear : Bool) (last : Nat) (hs : s.Mounted) (hq : s.Quiet) (hv : s.vol.Shape)
    (hc : s.vol.HasEntry last) (hP : P s.disk) (hok : s.TableOk)
    (he : fatEntry s.vol s.disk 0 last ≠ fatEoc s.vol) :
    ∃ s', fatAllocNextCluster last clear s = .ok (fatEntry s.vol s.disk 0 last) s' ∧
      Kept P s s' ∧ s'.Coherent := by
  rw [← fatNext_eq hv hc] at he ⊢
  exact alloc_next clear last hs hq hv.bytes hP (fatNextSector_eq hv hc ▸ hok.entry hv hc) he

theorem alloc_none (clear : Bool) (last : Nat) (hs : s.Mounted) (hq : s.Quiet) (hv : s.vol.Shape)
    (hh : s.vol.HintOk) (hc : s.vol.HasEntry last) (hP : P s.disk) (hok : s.TableOk)
    (he : fatEntry s.vol s.disk 0 last = fatEoc s.vol) (hf : freeCluster s.vol s.disk = 0) :
    ∃ s', fatAllocNextCluster last clear s = .ok 0 s' ∧ Kept P s s' ∧ s'.Coherent := by
  rw [← fatNext_eq hv hc] at he
  exact alloc_full clear last hs hq hv hh hP (fatNextSector_eq hv hc ▸ hok.entry hv hc) he hf

theorem link_run (last c : Nat) (hs : s.Mounted) (hq : s.Quiet) (hv : s.vol.Shape) (hl : s.vol.HasEntry last)
    (hc : s.vol.HasEntry c) (hne : c ≠ last) (hok : s.TableOk)
    (hP : ∀ d, Agree s.vol (fun j => j = c ∨ j = last) (fun _ _ => False) s.disk d → P d) :
    ∃ s', (∀ (β : Type) (k : Int → FatM β),
        (fatSetNextCluster c (fatEoc s.vol) >>= fun _ => fatSetNextCluster last c >>= k) s = k 0 s') ∧
      Became P s'.disk s s' ∧ Linked s.vol last c s.disk s'.disk ∧ s'.Coherent ∧
      ∃ m < s.vol.fatSize, s'.cache.sector = s.vol.fatSector (s.vol.numFats - 1) m := by
  obtain ⟨t, hrun, hw⟩ := fatSetNextCluster_run (P := P) hs hq hv hc (fatEoc_lt _ hv)
    (fun d hd => hP d (hd.mono (fun _ h => .inl h) fun _ _ h => h)) (hok.entry hv hc)
  have hvol := hw.became.vol
  obtain ⟨u, hrun', hw'⟩ := fatSetNextCluster_run (P := P) (c := last) (x := c) hw.became.mounted
    (hw.became.quiet hq) (hvol ▸ hv) (hvol ▸ hl) (hvol ▸ hasEntry_lt hv hc)
    (fun d hd => hP d ((hw.set.agree (.inl rfl)).trans
      ((hvol ▸ hd).mono (fun _ h => .inr h) fun _ _ h => h))) (hw.coherent _)
  refine ⟨u, fun β k => by rw [bind_ok hrun, bind_ok hrun'], hw.became.trans hw'.became,
    .of_sets hv hc hl hne hw.set (hvol ▸ hw'.set), hw'.coherent, hvol ▸ hw'.label⟩

theorem clear_run (hs : s.Mounted) (hq : s.Quiet) (hv : s.vol.Shape) (hc : s.vol.IsCluster c)
    (hlab : ∃ m < s.vol.fatSize, s.cache.sector = s.vol.fatSector (s.vol.numFats - 1) m)
    (hP : ∀ d, Agree s.vol (fun _ => False) (fun n _ => s.vol.InCluster c n) s.disk d → P d) :
    ∃ s', (∀ (β : Type) (k : PUnit → FatM β),
        (flushSector >>= fun _ =>
          modifyBuf (fun b i => if i < s.vol.bytesPerSector then 0 else b i) >>= fun _ =>
          clearLoop s.vol.sectorsPerCluster (fatFirstSectorOfCluster s.vol c) >>= k) s = k ⟨⟩ s') ∧
      Ran P s s' ∧ s'.vol = s.vol ∧ s'.handle = s.handle ∧ Zeroed s.vol c s.disk s'.disk ∧
      (∀ n, ¬ s.vol.InFat n → s'.CacheOk n) ∧ (2 ≤ s.vol.numFats → s'.TableOk) := by
  obtain ⟨t, hrun, hk, hcache, hbuf⟩ := flush_run (P := P) hs hq (hP _ (.refl ..))
  let u : FatState := { t with buf := fun i => if i < s.vol.bytesPerSector then 0 else t.buf i }
  have hdirty : t.cache.dirty = false := by rw [hcache]
  have hudisk : u.disk = s.disk := by
    rw [← hk.disk, FatState.disk_clean (s := u) hdirty, FatState.disk_clean hdirty]
    rfl
  have hle := clusterSector_le hv hc
  have hzero : ∀ k ≤ s.vol.sectorsPerCluster, Agree s.vol (fun _ => False)
      (fun n _ => s.vol.InCluster c n) s.disk fun i =>
        if s.vol.clusterSector c ≤ i ∧ i < s.vol.clusterSector c + k then u.buf else u.disk i := by
    intro k hk
    have hrest : ∀ n, ¬ s.vol.InCluster c n → (if s.vol.clusterSector c ≤ n ∧
        n < s.vol.clusterSector c + k then u.buf else u.disk n) = s.disk n := by
      intro n hn
      rw [hudisk, if_neg]
      exact fun h => hn ⟨h.1, by omega⟩
    refine ⟨fun k hk j hj _ => fatNibble_congr hk hj fun n hn => ?_, fun n i _ hn => ?_⟩
    · exact hrest n fun hn' => not_inFat_of_cluster hv hn' hn
    · exact congrFun (hrest n hn) i
  obtain ⟨w, hrun', hran, hvol, hh, hcache', hbuf', hdisk⟩ := clearLoop_run (P := P) (s := u)
    s.vol.sectorsPerCluster (s.vol.clusterSector c)
    ⟨hk.mounted.ready, hk.mounted.dev, hk.mounted.label, hk.mounted.bldev, hk.mounted.reads⟩
    (hk.quiet hq) hdirty hle fun k hk => hP _ (hzero k hk)
  have hz : Zeroed s.vol c s.disk w.disk := by
    refine ⟨fun n hn i hi => ?_, fun n hn => ?_⟩
    · rw [hdisk]
      simp only [hn.2, hn.1, and_self, if_true, u, hv.bytes, hi]
    · rw [hdisk, ← hudisk]
      exact if_neg hn
  have hfat : ∀ n, ¬ (∃ m < s.vol.fatSize, n = s.vol.fatSector (s.vol.numFats - 1) m) → w.CacheOk n := by
    intro n hn _ hl
    obtain ⟨m, hm, hm'⟩ := hlab
    refine absurd ⟨m, hm, ?_⟩ hn
    rw [← hl, hcache', ← hm']
    show t.cache.sector = s.cache.sector
    rw [hcache]
  refine ⟨w, fun β k => ?_, ⟨hran.part.trans hk.part, hran.mounted, fun _ => hran.quiet (hk.quiet hq),
    hk.writes.trans hk.part hran.writes⟩, hvol.trans hk.vol, hh.trans hk.handle, hz, ?_, ?_⟩
  · rw [bind_ok hrun, fatFirstSectorOfCluster_eq hv hc]
    exact bind_ok hrun'
  · intro n hn
    refine hfat n ?_
    rintro ⟨m, hm, rfl⟩
    have h0 := hv.numFats
    exact hn (fatSector_inFat (by omega) hm)
  · intro h2 m hm
    have hwv : w.vol = s.vol := hvol.trans hk.vol
    rw [hwv] at hm ⊢
    refine hfat _ ?_
    rintro ⟨m', hm', h⟩
    have := (fatSector_inj hm hm' h).1
    omega

theorem alloc_extends (clear : Bool) (last : Nat) (hs : s.Mounted) (hq : s.Quiet) (hv : s.vol.Shape)
    (hh : s.vol.HintOk) (hl : s.vol.HasEntry last)
    (hok : s.TableOk) (he : fatEntry s.vol s.disk 0 last = fatEoc s.vol) (hf : freeCluster s.vol s.disk ≠ 0)
    (hP : ∀ d, Agree s.vol (fun j => j = freeCluster s.vol s.disk ∨ j = last)
      (fun n _ => clear = true ∧ s.vol.InCluster (freeCluster s.vol s.disk) n) s.disk d → P d) :
    ∃ s', fatAllocNextCluster last clear s = .ok (freeCluster s.vol s.disk) s' ∧
      Extended P clear last (freeCluster s.vol s.disk) s s' := by
  obtain ⟨hc, hfree⟩ := freeCluster_spec hh hf
  have hce : s.vol.HasEntry (freeCluster s.vol s.disk) := hc.2
  have hne : freeCluster s.vol s.disk ≠ last := by
    intro h
    rw [h, he] at hfree
    exact absurd (hfree ▸ hasEntry_lt_eoc hv hl) (Nat.not_lt_zero _)
  obtain ⟨t, hrun, hk, hco⟩ := fatGetNextCluster_run (P := P) hs hq hv hl (hP _ (.refl ..))
    (hok.entry hv hl)
  obtain ⟨u, hrun', hfd, -, hco'⟩ := fatFindFreeCluster_run (P := P) hk.mounted (hk.quiet hq)
    (hk.vol ▸ hv) (hk.vol ▸ hh) (hk.disk ▸ hP _ (.refl ..)) hco.tableOk
  rw [hk.vol, hk.disk] at hrun' hfd hco'
  have huvol : u.vol = { s.vol with lastClusterAlloc := freeCluster s.vol s.disk } := by
    rw [hfd.vol, if_neg hf, hk.vol]
  have hudisk : u.disk = s.disk := hfd.disk.trans hk.disk
  have hran := hk.toRan.trans hfd.toRan
  generalize freeCluster s.vol s.disk = c at *
  have hP' : ∀ d, Agree u.vol (fun j => j = c ∨ j = last)
      (fun n _ => clear = true ∧ s.vol.InCluster c n) u.disk d → P d := fun d hd =>
    hP d (Agree.of_hint (huvol ▸ hudisk ▸ hd))
  obtain ⟨w, hrun'', hb, hlink, hco'', hlab⟩ := link_run (P := P) last c hfd.mounted
    (hfd.quiet (hk.quiet hq)) (huvol ▸ hv.hint c) (huvol ▸ hl) (huvol ▸ hce) hne
    (hco' (.inr hf)).tableOk fun d hd => hP' d (hd.mono (fun _ h => h) fun _ _ h => h.elim)
  have hlink' : Linked s.vol last c s.disk w.disk := by
    rw [huvol, hudisk] at hlink
    exact ⟨hlink.entry, hlink.copies, .of_hint hlink.agree⟩
  have hwvol := hb.vol.trans huvol
  have hwh := (hb.handle.trans hfd.handle).trans hk.handle
  have hbody : ∀ k : FatVolHandle → Nat → FatM Nat, (do
      let v ← getVol
      let next ← fatGetNextCluster last
      if next ≠ fatEoc v then pure next
      else
        let next ← fatFindFreeCluster
        if next = 0 then pure 0
        else
          let _ ← fatSetNextCluster next (fatEoc v)
          let _ ← fatSetNextCluster last next
          k v next) s = k s.vol c w := by
    intro k
    have hr := hrun'' _ fun _ => k s.vol c
    rw [show fatEoc u.vol = fatEoc s.vol by rw [huvol]; rfl] at hr
    rw [getVol_bind, bind_ok hrun, if_neg (not_not.mpr he), bind_ok hrun', if_neg hf, hr]
  cases clear with
  | false =>
    refine ⟨w, returning_ok (hbody _), hran.trans hb.toRan, hwh, hwvol,
      ⟨w.disk, hlink', fun _ => rfl, fun h => absurd h (by simp)⟩, fun _ => hco'', fun n _ => hco'' n,
      fun _ => hco''.tableOk⟩
  | true =>
    have hcu : u.vol.IsCluster c := huvol ▸ hc
    obtain ⟨z, hrunz, hranz, hzvol, hzh, hz, hok1, hok2⟩ := clear_run (P := P) (c := c) (s := w)
      hb.mounted (hb.quiet (hfd.quiet (hk.quiet hq))) (hwvol ▸ hv.hint c) (hwvol ▸ hc)
      (hwvol ▸ huvol ▸ hlab) fun d hd => hP d (by
        rw [hwvol] at hd
        exact (hlink'.agree.mono (fun _ h => h) fun _ _ h => h.elim).trans
          ((Agree.of_hint hd).mono (fun _ h => h.elim) fun _ _ h => ⟨rfl, h⟩))
    rw [hwvol] at hz hok1 hok2
    rw [hwvol] at hrunz
    refine ⟨z, returning_ok ((hbody _).trans (hrunz _ fun _ => pure c)), hran.trans (hb.toRan.trans hranz),
      hzh.trans hwh, hzvol.trans hwvol,
      ⟨w.disk, hlink', fun h => absurd h (by simp), fun _ => ⟨hz.zero, hz.rest⟩⟩,
      fun h => absurd h (by simp), hok1, hok2⟩

end Stm32Logger
