import Mathlib.Data.List.GetD
import Stm32Logger.Chain
import Stm32Logger.Fat.Alloc

/-!
# Positions in a cluster chain

Where a byte of a file is on the volume, given the clusters of its chain, and
what a handle's position and current cluster say about it.
-/

namespace Stm32Logger

section
variable {v : FatVolHandle} {d d' : Disk} {cs : List Nat}

def FatVolHandle.clusterBytes (v : FatVolHandle) : Nat := 512 * v.sectorsPerCluster

def chainSector (v : FatVolHandle) (cs : List Nat) (p : Nat) : Nat :=
  v.clusterSector (cs.getD (p / v.clusterBytes) 0) + p / 512 % v.sectorsPerCluster

def chainByte (v : FatVolHandle) (d : Disk) (cs : List Nat) (p : Nat) : UInt8 :=
  d (chainSector v cs p) (p % 512)

/-- The clusters of a chain in the table of copy 0, which ends in the mark `fat_eoc` gives. -/
structure ChainOk (v : FatVolHandle) (d : Disk) (cs : List Nat) : Prop where
  chain : Chain.IsChain (fatEntry v d 0) (fatEoc v) cs
  cluster : ∀ c ∈ cs, v.IsCluster c

theorem ChainOk.eoc_not_mem (hv : v.Shape) (h : ChainOk v d cs) : fatEoc v ∉ cs := fun hm =>
  absurd (hasEntry_lt_eoc hv (h.cluster _ hm).2) (Nat.lt_irrefl _)

theorem ChainOk.nodup (hv : v.Shape) (h : ChainOk v d cs) : cs.Nodup :=
  h.chain.nodup (h.eoc_not_mem hv)

theorem ChainOk.congr (h : ChainOk v d cs) (he : ∀ c ∈ cs, fatEntry v d' 0 c = fatEntry v d 0 c) :
    ChainOk v d' cs := ⟨h.chain.congr he, h.cluster⟩

theorem ChainOk.entry_ne_zero (hv : v.Shape) (h : ChainOk v d cs) (hc : c ∈ cs) :
    fatEntry v d 0 c ≠ 0 := by
  obtain ⟨i, hi, rfl⟩ := List.getElem_of_mem hc
  by_cases hl : i + 1 < cs.length
  · rw [h.chain.getElem hl]
    have := (h.cluster _ (List.getElem_mem hl)).1
    omega
  · have hlast : cs[i] = cs.getLast h.chain.ne_nil := by
      rw [List.getLast_eq_getElem]
      congr 1
      omega
    rw [hlast, h.chain.getLast]
    exact Nat.ne_of_gt (Nat.zero_lt_of_lt (hasEntry_lt_eoc hv (h.cluster _ hc).2))

theorem clusterBytes_pos (hv : v.Shape) : 0 < v.clusterBytes := by
  have := spc_pos hv
  unfold FatVolHandle.clusterBytes
  omega

theorem clusterBytes_le (hv : v.Shape) : 32 ∣ v.clusterBytes ∧ v.clusterBytes ≤ 2 ^ 16 := by
  obtain ⟨e, he, hspc⟩ := hv.spc
  have hle : 2 ^ e ≤ 2 ^ 7 := Nat.pow_le_pow_right (by decide) he
  rw [FatVolHandle.clusterBytes, hspc]
  exact ⟨⟨16 * 2 ^ e, by omega⟩, by omega⟩

theorem le_clusterBytes (hv : v.Shape) : 512 ≤ v.clusterBytes := by
  have := spc_pos hv
  unfold FatVolHandle.clusterBytes
  omega

theorem div_clusterBytes (v : FatVolHandle) (p : Nat) :
    p / v.clusterBytes = p / 512 / v.sectorsPerCluster := by
  rw [FatVolHandle.clusterBytes, Nat.div_div_eq_div_mul]

theorem getD_mem (hi : i < cs.length) : cs.getD i 0 ∈ cs := by
  rw [List.getD_eq_getElem _ _ hi]
  exact List.getElem_mem hi

theorem chainSector_inCluster (hv : v.Shape) (cs : List Nat) (p : Nat) :
    v.InCluster (cs.getD (p / v.clusterBytes) 0) (chainSector v cs p) := by
  have := Nat.mod_lt (p / 512) (spc_pos hv)
  unfold FatVolHandle.InCluster chainSector
  omega

theorem chainSector_lt (hv : v.Shape) (h : ChainOk v d cs) (hp : p / v.clusterBytes < cs.length) :
    chainSector v cs p < 2 ^ 32 :=
  inCluster_lt hv (h.cluster _ (getD_mem hp)) (chainSector_inCluster hv cs p)

theorem chainSector_not_inFat (hv : v.Shape) : ¬ v.InFat (chainSector v cs p) :=
  not_inFat_of_cluster hv (chainSector_inCluster hv cs p)

def lastOf (cs : List Nat) : Nat := cs.getD (cs.length - 1) 0

theorem getLast_eq_lastOf (h : cs ≠ []) : cs.getLast h = lastOf cs := by
  rw [lastOf, List.getLast_eq_getElem, List.getD_eq_getElem]

theorem ChainOk.pos (h : ChainOk v d cs) : 0 < cs.length := List.length_pos_of_ne_nil h.chain.ne_nil

theorem ChainOk.lastOf_mem (h : ChainOk v d cs) : lastOf cs ∈ cs := by
  have := h.pos
  exact getD_mem (by omega)

theorem ChainOk.entry_last (h : ChainOk v d cs) : fatEntry v d 0 (lastOf cs) = fatEoc v := by
  rw [← getLast_eq_lastOf h.chain.ne_nil, h.chain.getLast]

theorem ChainOk.entry_getD (h : ChainOk v d cs) (hi : i + 1 < cs.length) :
    fatEntry v d 0 (cs.getD i 0) = cs.getD (i + 1) 0 := by
  rw [List.getD_eq_getElem _ _ hi, List.getD_eq_getElem _ _ (Nat.lt_of_succ_lt hi), h.chain.getElem hi]

theorem chainSector_inj (hv : v.Shape) (hcl : ∀ c ∈ cs, v.IsCluster c) (hn : cs.Nodup)
    (hp : p / v.clusterBytes < cs.length) (hq : q / v.clusterBytes < cs.length)
    (hs : chainSector v cs p = chainSector v cs q) : p / 512 = q / 512 := by
  have hpc := hcl _ (getD_mem hp)
  have hqc := hcl _ (getD_mem hq)
  have hc := cluster_unique hpc.1 hqc.1 (chainSector_inCluster hv cs p)
    (hs ▸ chainSector_inCluster hv cs q)
  have hi : p / v.clusterBytes = q / v.clusterBytes := by
    rw [List.getD_eq_getElem _ _ hp, List.getD_eq_getElem _ _ hq] at hc
    exact hn.getElem_inj_iff.mp hc
  unfold chainSector at hs
  rw [hi] at hs
  have hm : p / 512 % v.sectorsPerCluster = q / 512 % v.sectorsPerCluster := by omega
  rw [div_clusterBytes, div_clusterBytes] at hi
  rw [← Nat.div_add_mod (p / 512) v.sectorsPerCluster, hi, hm, Nat.div_add_mod]

theorem chainSector_succ (cs : List Nat) (hv : v.Shape) (hp : (p + n) / 512 = p / 512 + 1)
    (hc : (p + n) / v.clusterBytes = p / v.clusterBytes) :
    chainSector v cs (p + n) = chainSector v cs p + 1 := by
  have hpos := spc_pos hv
  rw [chainSector, chainSector, hc, hp]
  rw [div_clusterBytes, div_clusterBytes, hp] at hc
  have h1 := Nat.div_add_mod (p / 512) v.sectorsPerCluster
  have h2 := Nat.div_add_mod (p / 512 + 1) v.sectorsPerCluster
  rw [hc] at h2
  omega

/-- Up to byte `n` of a file the test of `fat_write`, which is made on sector
numbers, finds where its clusters end: the data area starts on a multiple of
the cluster size, or the bytes end before the first sector of the file that is
taken for a last one. -/
def FatVolHandle.Tests (v : FatVolHandle) (n : Nat) : Prop :=
  v.firstDataSector % v.sectorsPerCluster = 0 ∨
    n < 512 * (v.sectorsPerCluster - v.firstDataSector % v.sectorsPerCluster)

theorem FatVolHandle.Layout.tests (h : v.Layout) (n : Nat) : v.Tests n := .inl h.aligned

theorem FatVolHandle.Tests.mono (h : v.Tests n) (hm : m ≤ n) : v.Tests m :=
  h.imp_right (Nat.lt_of_le_of_lt hm)

theorem chainSector_boundary (cs : List Nat) (hv : v.Shape) (hp : (p + n) / 512 = p / 512 + 1)
    (ht : v.Tests (p + n)) :
    (chainSector v cs p + 1) % v.sectorsPerCluster = 0 ↔
      (p + n) / v.clusterBytes = p / v.clusterBytes + 1 := by
  have hpos := spc_pos hv
  have hsector : (chainSector v cs p + 1) % v.sectorsPerCluster =
      (v.firstDataSector % v.sectorsPerCluster + p / 512 % v.sectorsPerCluster + 1) %
        v.sectorsPerCluster := by
    rw [chainSector, FatVolHandle.clusterSector, Nat.add_right_comm v.firstDataSector, Nat.add_right_comm _ _ 1,
      Nat.add_mul_mod_self_right, Nat.add_assoc, Nat.add_assoc, Nat.mod_add_mod]
  rw [hsector, div_clusterBytes, div_clusterBytes, hp]
  rcases ht with ha | hlt
  · have hmod : (p / 512 % v.sectorsPerCluster + 1) % v.sectorsPerCluster =
        (p / 512 + 1) % v.sectorsPerCluster := Nat.mod_add_mod ..
    rw [ha, Nat.zero_add, hmod, Nat.succ_div]
    constructor
    · intro h
      rw [if_pos (Nat.dvd_of_mod_eq_zero h)]
    · intro h
      by_contra hne
      rw [if_neg fun hd => hne (Nat.mod_eq_zero_of_dvd hd)] at h
      omega
  · -- the sector is no last one, neither of the cluster nor by its number
    have hsec : p / 512 + 1 < v.sectorsPerCluster - v.firstDataSector % v.sectorsPerCluster := by omega
    rw [Nat.mod_eq_of_lt (by omega : p / 512 < v.sectorsPerCluster), Nat.mod_eq_of_lt (by omega),
      Nat.div_eq_of_lt (by omega : p / 512 < v.sectorsPerCluster),
      Nat.div_eq_of_lt (by omega : p / 512 + 1 < v.sectorsPerCluster)]
    omega

-- ---------------------------------------------------------------------------
-- A chain that grows
-- ---------------------------------------------------------------------------

/-- The chain `cs` as it is, or with the free cluster the search finds at its
end; with `clear` that cluster is zeroed. -/
inductive Grown (v : FatVolHandle) (clear : Bool) (cs : List Nat) (d : Disk) :
    List Nat → Disk → Prop where
  | same : Grown v clear cs d cs d
  | snoc {d1 d2 : Disk} (hf : freeCluster v d ≠ 0)
      (hl : Linked v (lastOf cs) (freeCluster v d) d d1) (hkeep : clear = false → d2 = d1)
      (hzero : clear = true → Zeroed v (freeCluster v d) d1 d2) :
      Grown v clear cs d (cs ++ [freeCluster v d]) d2

def FatVolHandle.Next (v : FatVolHandle) (d : Disk) (c : Nat) : Prop := c ≠ 0 ∧ c = freeCluster v d

/-- The entries growing may change: those of the last cluster and of the new one. -/
def FatVolHandle.Ends (v : FatVolHandle) (cs : List Nat) (d : Disk) (j : Nat) : Prop :=
  v.Next d j ∨ j ∈ cs ∧ j = lastOf cs

/-- What growing may change: these entries, and the sectors of the new cluster. -/
def GrowArea (v : FatVolHandle) (cs : List Nat) (d : Disk) : Disk → Prop :=
  Agree v (v.Ends cs d) (fun n _ => ∃ c, v.Next d c ∧ v.InCluster c n) d

theorem ends_of (hf : freeCluster v d ≠ 0) (hm : lastOf cs ∈ cs) (j : Nat)
    (h : j = freeCluster v d ∨ j = lastOf cs) : v.Ends cs d j := by
  rcases h with rfl | rfl
  · exact .inl ⟨hf, rfl⟩
  · exact .inr ⟨hm, rfl⟩

/-- Only the search hint of a volume's handle moved. -/
def Rehinted (v v' : FatVolHandle) : Prop :=
  ∃ i, v' = { v with lastClusterAlloc := i } ∧ (v.HintOk → 2 ≤ i ∧ i ≤ v.clusterCount + 2)

theorem Rehinted.refl (v : FatVolHandle) : Rehinted v v := ⟨v.lastClusterAlloc, rfl, id⟩

theorem Rehinted.trans (h : Rehinted v v') (h' : Rehinted v' v'') : Rehinted v v'' := by
  obtain ⟨i, rfl, hi⟩ := h
  obtain ⟨j, rfl, hj⟩ := h'
  exact ⟨j, rfl, fun hv => hj (hi hv)⟩

theorem Rehinted.shape (h : Rehinted v v') (hv : v.Shape) : v'.Shape := by
  obtain ⟨i, rfl, -⟩ := h
  exact hv.hint i

theorem Rehinted.layout (h : Rehinted v v') (hv : v.Layout) : v'.Layout := by
  refine ⟨h.shape hv.toShape, ?_⟩
  obtain ⟨i, rfl, -⟩ := h
  exact hv.aligned

theorem Rehinted.hintOk (h : Rehinted v v') (hh : v.HintOk) : v'.HintOk := by
  obtain ⟨i, rfl, hi⟩ := h
  exact hi hh

theorem Rehinted.chainOk (h : Rehinted v v') (hc : ChainOk v d cs) : ChainOk v' d cs := by
  obtain ⟨i, rfl, -⟩ := h
  exact ⟨hc.chain, hc.cluster⟩

theorem Rehinted.clusterBytes (h : Rehinted v v') : v'.clusterBytes = v.clusterBytes := by
  obtain ⟨i, rfl, -⟩ := h
  rfl

theorem Rehinted.clusterCount (h : Rehinted v v') : v'.clusterCount = v.clusterCount := by
  obtain ⟨i, rfl, -⟩ := h
  rfl

theorem Rehinted.inFat (h : Rehinted v v') : v'.InFat n ↔ v.InFat n := by
  obtain ⟨i, rfl, -⟩ := h
  exact Iff.rfl

theorem Rehinted.agree (h : Rehinted v v') (ha : Agree v' C B d d') : Agree v C B d d' := by
  obtain ⟨i, rfl, -⟩ := h
  exact ha.of_hint

theorem Zeroed.agree (hv : v.Shape) (h : Zeroed v c d d') (hB : ∀ n i, v.InCluster c n → B n i) :
    Agree v C B d d' :=
  ⟨fun _ hk _ hj _ => fatNibble_congr hk hj (h.inFat hv),
    fun n i _ hn => congrFun (h.rest n fun hn' => hn (hB n i hn')) i⟩

theorem Grown.growArea (hv : v.Shape) (hm : lastOf cs ∈ cs) (h : Grown v clear cs d cs' d') :
    GrowArea v cs d d' := by
  cases h with
  | same => exact .refl ..
  | snoc hf hl hkeep hzero =>
    have hl' : GrowArea v cs d _ := hl.agree.mono (ends_of hf hm) fun _ _ h => h.elim
    cases clear with
    | false => rw [hkeep rfl]; exact hl'
    | true => exact hl'.trans ((hzero rfl).agree hv fun _ _ h => ⟨_, ⟨hf, rfl⟩, h⟩)

/-- What growing a chain means in the table, whatever else changed on the volume. -/
inductive TableGrown (v : FatVolHandle) (cs : List Nat) (d : Disk) : List Nat → Disk → Prop where
  | same {d' : Disk} (h : ∀ n, v.InFat n → d' n = d n) : TableGrown v cs d cs d'
  | snoc {d' : Disk} (hf : freeCluster v d ≠ 0)
      (entry : ∀ k < v.numFats, ∀ j, v.HasEntry j → fatEntry v d' k j =
        if j = lastOf cs then freeCluster v d else if j = freeCluster v d then fatEoc v
        else fatEntry v d k j)
      (copies : CopiesEqual v d → CopiesEqual v d')
      (agree : Agree v (fun j => j = freeCluster v d ∨ j = lastOf cs) (fun _ _ => True) d d') :
      TableGrown v cs d (cs ++ [freeCluster v d]) d'

theorem freeCluster_congr (hv : v.Shape) (hh : v.HintOk) (h : ∀ n, v.InFat n → d' n = d n) :
    freeCluster v d' = freeCluster v d := by
  obtain ⟨hl, hl'⟩ := hh
  have he : ∀ j < v.clusterCount + 2, fatEntry v d' 0 j = fatEntry v d 0 j := fun j hj =>
    fatEntry_congr hv hv.numFats hj h
  simp only [freeCluster]
  rw [firstFree_congr fun j _ hj => he j (by omega), firstFree_congr fun j _ hj => he j (by omega)]

theorem CopiesEqual.congr (hv : v.Shape) (h : ∀ n, v.InFat n → d' n = d n) (hd : CopiesEqual v d) :
    CopiesEqual v d' := fun k hk j hj => by
  rw [fatNibble_congr hk hj h, fatNibble_congr hv.numFats hj h, hd k hk j hj]

theorem Grown.table {d0 d1 d2 d3 : Disk} (hv : v.Shape) (hh : v.HintOk)
    (h0 : ∀ n, v.InFat n → d1 n = d0 n) (h : Grown v clear cs d1 cs' d2)
    (h3 : ∀ n, v.InFat n → d3 n = d2 n) : TableGrown v cs d0 cs' d3 := by
  have hfc := freeCluster_congr hv hh h0
  cases h with
  | same => exact .same fun n hn => (h3 n hn).trans (h0 n hn)
  | @snoc e _ hf hl hkeep hzero =>
    have he : ∀ n, v.InFat n → d3 n = e n := by
      intro n hn
      rw [h3 n hn]
      cases hcl : clear with
      | false => rw [hkeep hcl]
      | true => exact (hzero hcl).inFat hv n hn
    rw [hfc] at hf hl ⊢
    refine .snoc hf (fun k hk j hj => ?_) (fun hd => (hl.copies (hd.congr hv h0)).congr hv he) ?_
    · rw [fatEntry_congr hv hk hj he, hl.entry k hk j hj, fatEntry_congr hv hk hj h0]
    · refine ⟨fun k hk j hj hC => ?_, fun n i _ hn => absurd trivial hn⟩
      rw [fatNibble_congr hk hj he, hl.agree.fat k hk j hj hC, fatNibble_congr hk hj h0]

theorem ChainOk.free_not_mem (hv : v.Shape) (hh : v.HintOk) (hc : ChainOk v d cs)
    (hf : freeCluster v d ≠ 0) : freeCluster v d ∉ cs := fun hm =>
  hc.entry_ne_zero hv hm (freeCluster_spec hh hf).2

theorem TableGrown.chainOk (hv : v.Shape) (hh : v.HintOk) (hc : ChainOk v d cs)
    (h : TableGrown v cs d cs' d') : ChainOk v d' cs' := by
  cases h with
  | same h => exact hc.congr fun c hm => fatEntry_congr hv hv.numFats (hc.cluster c hm).2 h
  | snoc hf entry _ _ =>
    have hfree := (freeCluster_spec hh hf).1
    have hnot := hc.free_not_mem hv hh hf
    have hlast := getLast_eq_lastOf hc.chain.ne_nil
    have hmem := hc.lastOf_mem
    refine ⟨hc.chain.snoc (hc.eoc_not_mem hv) ?_ ?_ ?_, ?_⟩
    · rw [hlast, entry 0 hv.numFats _ (hc.cluster _ hmem).2, if_pos rfl]
    · have hne : freeCluster v d ≠ lastOf cs := fun h => hnot (h ▸ hmem)
      rw [entry 0 hv.numFats _ hfree.2, if_neg hne, if_pos rfl]
    · intro c hm hne
      have hne' : c ≠ freeCluster v d := fun h => hnot (h ▸ hm)
      rw [entry 0 hv.numFats _ (hc.cluster _ hm).2, if_neg fun h => hne (h.trans hlast.symm),
        if_neg hne']
    · intro c hm
      rcases List.mem_append.mp hm with hm | hm
      · exact hc.cluster c hm
      · rwa [List.mem_singleton.mp hm]

theorem TableGrown.congr (hv : v.Shape) (h : TableGrown v cs d cs' d')
    (he : ∀ n, v.InFat n → d'' n = d' n) : TableGrown v cs d cs' d'' := by
  cases h with
  | same h => exact .same fun n hn => (he n hn).trans (h n hn)
  | snoc hf entry copies agree =>
    refine .snoc hf (fun k hk j hj => ?_) (fun hd => (copies hd).congr hv he) ?_
    · rw [fatEntry_congr hv hk hj he, entry k hk j hj]
    · refine ⟨fun k hk j hj hC => ?_, fun n i _ hn => absurd trivial hn⟩
      rw [fatNibble_congr hk hj he, agree.fat k hk j hj hC]

theorem TableGrown.prefix (h : TableGrown v cs d cs' d') : cs <+: cs' := by
  cases h with
  | same => exact List.prefix_rfl
  | snoc => exact List.prefix_append ..

theorem Grown.chainByte (hv : v.Shape) (hh : v.HintOk) (hc : ChainOk v d cs)
    (h : Grown v clear cs d cs' d') (hq : q / v.clusterBytes < cs.length) :
    chainByte v d' cs q = chainByte v d cs q := by
  have harea := h.growArea hv hc.lastOf_mem
  cases h with
  | same => rfl
  | snoc hf =>
    refine harea.rest _ _ (chainSector_not_inFat hv) ?_
    rintro ⟨_, ⟨-, rfl⟩, hin⟩
    have hmem := getD_mem hq
    have := cluster_unique (hc.cluster _ hmem).1 (freeCluster_spec hh hf).1.1
      (chainSector_inCluster hv cs q) hin
    exact hc.free_not_mem hv hh hf (this ▸ hmem)

theorem chainSector_prefix (h : cs <+: cs') (hp : p / v.clusterBytes < cs.length) :
    chainSector v cs' p = chainSector v cs p := by
  obtain ⟨e, rfl⟩ := h
  rw [chainSector, chainSector, List.getD_append _ _ _ _ hp]

-- ---------------------------------------------------------------------------
-- Storing bytes in a chain
-- ---------------------------------------------------------------------------

theorem chainEdit_inFat (cs : List Nat) (hv : v.Shape) :
    ∀ n, v.InFat n → d.edit (chainSector v cs p) f n = d n := fun _ hn =>
  Disk.edit_of_ne _ fun h => chainSector_not_inFat hv (h ▸ hn)

theorem memcpy_apply {b : Sector} : memcpy o bs b i =
    if o ≤ i ∧ i < o + bs.length then bs.getD (i - o) 0 else b i := rfl

theorem chainByte_edit (bs : List UInt8) (hv : v.Shape) (hc : ChainOk v d cs)
    (hp : p / v.clusterBytes < cs.length) (hq : q / v.clusterBytes < cs.length)
    (hlen : p % 512 + bs.length ≤ 512) :
    chainByte v (e.edit (chainSector v cs p) (memcpy (p % 512) bs)) cs q =
      if p ≤ q ∧ q < p + bs.length then bs.getD (q - p) 0 else chainByte v e cs q := by
  by_cases hs : chainSector v cs q = chainSector v cs p
  · have hpq := chainSector_inj hv hc.cluster (hc.nodup hv) hq hp hs
    rw [chainByte, hs, Disk.edit_self, memcpy_apply]
    by_cases hin : p ≤ q ∧ q < p + bs.length
    · have h1 : p % 512 ≤ q % 512 ∧ q % 512 < p % 512 + bs.length := by omega
      have h2 : q % 512 - p % 512 = q - p := by omega
      rw [if_pos h1, if_pos hin, h2]
    · have h1 : ¬ (p % 512 ≤ q % 512 ∧ q % 512 < p % 512 + bs.length) := by omega
      rw [if_neg h1, if_neg hin, chainByte, hs]
  · have hin : ¬ (p ≤ q ∧ q < p + bs.length) := by
      rintro ⟨h1, h2⟩
      have hd : q / 512 = p / 512 := by omega
      refine hs ?_
      rw [chainSector, chainSector, div_clusterBytes, div_clusterBytes, hd]
    rw [chainByte, Disk.edit_of_ne _ hs, if_neg hin, chainByte]

def ChainArea (v : FatVolHandle) (cs : List Nat) (p n : Nat) (m i : Nat) : Prop :=
  ∃ q, p ≤ q ∧ q < p + n ∧ q / v.clusterBytes < cs.length ∧ m = chainSector v cs q ∧ i = q % 512

theorem TableGrown.chainArea (hv : v.Shape) (h : TableGrown v cs d cs' d')
    (ha : ChainArea v cs' p n m i) :
    ChainArea v cs p n m i ∨ ∃ c, v.Next d c ∧ v.InCluster c m := by
  obtain ⟨q, h1, h2, h3, rfl, rfl⟩ := ha
  cases h with
  | same => exact .inl ⟨q, h1, h2, h3, rfl, rfl⟩
  | snoc hf =>
    by_cases hq : q / v.clusterBytes < cs.length
    · exact .inl ⟨q, h1, h2, hq, chainSector_prefix (List.prefix_append ..) hq, rfl⟩
    · rw [List.length_append, List.length_singleton] at h3
      have hidx : q / v.clusterBytes = cs.length := by omega
      have hin := chainSector_inCluster hv (cs ++ [freeCluster v d]) q
      rw [hidx, List.getD_append_right _ _ _ _ (Nat.le_refl _), Nat.sub_self] at hin
      exact .inr ⟨_, ⟨hf, rfl⟩, hin⟩

theorem chainEdit_agree (bs : List UInt8) (hv : v.Shape) (hp : p / v.clusterBytes < cs.length)
    (hlen : p % 512 + bs.length ≤ 512) :
    Agree v C (ChainArea v cs p bs.length) d
      (d.edit (chainSector v cs p) (memcpy (p % 512) bs)) := by
  refine ⟨fun _ hk _ hj _ => fatNibble_congr hk hj (chainEdit_inFat cs hv), fun n i _ hn => ?_⟩
  by_cases hs : n = chainSector v cs p
  · subst hs
    rw [Disk.edit_self, memcpy_apply, if_neg]
    rintro ⟨h1, h2⟩
    refine hn ⟨p / 512 * 512 + i, by omega, by omega, ?_, ?_, by omega⟩
    · have : (p / 512 * 512 + i) / 512 = p / 512 := by omega
      rw [div_clusterBytes, this, ← div_clusterBytes]
      exact hp
    · have : (p / 512 * 512 + i) / 512 = p / 512 := by omega
      rw [chainSector, chainSector, div_clusterBytes, div_clusterBytes, this]
  · rw [Disk.edit_of_ne _ hs]

end

end Stm32Logger
