import Stm32Logger.Fat.Concatenation

/-!
# When the search for a cluster fails

`fat_find_free_cluster` counts its first loop up to `cluster_count`, while the
clusters are numbered from 2: of the last two it looks only at those below the
hint. A request of `WriteToFile` fails on a volume where these are the free ones.
-/

namespace Stm32Logger

def FatVolHandle.Free (v : FatVolHandle) (d : Disk) (c : Nat) : Prop := v.IsCluster c ∧ fatEntry v d 0 c = 0

/-- What `fat_write` asks for: the first cluster of an empty file, or one after
`last`, at which the chain of the file ends. -/
inductive Request where
  | first (size : Nat)
  | next (last : Nat) (clear : Bool)

/-- The request is one `fat_write` makes for the handle of the log file. -/
def Request.Made (s : FatState) : Request → Prop
  | .first size => (s.handle .file).fat = true ∧ (s.handle .file).curCluster = 0 ∧ size ≠ 0
  | .next last _ => s.vol.HasEntry last ∧ fatEntry s.vol s.disk 0 last = fatEoc s.vol

/-- The request is answered with cluster `c`; 0 is its failure. -/
def Request.Gets (s : FatState) (c : Nat) : Request → Prop
  | .first size => ∃ ok t, allocFirst .file size s = .ok ok t ∧ (t.handle .file).firstCluster = c ∧
    (ok = true ↔ c ≠ 0)
  | .next last clear => ∃ t, fatAllocNextCluster last clear s = .ok c t

structure FreeOrFull (v : FatVolHandle) (d : Disk) (c : Nat) : Prop where
  free : c ≠ 0 → v.Free d c
  full : c = 0 → ∀ j, ¬ v.Free d j

/-- Where a cluster is free, one below `cluster_count` or below the hint is. -/
def FatVolHandle.Searchable (v : FatVolHandle) (d : Disk) : Prop :=
  (∃ j, v.Free d j) → ∃ j, j < max v.lastClusterAlloc v.clusterCount ∧ v.Free d j

variable {s : FatState} {v : FatVolHandle} {d : Disk} {q : Request}

-- ---------------------------------------------------------------------------
-- What the two loops look at
-- ---------------------------------------------------------------------------

theorem freeCluster_lt (hh : v.HintOk) (h : freeCluster v d ≠ 0) :
    freeCluster v d < max v.lastClusterAlloc v.clusterCount := by
  obtain ⟨hl, -⟩ := hh
  simp only [freeCluster] at h ⊢
  split
  next h1 =>
    have := firstFree_spec h1
    omega
  next h1 =>
    rw [if_neg h1] at h
    have := firstFree_spec h
    omega

theorem freeOrFull_iff (hh : v.HintOk) : FreeOrFull v d (freeCluster v d) ↔ v.Searchable d := by
  constructor
  · rintro h ⟨j, hj⟩
    have hne : freeCluster v d ≠ 0 := fun h0 => h.full h0 j hj
    exact ⟨_, freeCluster_lt hh hne, h.free hne⟩
  · intro h
    refine ⟨fun hne => freeCluster_spec hh hne, fun h0 j hj => ?_⟩
    obtain ⟨i, hi, hfree⟩ := h ⟨j, hj⟩
    exact freeCluster_none hh h0 hfree.1.1 hi hfree.2

-- ---------------------------------------------------------------------------
-- The requests
-- ---------------------------------------------------------------------------

theorem Request.gets_freeCluster (hs : s.Mounted) (hq : s.Quiet) (hv : s.vol.Shape) (hh : s.vol.HintOk)
    (hco : s.Coherent) (hm : q.Made s) : q.Gets s (freeCluster s.vol s.disk) := by
  by_cases hf : freeCluster s.vol s.disk = 0
  · cases q with
    | first size =>
      obtain ⟨hfat, hcur, hn⟩ := hm
      obtain ⟨t, hrun, -⟩ := allocFirst_none (P := fun _ => True) hs hq hv hh hfat hcur hn trivial hco hf
      refine ⟨false, _, hrun, ?_, by simp [hf]⟩
      rw [withHandle_handle, hf]
    | next last clear =>
      obtain ⟨t, hrun, -⟩ :=
        alloc_none (P := fun _ => True) clear last hs hq hv hh hm.1 trivial hco.tableOk hm.2 hf
      exact ⟨t, hf ▸ hrun⟩
  · cases q with
    | first size =>
      obtain ⟨hfat, hcur, hn⟩ := hm
      obtain ⟨t, hrun, -, -, hhandle, -⟩ := allocFirst_run (P := fun _ => True) hs hq hv hh hfat hcur hn hco hf
        fun _ _ => trivial
      refine ⟨true, t, hrun, ?_, by simp [hf]⟩
      rw [hhandle, Function.update_self]
      rfl
    | next last clear =>
      obtain ⟨t, hrun, -⟩ := alloc_extends (P := fun _ => True) clear last hs hq hv hh hm.1 hco.tableOk hm.2 hf
        fun _ _ => trivial
      exact ⟨t, hrun⟩

theorem Request.gets_unique (h : q.Gets s c) (h' : q.Gets s c') : c = c' := by
  cases q with
  | first size =>
    obtain ⟨ok, t, hrun, hc, -⟩ := h
    obtain ⟨ok', t', hrun', hc', -⟩ := h'
    rw [hrun] at hrun'
    cases hrun'
    exact hc.symm.trans hc'
  | next last clear =>
    obtain ⟨t, hrun⟩ := h
    obtain ⟨t', hrun'⟩ := h'
    rw [hrun] at hrun'
    cases hrun'
    rfl

/-- A request is answered, and with a free cluster unless there is none, exactly
where the search looks at one of the free clusters. -/
theorem request_iff (hs : s.Mounted) (hq : s.Quiet) (hv : s.vol.Shape) (hh : s.vol.HintOk) (hco : s.Coherent)
    (hm : q.Made s) : (∃ c, q.Gets s c ∧ FreeOrFull s.vol s.disk c) ↔ s.vol.Searchable s.disk := by
  have hgets := Request.gets_freeCluster hs hq hv hh hco hm
  rw [← freeOrFull_iff hh]
  constructor
  · rintro ⟨c, hc, hfree⟩
    rwa [← Request.gets_unique hc hgets]
  · exact fun h => ⟨_, hgets, h⟩

/-- On a volume of two clusters, both free, the first line of a log gets none. -/
theorem last_clusters_not_found :
    (smallStore 2).fs.Mounted ∧ (smallStore 2).fs.Quiet ∧ (smallStore 2).fs.vol.Shape ∧
      (smallStore 2).fs.vol.HintOk ∧
      (smallStore 2).fs.Coherent ∧ (Request.first 1).Made (smallStore 2).fs ∧
      (∀ j, 2 ≤ j → j < 4 → (smallStore 2).fs.vol.Free (smallStore 2).fs.disk j) ∧
      (Request.first 1).Gets (smallStore 2).fs 0 ∧
      ¬ ∃ c, (Request.first 1).Gets (smallStore 2).fs c ∧
        FreeOrFull (smallStore 2).fs.vol (smallStore 2).fs.disk c := by
  have hopen := smallStore_logOpen (n := 2) (by decide)
  have hq : (smallStore 2).fs.Quiet := fun _ h => absurd h List.not_mem_nil
  have hm : (Request.first 1).Made (smallStore 2).fs := ⟨rfl, rfl, Nat.one_ne_zero⟩
  have hfree : ∀ j, 2 ≤ j → j < 4 → (smallStore 2).fs.vol.Free (smallStore 2).fs.disk j := fun j hj hj' => by
    refine ⟨⟨hj, hj'⟩, ?_⟩
    interval_cases j <;> decide +kernel
  have hgets := Request.gets_freeCluster hopen.mounted hq hopen.shape hopen.hint hopen.coherent hm
  have hzero : freeCluster (smallStore 2).fs.vol (smallStore 2).fs.disk = 0 := by decide +kernel
  rw [hzero] at hgets
  refine ⟨hopen.mounted, hq, hopen.shape, hopen.hint, hopen.coherent, hm, hfree, hgets, fun ⟨c, hc, h⟩ => ?_⟩
  exact h.full (Request.gets_unique hc hgets) 2 (hfree 2 (by decide) (by decide))

/-- With a cluster that the search looks at, the same line gets one. -/
theorem request_iff_small : ∃ c, (Request.first 1).Gets (smallStore 3).fs c ∧
    FreeOrFull (smallStore 3).fs.vol (smallStore 3).fs.disk c := by
  have hopen := smallStore_logOpen (n := 3) (by decide)
  refine (request_iff (q := .first 1) hopen.mounted
    (fun _ h => absurd h List.not_mem_nil) hopen.shape hopen.hint hopen.coherent
    ⟨rfl, rfl, Nat.one_ne_zero⟩).mpr fun _ => ⟨2, by decide, ⟨by decide, by decide⟩, by decide +kernel⟩

end Stm32Logger
