import Stm32Logger.Fat.Append
import Stm32Logger.Fat.Lookup

/-!
# Directories that grow

An entry stored in a slot leaves every other slot alone. Behind the last slot
of a cluster chain `fat_write` takes another cluster, zeroed, so that what was
written ends in front of a zero slot.
-/

namespace Stm32Logger

/-- A directory as it was, or with one more cluster. -/
inductive DirGrown (v : FatVolHandle) : (dir : DirPlace) → Disk → (dir' : DirPlace) → Disk → Prop where
  | root (d : Disk) : DirGrown v .root d .root d
  | chain {cs cs' : List Nat} {d d' : Disk} (h : Grown v true cs d cs' d') :
      DirGrown v (.chain cs) d (.chain cs') d'

variable {s t u : FatState} {v : FatVolHandle} {d d' : Disk} {dir dir' : DirPlace} {es : List Sector}
  {bs : List UInt8} {e e' : Slot} {r : HandleRef}

-- ---------------------------------------------------------------------------
-- One slot of the volume
-- ---------------------------------------------------------------------------

theorem structOf_self (hlen : bs.length = 32) (j : Nat) (hj : j < 32) (b : Sector) (o : Nat) :
    memcpy o bs b (o + j) = structOf bs j := by
  rw [memcpy_apply, if_pos (by omega), Nat.add_sub_cancel_left]
  rfl

theorem entryAt_edit (hlen : bs.length = 32) (ho : e.offset % 32 = 0) (ho' : e'.offset % 32 = 0) :
    entryAt (d.edit e.sector (memcpy e.offset bs)) e' = if e' = e then structOf bs else entryAt d e' := by
  split
  next h =>
    subst h
    funext j
    rw [entryAt_apply]
    split
    next hj => rw [slotBytes, Disk.edit_self, structOf_self hlen j hj]
    next hj => rw [structOf, List.getD_eq_default _ _ (by omega)]
  next h =>
    refine entryAt_congr fun j hj => ?_
    by_cases hs : e'.sector = e.sector
    · have hne : e'.offset ≠ e.offset := fun ho => h (by
        cases e
        cases e'
        simp only [Slot.mk.injEq]
        exact ⟨hs, ho⟩)
      rw [slotBytes, slotBytes, hs, Disk.edit_self, memcpy_apply, if_neg (by omega)]
    · rw [slotBytes, slotBytes, Disk.edit_of_ne _ hs]

theorem DirPlace.slot_aligned (v : FatVolHandle) (dir : DirPlace) (i : Nat) :
    (dir.slot v i).offset % 32 = 0 := by
  show 32 * (i % 16) % 32 = 0
  omega

theorem DirPlace.Path.slot_inj (hv : v.Shape) (hd : dir.Path v d) (hi : i < dir.count v) (hj : j < dir.count v)
    (h : dir.slot v i = dir.slot v j) : i = j := by
  have hoff : 32 * (i % 16) = 32 * (j % 16) := congrArg Slot.offset h
  have hsec : (dir.slot v i).sector = (dir.slot v j).sector := congrArg Slot.sector h
  have hdiv : i / 16 = j / 16 := by
    cases dir with
    | root =>
      simp only [DirPlace.slot] at hsec
      omega
    | chain cs =>
      have hi' := slot_index hi
      have hj' := slot_index hj
      rw [← slot_div_cluster] at hi' hj'
      have := chainSector_inj hv (PathOk.cluster hd) (PathOk.nodup hd) hi' hj' hsec
      omega
  omega

theorem DirPlace.Path.entry_edit (hv : v.Shape) (hd : dir.Path v d) (hi : i < dir.count v)
    (hj : j < dir.count v) (hlen : bs.length = 32) :
    dir.entry v (d'.edit (dir.slot v i).sector (memcpy (dir.slot v i).offset bs)) j =
      if j = i then structOf bs else dir.entry v d' j := by
  rw [DirPlace.entry, entryAt_edit hlen (dir.slot_aligned v i) (dir.slot_aligned v j), DirPlace.entry]
  by_cases h : j = i
  · rw [if_pos h, if_pos (by rw [h])]
  · rw [if_neg h, if_neg fun hs => h (hd.slot_inj hv hj hi hs)]

-- ---------------------------------------------------------------------------
-- A directory that grows
-- ---------------------------------------------------------------------------

theorem chain_slotBytes (cs : List Nat) (hb : b < 32) :
    slotBytes d ((DirPlace.chain cs).slot v j) b = chainByte v d cs (32 * j + b) := by
  have h512 : (32 * j + b) / 512 = 32 * j / 512 := by omega
  have hmod : (32 * j + b) % 512 = 32 * (j % 16) + b := by omega
  rw [chainByte, chainSector, div_clusterBytes, h512, ← div_clusterBytes, hmod]
  rfl

theorem Grown.prefix (h : Grown v clear cs d cs' d') : cs <+: cs' := by
  cases h with
  | same => exact List.prefix_rfl
  | snoc => exact List.prefix_append ..

theorem DirGrown.slot (h : DirGrown v dir d dir' d') (hj : j < dir.count v) : dir'.slot v j = dir.slot v j := by
  cases h with
  | root => rfl
  | chain h =>
    have hidx := slot_index hj
    rw [← slot_div_cluster] at hidx
    simp only [DirPlace.slot, chainSector_prefix h.prefix hidx]

theorem DirGrown.count_le (h : DirGrown v dir d dir' d') : dir.count v ≤ dir'.count v := by
  cases h with
  | root => exact Nat.le_refl _
  | chain h => exact Nat.mul_le_mul_left _ h.prefix.length_le

theorem DirGrown.isRoot (h : DirGrown v dir d dir' d') : dir'.isRoot = dir.isRoot := by
  cases h with
  | root => rfl
  | chain => rfl

theorem Grown.same_of_eq (h : Grown v clear cs d cs' d') (hcs : cs' = cs) : d' = d := by
  cases h with
  | same => rfl
  | snoc => exact absurd hcs (by simp)

theorem DirGrown.same (h : DirGrown v dir d dir d') : d' = d := by
  cases h with
  | root => rfl
  | chain h => exact h.same_of_eq rfl

theorem DirGrown.entry (hv : v.Shape) (hh : v.HintOk) (hd : dir' = dir ∨ dir.Ok v d)
    (h : DirGrown v dir d dir' d') (hj : j < dir.count v) : dir'.entry v d' j = dir.entry v d j := by
  rcases hd with rfl | hd
  · rw [h.same]
  rw [DirPlace.entry, h.slot hj, DirPlace.entry]
  cases h with
  | root => rfl
  | chain h =>
    refine entryAt_congr fun b hb => ?_
    have hidx := slot_index hj
    rw [← slot_div_cluster, div_clusterBytes, show 32 * j / 512 = (32 * j + b) / 512 by omega,
      ← div_clusterBytes] at hidx
    rw [chain_slotBytes _ hb, chain_slotBytes _ hb]
    exact h.chainByte hv hh hd hidx

theorem slot_inNew (hv : v.Shape) (cs : List Nat) (c : Nat) (hj : (DirPlace.chain cs).count v ≤ j)
    (hj' : j < (DirPlace.chain (cs ++ [c])).count v) :
    v.InCluster c ((DirPlace.chain (cs ++ [c])).slot v j).sector := by
  have hidx := slot_index hj'
  have hge : cs.length ≤ j / (16 * v.sectorsPerCluster) := by
    have hpos := spc_pos hv
    rw [Nat.le_div_iff_mul_le (by omega), Nat.mul_comm]
    exact hj
  rw [List.length_append, List.length_singleton] at hidx
  have heq : 32 * j / v.clusterBytes = cs.length := by
    rw [slot_div_cluster]
    omega
  have hin := chainSector_inCluster hv (cs ++ [c]) (32 * j)
  rwa [heq, List.getD_append_right _ _ _ _ (Nat.le_refl _), Nat.sub_self] at hin

theorem DirGrown.entry_new (hv : v.Shape) (h : DirGrown v dir d dir' d') (hj : dir.count v ≤ j)
    (hj' : j < dir'.count v) : dir'.entry v d' j = fun _ => 0 := by
  cases h with
  | root => exact absurd hj' (Nat.not_lt_of_le hj)
  | @chain cs cs' _ _ h =>
    cases h with
    | same => exact absurd hj' (Nat.not_lt_of_le hj)
    | snoc hf hl hkeep hzero =>
      have hin := slot_inNew hv cs (freeCluster v d) hj hj'
      funext b
      rw [DirPlace.entry, entryAt_apply]
      split
      next hb => exact (hzero rfl).zero _ hin _ (by show 32 * (j % 16) + b < 512; omega)
      next => rfl

theorem DirGrown.ok (hv : v.Shape) (hh : v.HintOk) (hd : dir.Ok v d) (h : DirGrown v dir d dir' d') :
    dir'.Ok v d' := by
  cases h with
  | root => exact hd
  | chain h => exact (Grown.table hv hh (fun _ _ => rfl) h fun _ _ => rfl).chainOk hv hh hd

theorem DirGrown.path (hv : v.Shape) (hh : v.HintOk) (hp : dir.Path v d) (hd : dir' = dir ∨ dir.Ok v d)
    (h : DirGrown v dir d dir' d') : dir'.Path v d' := by
  rcases hd with rfl | hd
  · rw [h.same]
    exact hp
  · exact (h.ok hv hh hd).path hv

theorem DirGrown.refl (v : FatVolHandle) (dir : DirPlace) (d : Disk) : DirGrown v dir d dir d := by
  cases dir with
  | root => exact .root d
  | chain cs => exact .chain .same

theorem DirGrown.cases (hv : v.Shape) (h : DirGrown v dir d dir' d') :
    dir' = dir ∧ d' = d ∨ dir.count v + 16 ≤ dir'.count v := by
  cases h with
  | root => exact .inl ⟨rfl, rfl⟩
  | chain h =>
    cases h with
    | same => exact .inl ⟨rfl, rfl⟩
    | snoc =>
      refine .inr ?_
      have hpos := spc_pos hv
      rw [DirPlace.count, DirPlace.count, List.length_append, List.length_singleton, Nat.mul_add_one]
      omega

theorem DirGrown.of_root (h : DirGrown v dir d dir' d') (hr : dir.isRoot = true) : dir' = dir := by
  cases h with
  | root => rfl
  | chain => exact absurd hr (by simp [DirPlace.isRoot])

theorem DirGrown.free (h : DirGrown v dir d dir' d') (hne : dir' ≠ dir) : freeCluster v d ≠ 0 := by
  cases h with
  | root => exact absurd rfl hne
  | chain h =>
    cases h with
    | same => exact absurd rfl hne
    | snoc hf => exact hf

theorem DirGrown.used (hv : v.Shape) (hh : v.HintOk) (h : DirGrown v dir d dir' d') (hcl : v.IsCluster c)
    (hc : fatEntry v d 0 c ≠ 0) :
    fatEntry v d' 0 c ≠ 0 ∧ ∀ j, dir.count v ≤ j → j < dir'.count v →
      ¬ v.InCluster c (dir'.slot v j).sector := by
  cases h with
  | root => exact ⟨hc, fun j hj hj' => absurd hj' (Nat.not_lt_of_le hj)⟩
  | @chain cs cs' _ _ h =>
    cases h with
    | same => exact ⟨hc, fun j hj hj' => absurd hj' (Nat.not_lt_of_le hj)⟩
    | @snoc d1 _ hf hl hkeep hzero =>
      have hfree := freeCluster_spec hh hf
      refine ⟨?_, fun j hj hj' hin => ?_⟩
      · rw [fatEntry_congr hv hv.numFats hcl.2 ((hzero rfl).inFat hv), hl.entry 0 hv.numFats c hcl.2]
        split
        · exact hf
        · split
          · exact Nat.ne_of_gt (Nat.zero_lt_of_lt (hasEntry_lt_eoc hv hcl.2))
          · exact hc
      · have := cluster_unique hcl.1 hfree.1.1 hin (slot_inNew hv cs (freeCluster v d) hj hj')
        rw [this] at hc
        exact hc hfree.2

theorem DirGrown.left (hv : v.Shape) (hd : dir' = dir ∨ dir.Ok v d) (h : DirGrown v dir d dir' d')
    (hcl : v.IsCluster c) (hne : c ≠ freeCluster v d) (hc : fatEntry v d 0 c = 0) : fatEntry v d' 0 c = 0 := by
  cases h with
  | root => exact hc
  | chain h =>
    cases h with
    | same => exact hc
    | snoc hf hl hkeep hzero =>
      have hok := hd.resolve_left fun h => by simp at h
      have hlast : c ≠ lastOf _ := fun h => ChainOk.entry_ne_zero hv hok (ChainOk.lastOf_mem hok) (h ▸ hc)
      rw [fatEntry_congr hv hv.numFats hcl.2 ((hzero rfl).inFat hv), hl.entry 0 hv.numFats c hcl.2,
        if_neg hlast, if_neg hne, hc]

theorem DirGrown.dirHandle (hd : dir.Path v d) (h : DirGrown v dir d dir' d') (hh : DirHandle v dir hd') :
    DirHandle v dir' hd' := by
  cases h with
  | root => exact hh
  | @chain cs cs' _ _ hg =>
    have hpos := PathOk.pos hd
    obtain ⟨l, rfl⟩ := hg.prefix
    refine ⟨hh.fat, hh.root, hh.first.trans ?_, hh.size, hh.dirent⟩
    cases cs with
    | nil => exact absurd hpos (Nat.lt_irrefl 0)
    | cons => rfl

-- ---------------------------------------------------------------------------
-- The step to the next slot
-- ---------------------------------------------------------------------------

/-- What the volume may be in the middle of a step. -/
def StepArea (v : FatVolHandle) (dir : DirPlace) (d d' : Disk) : Prop :=
  d' = d ∨ ∃ cs, dir = .chain cs ∧ GrowArea v cs d d'

theorem DirGrown.stepArea (hv : v.Shape) (hd : dir.Path v d) (h : DirGrown v dir d dir' d') :
    StepArea v dir d d' := by
  cases h with
  | root => exact .inl rfl
  | chain h => exact .inr ⟨_, rfl, h.growArea hv (PathOk.lastOf_mem hd)⟩

/-- The step behind slot `i`, with a cluster taken where the chain of the directory ends there. -/
structure Stepped (r : HandleRef) (dir dir' : DirPlace) (i : Nat) (s t : FatState) : Prop
    extends Ran (StepArea s.vol dir s.disk) s t where
  vol : Rehinted s.vol t.vol
  handle : ∃ c, t.handle = Function.update s.handle r { s.handle r with curCluster := c } ∧
    (dir'.isRoot = true ∨ i + 1 < dir'.count s.vol → c = dir'.cur s.vol (i + 1))
  grown : DirGrown s.vol dir s.disk dir' t.disk
  ends : dir' = dir ∨ dir.Ok s.vol s.disk ∧ dir.count s.vol ≤ i + 1
  hint : dir' = dir → t.vol = s.vol
  more : dir.isRoot = false → dir.count s.vol ≤ i + 1 → dir.Ok s.vol s.disk → freeCluster s.vol s.disk ≠ 0 →
    i + 1 < dir'.count s.vol
  usable : t.Usable
  coherent : dir' = dir → t.Coherent

theorem Stepped.stay (hs : s.Mounted) (hcur : (s.handle r).curCluster = dir.cur s.vol (i + 1))
    (hin : dir.isRoot = true ∨ i + 1 < dir.count s.vol) (hco : s.Coherent) : Stepped r dir dir i s s where
  toRan := .refl hs
  vol := .refl _
  handle := ⟨dir.cur s.vol (i + 1), by rw [withCluster_self hcur, Function.update_eq_self], fun _ => rfl⟩
  grown := .refl ..
  ends := .inl rfl
  hint := fun _ => rfl
  more := fun hr hle _ _ => by
    rcases hin with h | h
    · exact absurd (hr.symm.trans h) (by decide)
    · omega
  usable := hco.usable
  coherent := fun _ => hco

theorem Stepped.link (c : Nat) (hk : Kept (StepArea s.vol dir s.disk) s t) (hco : t.Coherent)
    (hin : dir.isRoot = true ∨ i + 1 < dir.count s.vol → c = dir.cur s.vol (i + 1))
    (hlast : i + 1 < dir.count s.vol ∨ ¬ (dir.Ok s.vol s.disk ∧ freeCluster s.vol s.disk ≠ 0)) :
    Stepped r dir dir i s (t.withHandle r { s.handle r with curCluster := c }) where
  toRan := hk.toRan.withHandle
  vol := hk.vol ▸ .refl _
  handle := ⟨c, by rw [FatState.withHandle, hk.handle], hin⟩
  grown := by
    rw [withHandle_disk, hk.disk]
    exact .refl ..
  ends := .inl rfl
  hint := fun _ => hk.vol
  more := fun _ hle hok hf => hlast.elim (fun h => absurd hle (by omega)) fun h => absurd ⟨hok, hf⟩ h
  usable := FatState.Coherent.usable fun n => (hco n).withHandle
  coherent := fun _ n => (hco n).withHandle

theorem Stepped.stuck (hk : Kept (StepArea s.vol dir s.disk) s t) (hco : t.Coherent)
    (hout : ¬ (dir.isRoot = true ∨ i + 1 < dir.count s.vol))
    (hno : ¬ (dir.Ok s.vol s.disk ∧ freeCluster s.vol s.disk ≠ 0)) : Stepped r dir dir i s t := by
  have hstep := Stepped.link (r := r) (s.handle r).curCluster hk hco (fun h => absurd h hout) (.inr hno)
  rwa [FatState.withHandle, hk.handle.symm, Function.update_eq_self] at hstep

theorem writeAdvance_next (sector : Nat) (hs : s.Mounted) (hq : s.Quiet) (hv : s.vol.Shape)
    (hd : PathOk s.vol s.disk cs) (hmore : i + 1 < (DirPlace.chain cs).count s.vol) (hco : s.Coherent)
    (hsucc : (i + 1) / (16 * s.vol.sectorsPerCluster) = i / (16 * s.vol.sectorsPerCluster) + 1)
    (hrun : writeAdvance r s.vol sector s =
      (fatAllocNextCluster (cs.getD (i / (16 * s.vol.sectorsPerCluster)) 0) ((s.handle r).size = 0) >>= fun next =>
        if next = 0 then pure none
        else modifyHandle r (fun h => { h with curCluster := next }) >>= fun _ =>
          pure (some (fatFirstSectorOfCluster s.vol next))) s) :
    ∃ o t, writeAdvance r s.vol sector s = .ok o t ∧ Stepped r (.chain cs) (.chain cs) i s t := by
  have hidx' := slot_index hmore
  have hcl := hd.cluster _ (getD_mem (slot_index (Nat.lt_of_succ_lt hmore)))
  have hentry := hd.link _ (hsucc ▸ hidx')
  rw [← hsucc] at hentry
  have hnext := hd.cluster _ (getD_mem hidx')
  obtain ⟨t, hal, hk, hco'⟩ :=
      alloc_existing (P := StepArea s.vol (.chain cs) s.disk) ((s.handle r).size = 0) _ hs hq hv
    hcl.2 (.inl rfl) hco.tableOk (by
      rw [hentry]
      exact Nat.ne_of_lt (hasEntry_lt_eoc hv hnext.2))
  rw [hentry] at hal
  have hne : cs.getD ((i + 1) / (16 * s.vol.sectorsPerCluster)) 0 ≠ 0 := by have := hnext.1; omega
  refine ⟨some (fatFirstSectorOfCluster s.vol (cs.getD ((i + 1) / (16 * s.vol.sectorsPerCluster)) 0)), _, ?_,
    .link (cs.getD ((i + 1) / (16 * s.vol.sectorsPerCluster)) 0) hk hco' (fun _ => ?_) (.inl hmore)⟩
  · rw [hrun, bind_ok hal, if_neg hne, modifyHandle_bind, hk.handle]
    rfl
  · rw [DirPlace.cur, List.getD_append _ _ _ _ hidx']

/-- The step behind the last slot of a path: a cluster more where it ends in the
end mark, or where the table says; and nowhere when the table says 0 or the volume is full. -/
theorem writeAdvance_last (hs : s.Mounted) (hq : s.Quiet) (hv : s.vol.Layout) (hh : s.vol.HintOk)
    (hd : PathOk s.vol s.disk cs) (hroot : (s.handle r).rootFlag = false) (hsize : (s.handle r).size = 0)
    (hpos : (s.handle r).position = 32 * (i + 1)) (hsec : 32 * (i + 1) % 512 = 0)
    (hcur : (s.handle r).curCluster = lastOf cs) (hlast : i / (16 * s.vol.sectorsPerCluster) + 1 = cs.length)
    (hmore : ¬ i + 1 < (DirPlace.chain cs).count s.vol) (hco : s.Coherent)
    (hrun : writeAdvance r s.vol (chainSector s.vol cs (32 * i)) s =
      (fatAllocNextCluster (lastOf cs) ((s.handle r).size = 0) >>= fun next =>
        if next = 0 then pure none
        else modifyHandle r (fun h => { h with curCluster := next }) >>= fun _ =>
          pure (some (fatFirstSectorOfCluster s.vol next))) s) :
    ∃ o t dir', writeAdvance r s.vol (chainSector s.vol cs (32 * i)) s = .ok o t ∧
      Stepped r (.chain cs) dir' i s t := by
  have hspc := spc_pos hv.toShape
  have hentry := (hd.cluster _ hd.lastOf_mem).2
  have hout : ¬ ((DirPlace.chain cs).isRoot = true ∨ i + 1 < (DirPlace.chain cs).count s.vol) := by
    simp only [DirPlace.isRoot, Bool.false_eq_true, false_or]
    exact hmore
  by_cases he : fatEntry s.vol s.disk 0 (lastOf cs) = fatEoc s.vol
  · have hok := hd.chainOk he
    by_cases hf : freeCluster s.vol s.disk = 0
    · obtain ⟨t, hal, hk, hco'⟩ :=
        alloc_none (P := StepArea s.vol (.chain cs) s.disk) ((s.handle r).size = 0) (lastOf cs) hs hq
        hv.toShape hh hentry (.inl rfl) hco.tableOk he hf
      exact ⟨none, t, .chain cs, by rw [hrun, bind_ok hal, if_pos rfl]; rfl,
        .stuck hk hco' hout fun h => h.2 hf⟩
    · -- the chain takes another cluster
      have hpos' : (s.handle r).position % 512 = 0 := by rw [hpos]; exact hsec
      have hidx : 32 * i / s.vol.clusterBytes = cs.length - 1 := by
        rw [slot_div_cluster]
        exact Nat.eq_sub_of_add_eq hlast
      have hlt : 32 * i / s.vol.clusterBytes < cs.length := by
        have := hd.pos
        omega
      have hcur' : (s.handle r).curCluster = cs.getD (32 * i / s.vol.clusterBytes) 0 := by
        rw [hcur, hidx, lastOf]
      obtain ⟨t, cs', hadv, ha⟩ :=
        advance_run (P := StepArea s.vol (.chain cs) s.disk) (r := r) (p := 32 * i) (n := 32) hs hq
        hv.toShape hh hok hlt hcur' hroot hpos' (by omega) (by omega) (hv.tests _) hco
        (fun _ ha => .inr ⟨cs, rfl, ha⟩)
        (.inr hf)
      have hinside := ha.inside
      have hhandle := ha.handle
      have hgrown := ha.grown
      rw [show 32 * i + 32 = 32 * (i + 1) by omega, slot_div_cluster] at hinside hhandle
      rw [hsize] at hgrown
      refine ⟨_, t, .chain cs', hadv, ⟨ha.toRan, ha.vol, ⟨_, hhandle, fun _ => ?_⟩, .chain hgrown,
        .inr ⟨hok, Nat.le_of_not_lt hmore⟩,
        fun h => ha.hint (DirPlace.chain.inj h), fun _ _ _ _ => ?_, ha.usable, fun h => ?_⟩⟩
      · rw [DirPlace.cur, List.getD_append _ _ _ _ hinside]
      · rw [DirPlace.count, Nat.mul_comm]
        exact (Nat.div_lt_iff_lt_mul (by omega)).mp hinside
      · -- it did take one
        rw [DirPlace.chain.inj h] at hinside
        refine absurd ?_ hmore
        rw [DirPlace.count, Nat.mul_comm]
        exact (Nat.div_lt_iff_lt_mul (by omega)).mp hinside
  · obtain ⟨t, hal, hk, hco'⟩ :=
      alloc_existing (P := StepArea s.vol (.chain cs) s.disk) ((s.handle r).size = 0) (lastOf cs) hs hq
      hv.toShape hentry (.inl rfl) hco.tableOk he
    have hno : ¬ ((DirPlace.chain cs).Ok s.vol s.disk ∧ freeCluster s.vol s.disk ≠ 0) := fun h =>
      he (ChainOk.entry_last h.1)
    by_cases h0 : fatEntry s.vol s.disk 0 (lastOf cs) = 0
    · exact ⟨none, t, .chain cs, by rw [hrun, bind_ok hal, if_pos h0]; rfl, .stuck hk hco' hout hno⟩
    · refine ⟨some (fatFirstSectorOfCluster s.vol (fatEntry s.vol s.disk 0 (lastOf cs))), _, .chain cs, ?_,
        .link (fatEntry s.vol s.disk 0 (lastOf cs)) hk hco' (fun h => absurd h hout) (.inr hno)⟩
      rw [hrun, bind_ok hal, if_neg h0, modifyHandle_bind, hk.handle]
      rfl

theorem writeAdvance_slot (dir : DirPlace) (i : Nat) (hs : s.Mounted) (hq : s.Quiet) (hv : s.vol.Layout)
    (hh : s.vol.HintOk) (hd : dir.Path s.vol s.disk) (hi : i < dir.count s.vol)
    (hroot : (s.handle r).rootFlag = dir.isRoot) (hsize : (s.handle r).size = dir.size s.vol)
    (hpos : (s.handle r).position = 32 * (i + 1)) (hcur : (s.handle r).curCluster = dir.cur s.vol i)
    (hco : s.Coherent) :
    ∃ o t dir', writeAdvance r s.vol (dir.slot s.vol i).sector s = .ok o t ∧ Stepped r dir dir' i s t := by
  by_cases hsec : 32 * (i + 1) % 512 = 0
  · have hpos' : (s.handle r).position % 512 = 0 := by rw [hpos]; exact hsec
    cases dir with
    | root =>
      have hroot' : (s.handle r).rootFlag = true := hroot
      have hlt : (DirPlace.root.slot s.vol i).sector + 1 < 2 ^ 32 := by
        have hword := hd.word
        simp only [DirPlace.count, FatVolHandle.rootSectorCount] at hi
        simp only [DirPlace.slot, FatVolHandle.rootFirstSector]
        omega
      exact ⟨_, s, .root, writeAdvance_sector _ hv.toShape hpos' hlt (.inl hroot'),
        .stay hs hcur (.inl rfl) hco⟩
    | chain cs =>
      have hpath : PathOk s.vol s.disk cs := hd
      have hidx := slot_index hi
      have hin := chainSector_inCluster hv.toShape cs (32 * i)
      rw [slot_div_cluster] at hin
      have hle := clusterSector_le hv.toShape (hpath.cluster _ (getD_mem hidx))
      have hcur' : (s.handle r).curCluster = cs.getD (i / (16 * s.vol.sectorsPerCluster)) 0 := by
        rw [hcur, DirPlace.cur, List.getD_append _ _ _ _ hidx]
      have hspc := spc_pos hv.toShape
      by_cases hcluster : (i + 1) % (16 * s.vol.sectorsPerCluster) = 0
      · have hrun := writeAdvance_cluster (r := r) (chainSector s.vol cs (32 * i)) hv.toShape hpos'
          (by have := hin.2; omega) hroot ((slot_boundary cs hv hsec).mpr hcluster)
        have hsucc : (i + 1) / (16 * s.vol.sectorsPerCluster) = i / (16 * s.vol.sectorsPerCluster) + 1 := by
          rw [Nat.succ_div, if_pos (Nat.dvd_of_mod_eq_zero hcluster)]
        rw [hcur'] at hrun
        by_cases hmore : i + 1 < (DirPlace.chain cs).count s.vol
        · obtain ⟨o, t, hadv, hstep⟩ := writeAdvance_next _ hs hq hv.toShape hpath hmore hco hsucc hrun
          exact ⟨o, t, .chain cs, hadv, hstep⟩
        · have hlen : i / (16 * s.vol.sectorsPerCluster) + 1 = cs.length := by
            have hge : cs.length ≤ (i + 1) / (16 * s.vol.sectorsPerCluster) := by
              rw [Nat.le_div_iff_mul_le (by omega), Nat.mul_comm]
              exact Nat.le_of_not_lt hmore
            omega
          have hlast : cs.getD (i / (16 * s.vol.sectorsPerCluster)) 0 = lastOf cs := by
            rw [lastOf, ← hlen, Nat.add_sub_cancel]
          rw [hlast] at hrun hcur'
          exact writeAdvance_last hs hq hv hh hpath hroot hsize hpos hsec hcur' hlen hmore hco hrun
      · -- the cluster goes on
        have hno : (chainSector s.vol cs (32 * i) + 1) % s.vol.sectorsPerCluster ≠ 0 := fun h =>
          hcluster ((slot_boundary cs hv hsec).mp h)
        have hmore : i + 1 < (DirPlace.chain cs).count s.vol := by
          have hcount : (DirPlace.chain cs).count s.vol % (16 * s.vol.sectorsPerCluster) = 0 :=
            Nat.mul_mod_right ..
          rcases Nat.lt_or_ge (i + 1) ((DirPlace.chain cs).count s.vol) with h | h
          · exact h
          · rw [show i + 1 = (DirPlace.chain cs).count s.vol by omega] at hcluster
            exact absurd hcount hcluster
        have hlt : chainSector s.vol cs (32 * i) + 1 < 2 ^ 32 := by
          have hnext : chainSector s.vol cs (32 * i) + 1 ≤ 2 ^ 32 := by
            have := hin.2
            omega
          refine Nat.lt_of_le_of_ne hnext fun h => hno ?_
          obtain ⟨e, he, hspc⟩ := hv.spc
          rw [h, hspc]
          exact Nat.mod_eq_zero_of_dvd (Nat.pow_dvd_pow 2 (by omega))
        exact ⟨_, s, .chain cs, writeAdvance_sector _ hv.toShape hpos' hlt (.inr hno),
          .stay hs (hcur.trans (cur_same hv.toShape hcluster).symm) (.inr hmore) hco⟩
  · have hrun : writeAdvance r s.vol (dir.slot s.vol i).sector s = .ok none s :=
      writeAdvance_inside hv.toShape (by rw [hpos]; exact hsec)
    refine ⟨none, s, dir, hrun, .stay hs (hcur.trans (cur_inside hv.toShape hsec).symm) (.inr ?_) hco⟩
    have := dir.count_mod s.vol
    omega

end Stm32Logger
