import Stm32Logger.Fat.File

/-!
# Appending to a chain

One call of `fat_write` on a handle that stands in a cluster chain, for fewer
bytes than a sector has: at most two chunks, with at most one step to the next
cluster between or after them.
-/

namespace Stm32Logger

/-- The handle stands at position `p` of the chain `cs`; the `uint32_t` may have wrapped. -/
structure OnChain (v : FatVolHandle) (h : FatFileHandle) (cs : List Nat) (p : Nat) : Prop where
  fat : h.fat = true
  root : h.rootFlag = false
  position : h.position = u32 p
  inside : p / v.clusterBytes < cs.length
  cluster : h.curCluster = cs.getD (p / v.clusterBytes) 0

/-- What the cache is good for after a cluster was zeroed: hits outside the
FATs, and with a second FAT also hits in the first. -/
structure FatState.Usable (s : FatState) : Prop where
  data : ∀ n, ¬ s.vol.InFat n → s.CacheOk n
  table : 2 ≤ s.vol.numFats → s.TableOk

/-- The outcome of stepping from position `p` to `p'`, where a sector starts. -/
structure Advanced (P : Disk → Prop) (r : HandleRef) (cs cs' : List Nat) (p' : Nat) (s t : FatState) :
    Prop extends Ran P s t where
  vol : Rehinted s.vol t.vol
  hint : cs' = cs → t.vol = s.vol
  handle : t.handle = Function.update s.handle r
    { s.handle r with curCluster := cs'.getD (p' / s.vol.clusterBytes) 0 }
  inside : p' / s.vol.clusterBytes < cs'.length
  grew : cs' ≠ cs → cs.length ≤ p' / s.vol.clusterBytes
  grown : Grown s.vol ((s.handle r).size = 0) cs s.disk cs' t.disk
  usable : t.Usable
  coherent : (s.handle r).size ≠ 0 ∨ p' % s.vol.clusterBytes ≠ 0 → t.Coherent

/-- Everything a write from position `p` on may change: the places of the chain
from there on, the entries of the last cluster and of the one the search
finds, and the sectors of that one. -/
def AheadArea (v : FatVolHandle) (cs : List Nat) (p : Nat) (d : Disk) : Disk → Prop :=
  Agree v (v.Ends cs d) (fun m i => (∃ n, ChainArea v cs p n m i) ∨ ∃ c, v.Next d c ∧ v.InCluster c m) d

/-- The outcome of writing all of `bs` from position `p` on. -/
structure Appended (P : Disk → Prop) (r : HandleRef) (cs cs' : List Nat) (p : Nat) (bs : List UInt8)
    (s t : FatState) : Prop extends Ran P s t where
  vol : Rehinted s.vol t.vol
  hint : cs' = cs → t.vol = s.vol
  handle : t.handle = Function.update s.handle r
    { s.handle r with
      position := u32 (p + bs.length)
      curCluster := cs'.getD ((p + bs.length) / s.vol.clusterBytes) 0 }
  inside : (p + bs.length) / s.vol.clusterBytes < cs'.length
  grew : cs' ≠ cs → cs.length ≤ (p + bs.length) / s.vol.clusterBytes
  table : TableGrown s.vol cs s.disk cs' t.disk
  data : ∀ q, q / s.vol.clusterBytes < cs.length ∨ q < p + bs.length →
    chainByte s.vol t.disk cs' q =
      if p ≤ q ∧ q < p + bs.length then bs.getD (q - p) 0 else chainByte s.vol s.disk cs q
  area : AheadArea s.vol cs p s.disk t.disk
  usable : t.Usable
  coherent : (s.handle r).size ≠ 0 ∨ (p + bs.length) % s.vol.clusterBytes ≠ 0 → t.Coherent

variable {P : Disk → Prop} {s s' : FatState} {r : HandleRef} {cs : List Nat} {p n : Nat}

theorem OnChain.sectorOffset {v : FatVolHandle} (hv : v.Shape) (hc : ChainOk v d cs)
    (h : OnChain v hd cs p) : fatFileSectorOffset v hd = (chainSector v cs p, p % 512) := by
  have hcl := hc.cluster _ (getD_mem h.inside)
  have hlt := chainSector_lt hv hc h.inside
  obtain ⟨e, he, hspc⟩ := hv.spc
  have hmod : u32 p / 512 % v.sectorsPerCluster = p / 512 % v.sectorsPerCluster := by
    rw [hspc, u32]
    interval_cases e <;> omega
  have hoff : u32 p % 512 = p % 512 := by
    rw [u32]
    omega
  simp only [fatFileSectorOffset, h.root, Bool.false_eq_true, if_false, h.position, h.cluster,
    fatFirstSectorOfCluster_eq hv hcl, hv.bytes, hmod, hoff]
  exact congrArg (·, _) (Nat.mod_eq_of_lt hlt)

-- ---------------------------------------------------------------------------
-- One round of the loop
-- ---------------------------------------------------------------------------

def FatFileHandle.forward (h : FatFileHandle) (n : Nat) : FatFileHandle :=
  { h with position := u32 (h.position + n) }

theorem writeRound_cases (buf : List UInt8) (fuel i off chunk : Nat) (hs : s.Mounted) (hv : s.vol.Shape)
    (hP : P s.disk) (hfat : (s.handle r).fat = true) (hi : i < size) (hsec : sector < 2 ^ 32)
    (hok : s.CacheOk sector) (hchunk : chunk = min (512 - off) (size - i)) (hlt : chunk < 512) :
    (∃ t, writeLoop r buf size (fuel + 1) i sector off s =
        (writeAdvance r s.vol sector >>= fun
          | none => pure (i + chunk)
          | some sector => writeLoop r buf size fuel (i + chunk) sector 0)
          (t.withHandle r ((s.handle r).forward chunk)) ∧
      Became P (s.disk.edit sector (memcpy off ((buf.drop i).take chunk))) s t ∧
      t.Loaded sector) ∨
    (¬ s.Quiet ∧ ∃ t, writeLoop r buf size (fuel + 1) i sector off s = .error .eio t ∧
      Kept P s t ∧ t.cache = s.cache ∧ t.buf = s.buf) := by
  have hu : u16 (min (512 - off) (size - i)) = chunk := by
    rw [← hchunk]
    exact Nat.mod_eq_of_lt (by omega)
  have hrun : writeLoop r buf size (fuel + 1) i sector off s =
      (getSector sector >>= fun _ =>
        modifyBuf (memcpy off ((buf.drop i).take chunk)) >>= fun _ =>
        putSector sector >>= fun _ =>
        modifyHandle r (fun h => { h with position := u32 (h.position + chunk) }) >>= fun _ =>
        writeAdvance r s.vol sector >>= fun
          | none => pure (i + chunk)
          | some sector => writeLoop r buf size fuel (i + chunk) sector 0) s := by
    have h := Eq.refl (writeLoop r buf size (fuel + 1) i sector off s)
    conv_rhs at h => rw [writeLoop, if_neg (by omega), getHandle_bind, fatOf_bind hfat]
    simp only [hv.bytes, hu, hlt, if_true] at h
    exact h
  rcases edit_cases (P := P) (memcpy off ((buf.drop i).take chunk)) hs hP hsec hok with
    ⟨t, hok', hb, hl⟩ | ⟨hq, t, herr, hk⟩
  · refine .inl ⟨t, ?_, hb, hl⟩
    rw [hrun, hok', modifyHandle_bind, hb.handle]
    rfl
  · exact .inr ⟨hq, t, hrun.trans (herr _ _), hk⟩

-- ---------------------------------------------------------------------------
-- The step to the next sector
-- ---------------------------------------------------------------------------

theorem writeAdvance_inside (hv : s.vol.Shape) (h : (s.handle r).position % 512 ≠ 0) :
    writeAdvance r s.vol sector s = .ok none s := by
  rw [writeAdvance, getHandle_bind, hv.bytes, if_pos h, pure_run]

theorem writeAdvance_sector (sector : Nat) (hv : s.vol.Shape) (h : (s.handle r).position % 512 = 0)
    (hsec : sector + 1 < 2 ^ 32)
    (hb : (s.handle r).rootFlag = true ∨ (sector + 1) % s.vol.sectorsPerCluster ≠ 0) :
    writeAdvance r s.vol sector s = .ok (some (sector + 1)) s := by
  rw [writeAdvance, getHandle_bind, hv.bytes, if_neg (not_not.mpr h), u32, Nat.mod_eq_of_lt hsec]
  split
  · rfl
  next hr => rw [if_neg (hb.resolve_left hr), pure_run]

theorem writeAdvance_cluster (sector : Nat) (hv : s.vol.Shape) (h : (s.handle r).position % 512 = 0)
    (hsec : sector + 1 ≤ 2 ^ 32) (hr : (s.handle r).rootFlag = false)
    (hb : (sector + 1) % s.vol.sectorsPerCluster = 0) :
    writeAdvance r s.vol sector s =
      (fatAllocNextCluster (s.handle r).curCluster ((s.handle r).size = 0) >>= fun next =>
        if next = 0 then pure none
        else modifyHandle r (fun h => { h with curCluster := next }) >>= fun _ =>
          pure (some (fatFirstSectorOfCluster s.vol next))) s := by
  have hu : u32 (sector + 1) % s.vol.sectorsPerCluster = 0 := by
    rw [u32]
    by_cases hlt : sector + 1 < 2 ^ 32
    · rwa [Nat.mod_eq_of_lt hlt]
    · have : sector + 1 = 2 ^ 32 := by omega
      rw [this, Nat.mod_self, Nat.zero_mod]
  rw [writeAdvance, getHandle_bind, hv.bytes, if_neg (not_not.mpr h), hr, if_neg (by simp), if_pos hu]

theorem FatState.Coherent.usable (h : s.Coherent) : s.Usable := ⟨fun n _ => h n, fun _ => h.tableOk⟩

theorem sector_zero_of_succ {v : FatVolHandle} (hv : v.Shape) (hp : (p + n) / 512 = p / 512 + 1)
    (hidx : (p + n) / v.clusterBytes = p / v.clusterBytes + 1) :
    (p + n) / 512 % v.sectorsPerCluster = 0 := by
  rw [div_clusterBytes, div_clusterBytes, hp] at hidx
  have h1 := Nat.div_add_mod (p / 512) v.sectorsPerCluster
  have h2 := Nat.div_add_mod (p / 512 + 1) v.sectorsPerCluster
  have h3 := Nat.mod_lt (p / 512) (spc_pos hv)
  rw [hidx, Nat.mul_succ] at h2
  rw [hp]
  omega

theorem chainSector_start {v : FatVolHandle} (cs : List Nat) (hv : v.Shape) (hp : (p + n) / 512 = p / 512 + 1)
    (hidx : (p + n) / v.clusterBytes = p / v.clusterBytes + 1)
    (hc : v.IsCluster (cs.getD ((p + n) / v.clusterBytes) 0)) :
    fatFirstSectorOfCluster v (cs.getD ((p + n) / v.clusterBytes) 0) = chainSector v cs (p + n) := by
  rw [fatFirstSectorOfCluster_eq hv hc, chainSector, sector_zero_of_succ hv hp hidx]
  rfl

theorem advance_run (hs : s.Mounted) (hq : s.Quiet) (hv : s.vol.Shape) (hh : s.vol.HintOk)
    (hc : ChainOk s.vol s.disk cs) (hin : p / s.vol.clusterBytes < cs.length)
    (hcur : (s.handle r).curCluster = cs.getD (p / s.vol.clusterBytes) 0)
    (hroot : (s.handle r).rootFlag = false) (hpos : (s.handle r).position % 512 = 0)
    (hp : (p + n) / 512 = p / 512 + 1) (hp0 : (p + n) % 512 = 0) (ht : s.vol.Tests (p + n))
    (hco : s.Coherent) (hP : ∀ d, GrowArea s.vol cs s.disk d → P d)
    (hfree : (p + n) / s.vol.clusterBytes < cs.length ∨ freeCluster s.vol s.disk ≠ 0) :
    ∃ t cs', writeAdvance r s.vol (chainSector s.vol cs p) s =
        .ok (some (chainSector s.vol cs' (p + n))) t ∧ Advanced P r cs cs' (p + n) s t := by
  have hP0 : P s.disk := hP _ (.refl ..)
  have hcl := chainSector_inCluster hv cs p
  have hpc := hc.cluster _ (getD_mem hin)
  have hle := clusterSector_le hv hpc
  by_cases hb : (chainSector s.vol cs p + 1) % s.vol.sectorsPerCluster = 0
  · have hidx := (chainSector_boundary cs hv hp ht).mp hb
    have hrun := writeAdvance_cluster (r := r) _ hv hpos (by have := hcl.2; omega) hroot hb
    rw [hcur] at hrun
    by_cases hmore : (p + n) / s.vol.clusterBytes < cs.length
    · -- the chain goes on
      have hentry : fatEntry s.vol s.disk 0 (cs.getD (p / s.vol.clusterBytes) 0) =
          cs.getD ((p + n) / s.vol.clusterBytes) 0 := by
        rw [hidx]
        exact hc.entry_getD (by omega)
      have hnext := hc.cluster _ (getD_mem hmore)
      obtain ⟨t, hal, hk, hco'⟩ := alloc_existing (P := P) ((s.handle r).size = 0) _ hs hq hv
        hpc.2 hP0 hco.tableOk (by
          rw [hentry]
          exact Nat.ne_of_lt (hasEntry_lt_eoc hv hnext.2))
      rw [hentry] at hal
      have hne : cs.getD ((p + n) / s.vol.clusterBytes) 0 ≠ 0 := by have := hnext.1; omega
      refine ⟨t.withHandle r { s.handle r with curCluster := cs.getD ((p + n) / s.vol.clusterBytes) 0 },
        cs, ?_, ⟨hk.toRan.withHandle, hk.vol ▸ .refl _, fun _ => hk.vol, ?_, hmore, fun h => absurd rfl h,
          hk.disk ▸ .same, FatState.Coherent.usable fun n => hco' n, fun _ n => hco' n⟩⟩
      · rw [hrun, bind_ok hal, if_neg hne, modifyHandle_bind, pure_run,
          chainSector_start _ hv hp hidx hnext, hk.handle]
      · rw [← hk.handle]
        rfl
    · -- the chain ends here
      have hf := hfree.resolve_left hmore
      have hend : p / s.vol.clusterBytes + 1 = cs.length := by omega
      have hlast : cs.getD (p / s.vol.clusterBytes) 0 = lastOf cs := by
        rw [lastOf, ← hend, Nat.add_sub_cancel]
      have hnew : (cs ++ [freeCluster s.vol s.disk]).getD ((p + n) / s.vol.clusterBytes) 0 =
          freeCluster s.vol s.disk := by
        have : (p + n) / s.vol.clusterBytes = cs.length := by omega
        rw [this, List.getD_append_right _ _ _ _ (Nat.le_refl _), Nat.sub_self]
        rfl
      obtain ⟨t, hal, he⟩ := alloc_extends (P := P) ((s.handle r).size = 0)
        (lastOf cs) hs hq hv hh (hlast ▸ hpc.2) hco.tableOk hc.entry_last hf fun d hd =>
          hP d (hd.mono (ends_of hf hc.lastOf_mem) fun _ _ h => ⟨_, ⟨hf, rfl⟩, h.2⟩)
      obtain ⟨d, hl, hkeep, hzero⟩ := he.disk
      have hnext := (freeCluster_spec hh hf).1
      have hstart := chainSector_start (cs ++ [freeCluster s.vol s.disk]) hv hp hidx
        (hnew.symm ▸ hnext)
      rw [hnew] at hstart
      refine ⟨t.withHandle r { s.handle r with curCluster := freeCluster s.vol s.disk },
        cs ++ [freeCluster s.vol s.disk], ?_, ⟨he.toRan.withHandle,
          ⟨_, he.vol, fun _ => ⟨hnext.1, Nat.le_of_lt hnext.2⟩⟩, fun h => absurd h (by simp), ?_, ?_,
          fun _ => Nat.le_of_not_lt hmore, .snoc hf hl hkeep hzero,
          ⟨fun n hn => he.cacheOk n ?_, fun h2 => he.tableOk ?_⟩, fun h n => he.coherent ?_ n⟩⟩
      · rw [hrun, hlast, bind_ok hal, if_neg hf, modifyHandle_bind, pure_run, he.handle, hstart]
      · rw [hnew, ← he.handle]
        rfl
      · rw [List.length_append, List.length_singleton]
        omega
      · rw [withHandle_vol, he.vol] at hn
        exact hn
      · rw [withHandle_vol, he.vol] at h2
        exact h2
      · refine decide_eq_false (h.resolve_right fun hne => hne ?_)
        rw [FatVolHandle.clusterBytes, Nat.mod_mul, hp0, sector_zero_of_succ hv hp hidx]
  · -- the cluster goes on
    have hidx : (p + n) / s.vol.clusterBytes = p / s.vol.clusterBytes := by
      have hne := fun h => hb ((chainSector_boundary cs hv hp ht).mpr h)
      rw [div_clusterBytes, div_clusterBytes, hp, Nat.succ_div] at hne ⊢
      split
      next h => exact absurd (by rw [if_pos h]) hne
      next => rfl
    have hlt : chainSector s.vol cs p + 1 < 2 ^ 32 := by
      rw [← chainSector_succ cs hv hp hidx]
      exact chainSector_lt hv hc (hidx ▸ hin)
    have hrun := writeAdvance_sector (r := r) _ hv hpos hlt (.inr hb)
    refine ⟨s, cs, ?_,
      ⟨.refl hs, .refl _, fun _ => rfl, ?_, hidx ▸ hin, fun h => absurd rfl h, .same, hco.usable,
      fun _ => hco⟩⟩
    · rw [hrun, chainSector_succ cs hv hp hidx]
    · rw [hidx, ← hcur, Function.update_eq_self]

-- ---------------------------------------------------------------------------
-- The loop
-- ---------------------------------------------------------------------------

theorem chainEdit_ahead {v : FatVolHandle} (bs : List UInt8) (hv : v.Shape)
    (hp : p / v.clusterBytes < cs.length) (hlen : p % 512 + bs.length ≤ 512) :
    AheadArea v cs p d (d.edit (chainSector v cs p) (memcpy (p % 512) bs)) :=
  (chainEdit_agree _ hv hp hlen).mono (fun _ h => h) fun _ _ h => .inl ⟨_, h⟩

theorem writeLoop_short {rest : List UInt8} (fuel : Nat) (buf : List UInt8) (i : Nat) (hs : s.Mounted)
    (hq : s.Quiet) (hv : s.vol.Shape) (hc : ChainOk s.vol s.disk cs) (hon : OnChain s.vol (s.handle r) cs p)
    (hrest : rest = buf.drop i) (hn : 0 < rest.length) (hlt : p % 512 + rest.length < 512)
    (hok : s.CacheOk (chainSector s.vol cs p)) (hP : P s.disk) :
    ∃ t, writeLoop r buf buf.length (fuel + 1) i (chainSector s.vol cs p) (p % 512) s =
        .ok buf.length (t.withHandle r ((s.handle r).forward rest.length)) ∧
      Became P (s.disk.edit (chainSector s.vol cs p) (memcpy (p % 512) rest)) s t ∧
      t.Loaded (chainSector s.vol cs p) := by
  have hlen : rest.length = buf.length - i := by rw [hrest, List.length_drop]
  have hi : i < buf.length := by omega
  rcases writeRound_cases (P := P) buf fuel i (p % 512) rest.length hs hv hP hon.fat hi
    (chainSector_lt hv hc hon.inside) hok (by omega) (by omega) with ⟨t, hrun, hb, hl⟩ | ⟨hnq, -⟩
  · rw [← hrest, List.take_length] at hb
    refine ⟨t, ?_, hb, hl⟩
    have hpos : ((t.withHandle r ((s.handle r).forward rest.length)).handle r).position % 512 ≠ 0 := by
      simp only [withHandle_handle, FatFileHandle.forward, hon.position, u32]
      omega
    rw [hrun, ← hb.vol, ← withHandle_vol (r := r), bind_ok (writeAdvance_inside (hb.vol ▸ hv) hpos)]
    simp only [pure_run]
    congr 1
    omega
  · exact absurd hq hnq

theorem u32_add (a b : Nat) : u32 (u32 a + b) = u32 (a + b) := by
  unfold u32
  omega

theorem GrowArea.ahead {v : FatVolHandle} (h : freeCluster v d' = freeCluster v d)
    (ha : AheadArea v cs p d d') (hg : GrowArea v cs d' d'') : AheadArea v cs p d d'' := by
  unfold GrowArea FatVolHandle.Ends FatVolHandle.Next at hg
  rw [h] at hg
  exact ha.trans (hg.mono (fun _ h => h) fun _ _ h => .inr h)

theorem Appended.of_edit {bs : List UInt8} (hv : s.vol.Shape) (hc : ChainOk s.vol s.disk cs)
    (hon : OnChain s.vol (s.handle r) cs p) (hlt : p % 512 + bs.length < 512)
    (hb : Became P (s.disk.edit (chainSector s.vol cs p) (memcpy (p % 512) bs)) s t)
    (hl : t.Loaded n) :
    Appended P r cs cs p bs s (t.withHandle r ((s.handle r).forward bs.length)) := by
  have hidx : (p + bs.length) / s.vol.clusterBytes = p / s.vol.clusterBytes := by
    have : (p + bs.length) / 512 = p / 512 := by omega
    rw [div_clusterBytes, div_clusterBytes, this]
  have hco : (t.withHandle r ((s.handle r).forward bs.length)).Coherent := hl.withHandle.coherent
  refine ⟨hb.toRan.withHandle, hb.vol ▸ .refl _, fun _ => hb.vol, ?_, hidx ▸ hon.inside,
    fun h => absurd rfl h, .same ?_, ?_, ?_, hco.usable, fun _ => hco⟩
  · rw [hidx, ← hon.cluster, ← u32_add, ← hon.position, ← hb.handle]
    rfl
  · rw [withHandle_disk, hb.disk]
    exact chainEdit_inFat _ hv
  · intro q hq
    have hq' : q / s.vol.clusterBytes < cs.length := by
      rcases hq with hq | hq
      · exact hq
      · exact Nat.lt_of_le_of_lt (Nat.div_le_div_right (Nat.le_of_lt hq)) (hidx ▸ hon.inside)
    rw [withHandle_disk, hb.disk]
    exact chainByte_edit _ hv hc hon.inside hq' (Nat.le_of_lt hlt)
  · rw [withHandle_disk, hb.disk]
    exact chainEdit_ahead _ hv hon.inside (Nat.le_of_lt hlt)

theorem Appended.of_advance {bs : List UInt8} (hv : s.vol.Shape) (hh : s.vol.HintOk)
    (hc : ChainOk s.vol s.disk cs) (hon : OnChain s.vol (s.handle r) cs p)
    (hlen : p % 512 + bs.length = 512)
    (hb : Became P (s.disk.edit (chainSector s.vol cs p) (memcpy (p % 512) bs)) s t)
    (ha : Advanced P r cs cs' (p + bs.length) (t.withHandle r ((s.handle r).forward bs.length)) u) :
    Appended P r cs cs' p bs s u := by
  have hvol := hb.vol
  have hin := ha.inside
  have hgrown := ha.grown
  have hco := ha.coherent
  have hhandle := ha.handle
  have hgrew := ha.grew
  simp only [withHandle_vol, withHandle_disk, withHandle_handle, hvol, hb.disk] at hin hgrown hco hhandle hgrew
  have htable : TableGrown s.vol cs s.disk cs' u.disk :=
    Grown.table hv hh (chainEdit_inFat _ hv) hgrown fun _ _ => rfl
  have hfc := freeCluster_congr hv hh
    (chainEdit_inFat (d := s.disk) cs (p := p) (f := memcpy (p % 512) bs) hv)
  refine ⟨hb.toRan.withHandle.trans ha.toRan, hvol ▸ ha.vol, fun h => (ha.hint h).trans hvol, ?_, hin, hgrew,
    htable, ?_, ?_, ha.usable, hco⟩
  · rw [hhandle, FatFileHandle.forward, hon.position, u32_add, ← hb.handle]
    exact Function.update_idem ..
  · intro q hq
    have hin' := hon.inside
    have hq' : q / s.vol.clusterBytes < cs.length := by
      rcases hq with hq | hq
      · exact hq
      · have : q / 512 ≤ p / 512 := by omega
        rw [div_clusterBytes] at hin' ⊢
        exact Nat.lt_of_le_of_lt (Nat.div_le_div_right this) hin'
    have hc' : ChainOk s.vol (s.disk.edit (chainSector s.vol cs p) (memcpy (p % 512) bs)) cs :=
      hc.congr fun c hm => fatEntry_congr hv hv.numFats (hc.cluster c hm).2 (chainEdit_inFat _ hv)
    have hkeep := hgrown.chainByte hv (hh) hc' hq'
    rw [← chainByte_edit _ hv hc hon.inside hq' (Nat.le_of_eq hlen), ← hkeep, chainByte, chainByte,
      chainSector_prefix htable.prefix hq']
  · exact GrowArea.ahead hfc (chainEdit_ahead _ hv hon.inside (Nat.le_of_eq hlen))
      (hgrown.growArea hv hc.lastOf_mem)

theorem Appended.snoc_edit {bs : List UInt8} (bs' : List UInt8) (hv : s.vol.Shape) (hh : s.vol.HintOk)
    (hc : ChainOk s.vol s.disk cs) (h : Appended P r cs cs' p bs s u)
    (hlt : (p + bs.length) % 512 + bs'.length < 512)
    (hb : Became P (u.disk.edit (chainSector u.vol cs' (p + bs.length))
      (memcpy ((p + bs.length) % 512) bs')) u t) (hl : t.Loaded n) :
    Appended P r cs cs' p (bs ++ bs') s (t.withHandle r ((u.handle r).forward bs'.length)) := by
  obtain ⟨j, hvol, -⟩ := h.vol
  have hc' : ChainOk s.vol u.disk cs' := h.table.chainOk hv hh hc
  have hsec : chainSector u.vol cs' (p + bs.length) = chainSector s.vol cs' (p + bs.length) := by
    rw [hvol]
    rfl
  rw [hsec] at hb
  have hlen : (bs ++ bs').length = bs.length + bs'.length := List.length_append
  have hidx : (p + (bs ++ bs').length) / s.vol.clusterBytes =
      (p + bs.length) / s.vol.clusterBytes := by
    have : (p + (bs ++ bs').length) / 512 = (p + bs.length) / 512 := by omega
    rw [div_clusterBytes, div_clusterBytes, this]
  have hco : (t.withHandle r ((u.handle r).forward bs'.length)).Coherent := hl.withHandle.coherent
  refine ⟨h.toRan.trans hb.toRan.withHandle, hb.vol ▸ h.vol, fun he => hb.vol.trans (h.hint he), ?_,
    hidx ▸ h.inside, fun hne => hidx ▸ h.grew hne, ?_, ?_, ?_, hco.usable, fun _ => hco⟩
  · rw [hidx, hlen, ← Nat.add_assoc]
    simp only [FatState.withHandle, hb.handle, h.handle, Function.update_self, Function.update_idem,
      FatFileHandle.forward, u32_add]
  · rw [withHandle_disk, hb.disk]
    exact h.table.congr hv (chainEdit_inFat _ hv)
  · intro q hq
    have hq' : q / s.vol.clusterBytes < cs'.length := by
      rcases hq with hq | hq
      · exact Nat.lt_of_lt_of_le hq h.table.prefix.length_le
      · exact Nat.lt_of_le_of_lt (Nat.div_le_div_right (Nat.le_of_lt hq)) (hidx ▸ h.inside)
    have hold := h.data q
    rw [withHandle_disk, hb.disk, chainByte_edit _ hv hc' h.inside hq' (Nat.le_of_lt hlt), hlen]
    by_cases hnew : p + bs.length ≤ q ∧ q < p + bs.length + bs'.length
    · rw [if_pos hnew, if_pos (by omega), List.getD_append_right _ _ _ _ (by omega)]
      congr 1
      omega
    · rw [if_neg hnew, hold (by omega)]
      by_cases hfst : p ≤ q ∧ q < p + bs.length
      · rw [if_pos hfst, if_pos (by omega), List.getD_append _ _ _ _ (by omega)]
      · rw [if_neg hfst, if_neg (by omega)]
  · rw [withHandle_disk, hb.disk]
    refine h.area.trans ((chainEdit_agree _ hv h.inside (Nat.le_of_lt hlt)).mono (fun _ h => h) ?_)
    intro m i hm
    rcases h.table.chainArea hv hm with ⟨q, h1, h2, h3⟩ | hm
    · exact .inl ⟨bs.length + bs'.length, q, by omega, by omega, h3⟩
    · exact .inr hm

theorem Appended.onChain {bs : List UInt8} (hon : OnChain s.vol (s.handle r) cs p)
    (h : Appended P r cs cs' p bs s t) : OnChain t.vol (t.handle r) cs' (p + bs.length) := by
  obtain ⟨i, hvol, -⟩ := h.vol
  rw [hvol, h.handle, Function.update_self]
  exact ⟨hon.fat, hon.root, rfl, h.inside, rfl⟩

theorem writeLoop_done (h : size ≤ i) : writeLoop r buf size fuel i sector off s = .ok i s := by
  cases fuel with
  | zero => rw [writeLoop, if_pos h, pure_run]
  | succ fuel => rw [writeLoop, if_pos h, pure_run]

theorem writeLoop_run {buf : List UInt8} (hs : s.Mounted) (hq : s.Quiet) (hv : s.vol.Shape)
    (hh : s.vol.HintOk) (hc : ChainOk s.vol s.disk cs) (hon : OnChain s.vol (s.handle r) cs p)
    (hn : 0 < buf.length) (hlt : buf.length < 512) (ht : s.vol.Tests (p + buf.length))
    (hok : s.CacheOk (chainSector s.vol cs p)) (hP : ∀ d, AheadArea s.vol cs p s.disk d → P d)
    (hfree : (p + buf.length) / s.vol.clusterBytes < cs.length ∨ freeCluster s.vol s.disk ≠ 0) :
    ∃ t cs', writeLoop r buf buf.length buf.length 0 (chainSector s.vol cs p) (p % 512) s =
        .ok buf.length t ∧ Appended P r cs cs' p buf s t := by
  obtain ⟨fuel, hfuel⟩ : ∃ fuel, buf.length = fuel + 1 := ⟨buf.length - 1, by omega⟩
  have hP0 : P s.disk := hP _ (.refl ..)
  by_cases hshort : p % 512 + buf.length < 512
  · obtain ⟨t, hrun, hb, hl⟩ := writeLoop_short (P := P) (r := r) fuel buf 0 hs hq hv hc hon
      List.drop_zero.symm hn hshort hok hP0
    exact ⟨_, cs, hfuel ▸ hrun, .of_edit hv hc hon hshort hb hl⟩
  · -- the sector is filled first
    obtain ⟨n, hn'⟩ : ∃ n, n = 512 - p % 512 := ⟨_, rfl⟩
    have hbs : (buf.take n).length = n := by rw [List.length_take]; omega
    have hround := writeRound_cases (P := P) buf fuel 0 (p % 512) n hs hv hP0 hon.fat hn
      (chainSector_lt hv hc hon.inside) hok (by omega) (by omega)
    rw [List.drop_zero] at hround
    rcases hround with ⟨t, hrun, hb, hl⟩ | ⟨hnq, -⟩
    · have hsame := chainEdit_inFat (d := s.disk) cs (p := p)
        (f := memcpy (p % 512) (buf.take n)) hv
      have hc' : ChainOk s.vol (s.disk.edit (chainSector s.vol cs p) (memcpy (p % 512) (buf.take n)))
          cs := hc.congr fun c hm => fatEntry_congr hv hv.numFats (hc.cluster c hm).2 hsame
      have hfc := freeCluster_congr hv hh hsame
      have hahead := chainEdit_ahead (d := s.disk) (buf.take n) hv hon.inside (by omega)
      have hvol := hb.vol
      have hran : Ran P s (t.withHandle r ((s.handle r).forward n)) := hb.toRan.withHandle
      -- the step is only an allocation when the write goes past the chain's end
      have hfree' : (p + n) / s.vol.clusterBytes < cs.length ∨ freeCluster s.vol s.disk ≠ 0 :=
        hfree.imp_left fun h => Nat.lt_of_le_of_lt (Nat.div_le_div_right (by omega)) h
      obtain ⟨u, cs', hrun', ha⟩ := advance_run (P := P) (r := r) (p := p) (n := n)
        hran.mounted (hran.quiet hq) (hvol ▸ hv) (hvol ▸ hh) (by
          rw [withHandle_vol, withHandle_disk, hvol, hb.disk]
          exact hc') (hvol ▸ hon.inside) (by
          rw [withHandle_handle, withHandle_vol, hvol]
          exact hon.cluster) (by
          rw [withHandle_handle]
          exact hon.root) (by
          simp only [withHandle_handle, FatFileHandle.forward, hon.position, u32]
          omega) (by omega) (by omega) (hvol ▸ ht.mono (by omega)) hl.withHandle.coherent (fun d hd => hP d (by
            rw [withHandle_vol, withHandle_disk, hvol, hb.disk] at hd
            exact GrowArea.ahead hfc hahead hd)) (by
          rw [withHandle_vol, withHandle_disk, hvol, hb.disk, hfc]
          exact hfree')
      rw [withHandle_vol, hvol] at hrun'
      have h1 : Appended P r cs cs' p (buf.take n) s u :=
        .of_advance hv hh hc hon (by omega) hb (by rw [hbs]; exact ha)
      have hstep : ∀ k, k = fuel + 1 →
          writeLoop r buf buf.length k 0 (chainSector s.vol cs p) (p % 512) s =
            writeLoop r buf buf.length fuel n (chainSector s.vol cs' (p + n)) 0 u := by
        rintro _ rfl
        rw [hrun, bind_ok hrun', Nat.zero_add]
      have hloop := hstep _ hfuel
      by_cases hend : n = buf.length
      · refine ⟨u, cs', ?_, ?_⟩
        · rw [hloop, writeLoop_done (Nat.le_of_eq hend.symm), hend]
        · rwa [hend, List.take_length] at h1
      · obtain ⟨fuel', hfuel'⟩ : ∃ fuel', fuel = fuel' + 1 := ⟨fuel - 1, by omega⟩
        have hon' := h1.onChain hon
        obtain ⟨i, huvol, -⟩ := h1.vol
        have hsec : chainSector u.vol cs' (p + n) = chainSector s.vol cs' (p + n) := by
          rw [huvol]
          rfl
        have hmod : (p + n) % 512 = 0 := by omega
        have hdrop : (buf.drop n).length = buf.length - n := List.length_drop
        rw [hbs] at hon'
        obtain ⟨w, hrunw, hbw, hlw⟩ := writeLoop_short (P := P) (r := r) fuel' buf n
          h1.mounted (h1.quiet hq) (h1.vol.shape hv)
          (h1.vol.chainOk (h1.table.chainOk hv hh hc)) hon' rfl (by omega) (by omega)
          (h1.usable.data _ (chainSector_not_inFat (h1.vol.shape hv))) (hP _ h1.area)
        refine ⟨w.withHandle r ((u.handle r).forward (buf.drop n).length), cs', ?_, ?_⟩
        · rw [hloop, hfuel', ← hsec]
          rw [hmod] at hrunw
          exact hrunw
        · have h2 := h1.snoc_edit (buf.drop n) hv hh hc (by rw [hbs]; omega)
            (by rw [hbs]; exact hbw) hlw
          rwa [List.take_append_drop] at h2
    · exact absurd hq hnq

theorem writeLoop_full {buf : List UInt8} (hs : s.Mounted) (hq : s.Quiet) (hv : s.vol.Shape)
    (hh : s.vol.HintOk) (hc : ChainOk s.vol s.disk cs) (hon : OnChain s.vol (s.handle r) cs p)
    (hn : 0 < buf.length) (hlt : buf.length < 512) (ht : s.vol.Tests (p + buf.length))
    (hok : s.CacheOk (chainSector s.vol cs p)) (hP : ∀ d, AheadArea s.vol cs p s.disk d → P d)
    (hfull : p + buf.length = cs.length * s.vol.clusterBytes) (hf : freeCluster s.vol s.disk = 0) :
    ∃ t, writeLoop r buf buf.length buf.length 0 (chainSector s.vol cs p) (p % 512) s =
        .ok buf.length t ∧ Ran P s t ∧ t.vol = s.vol ∧
      t.disk = s.disk.edit (chainSector s.vol cs p) (memcpy (p % 512) buf) ∧
      t.handle = Function.update s.handle r ((s.handle r).forward buf.length) ∧ t.Coherent := by
  obtain ⟨fuel, hfuel⟩ : ∃ fuel, buf.length = fuel + 1 := ⟨buf.length - 1, by omega⟩
  have hP0 : P s.disk := hP _ (.refl ..)
  have hcb := clusterBytes_pos hv
  have hmod : (p + buf.length) % 512 = 0 := by
    rw [hfull, FatVolHandle.clusterBytes, Nat.mul_left_comm, Nat.mul_mod_right]
  have hlen : p % 512 + buf.length = 512 := by omega
  have hidx : (p + buf.length) / s.vol.clusterBytes = cs.length := by
    rw [hfull, Nat.mul_div_cancel _ hcb]
  have hend : p / s.vol.clusterBytes + 1 = cs.length := by
    have hle := le_clusterBytes hv
    have h1 : (p + s.vol.clusterBytes) / s.vol.clusterBytes = p / s.vol.clusterBytes + 1 :=
      Nat.add_div_right _ hcb
    have h2 : (p + buf.length) / s.vol.clusterBytes ≤ (p + s.vol.clusterBytes) / s.vol.clusterBytes :=
      Nat.div_le_div_right (by omega)
    have := hon.inside
    omega
  have hlast : (s.handle r).curCluster = lastOf cs := by
    rw [hon.cluster, lastOf, ← hend, Nat.add_sub_cancel]
  rcases writeRound_cases (P := P) buf fuel 0 (p % 512) buf.length hs hv hP0 hon.fat hn
    (chainSector_lt hv hc hon.inside) hok (by omega) hlt with ⟨t, hrun, hb, hl⟩ | ⟨hnq, -⟩
  · rw [List.drop_zero, List.take_length] at hb
    have hvol := hb.vol
    have hsame := chainEdit_inFat (d := s.disk) cs (p := p) (f := memcpy (p % 512) buf) hv
    let u := t.withHandle r ((s.handle r).forward buf.length)
    have hran : Ran P s u := hb.toRan.withHandle
    have hlastc := hc.cluster _ hc.lastOf_mem
    obtain ⟨w, hal, hk, hco⟩ := alloc_none (P := P) (s := u) ((u.handle r).size = 0) (lastOf cs)
      hran.mounted (hran.quiet hq) (hvol ▸ hv) (hvol ▸ hh) (hvol ▸ hlastc.2) (by
        rw [withHandle_disk, hb.disk]
        exact hP _ (chainEdit_ahead _ hv hon.inside (Nat.le_of_eq hlen))) hl.withHandle.coherent.tableOk
      (by
        rw [withHandle_vol, withHandle_disk, hvol, hb.disk,
          fatEntry_congr hv hv.numFats hlastc.2 hsame, hc.entry_last])
      (by rw [withHandle_vol, withHandle_disk, hvol, hb.disk, freeCluster_congr hv hh hsame, hf])
    have hb' : (chainSector s.vol cs p + 1) % s.vol.sectorsPerCluster = 0 :=
      (chainSector_boundary (n := buf.length) cs hv (by omega) ht).mpr (by omega)
    have hadv := writeAdvance_cluster (s := u) (r := r) (chainSector s.vol cs p) (hvol ▸ hv)
      (by
        simp only [u, withHandle_handle, FatFileHandle.forward, hon.position, u32]
        omega) (by
        have := clusterSector_le hv (hc.cluster _ (getD_mem hon.inside))
        have := (chainSector_inCluster hv cs p).2
        omega) (by
        rw [withHandle_handle]
        exact hon.root) (by
        rw [withHandle_vol, hvol]
        exact hb')
    have hcur : (u.handle r).curCluster = lastOf cs := by
      rw [withHandle_handle]
      exact hlast
    rw [hcur, bind_ok hal, if_pos rfl, pure_run] at hadv
    refine ⟨w, ?_, hran.trans hk.toRan, hk.vol.trans hvol, ?_, ?_, hco⟩
    · have hu : u.vol = s.vol := hvol
      rw [hu] at hadv
      have hrun' := hrun.trans (bind_ok hadv)
      rw [Nat.zero_add] at hrun'
      exact (congrArg (fun k => writeLoop r buf buf.length k 0 (chainSector s.vol cs p) (p % 512) s)
        hfuel).trans hrun'
    · rw [hk.disk, withHandle_disk, hb.disk]
    · rw [hk.handle]
      show Function.update t.handle r _ = _
      rw [hb.handle]
  · exact absurd hq hnq

-- ---------------------------------------------------------------------------
-- Writes that may fail
-- ---------------------------------------------------------------------------

/-- The first `n` of the bytes `bs` stored from position `p` on, and nothing else changed. -/
structure Partly (P : Disk → Prop) (r : HandleRef) (cs : List Nat) (p n : Nat) (bs : List UInt8)
    (s t : FatState) : Prop extends Ran P s t where
  vol : t.vol = s.vol
  handle : t.handle = Function.update s.handle r { s.handle r with position := u32 (p + n) }
  coherent : t.Coherent
  fat : ∀ m, s.vol.InFat m → t.disk m = s.disk m
  data : ∀ q, q / s.vol.clusterBytes < cs.length → chainByte s.vol t.disk cs q =
    if p ≤ q ∧ q < p + n then bs.getD (q - p) 0 else chainByte s.vol s.disk cs q
  area : Agree s.vol (fun _ => False) (fun m i => ∃ n, ChainArea s.vol cs p n m i) s.disk t.disk

theorem Partly.none (hon : OnChain s.vol (s.handle r) cs p) (hk : Kept P s t) (hco : t.Coherent) :
    Partly P r cs p 0 bs s t := by
  refine ⟨hk.toRan, hk.vol, ?_, hco, fun m _ => by rw [hk.disk], fun q _ => ?_, hk.disk ▸ .refl ..⟩
  · rw [hk.handle, Nat.add_zero, ← hon.position, Function.update_eq_self]
  · rw [if_neg (by omega), hk.disk]

theorem Partly.edit {bs c : List UInt8} (hv : s.vol.Shape) (hc : ChainOk s.vol s.disk cs)
    (h : Partly P r cs p n bs s t) (hcut : c = (bs.drop n).take c.length)
    (hin : (p + n) / s.vol.clusterBytes < cs.length) (hlen : (p + n) % 512 + c.length ≤ 512)
    (hb : Became P (t.disk.edit (chainSector s.vol cs (p + n)) (memcpy ((p + n) % 512) c)) t u)
    (hl : u.Loaded m) :
    Partly P r cs p (n + c.length) bs s (u.withHandle r ((t.handle r).forward c.length)) := by
  have hvol := hb.vol.trans h.vol
  have hsame := chainEdit_inFat (d := t.disk) cs (p := p + n)
    (f := memcpy ((p + n) % 512) c) hv
  have hc' : ChainOk s.vol t.disk cs :=
    hc.congr fun a ha => fatEntry_congr hv hv.numFats (hc.cluster a ha).2 h.fat
  refine ⟨h.toRan.trans hb.toRan.withHandle, hvol, ?_, hl.withHandle.coherent, fun m hm => ?_,
    fun q hq => ?_, ?_⟩
  · simp only [FatState.withHandle, hb.handle, h.handle, Function.update_self, Function.update_idem,
      FatFileHandle.forward, u32_add, Nat.add_assoc]
  · rw [withHandle_disk, hb.disk, hsame m hm, h.fat m hm]
  · rw [withHandle_disk, hb.disk, chainByte_edit _ hv hc' hin hq hlen, h.data q hq]
    by_cases hnew : p + n ≤ q ∧ q < p + n + c.length
    · rw [if_pos hnew, if_pos (by omega), hcut]
      have hlt : q - (p + n) < c.length := by omega
      rw [List.getD_eq_getElem?_getD, List.getElem?_take_of_lt hlt, List.getElem?_drop,
        List.getD_eq_getElem?_getD]
      congr 2
      omega
    · rw [if_neg hnew]
      by_cases hold : p ≤ q ∧ q < p + n
      · rw [if_pos hold, if_pos (by omega)]
      · rw [if_neg hold, if_neg (by omega)]
  · refine h.area.trans ?_
    rw [withHandle_disk, hb.disk]
    refine (chainEdit_agree _ hv hin hlen).mono (fun _ h => h) ?_
    rintro a i ⟨q, h1, h2, h3⟩
    exact ⟨n + c.length, q, by omega, by omega, h3⟩

theorem Partly.onChain (hon : OnChain s.vol (s.handle r) cs p) (h : Partly P r cs p n bs s t)
    (hidx : (p + n) / s.vol.clusterBytes = p / s.vol.clusterBytes) :
    OnChain t.vol (t.handle r) cs (p + n) := by
  rw [h.vol, h.handle, Function.update_self]
  exact ⟨hon.fat, hon.root, rfl, hidx ▸ hon.inside, hidx ▸ hon.cluster⟩

theorem writeLoop_last {buf : List UInt8} (fuel : Nat) (hv : s.vol.Shape) (hc : ChainOk s.vol s.disk cs)
    (hon : OnChain s.vol (s.handle r) cs p) (hp : Partly P r cs p n buf s t)
    (hidx : (p + n) / s.vol.clusterBytes = p / s.vol.clusterBytes) (hn : n < buf.length)
    (hlt : (p + n) % 512 + (buf.length - n) < 512) (hP : P t.disk) :
    ∃ u m, m ≤ buf.length ∧ Partly P r cs p m buf s u ∧
      (writeLoop r buf buf.length (fuel + 1) n (chainSector s.vol cs (p + n)) ((p + n) % 512) t =
          .ok buf.length u ∧ m = buf.length ∨
        ¬ s.Quiet ∧ writeLoop r buf buf.length (fuel + 1) n (chainSector s.vol cs (p + n))
          ((p + n) % 512) t = .error .eio u) := by
  have hon' := hp.onChain hon hidx
  have hin := hon'.inside
  have hvol := hp.vol
  rw [hvol] at hon' hin
  rcases writeRound_cases (P := P) buf fuel n ((p + n) % 512) (buf.length - n) hp.mounted (hvol ▸ hv) hP
    hon'.fat hn (chainSector_lt hv hc hin) (hp.coherent _) (by omega) (by omega) with
    ⟨u, hrun, hb, hl⟩ | ⟨hnq, u, hrun, hk, hcache, hbuf⟩
  · have hcut : ((buf.drop n).take (buf.length - n)).length = buf.length - n := by
      rw [List.length_take, List.length_drop, Nat.min_self]
    have he := hp.edit (c := (buf.drop n).take (buf.length - n)) hv hc (by rw [hcut]) hin (by rw [hcut]; omega)
      hb hl
    rw [hcut] at he
    refine ⟨_, _, Nat.le_of_eq (by omega), he, .inl ⟨?_, by omega⟩⟩
    have hpos : ((u.withHandle r ((t.handle r).forward (buf.length - n))).handle r).position % 512 ≠ 0 := by
      simp only [withHandle_handle, FatFileHandle.forward, hon'.position, u32]
      omega
    rw [hrun, ← hb.vol, ← withHandle_vol (r := r), bind_ok (writeAdvance_inside (hb.vol ▸ hvol ▸ hv) hpos)]
    simp only [pure_run]
    congr 1
    omega
  · refine ⟨u, n, Nat.le_of_lt hn, ⟨hp.toRan.trans hk.toRan, hk.vol.trans hvol, hk.handle.trans hp.handle,
      fun m => hk.cacheOk (by rw [hcache]) (by rw [hcache]) hbuf (hp.coherent m), ?_, ?_, ?_⟩,
      .inr ⟨fun hq => hnq (hp.quiet hq), hrun⟩⟩
    · rw [hk.disk]
      exact hp.fat
    · rw [hk.disk]
      exact hp.data
    · rw [hk.disk]
      exact hp.area

theorem writeLoop_inside {buf : List UInt8} (hs : s.Mounted) (hv : s.vol.Shape) (hc : ChainOk s.vol s.disk cs)
    (hon : OnChain s.vol (s.handle r) cs p) (hn : 0 < buf.length) (hlt : buf.length < 512)
    (ht : s.vol.Tests (p + buf.length))
    (hidx : (p + buf.length) / s.vol.clusterBytes = p / s.vol.clusterBytes) (hco : s.Coherent)
    (hP : ∀ d, Agree s.vol (fun _ => False) (fun m i => ∃ n, ChainArea s.vol cs p n m i) s.disk d → P d) :
    ∃ t m, m ≤ buf.length ∧ Partly P r cs p m buf s t ∧
      (writeLoop r buf buf.length buf.length 0 (chainSector s.vol cs p) (p % 512) s =
          .ok buf.length t ∧ m = buf.length ∨
        ¬ s.Quiet ∧ writeLoop r buf buf.length buf.length 0 (chainSector s.vol cs p) (p % 512) s =
          .error .eio t) := by
  have hfst : Partly P r cs p 0 buf s s := .none hon (.refl hs) hco
  have hP0 : P s.disk := hP _ (.refl ..)
  have hcb := clusterBytes_pos hv
  have hbetween : ∀ n ≤ buf.length, (p + n) / s.vol.clusterBytes = p / s.vol.clusterBytes := by
    intro n hn
    have h1 : p / s.vol.clusterBytes ≤ (p + n) / s.vol.clusterBytes := Nat.div_le_div_right (by omega)
    have h2 : (p + n) / s.vol.clusterBytes ≤ (p + buf.length) / s.vol.clusterBytes :=
      Nat.div_le_div_right (by omega)
    omega
  obtain ⟨fuel, hfuel⟩ : ∃ fuel, buf.length = fuel + 1 := ⟨buf.length - 1, by omega⟩
  have hloop : ∀ k, k = fuel + 1 → ∀ i n o s', writeLoop r buf buf.length k i n o s' =
      writeLoop r buf buf.length (fuel + 1) i n o s' := by
    rintro _ rfl _ _ _ _
    rfl
  rw [hloop _ hfuel]
  by_cases hshort : p % 512 + buf.length < 512
  · exact writeLoop_last (n := 0) fuel hv hc hon hfst rfl hn hshort hP0
  · obtain ⟨n, hn'⟩ : ∃ n, n = 512 - p % 512 := ⟨_, rfl⟩
    have hbs : (buf.take n).length = n := by rw [List.length_take]; omega
    rcases writeRound_cases (P := P) buf fuel 0 (p % 512) n hs hv hP0 hon.fat hn
      (chainSector_lt hv hc hon.inside) (hco _) (by omega) (by omega) with
      ⟨t, hrun, hb, hl⟩ | ⟨hnq, t, hrun, hk, hcache, hbuf⟩
    · rw [List.drop_zero] at hb
      have he := hfst.edit (c := buf.take n) hv hc (by rw [hbs, List.drop_zero]) hon.inside (by rw [hbs]; omega)
        hb hl
      rw [hbs, Nat.zero_add] at he
      have hvol := he.vol
      have hidx' := hbetween n (by omega)
      have hsec : (chainSector s.vol cs p + 1) % s.vol.sectorsPerCluster ≠ 0 := fun h => by
        have := (chainSector_boundary (n := n) cs hv (by omega) (ht.mono (by omega))).mp h
        omega
      have hsucc := chainSector_succ cs hv (by omega : (p + n) / 512 = p / 512 + 1) hidx'
      have hlt' : chainSector s.vol cs p + 1 < 2 ^ 32 := by
        rw [← hsucc]
        exact chainSector_lt hv hc (hidx' ▸ hon.inside)
      have hadv := writeAdvance_sector (s := t.withHandle r ((s.handle r).forward n)) (r := r)
        (chainSector s.vol cs p) (hvol ▸ hv) (by
          simp only [withHandle_handle, FatFileHandle.forward, hon.position, u32]
          omega) hlt' (.inr (by rw [hvol]; exact hsec))
      rw [hvol, ← hsucc] at hadv
      rw [hrun, bind_ok hadv, Nat.zero_add]
      have hmod : (p + n) % 512 = 0 := by omega
      by_cases hend : n = buf.length
      · refine ⟨_, n, by omega, he, .inl ⟨?_, hend⟩⟩
        simp only []
        rw [writeLoop_done (Nat.le_of_eq hend.symm), hend]
      · obtain ⟨fuel', hfuel'⟩ : ∃ fuel', fuel = fuel' + 1 := ⟨fuel - 1, by omega⟩
        have hnext := writeLoop_last (P := P) fuel' hv hc hon he hidx' (by omega) (by omega)
          (hP _ he.area)
        rw [hmod] at hnext
        rw [hfuel']
        exact hnext
    · exact ⟨t, 0, Nat.zero_le _, .none hon hk fun m => hk.cacheOk (by rw [hcache]) (by rw [hcache]) hbuf
        (hco m), .inr ⟨hnq, hrun⟩⟩

end Stm32Logger
