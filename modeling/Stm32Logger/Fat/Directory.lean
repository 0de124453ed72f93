import Stm32Logger.Fat.Slot

/-!
# Directories as rows of slots

The root directory of FAT12 and FAT16 has an area of its own; every other
directory is a cluster chain. `fat_lseek` and `fat_read` step a handle from
slot to slot.
-/

namespace Stm32Logger

inductive DirPlace where
  | root
  | chain (cs : List Nat)

namespace DirPlace

def count (v : FatVolHandle) : DirPlace → Nat
  | root => 16 * v.rootSectorCount
  | chain cs => 16 * v.sectorsPerCluster * cs.length

def slot (v : FatVolHandle) (dir : DirPlace) (i : Nat) : Slot where
  sector :=
    match dir with
    | root => v.rootFirstSector + i / 16
    | chain cs => chainSector v cs (32 * i)
  offset := 32 * (i % 16)

def isRoot : DirPlace → Bool
  | root => true
  | chain _ => false

def first (v : FatVolHandle) : DirPlace → Nat
  | root => v.rootFirstSector
  | chain cs => cs.headD 0

def size (v : FatVolHandle) : DirPlace → Nat
  | root => 512 * v.rootSectorCount
  | chain _ => 0

def cur (v : FatVolHandle) (i : Nat) : DirPlace → Nat
  | root => v.rootFirstSector
  | chain cs => (cs ++ [fatEoc v]).getD (i / (16 * v.sectorsPerCluster)) 0

end DirPlace

structure RootOk (v : FatVolHandle) : Prop where
  word : v.rootWord < 2 ^ 32
  first : 0 < v.rootFirstSector
  pos : 0 < v.rootSectorCount

def DirPlace.Ok (v : FatVolHandle) (d : Disk) : DirPlace → Prop
  | root => RootOk v
  | chain cs => ChainOk v d cs

/-- Clusters of the volume, each linked to the next and none twice. Where the last one leads is open. -/
structure PathOk (v : FatVolHandle) (d : Disk) (cs : List Nat) : Prop where
  pos : 0 < cs.length
  cluster : ∀ c ∈ cs, v.IsCluster c
  link : ∀ k, k + 1 < cs.length → fatEntry v d 0 (cs.getD k 0) = cs.getD (k + 1) 0
  nodup : cs.Nodup

/-- The slots of the directory can be walked, up to the last one given. -/
def DirPlace.Path (v : FatVolHandle) (d : Disk) : DirPlace → Prop
  | root => RootOk v
  | chain cs => PathOk v d cs

def DirPlace.Has (c : Nat) : DirPlace → Prop
  | root => False
  | chain cs => c ∈ cs

/-- A handle of the directory, at whatever position. -/
structure DirHandle (v : FatVolHandle) (dir : DirPlace) (h : FatFileHandle) : Prop where
  fat : h.fat = true
  root : h.rootFlag = dir.isRoot
  first : h.firstCluster = dir.first v
  size : h.size = dir.size v
  dirent : h.direntSector = 0

def FatFileHandle.toSlot (v : FatVolHandle) (dir : DirPlace) (i : Nat) (h : FatFileHandle) :
    FatFileHandle := { h with position := 32 * i, curCluster := dir.cur v i }

structure AtSlot (v : FatVolHandle) (dir : DirPlace) (i : Nat) (h : FatFileHandle) : Prop
    extends DirHandle v dir h where
  position : h.position = 32 * i
  cluster : h.curCluster = dir.cur v i

def entryAt (d : Disk) (e : Slot) : Sector := structOf (bytesAt (slotBytes d e) 0 32)

def DirPlace.entry (v : FatVolHandle) (d : Disk) (dir : DirPlace) (i : Nat) : Sector :=
  entryAt d (dir.slot v i)

/-- A call after which the handle `r` is `h`, and nothing else has changed. -/
structure Moved (P : Disk → Prop) (r : HandleRef) (h : FatFileHandle) (s t : FatState) : Prop
    extends Ran P s t where
  disk : t.disk = s.disk
  vol : t.vol = s.vol
  handle : t.handle = Function.update s.handle r h

variable {P : Disk → Prop} {s t u : FatState} {v : FatVolHandle} {d d' : Disk} {dir : DirPlace}
  {r : HandleRef} {h : FatFileHandle} {cs : List Nat}

-- ---------------------------------------------------------------------------
-- Slots
-- ---------------------------------------------------------------------------

theorem bytesAt_length (b : Sector) (o n : Nat) : (bytesAt b o n).length = n := by
  rw [bytesAt, List.length_map, List.length_range]

theorem structOf_bytesAt (b : Sector) (n : Nat) (i : Nat) :
    structOf (bytesAt b 0 n) i = if i < n then b i else 0 := by
  rw [structOf, bytesAt, List.getD_eq_getElem?_getD, List.getElem?_map]
  by_cases hi : i < n
  · rw [List.getElem?_range hi, if_pos hi, Option.map_some, Option.getD_some, Nat.zero_add]
  · rw [List.getElem?_eq_none (by simpa using hi), if_neg hi, Option.map_none, Option.getD_none]

theorem entryAt_apply (d : Disk) (e : Slot) (i : Nat) :
    entryAt d e i = if i < 32 then slotBytes d e i else 0 := structOf_bytesAt ..

theorem entryAt_congr {e : Slot} (h : ∀ i < 32, slotBytes d' e i = slotBytes d e i) :
    entryAt d' e = entryAt d e := by
  funext i
  rw [entryAt_apply, entryAt_apply]
  split
  · rename_i hi
    exact h i hi
  · rfl

theorem DirPlace.slot_offset (v : FatVolHandle) (dir : DirPlace) (i : Nat) :
    (dir.slot v i).offset = 32 * i % 512 := by
  show 32 * (i % 16) = 32 * i % 512
  omega

theorem clusterBytes_slots (v : FatVolHandle) : v.clusterBytes = 32 * (16 * v.sectorsPerCluster) := by
  rw [FatVolHandle.clusterBytes]
  omega

theorem slot_div_cluster (v : FatVolHandle) (i : Nat) :
    32 * i / v.clusterBytes = i / (16 * v.sectorsPerCluster) := by
  rw [clusterBytes_slots, Nat.mul_div_mul_left _ _ (by decide)]

theorem DirPlace.count_mod (v : FatVolHandle) (dir : DirPlace) : dir.count v % 16 = 0 := by
  cases dir with
  | root => exact Nat.mul_mod_right 16 _
  | chain cs => rw [DirPlace.count, Nat.mul_assoc, Nat.mul_mod_right]

theorem slot_index (hi : i < (DirPlace.chain cs).count v) :
    i / (16 * v.sectorsPerCluster) < cs.length :=
  Nat.div_lt_of_lt_mul hi

theorem DirPlace.Ok.path (hv : v.Shape) (hd : dir.Ok v d) : dir.Path v d := by
  cases dir with
  | root => exact hd
  | chain cs =>
    have hc : ChainOk v d cs := hd
    exact ⟨hc.pos, hc.cluster, fun k hk => hc.entry_getD hk, hc.nodup hv⟩

theorem DirPlace.Path.slot_lt (hv : v.Shape) (hd : dir.Path v d) (hi : i < dir.count v) :
    (dir.slot v i).sector < 2 ^ 32 := by
  cases dir with
  | root =>
    have hword := hd.word
    simp only [DirPlace.count, FatVolHandle.rootSectorCount] at hi
    simp only [DirPlace.slot, FatVolHandle.rootFirstSector]
    omega
  | chain cs =>
    have hidx := slot_index hi
    have hcl := PathOk.cluster hd _ (getD_mem hidx)
    refine inCluster_lt hv hcl ?_
    rw [← slot_div_cluster]
    exact chainSector_inCluster hv cs (32 * i)

theorem DirHandle.toSlot (hd : DirHandle v dir h) (i : Nat) : AtSlot v dir i (h.toSlot v dir i) :=
  ⟨⟨hd.fat, hd.root, hd.first, hd.size, hd.dirent⟩, rfl, rfl⟩

theorem AtSlot.sectorOffset (hv : v.Shape) (hd : dir.Path v d) (h : AtSlot v dir i hd') (hi : i < dir.count v) :
    fatFileSectorOffset v hd' = ((dir.slot v i).sector, (dir.slot v i).offset) := by
  have hlt := hd.slot_lt hv hi
  rw [DirPlace.slot_offset]
  simp only [fatFileSectorOffset, h.root, h.position, h.cluster, hv.bytes]
  refine Prod.ext ?_ rfl
  cases dir with
  | root =>
    simp only [DirPlace.isRoot, if_true, DirPlace.cur]
    have h16 : 32 * i / 512 = i / 16 := by omega
    rw [h16]
    exact Nat.mod_eq_of_lt hlt
  | chain cs =>
    simp only [DirPlace.isRoot, Bool.false_eq_true, if_false, DirPlace.cur]
    have hidx := slot_index hi
    have hmem := getD_mem hidx
    rw [List.getD_append _ _ _ _ hidx, fatFirstSectorOfCluster_eq hv (PathOk.cluster hd _ hmem),
      ← slot_div_cluster, u32, Nat.mod_eq_of_lt]
    · rfl
    · exact hlt

theorem PathOk.chainOk (h : PathOk v d cs) (he : fatEntry v d 0 (lastOf cs) = fatEoc v) : ChainOk v d cs := by
  have hne := List.ne_nil_of_length_pos h.pos
  refine ⟨.of_links hne (fun i hi => ?_) (by rw [getLast_eq_lastOf hne, he]), h.cluster⟩
  have := h.link i hi
  rwa [List.getD_eq_getElem _ _ hi, List.getD_eq_getElem _ _ (Nat.lt_of_succ_lt hi)] at this

theorem PathOk.lastOf_mem (h : PathOk v d cs) : lastOf cs ∈ cs := getD_mem (Nat.sub_lt h.pos Nat.one_pos)

-- ---------------------------------------------------------------------------
-- Moving and reading
-- ---------------------------------------------------------------------------

theorem Moved.refl (hs : s.Mounted) : Moved P r (s.handle r) s s :=
  ⟨.refl hs, rfl, rfl, (Function.update_eq_self ..).symm⟩

theorem Moved.trans (h1 : Moved P r h s t) (h2 : Moved P r h' t u) : Moved P r h' s u where
  toRan := h1.toRan.trans h2.toRan
  disk := h2.disk.trans h1.disk
  vol := h2.vol.trans h1.vol
  handle := by rw [h2.handle, h1.handle, Function.update_idem]

theorem Kept.moved (hk : Kept P s t) (r : HandleRef) (h : FatFileHandle) :
    Moved P r h s (t.withHandle r h) where
  toRan := hk.toRan.withHandle
  disk := hk.disk
  vol := hk.vol
  handle := by rw [FatState.withHandle, hk.handle]

theorem Moved.self (h1 : Moved P r h s t) : t.handle r = h := by
  rw [h1.handle, Function.update_self]

theorem Moved.other (h1 : Moved P r h s t) (hr : r' ≠ r) : t.handle r' = s.handle r' := by
  rw [h1.handle, Function.update_of_ne hr]

theorem cur_same (hv : v.Shape) (hb : (i + 1) % (16 * v.sectorsPerCluster) ≠ 0) :
    (DirPlace.chain cs).cur v (i + 1) = (DirPlace.chain cs).cur v i := by
  have hspc := spc_pos hv
  have hdiv : (i + 1) / (16 * v.sectorsPerCluster) = i / (16 * v.sectorsPerCluster) := by
    rw [Nat.succ_div, if_neg (fun h => hb (Nat.mod_eq_zero_of_dvd h)), Nat.add_zero]
  rw [DirPlace.cur, DirPlace.cur, hdiv]

theorem cur_inside (hv : v.Shape) (h : 32 * (i + 1) % 512 ≠ 0) : dir.cur v (i + 1) = dir.cur v i := by
  cases dir with
  | root => rfl
  | chain cs =>
    refine cur_same hv fun h0 => h ?_
    have hdvd : 16 ∣ i + 1 := (Nat.dvd_mul_right 16 _).trans (Nat.dvd_of_mod_eq_zero h0)
    omega

/-- The test of `fat_read` for the end of the cluster, at the end of a sector. -/
theorem slot_boundary (cs : List Nat) (hv : v.Layout) (h : 32 * (i + 1) % 512 = 0) :
    (chainSector v cs (32 * i) + 1) % v.sectorsPerCluster = 0 ↔
      (i + 1) % (16 * v.sectorsPerCluster) = 0 := by
  rw [show 32 * (i + 1) = 32 * i + 32 by omega] at h
  rw [chainSector_boundary cs hv.toShape (n := 32) (by omega) (hv.tests _),
    show 32 * i + 32 = 32 * (i + 1) by omega,
    slot_div_cluster, slot_div_cluster, Nat.succ_div, ← Nat.dvd_iff_mod_eq_zero]
  split
  · rename_i hdvd
    exact iff_of_true rfl hdvd
  · rename_i hdvd
    exact iff_of_false (by omega) hdvd

theorem withCluster_self {h : FatFileHandle} (hc : h.curCluster = c) : { h with curCluster := c } = h := by
  rw [← hc]

theorem u32_mod_spc (hv : v.Shape) (n : Nat) : u32 n % v.sectorsPerCluster = n % v.sectorsPerCluster := by
  obtain ⟨e, he, hspc⟩ := hv.spc
  rw [u32, hspc, Nat.mod_mod_of_dvd _ (Nat.pow_dvd_pow 2 (by omega))]

theorem clusterBytes_dvd (hv : v.Shape) : v.clusterBytes ∣ 2 ^ 32 := by
  obtain ⟨e, he, hspc⟩ := hv.spc
  rw [FatVolHandle.clusterBytes, hspc, show 512 = 2 ^ 9 from rfl, ← Nat.pow_add]
  exact Nat.pow_dvd_pow 2 (by omega)

def FatFileHandle.next (v : FatVolHandle) (d : Disk) (h : FatFileHandle) : FatFileHandle :=
  { h with
    position := u32 (h.position + 32)
    curCluster :=
      if h.rootFlag = false ∧ u32 (h.position + 32) % v.clusterBytes = 0 then fatEntry v d 0 h.curCluster
      else h.curCluster }

def FatFileHandle.step (v : FatVolHandle) (d : Disk) (h : FatFileHandle) : FatFileHandle :=
  { h with
    position := u32 (h.position + 32)
    curCluster :=
      if h.rootFlag = false ∧ u32 (h.position + 32) % v.clusterBytes = 0 then fatNext v d h.curCluster
      else h.curCluster }

theorem step_eq_next (hv : v.Shape) (hlink : h.rootFlag = true ∨ v.HasEntry h.curCluster) :
    h.step v d = h.next v d := by
  rw [FatFileHandle.step, FatFileHandle.next]
  split
  next hend =>
    rw [fatNext_eq hv (hlink.resolve_left (by simp [hend.1]))]
  next => rfl

theorem sector_boundary (hv : v.Layout) (c : Nat) (hp : p % 32 = 0) (h0 : u32 (p + 32) % 512 = 0) :
    u32 (u32 (fatFirstSectorOfCluster v c + p / 512 % v.sectorsPerCluster) + 1) % v.sectorsPerCluster = 0 ↔
      u32 (p + 32) % v.clusterBytes = 0 := by
  have hspc := spc_pos hv.toShape
  have hmod : (p + 32) % 512 = 0 := by
    rw [u32] at h0
    omega
  have hdiv : (p + 32) / 512 = p / 512 + 1 := by omega
  have hfirst : fatFirstSectorOfCluster v c % v.sectorsPerCluster = 0 := by
    rw [fatFirstSectorOfCluster, u32_mod_spc hv.toShape, Nat.mul_add_mod_self_right, hv.aligned]
  rw [u32_mod_spc hv.toShape, Nat.add_mod, u32_mod_spc hv.toShape,
    Nat.add_mod (fatFirstSectorOfCluster v c), hfirst,
    Nat.zero_add, Nat.mod_mod, Nat.mod_mod, ← Nat.add_mod, u32,
    Nat.mod_mod_of_dvd _ (clusterBytes_dvd hv.toShape),
    FatVolHandle.clusterBytes, Nat.mod_mul, hmod, Nat.zero_add, hdiv, Nat.mul_eq_zero]
  exact ⟨.inr, fun h => h.resolve_left (by decide)⟩

theorem readAdvance_step (h : FatFileHandle) (hs : s.Mounted) (hq : s.Quiet) (hv : s.vol.Layout)
    (hh : s.handle r = { h with position := u32 (h.position + 32) }) (hpos : h.position % 32 = 0)
    (hco : s.Coherent) (hP : P s.disk) :
    ∃ o t, readAdvance r s.vol (fatFileSectorOffset s.vol h).1 s = .ok o t ∧
      Moved P r (h.step s.vol s.disk) s t ∧ t.Coherent := by
  have stay : (h.rootFlag = false ∧ u32 (h.position + 32) % s.vol.clusterBytes = 0 → False) →
      Moved P r (h.step s.vol s.disk) s s := fun hno => by
    rw [FatFileHandle.step, if_neg hno, ← hh]
    exact .refl hs
  rw [readAdvance, getHandle_bind, hv.bytes, hh]
  by_cases hsec : u32 (h.position + 32) % 512 = 0
  · rw [if_neg (not_not_intro hsec)]
    by_cases hroot : h.rootFlag = true
    · rw [if_pos hroot]
      exact ⟨_, s, rfl, stay (by simp [hroot]), hco⟩
    · have hroot' : h.rootFlag = false := Bool.eq_false_iff.mpr hroot
      have hsector : (fatFileSectorOffset s.vol h).1 =
          u32 (fatFirstSectorOfCluster s.vol h.curCluster + h.position / 512 % s.vol.sectorsPerCluster) := by
        simp only [fatFileSectorOffset, hroot', hv.bytes, Bool.false_eq_true, if_false]
      have hbound := sector_boundary hv h.curCluster hpos hsec
      rw [if_neg hroot, hsector]
      by_cases hcl : u32 (h.position + 32) % s.vol.clusterBytes = 0
      · obtain ⟨t, hrun, hk, hco'⟩ :=
          fatGetNextCluster_next (P := P) (c := h.curCluster) hs hq hv.bytes hP (hco _)
        have hm := hk.moved r (h.step s.vol s.disk)
        have hstep : h.step s.vol s.disk = { h with
            position := u32 (h.position + 32), curCluster := fatNext s.vol s.disk h.curCluster } := by
          rw [FatFileHandle.step, if_pos ⟨hroot', hcl⟩]
        rw [if_pos (hbound.mpr hcl), bind_ok hrun, modifyHandle_bind, hk.handle, hh, ← hstep]
        split
        · exact ⟨_, _, rfl, hm, fun n => (hco' n).withHandle⟩
        · exact ⟨_, _, rfl, hm, fun n => (hco' n).withHandle⟩
      · rw [if_neg (fun h0 => hcl (hbound.mp h0))]
        exact ⟨_, s, rfl, stay fun h => hcl h.2, hco⟩
  · rw [if_pos hsec]
    refine ⟨_, s, rfl, stay fun h => hsec ?_, hco⟩
    rw [FatVolHandle.clusterBytes, Nat.mod_mul] at h
    omega

theorem fatRead_step (hs : s.Mounted) (hq : s.Quiet) (hv : s.vol.Layout) (hfat : (s.handle r).fat = true)
    (hpos : (s.handle r).position % 32 = 0)
    (hsize : (s.handle r).size = 0 ∨ u32 ((s.handle r).position + 32) ≤ (s.handle r).size)
    (hc : s.CacheOk (fatFileSectorOffset s.vol (s.handle r)).1) (hP : P s.disk) :
    ∃ t, fatRead r 32 s = .ok (some (bytesAt (s.disk (fatFileSectorOffset s.vol (s.handle r)).1)
        ((s.handle r).position % 512) 32)) t ∧
      Moved P r ((s.handle r).step s.vol s.disk) s t ∧ t.Coherent := by
  have hlt : (fatFileSectorOffset s.vol (s.handle r)).1 < 2 ^ 32 := by
    simp only [fatFileSectorOffset]
    split
    · exact Nat.mod_lt _ (by decide)
    · exact Nat.mod_lt _ (by decide)
  have hoff : (fatFileSectorOffset s.vol (s.handle r)).2 = (s.handle r).position % 512 := by
    simp only [fatFileSectorOffset, hv.bytes]
  have hwhole : ¬ ((s.handle r).size ≠ 0 ∧ u32 ((s.handle r).position + 32) > (s.handle r).size) := by
    omega
  obtain ⟨t1, hget, hk, hl⟩ := get_run hs hq hP hlt hc
  have hmin : u16 (min (512 - (s.handle r).position % 512) (32 - ([] : List UInt8).length)) = 32 := by
    have hle : 32 ≤ 512 - (s.handle r).position % 512 := by omega
    rw [List.length_nil, Nat.sub_zero, Nat.min_eq_right hle]
    rfl
  -- the handle between the read and the step
  have hmid := hk.moved r { s.handle r with position := u32 ((s.handle r).position + 32) }
  have hadv := readAdvance_step (P := P) (r := r)
    (s := t1.withHandle r { s.handle r with position := u32 ((s.handle r).position + 32) })
    (s.handle r) hmid.mounted (hmid.quiet hq) (by rw [hmid.vol]; exact hv) (by rw [withHandle_handle]) hpos
    hl.withHandle.coherent (by rw [hmid.disk]; exact hP)
  rw [hmid.vol, hmid.disk] at hadv
  obtain ⟨o, t, hrun, hm, hco⟩ := hadv
  refine ⟨t, ?_, hmid.trans hm, hco⟩
  refine returning_ok ?_
  rw [getHandle_bind, fatOf_bind hfat]
  simp only [if_neg hwhole]
  refine map_ok ?_
  rw [readLoop, if_neg (by decide), getHandle_bind, fatOf_bind hfat, hv.bytes, hoff, hmin,
    bind_ok hget, get_bind,
    modifyHandle_bind, List.nil_append, hl.buf, hk.disk, hk.handle, bind_ok hrun]
  cases o with
  | none => rfl
  | some sector =>
    show readLoop r 32 31 sector 0 _ t = _
    rw [readLoop, if_pos (Nat.le_of_eq (bytesAt_length _ _ _).symm)]
    rfl

theorem fatRead_next (hs : s.Mounted) (hq : s.Quiet) (hv : s.vol.Layout) (hfat : (s.handle r).fat = true)
    (hpos : (s.handle r).position % 32 = 0)
    (hsize : (s.handle r).size = 0 ∨ u32 ((s.handle r).position + 32) ≤ (s.handle r).size)
    (hlink : (s.handle r).rootFlag = true ∨ s.vol.HasEntry (s.handle r).curCluster)
    (hc : s.CacheOk (fatFileSectorOffset s.vol (s.handle r)).1) (hP : P s.disk) :
    ∃ t, fatRead r 32 s = .ok (some (bytesAt (s.disk (fatFileSectorOffset s.vol (s.handle r)).1)
        ((s.handle r).position % 512) 32)) t ∧
      Moved P r ((s.handle r).next s.vol s.disk) s t ∧ t.Coherent := by
  rw [← step_eq_next hv.toShape hlink]
  exact fatRead_step hs hq hv hfat hpos hsize hc hP

theorem AtSlot.next_position (ha : AtSlot v dir i h) (h26 : i < 2 ^ 26) :
    u32 (h.position + 32) = 32 * (i + 1) := by
  rw [ha.position, u32, Nat.mod_eq_of_lt (by omega)]
  omega

theorem AtSlot.next (hv : v.Shape) (hd : dir.Path v d) (ha : AtSlot v dir i h) (h26 : i < 2 ^ 26)
    (hi : dir.isRoot = true ∨ i + 1 < dir.count v) : h.next v d = h.toSlot v dir (i + 1) := by
  have hpos := ha.next_position h26
  rw [FatFileHandle.next, FatFileHandle.toSlot, hpos, ha.root]
  congr 1
  cases dir with
  | root => exact ha.cluster
  | chain cs =>
    have hlt := hi.resolve_left (by simp [DirPlace.isRoot])
    have hidx := slot_index hlt
    have hidx0 := slot_index (Nat.lt_of_succ_lt hlt)
    have hmod : 32 * (i + 1) % v.clusterBytes = 0 ↔ (i + 1) % (16 * v.sectorsPerCluster) = 0 := by
      rw [clusterBytes_slots, Nat.mul_mod_mul_left]
      omega
    by_cases hcl : (i + 1) % (16 * v.sectorsPerCluster) = 0
    · have hsucc : (i + 1) / (16 * v.sectorsPerCluster) = i / (16 * v.sectorsPerCluster) + 1 := by
        rw [Nat.succ_div, if_pos (Nat.dvd_of_mod_eq_zero hcl)]
      rw [if_pos ⟨rfl, hmod.mpr hcl⟩, ha.cluster, DirPlace.cur, DirPlace.cur, List.getD_append _ _ _ _ hidx,
        List.getD_append _ _ _ _ hidx0, hsucc]
      exact PathOk.link hd _ (hsucc ▸ hidx)
    · rw [if_neg fun h => hcl (hmod.mp h.2), ha.cluster, cur_same hv hcl]

theorem AtSlot.dirHandle_next (ha : AtSlot v dir i h) : DirHandle v dir (h.next v d) :=
  ⟨ha.fat, ha.root, ha.first, ha.size, ha.dirent⟩

/-- `fat_read` of one entry; behind the last one the handle may lead anywhere. -/
theorem fatRead_slot (hs : s.Mounted) (hq : s.Quiet) (hv : s.vol.Layout) (hd : dir.Path s.vol s.disk)
    (ha : AtSlot s.vol dir i (s.handle r)) (hi : i < dir.count s.vol) (h26 : i < 2 ^ 26)
    (hc : s.CacheOk (dir.slot s.vol i).sector) (hP : P s.disk) :
    ∃ t, fatRead r 32 s = .ok (some (bytesAt (slotBytes s.disk (dir.slot s.vol i)) 0 32)) t ∧
      Moved P r ((s.handle r).next s.vol s.disk) s t ∧ t.Coherent := by
  have hsec := ha.sectorOffset hv.toShape hd hi
  have hoff : (s.handle r).position % 512 = (dir.slot s.vol i).offset := by
    rw [ha.position, dir.slot_offset]
  have hsize : (s.handle r).size = 0 ∨ u32 ((s.handle r).position + 32) ≤ (s.handle r).size := by
    rw [ha.next_position h26, ha.size]
    cases dir with
    | root =>
      simp only [DirPlace.count] at hi
      simp only [DirPlace.size]
      omega
    | chain cs => exact .inl rfl
  have hlink : (s.handle r).rootFlag = true ∨ s.vol.HasEntry (s.handle r).curCluster := by
    rw [ha.root, ha.cluster]
    cases dir with
    | root => exact .inl rfl
    | chain cs =>
      have hidx := slot_index hi
      rw [DirPlace.cur, List.getD_append _ _ _ _ hidx]
      exact .inr (PathOk.cluster hd _ (getD_mem hidx)).2
  obtain ⟨t, hrun, hm, hco⟩ := fatRead_next (P := P) hs hq hv ha.fat (by rw [ha.position]; omega) hsize hlink
    (by rw [hsec]; exact hc) hP
  have hbytes : bytesAt (s.disk (dir.slot s.vol i).sector) (dir.slot s.vol i).offset 32 =
      bytesAt (slotBytes s.disk (dir.slot s.vol i)) 0 32 := by
    refine List.map_congr_left fun j _ => ?_
    rw [slotBytes, Nat.zero_add]
  rw [hsec, hoff, hbytes] at hrun
  exact ⟨t, hrun, hm, hco⟩

theorem fatRead_rootEnd (hd : RootOk s.vol)
    (ha : AtSlot s.vol .root (DirPlace.root.count s.vol) (s.handle r)) :
    fatRead r 32 s = .ok (some []) s := by
  have h16 := Nat.mod_lt s.vol.rootWord (show 65536 > 0 by decide)
  have hcount : 32 * DirPlace.root.count s.vol = 512 * s.vol.rootSectorCount := by
    simp only [DirPlace.count]
    omega
  have hpos := hd.pos
  have hlt : s.vol.rootSectorCount < 65536 := h16
  have hsize : (if (s.handle r).size ≠ 0 ∧ u32 ((s.handle r).position + 32) > (s.handle r).size then
      (i32 (sub32 (s.handle r).size (s.handle r).position)).toNat else 32) = 0 := by
    have hsz : (s.handle r).size = 512 * s.vol.rootSectorCount := ha.size
    rw [hsz, ha.position, hcount, u32, Nat.mod_eq_of_lt (by omega), if_pos (by omega), sub32, u32, u32,
      Nat.mod_eq_of_lt (show 512 * s.vol.rootSectorCount < 2 ^ 32 by omega),
      Nat.add_sub_cancel' (by omega), Nat.mod_self]
    rfl
  refine returning_ok ?_
  rw [getHandle_bind, fatOf_bind ha.fat]
  simp only [hsize]
  refine map_ok ?_
  rw [readLoop, if_pos (Nat.zero_le _)]
  rfl

theorem bytesPerCluster_eq (hv : v.Shape) : v.bytesPerCluster = v.clusterBytes := by
  rw [FatVolHandle.bytesPerCluster, hv.bytes, FatVolHandle.clusterBytes, Nat.mul_comm]

theorem lseekWalk_stay (fuel : Nat) {o : Int} (hv : s.vol.Shape) (hfat : (s.handle r).fat = true)
    (hlt : o < s.vol.clusterBytes) :
    lseekWalk r fuel o s = .ok ⟨⟩ s := by
  rw [lseekWalk, getHandle_bind, fatOf_bind hfat, bytesPerCluster_eq hv, if_pos hlt]
  rfl

theorem lseekWalk_iterate (fuel : Nat) (o : Int) (hs : s.Mounted) (hq : s.Quiet) (hv : s.vol.Shape)
    (hco : s.Coherent)
    (hfat : (s.handle r).fat = true) (ho : o.toNat ≤ fuel) (hP : P s.disk) :
    ∃ t, lseekWalk r fuel o s = .ok ⟨⟩ t ∧
      Moved P r { s.handle r with
        curCluster := (fatNext s.vol s.disk)^[o.toNat / s.vol.clusterBytes] (s.handle r).curCluster } s t ∧
        t.Coherent := by
  have hpos := clusterBytes_pos hv
  by_cases hlt : o < s.vol.clusterBytes
  · rw [Nat.div_eq_of_lt (by omega)]
    exact ⟨s, lseekWalk_stay fuel hv hfat hlt, .refl hs, hco⟩
  · induction fuel generalizing s o with
    | zero => omega
    | succ fuel ih =>
      obtain ⟨t, hrun, hk, hco1⟩ :=
        fatGetNextCluster_next (P := P) (c := (s.handle r).curCluster) hs hq hv.bytes hP (hco _)
      have hm := hk.moved r { s.handle r with curCluster := fatNext s.vol s.disk (s.handle r).curCluster }
      have hvol := hm.vol
      have hco2 : (t.withHandle r { s.handle r with
          curCluster := fatNext s.vol s.disk (s.handle r).curCluster }).Coherent := fun n => (hco1 n).withHandle
      have hdiv : o.toNat / s.vol.clusterBytes = (o - s.vol.clusterBytes).toNat / s.vol.clusterBytes + 1 := by
        rw [Nat.div_eq_sub_div hpos (by omega)]
        congr 2
        omega
      rw [lseekWalk, getHandle_bind, fatOf_bind hfat, bytesPerCluster_eq hv, if_neg hlt, hdiv,
        Function.iterate_succ_apply]
      dsimp only
      rw [getHandle_bind, bind_ok hrun, modifyHandle_bind, hk.handle]
      by_cases hlt' : o - s.vol.clusterBytes < s.vol.clusterBytes
      · rw [Nat.div_eq_of_lt (by omega)]
        exact ⟨_, lseekWalk_stay fuel (hvol ▸ hv) (by rw [withHandle_handle]; exact hfat)
          (by rw [hvol]; exact hlt'), hm, hco2⟩
      · obtain ⟨u, hrun', hm', hco'⟩ := ih
          (s := t.withHandle r { s.handle r with curCluster := fatNext s.vol s.disk (s.handle r).curCluster })
          (o - s.vol.clusterBytes) hm.mounted (hm.quiet hq) (hvol ▸ hv) hco2
          (by rw [withHandle_handle]; exact hfat) (by omega) (hm.disk ▸ hP) (by rw [hvol]; exact hpos)
            (by rw [hvol]; exact hlt')
        rw [withHandle_handle, hvol, hm.disk] at hm'
        exact ⟨u, hrun', hm.trans hm', hco'⟩

theorem lseekWalk_run (cs : List Nat) (fuel k o : Nat) (hs : s.Mounted) (hq : s.Quiet) (hv : s.vol.Shape)
    (hc : PathOk s.vol s.disk cs) (hfat : (s.handle r).fat = true)
    (hcur : (s.handle r).curCluster = cs.getD k 0) (hk : k + o / s.vol.clusterBytes < cs.length)
    (hfuel : o ≤ fuel) (hco : s.vol.clusterBytes ≤ o → s.Coherent) (hP : P s.disk) :
    ∃ t, lseekWalk r fuel (o : Int) s = .ok ⟨⟩ t ∧
      Moved P r { s.handle r with curCluster := cs.getD (k + o / s.vol.clusterBytes) 0 } s t ∧
      (∀ n, s.CacheOk n → t.CacheOk n) := by
  induction fuel generalizing s k o with
  | zero =>
    have h0 : o = 0 := Nat.le_zero.mp hfuel
    have hpos := clusterBytes_pos hv
    subst h0
    rw [lseekWalk, getHandle_bind, fatOf_bind hfat, bytesPerCluster_eq hv, if_pos (by omega), Nat.zero_div,
      Nat.add_zero, withCluster_self hcur]
    exact ⟨s, rfl, .refl hs, fun _ h => h⟩
  | succ fuel ih =>
    have hpos := clusterBytes_pos hv
    rw [lseekWalk, getHandle_bind, fatOf_bind hfat, bytesPerCluster_eq hv]
    by_cases hlt : o < s.vol.clusterBytes
    · rw [if_pos (by omega), Nat.div_eq_of_lt hlt, Nat.add_zero, withCluster_self hcur]
      exact ⟨s, rfl, .refl hs, fun _ h => h⟩
    · have hge := Nat.le_of_not_lt hlt
      have hdiv : o / s.vol.clusterBytes = (o - s.vol.clusterBytes) / s.vol.clusterBytes + 1 := by
        rw [Nat.div_eq_sub_div hpos hge]
      have hidx' : k + 1 + (o - s.vol.clusterBytes) / s.vol.clusterBytes = k + o / s.vol.clusterBytes := by
        rw [hdiv, Nat.add_assoc, Nat.add_comm 1]
      have hnext : k + 1 < cs.length := by
        rw [← hidx'] at hk
        exact Nat.lt_of_le_of_lt (Nat.le_add_right _ _) hk
      obtain ⟨t, hrun, hkept, hco1⟩ := fatGetNextCluster_run hs hq hv
        (show s.vol.HasEntry _ from (hc.cluster _ (getD_mem (Nat.lt_of_succ_lt hnext))).2) hP (hco hge _)
      have hsub : (o : Int) - (s.vol.clusterBytes : Int) = ((o - s.vol.clusterBytes : Nat) : Int) := by
        omega
      rw [if_neg (by omega)]
      dsimp only
      rw [getHandle_bind, hcur, bind_ok hrun, modifyHandle_bind, hsub, hkept.handle, hc.link k hnext]
      have hm := hkept.moved r { s.handle r with curCluster := cs.getD (k + 1) 0 }
      obtain ⟨u, hrun', hm', hco'⟩ :=
        ih (s := t.withHandle r { s.handle r with curCluster := cs.getD (k + 1) 0 })
        (k + 1) (o - s.vol.clusterBytes) hm.mounted (hm.quiet hq) (by rw [hm.vol]; exact hv)
        (by rw [hm.vol, hm.disk]; exact hc) (by rw [withHandle_handle]; exact hfat) (by rw [withHandle_handle])
        (by rw [hm.vol, hidx']; exact hk) (by omega) (fun _ n => (hco1 n).withHandle)
          (by rw [hm.disk]; exact hP)
      rw [hm.vol, withHandle_handle] at hm'
      rw [hidx'] at hm'
      exact ⟨u, hrun', hm.trans hm', fun n _ => hco' n (hco1 n).withHandle⟩

def Whence.target (h : FatFileHandle) (offset : Int) : Whence → Int
  | .set => offset
  | .cur => i32 (offset + h.position)
  | .fromEnd => i32 (offset + h.size)

theorem fatLseek_eq (o : Int) (hres : whence.target (s.handle r) offset = o)
    (hclip : ¬ ((s.handle r).size ≠ 0 ∧ u32OfInt o > (s.handle r).size)) :
    fatLseek r offset whence s =
      (if (s.handle r).rootFlag then pure (u32OfInt o)
        else lseekWalk r o.toNat o >>= fun _ => pure (u32OfInt o))
        (s.withHandle r
          { s.handle r with curCluster := (s.handle r).firstCluster, position := u32OfInt o }) := by
  subst hres
  rw [fatLseek, getHandle_bind]
  cases whence with
  | _ =>
    simp only [Whence.target] at hclip ⊢
    rw [if_neg hclip, setHandle_bind]

/-- `fat_lseek` to a slot, or to the end of the root directory. -/
theorem fatLseek_slot (whence : Whence) (offset : Int) (p : Nat) (hs : s.Mounted) (hq : s.Quiet)
    (hv : s.vol.Shape) (hd : dir.Path s.vol s.disk) (hh : DirHandle s.vol dir (s.handle r))
    (hp : p < dir.count s.vol ∨ dir.isRoot = true ∧ p ≤ dir.count s.vol) (h26 : p < 2 ^ 26)
    (hco : p = 0 ∨ s.Coherent) (hP : P s.disk)
    (hoff : whence.target (s.handle r) offset = ((32 * p : Nat) : Int)) :
    ∃ n t, fatLseek r offset whence s = .ok n t ∧
      Moved P r ((s.handle r).toSlot s.vol dir p) s t ∧ (∀ n, s.CacheOk n → t.CacheOk n) := by
  have hu : u32OfInt ((32 * p : Nat) : Int) = 32 * p := by
    rw [u32OfInt]
    omega
  have hclip : ¬ ((s.handle r).size ≠ 0 ∧ u32OfInt ((32 * p : Nat) : Int) > (s.handle r).size) := by
    rw [hu, hh.size]
    cases dir with
    | root =>
      simp only [DirPlace.count] at hp
      simp only [DirPlace.size]
      omega
    | chain cs => simp [DirPlace.size]
  rw [fatLseek_eq _ hoff hclip, hu, hh.root]
  have hm := (Kept.refl (P := P) hs).moved r
    { s.handle r with curCluster := (s.handle r).firstCluster, position := 32 * p }
  cases dir with
  | root =>
    refine ⟨_, _, rfl, ?_, fun _ h => h.withHandle⟩
    rw [hh.first] at hm ⊢
    exact hm
  | chain cs =>
    have hpath : PathOk s.vol s.disk cs := hd
    have hfirst : (s.handle r).firstCluster = cs.getD 0 0 := by
      rw [hh.first]
      cases cs with
      | nil => exact absurd hpath.pos (Nat.lt_irrefl 0)
      | cons c cs => rfl
    have hidx := slot_index (hp.resolve_right fun h => absurd h.1 (by simp [DirPlace.isRoot]))
    obtain ⟨t, hrun, hm', hco'⟩ := lseekWalk_run (P := P) (r := r)
      (s := s.withHandle r { s.handle r with curCluster := (s.handle r).firstCluster, position := 32 * p })
      cs (32 * p) 0 (32 * p) hm.mounted (hm.quiet hq) (by rw [hm.vol]; exact hv)
      (by rw [hm.vol, hm.disk]; exact hpath)
      (by rw [withHandle_handle]; exact hh.fat) (by rw [withHandle_handle]; exact hfirst)
      (by rw [hm.vol, slot_div_cluster, Nat.zero_add]; exact hidx) (Nat.le_refl _) (fun hle n => by
        rcases hco with h0 | h
        · have := clusterBytes_pos hv
          rw [withHandle_vol] at hle
          omega
        · exact (h n).withHandle) (by rw [hm.disk]; exact hP)
    refine ⟨32 * p, t, ?_, ?_, fun n h => hco' n h.withHandle⟩
    · rw [if_neg (by simp [DirPlace.isRoot]), Int.toNat_natCast, bind_ok hrun]
      rfl
    · have := hm.trans hm'
      rw [withHandle_handle, withHandle_vol, slot_div_cluster, Nat.zero_add,
        ← List.getD_append _ [fatEoc s.vol] _ _ hidx]
        at this
      exact this

end Stm32Logger
