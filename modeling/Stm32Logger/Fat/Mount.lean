import Stm32Logger.Fat.CacheLaws
import Stm32Logger.Fat.SdStore

/-!
# Mounting

What `OpenFatInit` makes of any card, and what `main` does with the result. A
card is handled safely when a volume that cannot be used is refused.
-/

namespace Stm32Logger

/-- The bytes `fat_vol_init` takes for a boot sector: the first sector of
partition 0, if that sector and the partition table can be read. -/
def bootSector (card : SdCard) : Option Sector :=
  if card.readFaults.headD false ∨ card.readFaults.tail.headD false then none
  else some (card.image (u32 (le32 (card.image 0) 454 + 0)))

/-- `part.sector_count` once the partition table was read. -/
def partitionSectors (card : SdCard) : Nat := le32 (card.image 0) 458

/-- The volume handle `fat_vol_init` fills in from a boot sector. -/
def volumeOf (bpb : Sector) : FatVolHandle where
  dev := .part
  type := Bpb.fatType bpb
  clusterCount := Bpb.clusterCount bpb
  bytesPerSector := Bpb.bytesPerSector bpb
  sectorsPerCluster := Bpb.sectorsPerCluster bpb
  firstDataSector := Bpb.firstDataSector bpb
  reservedSectorCount := Bpb.reservedSectorCount bpb
  numFats := Bpb.numFats bpb
  fatSize := Bpb.fatSize bpb
  lastClusterAlloc := 2
  rootWord :=
    if Bpb.fatType bpb = .fat32 then Bpb.rootCluster bpb
    else
      let count := u16 (Bpb.rootDirSectors bpb)
      count + 65536 * u16 (sub32 (Bpb.firstDataSector bpb) count)

/-- The reserved area, the FATs, the root directory and the clusters of the
volume lie among the first `sectorCount` sectors. -/
structure FatVolHandle.Inside (v : FatVolHandle) (sectorCount : Nat) : Prop where
  reserved : v.reservedSectorCount ≤ sectorCount
  tables : v.reservedSectorCount + v.numFats * v.fatSize ≤ sectorCount
  rootArea : v.type ≠ .fat32 → v.rootFirstSector + v.rootSectorCount ≤ sectorCount
  rootCluster : v.type = .fat32 → 2 ≤ v.rootCluster ∧ v.rootCluster < v.clusterCount + 2
  clusters : v.firstDataSector + v.clusterCount * v.sectorsPerCluster ≤ sectorCount

/-- The volume can be used with the sector buffer, and lies inside its partition. -/
structure FatState.UsableVolume (s : FatState) : Prop where
  bytesPerSector : s.vol.bytesPerSector = 512
  sectorsPerCluster : 1 ≤ s.vol.sectorsPerCluster
  numFats : 1 ≤ s.vol.numFats
  inside : s.vol.Inside s.part.sectorCount

/-- The calls the logger makes once `OpenFatInit` has returned. -/
inductive LogCall where
  | createDir
  | createFile
  | writeToFile (arr : List UInt8)

def LogCall.perform : LogCall → StoreM Unit
  | .createDir => Stm32Logger.createDir
  | .createFile => Stm32Logger.createFile
  | .writeToFile arr => Stm32Logger.writeToFile arr

def begun : List LogCall → SdStore → List LogCall
  | [], _ => []
  | c :: cs, s =>
    c :: match c.perform s with
      | .ok _ s' => begun cs s'
      | .error _ _ => []

/-- `main` from `OpenFatInit` on: the result is not looked at, and `CreateDir`
comes next. `later` are the calls of the interrupts. -/
def startUp (card : SdCard) (later : List LogCall) : List LogCall :=
  match openFatInit (.powerOn card) with
  | .ok _ s => begun (.createDir :: later) s
  | .error _ _ => []

/-- A card that cannot be mounted is refused. -/
structure MountSafe (card : SdCard) : Prop where
  noUnsetCall : ∀ s, openFatInit (.powerOn card) ≠ .error .nullPointer s
  /-- `_bpb_root_dir_sectors` and `_bpb_cluster_count` divide by these two. -/
  noZeroDivision : ∀ b, bootSector card = some b → Bpb.bytesPerSector b ≠ 0 ∧ Bpb.sectorsPerCluster b ≠ 0
  result : ∀ r s, openFatInit (.powerOn card) = .ok r s → r < 2 ∨ s.fs.UsableVolume
  started : ∀ later c, c ∈ startUp card later → ∃ r s, openFatInit (.powerOn card) = .ok r s ∧ s.fs.UsableVolume

/-- A boot sector whose volume can be used in a partition of `sectorCount` sectors. -/
structure Bpb.Fits (b : Sector) (sectorCount : Nat) : Prop where
  bytesPerSector : Bpb.bytesPerSector b = 512
  sectorsPerCluster : 1 ≤ Bpb.sectorsPerCluster b
  numFats : 1 ≤ Bpb.numFats b
  tables : Bpb.reservedSectorCount b + Bpb.numFats b * Bpb.fatSize b ≤ sectorCount
  clusters : Bpb.firstDataSector b + Bpb.clusterCount b * Bpb.sectorsPerCluster b ≤ sectorCount
  rootCluster : Bpb.fatType b = .fat32 → 2 ≤ Bpb.rootCluster b ∧ Bpb.rootCluster b < Bpb.clusterCount b + 2

variable {card : SdCard} {b : Sector} {s : SdStore}

-- ---------------------------------------------------------------------------
-- Reading the two sectors
-- ---------------------------------------------------------------------------

theorem mbrPartitionInit_powerOn (card : SdCard) :
    mbrPartitionInit (SdStore.powerOn card).fs =
      if card.readFaults.headD false then
        .ok (-1) { card := { card with readFaults := card.readFaults.tail } }
      else
        .ok 0
          { card := { card with readFaults := card.readFaults.tail }
            buf := card.image 0
            part :=
              { firstLba := le32 (card.image 0) 454, sectorCount := le32 (card.image 0) 458, ready := true } } := by
  rw [mbrPartitionInit, sdDrvReadSector]
  cases h : card.readFaults.headD false
  · simp only [SdStore.powerOn, bind_assoc, get_bind, set_bind, h, Bool.false_eq_true, if_false, pure_bind,
      modify_bind]
    rfl
  · simp only [SdStore.powerOn, bind_assoc, get_bind, set_bind, h, if_true, pure_bind]
    rfl

section
variable (fs : FatState) (hcache : fs.cache = {}) (hdev : fs.vol.dev = .part)
include hcache hdev

theorem getSector_unset (hready : fs.part.ready = false) :
    ∃ fs', getSector 0 fs = .error .nullPointer fs' := by
  refine ⟨{ fs with cache := { bldev := .part } }, ?_⟩
  rw [getSector, get_bind, hcache, hdev, if_neg (by decide), flushSector]
  simp only [bind_assoc, get_bind, hcache, Bool.false_eq_true, if_false, modify_bind]
  rw [mbrReadSectors]
  simp only [bind_assoc, get_bind, hready, Bool.not_false, or_true, if_true]
  rfl

theorem getSector_fails (hready : fs.part.ready = true) (hfault : fs.card.readFaults.headD false = true) :
    ∃ fs', getSector 0 fs = .error .eio fs' ∧ fs'.vol = fs.vol ∧ fs'.part = fs.part := by
  refine ⟨{ fs with cache := { bldev := .part }, card := { fs.card with readFaults :=
    fs.card.readFaults.tail } },
    ?_, rfl, rfl⟩
  rw [getSector, get_bind, hcache, hdev, if_neg (by decide), flushSector]
  simp only [bind_assoc, get_bind, hcache, Bool.false_eq_true, if_false, modify_bind]
  simp only [mbrReadSectors, sdDrvReadSector, bind_assoc, get_bind, set_bind, pure_bind, hready, hfault,
    Bool.not_true,
    Bool.false_eq_true, or_false, reduceCtorEq, if_false, if_true]
  rfl

theorem getSector_first (hready : fs.part.ready = true) (hfault : fs.card.readFaults.headD false = false) :
    ∃ fs', getSector 0 fs = .ok ⟨⟩ fs' ∧ fs'.part = fs.part ∧
      fs'.buf = fs.card.image (u32 (fs.part.firstLba + 0)) := by
  refine ⟨{ fs with
    cache := { bldev := .part }
    card := { fs.card with readFaults := fs.card.readFaults.tail }
    buf := fs.card.image (u32 (fs.part.firstLba + 0)) }, ?_, rfl, rfl⟩
  rw [getSector, get_bind, hcache, hdev, if_neg (by decide), flushSector]
  simp only [bind_assoc, get_bind, hcache, Bool.false_eq_true, if_false, modify_bind]
  simp only [mbrReadSectors, sdDrvReadSector, bind_assoc, get_bind, set_bind, pure_bind, hready, hfault,
    Bool.not_true,
    Bool.false_eq_true, or_false, reduceCtorEq, if_false]
  rfl

end

/-- Only `-EIO` is returned; anything else goes on. -/
theorem returning_throw {m : FatM α} (h : m fs = .error e fs') (he : e ≠ .eio) :
    returning v m fs = .error e fs' := by
  cases e with
  | eio => exact absurd rfl he
  | _ =>
    simp only [returning, tryCatch, tryCatchThe, MonadExceptOf.tryCatch, EStateM.tryCatch, h]
    rfl

theorem fatFileRoot_run (r : HandleRef) (fs : FatState) :
    ∃ fs', fatFileRoot r fs = .ok ⟨⟩ fs' ∧ fs'.vol = fs.vol ∧ fs'.part = fs.part :=
  ⟨_, rfl, rfl, rfl⟩

theorem fatVolInit_unset (fs : FatState) (hcache : fs.cache = {}) (hready : fs.part.ready = false) :
    ∃ fs', fatVolInit fs = .error .nullPointer fs' := by
  let t : FatState := { fs with vol := { dev := .part }, handle := Function.update fs.handle .cwd {} }
  obtain ⟨fs', h⟩ := getSector_unset t hcache rfl hready
  exact ⟨fs', returning_throw (by rw [modify_bind, bind_error h]) (by decide)⟩

theorem fatVolInit_fails (fs : FatState) (hcache : fs.cache = {}) (hready : fs.part.ready = true)
    (hfault : fs.card.readFaults.headD false = true) :
    ∃ fs', fatVolInit fs = .ok minusEIO fs' ∧ fs'.vol = { dev := .part } ∧ fs'.part = fs.part := by
  let t : FatState := { fs with vol := { dev := .part }, handle := Function.update fs.handle .cwd {} }
  obtain ⟨fs', h, hvol, hpart⟩ := getSector_fails t hcache rfl hready hfault
  refine ⟨fs', returning_eio ?_, hvol, hpart⟩
  rw [modify_bind, bind_error h]

theorem fatVolInit_run (fs : FatState) (hcache : fs.cache = {}) (hready : fs.part.ready = true)
    (hfault : fs.card.readFaults.headD false = false) :
    ∃ fs', fatVolInit fs = .ok 0 fs' ∧ fs'.vol = volumeOf (fs.card.image (u32 (fs.part.firstLba + 0))) ∧
      fs'.part = fs.part := by
  let t : FatState := { fs with vol := { dev := .part }, handle := Function.update fs.handle .cwd {} }
  obtain ⟨fs', h, hpart, hbuf⟩ := getSector_first t hcache rfl hready hfault
  let u : FatState := { fs' with vol := volumeOf fs'.buf }
  obtain ⟨fs'', hroot, hvol, hpart'⟩ := fatFileRoot_run .cwd u
  refine ⟨fs'', returning_ok ?_, ?_, hpart'.trans hpart⟩
  · rw [modify_bind, bind_ok h, get_bind, modify_bind]
    exact bind_ok hroot
  · rw [hvol, ← hbuf]

theorem openFatInit_cases (card : SdCard) :
    (bootSector card = none ∧
      ((∃ s, openFatInit (.powerOn card) = .error .nullPointer s) ∨
        ∃ s, openFatInit (.powerOn card) = .ok 0 s ∧ s.fs.vol = { dev := .part })) ∨
    ∃ b s, bootSector card = some b ∧ openFatInit (.powerOn card) = .ok 2 s ∧ s.fs.vol = volumeOf b ∧
      s.fs.part.sectorCount = partitionSectors card := by
  have hmbr := mbrPartitionInit_powerOn card
  cases h1 : card.readFaults.headD false with
  | true =>
    -- the partition table is not read, and the partition's functions stay unset
    rw [if_pos h1] at hmbr
    refine .inl ⟨if_pos (.inl h1), .inl ?_⟩
    obtain ⟨fs', hvol⟩ := fatVolInit_unset { card := { card with readFaults := card.readFaults.tail } } rfl rfl
    rw [openFatInit, bind_ok (onCard_ok hmbr), if_neg (by decide), modify_bind]
    exact ⟨_, bind_error (onCard_error hvol)⟩
  | false =>
    rw [if_neg (Bool.eq_false_iff.mp h1)] at hmbr
    let fs : FatState :=
      { card := { card with readFaults := card.readFaults.tail }
        buf := card.image 0
        part := { firstLba := le32 (card.image 0) 454, sectorCount := le32 (card.image 0) 458, ready := true } }
    rw [openFatInit, bind_ok (onCard_ok hmbr), if_pos rfl, modify_bind]
    cases h2 : card.readFaults.tail.headD false with
    | true =>
      obtain ⟨fs', hvol, hfs, -⟩ := fatVolInit_fails fs rfl rfl h2
      refine .inl ⟨if_pos (.inr h2), .inr ⟨{ fs := fs', cardStat := 0, sdMbr := 1 }, ?_, hfs⟩⟩
      refine (bind_ok (onCard_ok hvol)).trans ?_
      rw [if_neg (by decide), modify_bind]
      rfl
    | false =>
      obtain ⟨fs', hvol, hfs, hpart⟩ := fatVolInit_run fs rfl rfl h2
      have hboth : ¬ (card.readFaults.headD false = true ∨ card.readFaults.tail.headD false = true) := by
        rw [h1, h2]
        decide
      refine .inr
        ⟨_, { fs := fs', cardStat := 2, sdMbr := 1, sdFatT := fs'.vol.type.code }, if_neg hboth, ?_, hfs,
        congrArg MbrPartition.sectorCount hpart⟩
      refine (bind_ok (onCard_ok hvol)).trans ?_
      rw [if_pos rfl, modify_bind]
      rfl

-- ---------------------------------------------------------------------------
-- The geometry
-- ---------------------------------------------------------------------------

theorem rootDirSectors_le (h : Bpb.bytesPerSector b = 512) : Bpb.rootDirSectors b ≤ 4096 := by
  have hentries : Bpb.rootEntryCount b < 2 ^ 16 := le16_lt b 17
  rw [Bpb.rootDirSectors, h]
  omega

theorem Bpb.Fits.rootArea (h : Bpb.Fits b n) (hn : n < 2 ^ 32) (htype : Bpb.fatType b ≠ .fat32) :
    (volumeOf b).rootFirstSector + (volumeOf b).rootSectorCount ≤ n := by
  have hroot := rootDirSectors_le h.bytesPerSector
  have htables := h.tables
  have hclusters := h.clusters
  have hword : (volumeOf b).rootWord = u16 (Bpb.rootDirSectors b) +
      65536 * u16 (sub32 (Bpb.firstDataSector b) (u16 (Bpb.rootDirSectors b))) := if_neg htype
  rw [Bpb.firstDataSector] at hword hclusters
  simp only [FatVolHandle.rootFirstSector, FatVolHandle.rootSectorCount, hword]
  generalize Bpb.numFats b * Bpb.fatSize b = tables at *
  generalize Bpb.clusterCount b * Bpb.sectorsPerCluster b = clusters at *
  simp only [u16, u32, sub32] at *
  omega

theorem usable_iff_fits {fs : FatState} (hvol : fs.vol = volumeOf b) (hcount : fs.part.sectorCount < 2 ^ 32) :
    fs.UsableVolume ↔ Bpb.Fits b fs.part.sectorCount := by
  have hroot : (volumeOf b).type = .fat32 → (volumeOf b).rootCluster = Bpb.rootCluster b :=
    fun h32 => if_pos h32
  constructor
  · rintro ⟨hbytes, hspc, hfats, hin⟩
    rw [hvol] at hbytes hspc hfats hin
    exact ⟨hbytes, hspc, hfats, hin.tables, hin.clusters, fun h32 => hroot h32 ▸ hin.rootCluster h32⟩
  · intro h
    refine ⟨?_, ?_, ?_, ?_⟩ <;> rw [hvol]
    · exact h.bytesPerSector
    · exact h.sectorsPerCluster
    · exact h.numFats
    · exact ⟨Nat.le_trans (Nat.le_add_right _ _) h.tables, h.tables, h.rootArea hcount,
        fun h32 => (hroot h32).symm ▸ h.rootCluster h32, h.clusters⟩

/-- The start-up never looks at the result, so it is safe on the cards that can be used and on no others. -/
theorem mountSafe_iff (card : SdCard) :
    MountSafe card ↔ ∃ b, bootSector card = some b ∧ Bpb.Fits b (partitionSectors card) := by
  rcases openFatInit_cases card with ⟨hnone, ⟨s, hrun⟩ | ⟨s, hrun, hvol⟩⟩ | ⟨b, s, hboot, hrun, hvol, hcount⟩
  · refine iff_of_false (fun h => h.noUnsetCall s hrun) ?_
    rintro ⟨b, hb, -⟩
    rw [hnone] at hb
    cases hb
  · -- the result tells, but `CreateDir` is called all the same
    refine iff_of_false (fun h => ?_) ?_
    · have hcall : .createDir ∈ startUp card [] := by
        rw [startUp, hrun]
        exact List.mem_cons_self ..
      obtain ⟨r, s', hrun', huse⟩ := h.started [] _ hcall
      cases hrun.symm.trans hrun'
      have hbytes := huse.bytesPerSector
      rw [hvol] at hbytes
      cases hbytes
    · rintro ⟨b, hb, -⟩
      rw [hnone] at hb
      cases hb
  · have husable := usable_iff_fits hvol (hcount ▸ le32_lt _ _)
    rw [hcount] at husable
    constructor
    · intro h
      have huse : s.fs.UsableVolume := (h.result 2 s hrun).resolve_left (by decide)
      exact ⟨b, hboot, husable.mp huse⟩
    · rintro ⟨b', hboot', hfits⟩
      cases hboot.symm.trans hboot'
      have huse := husable.mpr hfits
      refine ⟨fun s' h => ?_, fun b' hb' => ?_, fun r s' h => ?_, fun later c _ => ⟨2, s, hrun, huse⟩⟩
      · rw [hrun] at h
        cases h
      · cases hboot.symm.trans hb'
        have hspc := hfits.sectorsPerCluster
        rw [hfits.bytesPerSector]
        omega
      · rw [hrun] at h
        cases h
        exact .inr huse

def blankCard : SdCard := { image := fun _ _ => 0 }

/-- Mounting it divides by zero. -/
theorem blankCard_not_safe : ¬ MountSafe blankCard :=
  fun h => (h.noZeroDivision (fun _ => 0) (if_neg (by decide))).1 rfl

end Stm32Logger
