import Mathlib.Algebra.Group.Int.Defs
import Mathlib.Data.Int.DivMod
import Stm32Logger.Fat.Card

/-!
# `fat_core.c`

Mounting, the allocation table read one entry at a time, and reading a file or
a directory through its handle. A function that returns `-EIO` where a cluster
number or a count is expected does so here too.
-/

namespace Stm32Logger

def sub32 (a b : Nat) : Nat := u32 (a + (2 ^ 32 - u32 b))

def i32 (x : Int) : Int := Int.bmod x (2 ^ 32)

def u32OfInt (x : Int) : Nat := (x % 2 ^ 32).toNat

-- ---------------------------------------------------------------------------
-- bpb.h
-- ---------------------------------------------------------------------------

namespace Bpb

def bytesPerSector (b : Sector) : Nat := le16 b 11
def sectorsPerCluster (b : Sector) : Nat := (b 13).toNat
def reservedSectorCount (b : Sector) : Nat := le16 b 14
def numFats (b : Sector) : Nat := (b 16).toNat
def rootEntryCount (b : Sector) : Nat := le16 b 17
def rootCluster (b : Sector) : Nat := le32 b 44

def rootDirSectors (b : Sector) : Nat :=
  (rootEntryCount b * 32 + (bytesPerSector b - 1)) / bytesPerSector b

def fatSize (b : Sector) : Nat := if le16 b 22 = 0 then le32 b 36 else le16 b 22

def firstDataSector (b : Sector) : Nat :=
  u32 (reservedSectorCount b + numFats b * fatSize b + rootDirSectors b)

def totalSectors (b : Sector) : Nat := if le16 b 19 = 0 then le32 b 32 else le16 b 19

def clusterCount (b : Sector) : Nat :=
  sub32 (sub32 (sub32 (totalSectors b) (reservedSectorCount b)) (numFats b * fatSize b))
    (rootDirSectors b) / sectorsPerCluster b

def fatType (b : Sector) : FatType :=
  if clusterCount b < 4085 then .fat12
  else if clusterCount b < 65525 then .fat16
  else .fat32

end Bpb

namespace FatVolHandle

def rootCluster (v : FatVolHandle) : Nat := v.rootWord
def rootSectorCount (v : FatVolHandle) : Nat := v.rootWord % 65536
def rootFirstSector (v : FatVolHandle) : Nat := v.rootWord / 65536

def bytesPerCluster (v : FatVolHandle) : Nat := v.sectorsPerCluster * v.bytesPerSector

end FatVolHandle

def fatEoc (v : FatVolHandle) : Nat :=
  match v.type with
  | .fat12 => 0x0FF8
  | .fat16 => 0xFFF8
  | .fat32 => 0x0FFFFFF8
  | .none => 0xFFFFFFFF

def fatFirstSectorOfCluster (v : FatVolHandle) (n : Nat) : Nat :=
  u32 (sub32 n 2 * v.sectorsPerCluster + v.firstDataSector)

-- ---------------------------------------------------------------------------
-- The allocation table
-- ---------------------------------------------------------------------------

def fatOffset (type : FatType) (cluster : Nat) : Nat :=
  match type with
  | .none => 0
  | .fat12 => u32 (cluster + cluster / 2)
  | .fat16 => u32 (cluster * 2)
  | .fat32 => u32 (cluster * 4)

def fatGetNextCluster (cluster : Nat) : FatM Nat := returning minusEIO32 do
  let v ← getVol
  let sector := u32 (v.reservedSectorCount + fatOffset v.type cluster / v.bytesPerSector)
  let offset := fatOffset v.type cluster % v.bytesPerSector
  getSector sector
  let buf := (← get).buf
  match v.type with
  | .none => pure 0
  | .fat12 =>
    let odd := cluster % 2 = 1
    if offset = v.bytesPerSector - 1 then
      -- the entry lies over a sector boundary
      getSector (u32 (sector + 1))
      let next := (buf offset).toNat + 256 * ((← get).buf 0).toNat
      pure (if odd then next / 16 else next % 4096)
    else
      let next := le16 buf offset
      pure (if odd then next / 16 else next % 4096)
  | .fat16 => pure (le16 buf offset)
  | .fat32 => pure (le32 buf offset % 2 ^ 28)

-- ---------------------------------------------------------------------------
-- Handles
-- ---------------------------------------------------------------------------

def fatFileRoot (r : HandleRef) : FatM Unit := do
  let v ← getVol
  let h : FatFileHandle :=
    if v.type = .fat32 then { fat := true, firstCluster := v.rootCluster }
    else
      { fat := true, rootFlag := true, firstCluster := v.rootFirstSector
        size := v.rootSectorCount * v.bytesPerSector }
  setHandle r { h with curCluster := h.firstCluster }

/-- `fat` is the directory's pointer to its volume. -/
def fatFileInit (fat : Bool) (dirent : Sector) (r : HandleRef) : FatM Unit :=
  let firstCluster := 65536 * le16 dirent 20 + le16 dirent 26
  setHandle r { fat, firstCluster, curCluster := firstCluster, size := le32 dirent 28 }

def fatVolInit : FatM Int := returning minusEIO do
  modify fun s => { s with vol := { dev := .part }, handle := Function.update s.handle .cwd {} }
  getSector 0
  let bpb := (← get).buf
  modify fun s =>
    { s with
      vol :=
        { dev := .part
          type := Bpb.fatType bpb
          clusterCount := Bpb.clusterCount bpb
          bytesPerSector := Bpb.bytesPerSector bpb
          sectorsPerCluster := Bpb.sectorsPerCluster bpb
          firstDataSector := Bpb.firstDataSector bpb
          reservedSectorCount := Bpb.reservedSectorCount bpb
          numFats := Bpb.numFats bpb
          fatSize := Bpb.fatSize bpb
          lastClusterAlloc := 2
          rootWord :=
            if Bpb.fatType bpb = .fat32 then Bpb.rootCluster bpb
            else
              let count := u16 (Bpb.rootDirSectors bpb)
              count + 65536 * u16 (sub32 (Bpb.firstDataSector bpb) count) } }
  fatFileRoot .cwd
  pure 0

inductive Whence where
  | set
  | cur
  | fromEnd

/-- The loop of `fat_lseek`. The fuel is the offset it starts with: every round
takes at least one from it, unless a cluster has no bytes. -/
def lseekWalk (r : HandleRef) : Nat → Int → FatM Unit
  | fuel, offset => do
    let v ← fatOf (← getHandle r)
    if offset < v.bytesPerCluster then pure ()
    else
      match fuel with
      | 0 => throw .noReturn
      | fuel + 1 =>
        let next ← fatGetNextCluster (← getHandle r).curCluster
        modifyHandle r fun h => { h with curCluster := next }
        lseekWalk r fuel (offset - v.bytesPerCluster)

def fatLseek (r : HandleRef) (offset : Int) (whence : Whence) : FatM Nat := do
  let h ← getHandle r
  let offset := match whence with
    | .set => offset
    | .cur => i32 (offset + h.position)
    | .fromEnd => i32 (offset + h.size)
  let offset := if h.size ≠ 0 ∧ u32OfInt offset > h.size then i32 h.size else offset
  setHandle r { h with curCluster := h.firstCluster, position := u32OfInt offset }
  -- the root directory of FAT12 and FAT16 is no cluster chain
  if h.rootFlag then pure (u32OfInt offset)
  else
    lseekWalk r offset.toNat offset
    pure (u32OfInt offset)

def fatFileSectorOffset (v : FatVolHandle) (h : FatFileHandle) : Nat × Nat :=
  let sector :=
    if h.rootFlag then u32 (h.curCluster + h.position / v.bytesPerSector)
    else
      u32 (fatFirstSectorOfCluster v h.curCluster +
        h.position / v.bytesPerSector % v.sectorsPerCluster)
  (sector, h.position % v.bytesPerSector)

/-- The end of a round of `fat_read`: the sector of the next one, or `none` to stop. -/
def readAdvance (r : HandleRef) (v : FatVolHandle) (sector : Nat) : FatM (Option Nat) := do
  let h ← getHandle r
  if h.position % v.bytesPerSector ≠ 0 then pure none
  else if h.rootFlag then pure (some (u32 (sector + 1)))
  else if u32 (sector + 1) % v.sectorsPerCluster = 0 then
    let next ← fatGetNextCluster h.curCluster
    modifyHandle r fun h => { h with curCluster := next }
    if next = fatEoc v then pure none
    else pure (some (fatFirstSectorOfCluster v next))
  else pure (some (u32 (sector + 1)))

def readLoop (r : HandleRef) (size : Nat) :
    Nat → (sector offset : Nat) → List UInt8 → FatM (List UInt8)
  | fuel, sector, offset, acc => do
    if size ≤ acc.length then pure acc
    else
      match fuel with
      | 0 => throw .noReturn
      | fuel + 1 =>
        let v ← fatOf (← getHandle r)
        let chunk := u16 (min (v.bytesPerSector - offset) (size - acc.length))
        getSector sector
        let acc := acc ++ bytesAt (← get).buf offset chunk
        modifyHandle r fun h => { h with position := u32 (h.position + chunk) }
        match ← readAdvance r v sector with
        | none => pure acc
        | some sector => readLoop r size fuel sector 0 acc

/-- The bytes `fat_read` stores, as many as it returns; `none` is `-EIO`. -/
def fatRead (r : HandleRef) (size : Nat) : FatM (Option (List UInt8)) := returning none do
  let h ← getHandle r
  let v ← fatOf h
  let (sector, offset) := fatFileSectorOffset v h
  let size :=
    if h.size ≠ 0 ∧ u32 (h.position + size) > h.size then
      (i32 (sub32 h.size h.position)).toNat
    else size
  some <$> readLoop r size size sector offset []

end Stm32Logger
