import Stm32Logger.Fat.DirEntry

/-!
# `write.c`

Allocation, appending to a file, and new files and directories. A name is the
bytes of the C string together with the memory it lies in: the long entries
are filled from memory past the terminator.
-/

namespace Stm32Logger

-- ---------------------------------------------------------------------------
-- Free clusters
-- ---------------------------------------------------------------------------

/-- `for(i = from; i < from + n; i++)` of `fat_find_free_cluster`; 0 when the range has none. -/
def findFreeFrom : (n : Nat) → (i : Nat) → FatM Nat
  | 0, _ => pure 0
  | n + 1, i => do
    if (← fatGetNextCluster i) = 0 then
      modify fun s => { s with vol := { s.vol with lastClusterAlloc := i } }
      pure i
    else findFreeFrom n (i + 1)

def fatFindFreeCluster : FatM Nat := do
  let v ← getVol
  let i ← findFreeFrom (v.clusterCount - v.lastClusterAlloc) v.lastClusterAlloc
  if i ≠ 0 then pure i else findFreeFrom (v.lastClusterAlloc - 2) 2

-- ---------------------------------------------------------------------------
-- Setting an entry
-- ---------------------------------------------------------------------------

/-- The first sector of copy `fat` plus the sector of the entry, and the offset there. -/
def fatEntrySector (v : FatVolHandle) (fat cluster : Nat) : Nat × Nat :=
  let offset := fatOffset v.type cluster
  (u32 (v.reservedSectorCount + fat * v.fatSize + offset / v.bytesPerSector),
    offset % v.bytesPerSector)

def fat32SetNextCluster (fat cluster next : Nat) : FatM Int := returning minusEIO do
  let (sector, offset) := fatEntrySector (← getVol) fat cluster
  getSector sector
  -- the high nibble of the old entry is kept
  modifyBuf fun b => put32 offset (next % 2 ^ 28 + le32 b offset / 2 ^ 28 * 2 ^ 28) b
  putSector sector
  pure 0

def fat16SetNextCluster (fat cluster next : Nat) : FatM Int := returning minusEIO do
  let (sector, offset) := fatEntrySector (← getVol) fat (u16 cluster)
  getSector sector
  modifyBuf (put16 offset (u16 next))
  putSector sector
  pure 0

def fat12SetNextCluster (fat cluster next : Nat) : FatM Int := returning minusEIO do
  let v ← getVol
  let cluster := u16 cluster
  let next := u16 next
  let odd := cluster % 2 = 1
  let (sector, offset) := fatEntrySector v fat cluster
  getSector sector
  if offset = v.bytesPerSector - 1 then
    if odd then
      let next := u16 (next * 16)
      modifyBuf fun b => put8 offset ((b offset).toNat % 16 + next / 16 % 16 * 16) b
      putSector sector
      getSector (u32 (sector + 1))
      modifyBuf (put8 0 (next / 256))
    else
      modifyBuf (put8 offset (next % 256))
      putSector sector
      getSector (u32 (sector + 1))
      modifyBuf fun b => put8 0 ((b 0).toNat / 16 * 16 + next / 256 % 16) b
    putSector (u32 (sector + 1))
  else
    modifyBuf fun b =>
      let next :=
        if odd then u16 (next * 16) + le16 b offset % 16
        else next % 4096 + le16 b offset / 4096 * 4096
      put16 offset next b
    putSector sector
  pure 0

def fatSetNextOne (fat cluster next : Nat) : FatM Int := do
  match (← getVol).type with
  | .none => pure 0
  | .fat12 => fat12SetNextCluster fat cluster next
  | .fat16 => fat16SetNextCluster fat cluster next
  | .fat32 => fat32SetNextCluster fat cluster next

def setNextLoop (cluster next : Nat) : (n : Nat) → (fat : Nat) → Int → FatM Int
  | 0, _, ret => pure ret
  | n + 1, fat, ret => do
    let r ← fatSetNextOne fat cluster next
    -- `ret |= r`: both are 0 or -EIO
    setNextLoop cluster next n (fat + 1) (if r = 0 then ret else r)

def fatSetNextCluster (cluster next : Nat) : FatM Int := do
  setNextLoop cluster next (← getVol).numFats 0 0

-- ---------------------------------------------------------------------------
-- Extending a chain
-- ---------------------------------------------------------------------------

def clearLoop : (n : Nat) → (sector : Nat) → FatM Unit
  | 0, _ => pure ()
  | n + 1, sector => do
    let s ← get
    let _ ← mbrWriteSectors s.vol.dev (u32 sector) s.buf
    clearLoop n (sector + 1)

/-- The result is the `int32_t` read as a `uint32_t`, as the caller reads it. -/
def fatAllocNextCluster (cluster : Nat) (clear : Bool) : FatM Nat := returning minusEIO32 do
  let v ← getVol
  let next ← fatGetNextCluster cluster
  if next ≠ fatEoc v then pure next
  else
    let next ← fatFindFreeCluster
    if next = 0 then pure 0
    else
      -- the end mark of the new cluster goes before the link to it
      let _ ← fatSetNextCluster next (fatEoc v)
      let _ ← fatSetNextCluster cluster next
      if clear then
        flushSector
        modifyBuf fun b i => if i < v.bytesPerSector then 0 else b i
        clearLoop v.sectorsPerCluster (fatFirstSectorOfCluster v next)
      pure next

-- ---------------------------------------------------------------------------
-- Writing a file
-- ---------------------------------------------------------------------------

def fatFileSync (r : HandleRef) : FatM Int := returning minusEIO do
  let h ← getHandle r
  let _ ← fatOf h
  getSector h.direntSector
  modifyBuf fun b =>
    put16 (h.direntOffset + 26) (h.firstCluster % 65536)
      (put16 (h.direntOffset + 20) (h.firstCluster / 65536)
        (put32 (h.direntOffset + 28) h.size b))
  putSector h.direntSector
  flushSector
  pure 0

/-- The end of a round of `fat_write`: the sector of the next one, or `none` to stop. -/
def writeAdvance (r : HandleRef) (v : FatVolHandle) (sector : Nat) : FatM (Option Nat) := do
  let h ← getHandle r
  if h.position % v.bytesPerSector ≠ 0 then pure none
  else if h.rootFlag then pure (some (u32 (sector + 1)))
  else if u32 (sector + 1) % v.sectorsPerCluster = 0 then
    let next ← fatAllocNextCluster h.curCluster (h.size = 0)
    if next = 0 then pure none
    else
      modifyHandle r fun h => { h with curCluster := next }
      pure (some (fatFirstSectorOfCluster v next))
  else pure (some (u32 (sector + 1)))

/-- The loop of `fat_write`, with `i` bytes written. Every round writes at least one. -/
def writeLoop (r : HandleRef) (buf : List UInt8) (size : Nat) :
    Nat → (i sector offset : Nat) → FatM Nat
  | fuel, i, sector, offset => do
    if size ≤ i then pure i
    else
      match fuel with
      | 0 => throw .noReturn
      | fuel + 1 =>
        let v ← fatOf (← getHandle r)
        let chunk := u16 (min (v.bytesPerSector - offset) (size - i))
        if chunk < v.bytesPerSector then getSector sector else flushSector
        modifyBuf (memcpy offset ((buf.drop i).take chunk))
        putSector sector
        modifyHandle r fun h => { h with position := u32 (h.position + chunk) }
        match ← writeAdvance r v sector with
        | none => pure (i + chunk)
        | some sector => writeLoop r buf size fuel (i + chunk) sector 0

def oAsync : Nat := 8192

/-- The start of `fat_write`: an empty file gets its first cluster; false when there is none. -/
def allocFirst (r : HandleRef) (size : Nat) : FatM Bool := do
  let h ← getHandle r
  if h.curCluster = 0 ∧ size ≠ 0 then
    let v ← fatOf h
    let first ← fatFindFreeCluster
    modifyHandle r fun h => { h with firstCluster := first }
    if first = 0 then pure false
    else
      modifyHandle r fun h => { h with curCluster := first }
      let _ ← fatSetNextCluster first (fatEoc v)
      pure true
  else pure true

/-- The end of `fat_write`: the directory entry follows the position. -/
def growSize (r : HandleRef) : FatM Unit := do
  let h ← getHandle r
  if h.direntSector ≠ 0 ∧ h.position > h.size then
    modifyHandle r fun h => { h with size := h.position }
    if h.flags / oAsync % 2 = 0 then
      let _ ← fatFileSync r

def fatWrite (r : HandleRef) (buf : List UInt8) : FatM Int := returning minusEIO do
  if ← allocFirst r buf.length then
    let h ← getHandle r
    -- the root directory of FAT12 and FAT16 does not grow
    let size :=
      if h.rootFlag ∧ u32 (h.position + buf.length) > h.size then
        (i32 (sub32 h.size h.position)).toNat
      else buf.length
    let v ← fatOf h
    let (sector, offset) := fatFileSectorOffset v h
    let i ← writeLoop r buf size size 0 sector offset
    growSize r
    pure i
  else pure 0

-- ---------------------------------------------------------------------------
-- New files and directories
-- ---------------------------------------------------------------------------

/-- `build_short_name`: eleven characters. -/
def buildShortName (name : List UInt8) (n : Nat) : List UInt8 :=
  let stem := (name.takeWhile (· ≠ 46)).take 8
  let i := stem.length
  -- `strrchr(name, '.')`
  let suffix := (name.reverse.takeWhile (· ≠ 46)).reverse
  let dotted := name.contains 46
  let ext := if dotted then (suffix.take 3).map toupper else []
  let sname := stem.map toupper ++ List.replicate (8 - i) 32 ++ ext ++
    List.replicate (3 - ext.length) 32
  if (i = 8 ∧ name.getD 8 0 ≠ 46) ∨ ¬ (dotted ∧ name.length - suffix.length - 1 = i) then
    let i := min i 6
    (sname.set i 126).set (i + 1) (UInt8.ofNat (48 + n % 10))
  else sname

/-- One long entry: the thirteen characters of `name` from `13 * i`. -/
def longDirent (mem : Nat → UInt8) (sname : List UInt8) (i : Nat) (last : Bool) : List UInt8 :=
  let ord := i + 1 + if last then lastLongEntry else 0
  let unit (j : Nat) (b : Sector) (o : Nat) : Sector := put16 o (mem (i * 13 + j)).toNat b
  let ld : Sector := put8 11 attrLongName (put8 0 ord fun _ => 0)
  let ld := (List.range 5).foldl (fun b j => unit j b (1 + 2 * j)) ld
  let ld := (List.range 6).foldl (fun b j => unit (j + 5) b (14 + 2 * j)) ld
  let ld := (List.range 2).foldl (fun b j => unit (j + 11) b (28 + 2 * j)) ld
  bytesAt (put8 13 (fatDirentChksum (structOf sname)) ld) 0 32

/-- The short entry; `cluster` is 0 for a file. -/
def shortDirent (sname : List UInt8) (attr cluster : Nat) : List UInt8 :=
  bytesAt
    (put16 26 (cluster % 65536) (put16 20 (cluster / 65536)
      (put8 11 attr (memcpy 0 sname fun _ => 0)))) 0 32

/-- The loop that looks for a short name, from `n` for `k` more tries; `none` is
`sname[0] == ' '` after it. -/
def shortNameLoop (name : List UInt8) (dst : HandleRef) : (k n : Nat) → FatM (Option (List UInt8))
  | 0, _ => pure none
  | k + 1, n => do
    let sname := buildShortName name n
    if (← fatOpen sname 0 dst) ≠ 0 then
      pure (if sname.head? = some 32 then none else some sname)
    else shortNameLoop name dst k (n + 1)

/-- The long entries `i`, ..., 0; false when one was not written whole. -/
def writeLongEntries (mem : Nat → UInt8) (sname : List UInt8) : (i : Nat) → (last : Bool) → FatM Bool
  | i, last => do
    if (← fatWrite .cwd (longDirent mem sname i last)) ≠ 32 then pure false
    else
      match i with
      | 0 => pure true
      | i + 1 => writeLongEntries mem sname i false

/-- The cluster of a new directory; `none` when there is none left. A file has cluster 0. -/
def allocDirCluster (attr : Nat) : FatM (Option Nat) := do
  if attr = attrDirectory then
    let v ← getVol
    let cluster ← fatFindFreeCluster
    if cluster = 0 then pure none
    else
      let _ ← fatSetNextCluster cluster (fatEoc v)
      pure (some cluster)
  else pure (some 0)

/-- `mem` is the memory from the first character of `name` on. -/
def fatDirCreateFile (name : List UInt8) (mem : Nat → UInt8) (attr : Nat) (dst : HandleRef) :
    FatM Int := do
  if (← fatOpen name 0 dst) = 0 then pure (-1)
  else
    match ← shortNameLoop name dst 9 1 with
    | none => pure (-1)
    | some sname =>
      fatDirSeekEmpty .cwd (name.length / 13 + 2)
      if !(← writeLongEntries mem sname (name.length / 13) true) then pure (-1)
      else
        match ← allocDirCluster attr with
        | none => pure (-1)
        | some cluster =>
          if (← fatWrite .cwd (shortDirent sname attr cluster)) ≠ 32 then pure (-1)
          else fatOpen name 0 dst

/-- The loop of `fat_mkdir` that marks the sectors of the new cluster as the zeroed buffer. -/
def putLoop : (n : Nat) → (sector : Nat) → FatM Unit
  | 0, _ => pure ()
  | n + 1, sector => do
    putSector (u32 sector)
    putLoop n (sector + 1)

def dotDirent (dots cluster : Nat) : List UInt8 :=
  shortDirent (List.replicate dots 46 ++ List.replicate (11 - dots) 32) attrDirectory cluster

def fatMkdir (name : List UInt8) (mem : Nat → UInt8) : FatM Int := do
  let ret ← fatDirCreateFile name mem attrDirectory .dir
  if ret ≠ 0 then pure ret
  else returning minusEIO do
    flushSector
    let v ← getVol
    modifyBuf fun b i => if i < v.bytesPerSector then 0 else b i
    let dir ← getHandle .dir
    putLoop v.sectorsPerCluster (fatFirstSectorOfCluster v dir.firstCluster)
    let ret ← fatWrite .dir (dotDirent 1 dir.firstCluster)
    if ret < 0 then pure ret
    else
      let cwd ← getHandle .cwd
      let parent := if !cwd.rootFlag ∧ v.rootCluster ≠ cwd.firstCluster then cwd.firstCluster else 0
      let ret ← fatWrite .dir (dotDirent 2 parent)
      pure (if ret < 0 then ret else 0)

def fatCreate (name : List UInt8) (mem : Nat → UInt8) (flags : Nat) (dst : HandleRef) :
    FatM Int := do
  let ret ← fatDirCreateFile name mem attrArchive dst
  modifyHandle dst fun h => { h with flags }
  pure ret

end Stm32Logger
