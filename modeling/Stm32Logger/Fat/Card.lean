import Stm32Logger.Fat.LittleEndian

/-!
# The card and the sector cache

What OpenFAT keeps below its files: the SD card behind `sdDrvReadSector` and
`sdDrvWriteSector`, the partition of `mbr.c` that shifts sector numbers, and
the single write-back buffer `_fat_sector_buf` with the three macros that move
sectors through it.
-/

namespace Stm32Logger

/-- The card, sector by sector. `writes` is every sector write it has taken, in
order; the fault lists say which of the next operations fail (`true`), and an
operation past the end of its list succeeds. -/
structure SdCard where
  image : Nat → Sector
  writes : List (Nat × Sector) := []
  readFaults : List Bool := []
  writeFaults : List Bool := []

/-- `struct block_mbr_partition`; `ready` tells that its three function pointers are set. -/
structure MbrPartition where
  firstLba : Nat := 0
  sectorCount : Nat := 0
  ready : Bool := false
  deriving DecidableEq

/-- A `const struct block_device *`: unset, or the partition. -/
inductive BlockDev where
  | null
  | part
  deriving DecidableEq

/-- `struct _fat_cache` less its unused buffer pointer. -/
structure FatCache where
  bldev : BlockDev := .null
  sector : Nat := 0
  dirty : Bool := false
  deriving DecidableEq

/-- `vol->type`; `none` is what static storage starts with. -/
inductive FatType where
  | none
  | fat12
  | fat16
  | fat32
  deriving DecidableEq

/-- `struct fat_vol_handle` less `cwd`. `rootWord` is the union's 32 bits. -/
structure FatVolHandle where
  dev : BlockDev := .null
  type : FatType := .none
  bytesPerSector : Nat := 0
  sectorsPerCluster : Nat := 0
  reservedSectorCount : Nat := 0
  numFats : Nat := 0
  firstDataSector : Nat := 0
  clusterCount : Nat := 0
  fatSize : Nat := 0
  rootWord : Nat := 0
  lastClusterAlloc : Nat := 0
  deriving DecidableEq

/-- `struct fat_file_handle`; `fat` tells whether the pointer to the volume is set. -/
structure FatFileHandle where
  fat : Bool := false
  size : Nat := 0
  firstCluster : Nat := 0
  position : Nat := 0
  curCluster : Nat := 0
  rootFlag : Bool := false
  flags : Nat := 0
  direntSector : Nat := 0
  direntOffset : Nat := 0
  deriving DecidableEq

/-- The handles OpenFAT is given pointers to: `vol->cwd`, the logger's
`fileHandle` and the local `dir` of `fat_mkdir`. -/
inductive HandleRef where
  | cwd
  | file
  | dir
  deriving DecidableEq

structure FatState where
  card : SdCard
  part : MbrPartition := {}
  cache : FatCache := {}
  buf : Sector := fun _ => 0
  vol : FatVolHandle := {}
  handle : HandleRef → FatFileHandle := fun _ => {}

/-- What ends a call early: `return -EIO` on its way to the function that
returns it, or one of three things C leaves undefined or never returns from. -/
inductive Fault where
  | eio
  | nullPointer
  | outOfBounds
  | noReturn
  deriving DecidableEq

abbrev FatM := EStateM Fault FatState

/-- A function body whose `return -EIO` gives `v`. -/
def returning (v : α) (m : FatM α) : FatM α :=
  tryCatch m fun
    | .eio => pure v
    | e => throw e

def minusEIO : Int := -5

def minusEIO32 : Nat := 4294967291

-- ---------------------------------------------------------------------------
-- The SD driver and the partition
-- ---------------------------------------------------------------------------

def sdDrvReadSector (sector : Nat) : FatM (Option Sector) := do
  let s ← get
  let card := { s.card with readFaults := s.card.readFaults.tail }
  set { s with card }
  pure (if s.card.readFaults.headD false then none else some (s.card.image sector))

def sdDrvWriteSector (sector : Nat) (buf : Sector) : FatM Bool := do
  let s ← get
  let card := { s.card with writeFaults := s.card.writeFaults.tail }
  if s.card.writeFaults.headD false then
    set { s with card }
    pure false
  else
    let image := Function.update s.card.image sector buf
    set { s with card := { card with image, writes := s.card.writes ++ [(sector, buf)] } }
    pure true

/-- `block_read_sectors` on the partition, which is `mbr_read_sectors`. -/
def mbrReadSectors (dev : BlockDev) (sector : Nat) : FatM (Option Sector) := do
  let s ← get
  if dev = .null ∨ !s.part.ready then throw .nullPointer
  else sdDrvReadSector (u32 (s.part.firstLba + sector))

def mbrWriteSectors (dev : BlockDev) (sector : Nat) (buf : Sector) : FatM Bool := do
  let s ← get
  if dev = .null ∨ !s.part.ready then throw .nullPointer
  else sdDrvWriteSector (u32 (s.part.firstLba + sector)) buf

-- ---------------------------------------------------------------------------
-- The macros of fat_core.h
-- ---------------------------------------------------------------------------

def flushSector : FatM Unit := do
  let s ← get
  if s.cache.dirty then
    let ok ← mbrWriteSectors s.cache.bldev s.cache.sector s.buf
    if !ok then throw .eio
  modify fun s => { s with cache := { s.cache with dirty := false } }

def getSector (sector : Nat) : FatM Unit := do
  let s ← get
  if s.cache.bldev = s.vol.dev ∧ s.cache.sector = sector then pure ()
  else
    flushSector
    -- the label is set before the read, and stays when the read fails
    modify fun t => { t with cache := { t.cache with bldev := s.vol.dev, sector } }
    match ← mbrReadSectors s.vol.dev sector with
    | none => throw .eio
    | some buf => modify fun t => { t with buf }

def putSector (sector : Nat) : FatM Unit := do
  let s ← get
  if s.cache.bldev ≠ s.vol.dev ∨ s.cache.sector ≠ sector then flushSector
  modify fun t => { t with cache := { bldev := s.vol.dev, sector, dirty := true } }

/-- A store into `_fat_sector_buf`. -/
def modifyBuf (f : Sector → Sector) : FatM Unit := modify fun s => { s with buf := f s.buf }

-- ---------------------------------------------------------------------------
-- Handles
-- ---------------------------------------------------------------------------

def getHandle (r : HandleRef) : FatM FatFileHandle := do return (← get).handle r

def setHandle (r : HandleRef) (h : FatFileHandle) : FatM Unit :=
  modify fun s => { s with handle := Function.update s.handle r h }

def modifyHandle (r : HandleRef) (f : FatFileHandle → FatFileHandle) : FatM Unit :=
  modify fun s => { s with handle := Function.update s.handle r (f (s.handle r)) }

def getVol : FatM FatVolHandle := do return (← get).vol

/-- `h->fat`, dereferenced. -/
def fatOf (h : FatFileHandle) : FatM FatVolHandle :=
  if h.fat then getVol else throw .nullPointer

end Stm32Logger
