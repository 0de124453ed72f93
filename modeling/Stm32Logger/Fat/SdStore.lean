import Stm32Logger.Fat.Write

/-!
# The SD store of `stm32_SD.cpp`

Mounting the card, and the three calls the logger makes: `CreateDir`,
`CreateFile` and `WriteToFile`. None of the three looks at a result.
-/

namespace Stm32Logger

/-- The statics of `stm32_SD.cpp`, with the parameters it reports to, over OpenFAT's state. -/
structure SdStore where
  fs : FatState
  fileId : UInt8 := 0
  dirId : UInt8 := 0
  cardStat : Int := 0
  dirname : Nat → UInt8 := fun _ => 0
  filename : Nat → UInt8 := fun _ => 0
  sdMbr : Nat := 0
  sdFatT : Nat := 0
  sdDir : Nat := 0
  sdFile : Nat := 0

/-- What a reset leaves: the card, and every static at zero. -/
def SdStore.powerOn (card : SdCard) : SdStore := { fs := { card } }

/-- `sprintf` into an array: the characters, the terminator, and the old bytes after it. -/
def sprintfInto (str : List UInt8) (mem : Nat → UInt8) : Nat → UInt8 := memcpy 0 (str ++ [0]) mem

def dirNameOf (id : UInt8) : List UInt8 := ascii "Logger" ++ fmtD 0 (id.toNat : Nat)

def fileNameOf (id : UInt8) : List UInt8 :=
  ascii "Logfile" ++ fmtD 0 (id.toNat : Nat) ++ ascii ".csv"

def oWronly : Nat := 1

/-- `mbr_partition_init` for partition 0. -/
def mbrPartitionInit : FatM Int := do
  match ← sdDrvReadSector 0 with
  | none => pure (-1)
  | some buf =>
    modify fun s =>
      { s with
        buf
        part := { firstLba := le32 buf (446 + 8), sectorCount := le32 buf (446 + 12), ready := true } }
    pure 0

/-- The value of `volHandle.type`. -/
def FatType.code : FatType → Nat
  | .none => 0
  | .fat12 => 12
  | .fat16 => 16
  | .fat32 => 32

/-- A call of the store; the fault is how it ended, if it did not return. -/
abbrev StoreM := EStateM Fault SdStore

def onCard (m : FatM α) : StoreM α := fun s =>
  match m s.fs with
  | .ok a fs => .ok a { s with fs }
  | .error e fs => .error e { s with fs }

theorem onCard_ok {s : SdStore} {m : FatM α} (h : m s.fs = .ok a fs) : onCard m s = .ok a { s with fs } := by
  rw [onCard, h]

theorem onCard_error {s : SdStore} {m : FatM α} (h : m s.fs = .error e fs) :
    onCard m s = .error e { s with fs } := by
  rw [onCard, h]

def openFatInit : StoreM Int := do
  if (← onCard mbrPartitionInit) = 0 then
    modify fun s => { s with sdMbr := 1, cardStat := s.cardStat + 1 }
  else modify fun s => { s with sdMbr := 0, cardStat := s.cardStat - 1 }
  if (← onCard fatVolInit) = 0 then
    modify fun s => { s with sdFatT := s.fs.vol.type.code, cardStat := s.cardStat + 1 }
  else modify fun s => { s with cardStat := s.cardStat - 1 }
  return (← get).cardStat

def createDir : StoreM Unit := do
  let name := dirNameOf (← get).dirId
  modify fun s => { s with dirname := sprintfInto name s.dirname }
  let _ ← onCard (fatMkdir name (← get).dirname)
  let _ ← onCard (fatChdir name)
  modify fun s => { s with sdDir := s.dirId.toNat, dirId := s.dirId + 1 }

def createFile : StoreM Unit := do
  let name := fileNameOf (← get).fileId
  modify fun s => { s with filename := sprintfInto name s.filename }
  let _ ← onCard (fatCreate name (← get).filename oWronly .file)
  modify fun s => { s with sdFile := s.fileId.toNat, fileId := s.fileId + 1 }

/-- The length of `arr` is the `uint8_t` the caller passes with it. -/
def writeToFile (arr : List UInt8) : StoreM Unit := do
  let _ ← onCard (fatWrite .file arr)

end Stm32Logger
