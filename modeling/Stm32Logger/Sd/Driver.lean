import Stm32Logger.Fat.LittleEndian

/-!
# The card driver of `stm32_SD.cpp`

The SPI bus with the card's chip select, and the driver's calls on it. The
bytes the card returns are an input of the model: a call that has used them up
and still waits for another ends in `waiting`.
-/

namespace Stm32Logger.Sd

inductive Event where
  | select
  | release
  | byte (sent got : UInt8)
  deriving DecidableEq, Repr

/-- The bus, and what the driver keeps. `rx` are the bytes the card will return. -/
structure Driver where
  rx : List UInt8
  trace : List Event := []
  csHigh : Bool := true
  cardType : UInt8 := 0
  /-- The parameters `SDStatus` and `SDType`. -/
  sdStatus : Int := 0
  sdType : Int := 0
  /-- The memory behind the `buf` of a read. -/
  dest : Nat → UInt8 := fun _ => 0

/-- How a call ends that does not return. -/
inductive Stuck where
  | waiting
  deriving DecidableEq

abbrev SpiM := EStateM Stuck Driver

def CT_MMC : UInt8 := 0x01
def CT_SD1 : UInt8 := 0x02
def CT_SD2 : UInt8 := 0x04
def CT_SDC : UInt8 := CT_SD1 ||| CT_SD2
def CT_BLOCK : UInt8 := 0x08

def TOKEN_SINGLE_READ : UInt8 := 0xFE
def TOKEN_STOP_TRAN : UInt8 := 0xFD
def TOKEN_SINGLE_WRITE : UInt8 := 0xFE
def TOKEN_MULTI_WRITE : UInt8 := 0xFC

def SD_CMD0 : UInt8 := 0
def SD_CMD1 : UInt8 := 1
def SD_CMD8 : UInt8 := 8
def SD_CMD12 : UInt8 := 12
def SD_CMD16 : UInt8 := 16
def SD_CMD17 : UInt8 := 17
def SD_CMD18 : UInt8 := 18
def SD_CMD24 : UInt8 := 24
def SD_CMD25 : UInt8 := 25
def SD_CMD55 : UInt8 := 55
def SD_CMD58 : UInt8 := 58
def SD_ACMD41 : UInt8 := 169
def SD_ACMD23 : UInt8 := 151

-- ---------------------------------------------------------------------------
-- The bus
-- ---------------------------------------------------------------------------

def sdSPIreadwrite (data : UInt8) : SpiM UInt8 := do
  let s ← get
  match s.rx with
  | [] => throw .waiting
  | b :: rx =>
    set { s with rx, trace := s.trace ++ [Event.byte data b] }
    pure b

/-- `while(p(b = sdSPIreadwrite(0xFF)));`, for at most as many rounds as there is fuel. -/
def pollLoop (p : UInt8 → Bool) : Nat → SpiM UInt8
  | 0 => throw .waiting
  | fuel + 1 => do
    let b ← sdSPIreadwrite 0xFF
    if p b then pollLoop p fuel else pure b

/-- A waiting loop; it has no more rounds than the card returns bytes. -/
def poll (p : UInt8 → Bool) : SpiM UInt8 := do pollLoop p ((← get).rx.length + 1)

def sdSPISelect : SpiM Unit := do
  modify fun s => { s with csHigh := false, trace := s.trace ++ [Event.select] }
  let _ ← poll fun b => b = 0

def sdSPIRelease : SpiM Unit := do
  modify fun s => { s with csHigh := true, trace := s.trace ++ [Event.release] }
  let _ ← sdSPIreadwrite 0xFF

def sdSPIWriteBuffer : List UInt8 → SpiM Unit
  | [] => pure ()
  | b :: buf => do
    let _ ← sdSPIreadwrite b
    sdSPIWriteBuffer buf

/-- The bytes read, for the caller to store. -/
def sdSPIReadBuffer : Nat → SpiM (List UInt8)
  | 0 => pure []
  | len + 1 => do
    let b ← sdSPIreadwrite 0xFF
    let bs ← sdSPIReadBuffer len
    pure (b :: bs)

-- ---------------------------------------------------------------------------
-- Commands and blocks
-- ---------------------------------------------------------------------------

/-- The `buf` of `sdDrvCommand`; an application command loses its bit 7. -/
def commandFrame (cmd : UInt8) (arg : Nat) : List UInt8 :=
  let crc := if cmd = SD_CMD0 then 0x95 else if cmd = SD_CMD8 then 0x87 else 0x01
  [(cmd ||| 0x40) &&& 0x7F, UInt8.ofNat (arg / 2 ^ 24), UInt8.ofNat (arg / 2 ^ 16),
    UInt8.ofNat (arg / 2 ^ 8), UInt8.ofNat arg, crc]

def noAnswer (ret : UInt8) : Bool := ret &&& 0x80 ≠ 0

/-- `sdDrvCommand` from `sdSPISelect` on. -/
def sendFrame (cmd : UInt8) (arg : Nat) : SpiM UInt8 := do
  sdSPISelect
  sdSPIWriteBuffer (commandFrame cmd arg)
  poll noAnswer

def isAppCommand (cmd : UInt8) : Bool := (cmd ||| 0x40) &&& 0x80 ≠ 0

/-- CMD55 is no application command, so its recursive call sends one frame. -/
def sdDrvCommand (cmd : UInt8) (arg : Nat) : SpiM UInt8 := do
  if isAppCommand cmd then
    let ret ← sendFrame SD_CMD55 0
    if ret > 1 then pure ret else sendFrame cmd arg
  else sendFrame cmd arg

/-- `buf` is `dest + o`; it holds the token before the data. -/
def sdDrvGetBlock (o len : Nat) : SpiM Int := do
  let token ← poll fun b => b = 0xFF
  modify fun s => { s with dest := memcpy o [token] s.dest }
  if token ≠ TOKEN_SINGLE_READ then pure (-1)
  else
    let bs ← sdSPIReadBuffer len
    modify fun s => { s with dest := memcpy o bs s.dest }
    let _ ← sdSPIreadwrite 0xFF
    let _ ← sdSPIreadwrite 0xFF
    pure 0

def sdDrvSetBlock (buf : List UInt8) (token : UInt8) : SpiM Int := do
  let _ ← poll fun b => b ≠ 0xFF
  let _ ← sdSPIreadwrite token
  if token ≠ TOKEN_STOP_TRAN then
    sdSPIWriteBuffer buf
    let _ ← sdSPIreadwrite 0xFF
    let _ ← sdSPIreadwrite 0xFF
    return (← sdSPIreadwrite 0xFF).toNat
  else pure 0

-- ---------------------------------------------------------------------------
-- Sectors
-- ---------------------------------------------------------------------------

def cardAddress (cardType : UInt8) (sector : Nat) : Nat :=
  if cardType &&& CT_BLOCK = 0 then u32 (sector * 512) else sector

/-- The rounds of `do ... while (--count)` on a `uint32_t`. -/
def rounds (count : Nat) : Nat := if count = 0 then 2 ^ 32 else count

/-- The loop of `sdDrvReadSector`, with `status` blocks read. -/
def readBlocks : (n status : Nat) → SpiM Nat
  | 0, status => pure status
  | n + 1, status => do
    if (← sdDrvGetBlock (512 * status) 512) ≠ 0 then pure status
    else readBlocks n (status + 1)

/-- The branch of a single block; a bad token is not noticed. -/
def readSingle (sector : Nat) : SpiM Nat := do
  if (← sdDrvCommand SD_CMD17 sector) = 0 then
    let _ ← sdDrvGetBlock 0 512
    pure 1
  else pure 0

def readMulti (sector count : Nat) : SpiM Nat := do
  if (← sdDrvCommand SD_CMD18 sector) = 0 then
    let status ← readBlocks (rounds count) 0
    let _ ← sdDrvCommand SD_CMD12 0
    pure status
  else pure 0

/-- `buf` is the memory `dest`. -/
def sdDrvReadSector (sector count : Nat) : SpiM Nat := do
  sdSPISelect
  let sector := cardAddress (← get).cardType sector
  let status ← (if count = 1 then readSingle sector else readMulti sector count)
  sdSPIRelease
  pure status

def block (buf : Nat → UInt8) (k : Nat) : List UInt8 := (List.range 512).map fun i => buf (512 * k + i)

/-- The loop of `sdDrvWriteSector`, with `status` blocks written. -/
def writeBlocks (buf : Nat → UInt8) : (n status : Nat) → SpiM Nat
  | 0, status => pure status
  | n + 1, status => do
    let _ ← sdDrvSetBlock (block buf status) TOKEN_MULTI_WRITE
    writeBlocks buf n (status + 1)

def writeSingle (sector : Nat) (buf : Nat → UInt8) : SpiM Nat := do
  if (← sdDrvCommand SD_CMD24 sector) = 0 then
    let _ ← sdDrvSetBlock (block buf 0) TOKEN_SINGLE_WRITE
    pure 1
  else pure 0

def preErase (cardType : UInt8) (count : Nat) : SpiM Unit := do
  if cardType &&& CT_SDC ≠ 0 then
    let _ ← sdDrvCommand SD_ACMD23 count

def writeMulti (cardType : UInt8) (sector count : Nat) (buf : Nat → UInt8) : SpiM Nat := do
  preErase cardType count
  if (← sdDrvCommand SD_CMD25 sector) = 0 then
    let status ← writeBlocks buf (rounds count) 0
    if (← sdDrvSetBlock [] TOKEN_STOP_TRAN) ≠ 0 then pure 0 else pure status
  else pure 0

def sdDrvWriteSector (sector count : Nat) (buf : Nat → UInt8) : SpiM Nat := do
  sdSPISelect
  let cardType := (← get).cardType
  let sector := cardAddress cardType sector
  let status ← (if count = 1 then writeSingle sector buf else writeMulti cardType sector count buf)
  sdSPIRelease
  pure status

-- ---------------------------------------------------------------------------
-- Detecting the card
-- ---------------------------------------------------------------------------

/-- `while (sdDrvCommand(cmd, arg));`, for at most as many rounds as there is fuel. -/
def leaveIdleLoop (cmd : UInt8) (arg : Nat) : Nat → SpiM Unit
  | 0 => throw .waiting
  | fuel + 1 => do
    if (← sdDrvCommand cmd arg) ≠ 0 then leaveIdleLoop cmd arg fuel

/-- It has no more rounds than the card returns bytes. -/
def leaveIdle (cmd : UInt8) (arg : Nat) : SpiM Unit := do
  leaveIdleLoop cmd arg ((← get).rx.length + 1)

def setStatus (v : Int) : SpiM Unit := modify fun s => { s with sdStatus := v }

def setType (v : Int) : SpiM Unit := modify fun s => { s with sdType := v }

def setCardType (v : UInt8) : SpiM Unit := modify fun s => { s with cardType := v }

def detectV2 : SpiM Unit := do
  setStatus 1
  setType 1
  let ocr ← sdSPIReadBuffer 4
  if ocr.getD 2 0 = 0x01 ∧ ocr.getD 3 0 = 0xAA then
    leaveIdle SD_ACMD41 (2 ^ 30)
    if (← sdDrvCommand SD_CMD58 0) = 0 then
      let ocr ← sdSPIReadBuffer 4
      setCardType (if ocr.getD 0 0 &&& 0x40 ≠ 0 then CT_SD2 ||| CT_BLOCK else CT_SD2)

def detectV1 : SpiM Unit := do
  let sdsc := (← sdDrvCommand SD_ACMD41 0) ≤ 1
  setStatus 1
  setType (if sdsc then 2 else 3)
  setCardType (if sdsc then CT_SD1 else CT_MMC)
  leaveIdle (if sdsc then SD_ACMD41 else SD_CMD1) 0
  if (← sdDrvCommand SD_CMD16 512) ≠ 0 then
    setStatus 0
    setType 0
    setCardType 0

def sdDrvInit : SpiM Int := do
  setCardType 0
  sdSPIWriteBuffer (List.replicate 80 0xFF)
  if (← sdDrvCommand SD_CMD0 0) ≠ 1 then
    setStatus 0
    pure (-1)
  else
    let ret ← sdDrvCommand SD_CMD8 0x1AA
    (if ret = 1 then detectV2 else detectV1)
    sdSPIRelease
    pure (if (← get).cardType ≠ 0 then 1 else 0)

end Stm32Logger.Sd
