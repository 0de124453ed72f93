import Stm32Logger.Printf
import Stm32Logger.Transducer

/-!
# The handlers of `main.cpp`

`Ms100Task`, the two CAN callbacks and `ProcessCanData`, over the file's static
variables and the parameters they share. A handler gives the calls it makes
into the SD store and the USB port, in order. LEDs, the watchdog, the CPU load
and the USB status poll touch none of this state and are left out.
-/

namespace Stm32Logger

structure CanFrame where
  id : UInt32
  data0 : UInt32
  data1 : UInt32
  length : UInt8
  stamp : UInt32
  deriving DecidableEq, Repr

/-- The calls that leave `main.cpp`. -/
inductive Call where
  | createFile
  | writeToFile (arr : List UInt8)
  | usbSend (arr : List UInt8)
  deriving DecidableEq, Repr

/-- The static variables of `main.cpp` and the parameters its handlers use. -/
structure Logger where
  can1Active : Bool := false
  can2Active : Bool := false
  can3Active : Bool := false
  can4Active : Bool := false
  extended : Bool := false
  headerSent : Bool := false
  newFile : Bool := false
  frameCounter : UInt32 := 0
  rtcStamp : UInt32 := 0
  busId : UInt8 := 0
  timer1Sec : UInt8 := 10
  logging : UInt8
  opmode : UInt8 := 0
  can1Stat : Bool := false
  can2Stat : Bool := false
  can3Stat : Bool := false
  can4Stat : Bool := false
  deriving DecidableEq, Repr

/-- The state at power-on: every static at its initialiser, and the Logging
parameter as `parm_load` restored it. -/
def Logger.powerOn (logging : UInt8) : Logger := { logging }

def savvyHeader : List UInt8 :=
  ascii "Time Stamp,ID,Extended,Dir,Bus,LEN,D1,D2,D3,D4,D5,D6,D7,D8\n\r"

-- ---------------------------------------------------------------------------
-- The 100 ms task
-- ---------------------------------------------------------------------------

def newSDFile (s : Logger) : Logger × List Call := ({ s with newFile := true }, [.createFile])

def updateCanStats (s : Logger) : Logger :=
  { s with
    can1Stat := s.can1Active, can2Stat := s.can2Active
    can3Stat := s.can3Active, can4Stat := s.can4Active
    can1Active := false, can2Active := false, can3Active := false, can4Active := false }

def ms100Task (s : Logger) : Logger × List Call :=
  let s := updateCanStats s
  if s.timer1Sec = 0 then
    let (s, calls) := if !s.newFile then newSDFile s else (s, [])
    let s := { s with headerSent := false, timer1Sec := 10, opmode := 0 }
    ({ s with timer1Sec := s.timer1Sec - 1 }, calls)
  else ({ s with timer1Sec := s.timer1Sec - 1 }, [])

-- ---------------------------------------------------------------------------
-- A received frame
-- ---------------------------------------------------------------------------

/-- A `uint32_t` as the `char` array it is on the little-endian target. -/
def bytesOf (v : UInt32) : List UInt8 :=
  [v.toUInt8, (v >>> 8).toUInt8, (v >>> 16).toUInt8, (v >>> 24).toUInt8]

/-- The merge of four id bytes, `dataC[3] << 24 | ...`. -/
def mergeId (b0 b1 b2 b3 : UInt8) : UInt32 :=
  b3.toUInt32 <<< 24 ||| b2.toUInt32 <<< 16 ||| b1.toUInt32 <<< 8 ||| b0.toUInt32

/-- The format string of a data line. -/
def sprintfLine (rtcStamp idC : UInt32) (extended : Bool) (busId length : UInt8)
    (data : List UInt8) : List UInt8 :=
  fmtD 6 (int32 rtcStamp) ++ ascii "," ++ fmtX 8 idC.toNat ++ ascii "," ++
    ascii (if extended then "True" else "False") ++ ascii "," ++ ascii "Rx" ++ ascii "," ++
    fmtD 0 busId.toNat ++ ascii "," ++ fmtD 0 length.toNat ++
    data.flatMap (fun b => ascii "," ++ fmtX 2 b.toNat) ++ ascii "\n\r"

def processCanData (s : Logger) (f : CanFrame) (busId : UInt8) : Logger × List Call :=
  let s := { s with extended := decide (f.id > 0x7FF), rtcStamp := f.stamp }
  let dataC := bytesOf f.id ++ bytesOf f.length.toUInt32 ++ bytesOf f.data0 ++ bytesOf f.data1
  let idC := mergeId (dataC.getD 0 0) (dataC.getD 1 0) (dataC.getD 2 0) (dataC.getD 3 0)
  let outputData :=
    if !s.headerSent then savvyHeader
    else sprintfLine s.rtcStamp idC s.extended busId f.length (dataC.drop 8)
  let s := { s with headerSent := true }
  let outputDataSize := UInt8.ofNat outputData.length
  let arr := outputData.take outputDataSize.toNat
  let (s, calls) : Logger × List Call :=
    match s.logging.toNat with
    | 0 => ({ s with opmode := 0 }, [])
    | 1 => ({ s with opmode := 1, newFile := false }, [.writeToFile arr])
    | 2 => ({ s with opmode := 1 }, [.usbSend arr])
    | 3 => ({ s with opmode := 1, newFile := false }, [.usbSend arr, .writeToFile arr])
    | _ => (s, [])
  ({ s with timer1Sec := 10 }, calls)

def canCallback1 (s : Logger) (f : CanFrame) : Logger × List Call :=
  let (s, calls) := processCanData { s with busId := 0 } f 0
  ({ s with can1Active := true, frameCounter := s.frameCounter + 1 }, calls)

def canCallback2 (s : Logger) (f : CanFrame) : Logger × List Call :=
  let (s, calls) := processCanData { s with busId := 1 } f 1
  ({ s with can2Active := true, frameCounter := s.frameCounter + 1 }, calls)

-- ---------------------------------------------------------------------------
-- The handlers as one machine
-- ---------------------------------------------------------------------------

inductive Event where
  | can1 (f : CanFrame)
  | can2 (f : CanFrame)
  | tick
  | setLogging (mode : UInt8)
  deriving DecidableEq, Repr

def handlers : Transducer Logger Event Call where
  step
    | s, .can1 f => canCallback1 s f
    | s, .can2 f => canCallback2 s f
    | s, .tick => ms100Task s
    | s, .setLogging mode => ({ s with logging := mode }, [])

end Stm32Logger
