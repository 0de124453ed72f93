import Stm32Logger.MainLaws

/-!
# Which frames reach the sinks

`NoFrameLost` says what a logger owes: one data line for each frame, to each
sink the mode names, in the order of arrival. The handlers pay it exactly when
every logged frame finds the header already sent: the frame that finds it
unsent is replaced by the header line.
-/

namespace Stm32Logger

-- ---------------------------------------------------------------------------
-- Lines and sinks
-- ---------------------------------------------------------------------------

def sdLines (calls : List Call) : List (List UInt8) :=
  calls.filterMap fun
    | .writeToFile arr => some arr
    | _ => none

def usbLines (calls : List Call) : List (List UInt8) :=
  calls.filterMap fun
    | .usbSend arr => some arr
    | _ => none

def dataLines (lines : List (List UInt8)) : List (List UInt8) :=
  lines.filter (· ≠ savvyHeader)

theorem sdLines_append (a b : List Call) : sdLines (a ++ b) = sdLines a ++ sdLines b :=
  List.filterMap_append

theorem usbLines_append (a b : List Call) : usbLines (a ++ b) = usbLines a ++ usbLines b :=
  List.filterMap_append

theorem dataLines_append (a b : List (List UInt8)) :
    dataLines (a ++ b) = dataLines a ++ dataLines b :=
  List.filter_append ..

theorem sdLines_lineCalls : sdLines (lineCalls mode arr) = if toSd mode then [arr] else [] := by
  unfold lineCalls
  split <;> split <;> simp [sdLines]

theorem usbLines_lineCalls : usbLines (lineCalls mode arr) = if toUsb mode then [arr] else [] := by
  unfold lineCalls
  split <;> split <;> simp [usbLines]

theorem lineCalls_eq_nil : lineCalls mode arr = [] ↔ toSd mode = false ∧ toUsb mode = false := by
  cases h : toSd mode <;> cases h' : toUsb mode <;> simp [lineCalls, h, h']

/-- The `S` of `Stamp`, which no data line contains. -/
theorem dataLine_no_S (f : CanFrame) (busId : UInt8) : (83 : UInt8) ∉ dataLine f busId := by
  have hnum : ¬ IsNumeral 83 := by decide
  have hD (w : Nat) (v : Int) : (83 : UInt8) ∉ fmtD w v := fun h => hnum (fmtD_numeral _ h)
  have hX (w v : Nat) : (83 : UInt8) ∉ fmtX w v := fun h => hnum (fmtX_numeral _ h)
  have hcomma : (83 : UInt8) ∉ ascii "," := by decide
  have hext : (83 : UInt8) ∉ ascii (if decide (f.id > 0x7FF) then "True" else "False") := by
    split <;> decide
  have hrx : (83 : UInt8) ∉ ascii "Rx" := by decide
  have hend : (83 : UInt8) ∉ ascii "\n\r" := by decide
  simp only [dataLine, sprintfLine, List.mem_append, List.mem_flatMap, hD, hX, hcomma, hext, hrx,
    hend, or_self, and_false, exists_false, not_false_eq_true]

theorem savvyHeader_S : (83 : UInt8) ∈ savvyHeader := by decide

theorem dataLine_ne_savvyHeader (f : CanFrame) (busId : UInt8) :
    dataLine f busId ≠ savvyHeader := fun h => dataLine_no_S f busId (h ▸ savvyHeader_S)

theorem dataLines_frameLine (s : Logger) (f : CanFrame) (busId : UInt8) :
    dataLines [frameLine s f busId] = if s.headerSent then [dataLine f busId] else [] := by
  unfold frameLine
  split <;> simp [dataLines, dataLine_ne_savvyHeader]

-- ---------------------------------------------------------------------------
-- What is owed
-- ---------------------------------------------------------------------------

/-- One data line, to each sink of the mode, and nothing outside the modes. -/
structure Delivered (mode : UInt8) (line : List UInt8) (calls : List Call) : Prop where
  sd : dataLines (sdLines calls) = if toSd mode then [line] else []
  usb : dataLines (usbLines calls) = if toUsb mode then [line] else []
  quiet : toSd mode = false → toUsb mode = false → calls = []

/-- A frame is delivered; every other event hands no line to any sink. -/
def StepDelivers (s : Logger) (e : Event) : Prop :=
  match e.frame? with
  | some (f, busId) => Delivered s.logging (dataLine f busId) (handlers.emit s e)
  | none => sdLines (handlers.emit s e) = [] ∧ usbLines (handlers.emit s e) = []

def owed (sink : UInt8 → Bool) (mode : UInt8) : List Event → List (List UInt8)
  | [] => []
  | .setLogging mode' :: es => owed sink mode' es
  | .tick :: es => owed sink mode es
  | .can1 f :: es => (if sink mode then [dataLine f 0] else []) ++ owed sink mode es
  | .can2 f :: es => (if sink mode then [dataLine f 1] else []) ++ owed sink mode es

def NoFrameLost (s : Logger) (es : List Event) : Prop :=
  handlers.Always StepDelivers s es ∧
    dataLines (sdLines (handlers.out s es)) = owed toSd s.logging es ∧
    dataLines (usbLines (handlers.out s es)) = owed toUsb s.logging es

/-- A frame of a logging mode finds the header already sent. -/
def HeaderBeforeFrame (s : Logger) (e : Event) : Prop :=
  e.frame?.isSome → (toSd s.logging || toUsb s.logging) → s.headerSent

-- ---------------------------------------------------------------------------
-- The steps and the runs that pay it
-- ---------------------------------------------------------------------------

theorem emit_no_line (h : e.frame? = none) :
    sdLines (handlers.emit s e) = [] ∧ usbLines (handlers.emit s e) = [] := by
  cases e with
  | can1 f | can2 f => simp [Event.frame?] at h
  | tick =>
    rw [emit_tick]
    split <;> simp [sdLines, usbLines]
  | setLogging mode => simp [sdLines, usbLines]

theorem stepDelivers_iff (s : Logger) (e : Event) : StepDelivers s e ↔ HeaderBeforeFrame s e := by
  unfold StepDelivers HeaderBeforeFrame
  cases hf : e.frame? with
  | none => simpa using emit_no_line hf
  | some fb =>
    obtain ⟨f, busId⟩ := fb
    simp only [emit_frame hf, Option.isSome_some, forall_const]
    have hdata := dataLines_frameLine s f busId
    constructor
    · rintro ⟨hsd, husb, -⟩ hmode
      by_contra hs
      simp only [Bool.not_eq_true] at hs
      simp only [hs, Bool.false_eq_true, ↓reduceIte] at hdata
      rw [sdLines_lineCalls] at hsd
      rw [usbLines_lineCalls] at husb
      rcases (Bool.or_eq_true ..).mp hmode with h | h
      · simp [h, hdata] at hsd
      · simp [h, hdata] at husb
    · intro hs
      refine ⟨?_, ?_, fun hsd husb => lineCalls_eq_nil.mpr ⟨hsd, husb⟩⟩
      · rw [sdLines_lineCalls]
        cases h : toSd s.logging
        · simp [dataLines]
        · rw [if_pos rfl, hdata, if_pos (hs (by simp [h])), if_pos rfl]
      · rw [usbLines_lineCalls]
        cases h : toUsb s.logging
        · simp [dataLines]
        · rw [if_pos rfl, hdata, if_pos (hs (by simp [h])), if_pos rfl]

theorem delivered_in_order (s : Logger) (es : List Event) (h : handlers.Always StepDelivers s es) :
    dataLines (sdLines (handlers.out s es)) = owed toSd s.logging es ∧
      dataLines (usbLines (handlers.out s es)) = owed toUsb s.logging es := by
  induction es generalizing s with
  | nil => simp [dataLines, sdLines, usbLines, owed]
  | cons e es ih =>
    obtain ⟨hstep, hrest⟩ := h
    obtain ⟨ihsd, ihusb⟩ := ih _ hrest
    rw [handlers.out_cons, sdLines_append, usbLines_append, dataLines_append, dataLines_append,
      ihsd, ihusb]
    cases e with
    | can1 f =>
      have hd : Delivered s.logging (dataLine f 0) (handlers.emit s (.can1 f)) := hstep
      rw [hd.sd, hd.usb, logging_frame (p := (f, 0)) rfl]
      exact ⟨rfl, rfl⟩
    | can2 f =>
      have hd : Delivered s.logging (dataLine f 1) (handlers.emit s (.can2 f)) := hstep
      rw [hd.sd, hd.usb, logging_frame (p := (f, 1)) rfl]
      exact ⟨rfl, rfl⟩
    | tick =>
      obtain ⟨hsd, husb⟩ := emit_no_line (s := s) (e := .tick) rfl
      rw [hsd, husb, logging_tick]
      exact ⟨rfl, rfl⟩
    | setLogging mode => exact ⟨rfl, rfl⟩

/-- In every run from power-on, and from every point of it on, no frame is lost
or doubled exactly when each logged frame finds the header sent. -/
theorem noFrameLost_iff (logging : UInt8) (pre es : List Event) :
    NoFrameLost (handlers.run (.powerOn logging) pre) es ↔
      handlers.Always HeaderBeforeFrame (handlers.run (.powerOn logging) pre) es := by
  constructor
  · rintro ⟨hsteps, -⟩
    exact hsteps.mono _ fun s e => (stepDelivers_iff s e).mp
  · intro h
    have hsteps : handlers.Always StepDelivers _ es :=
      h.mono _ fun s e => (stepDelivers_iff s e).mpr
    exact ⟨hsteps, delivered_in_order _ es hsteps⟩

/-- The first frame after the log file was opened is replaced by the header. -/
theorem first_frame_lost :
    Call.createFile ∈ handlers.out (.powerOn 1) (List.replicate 11 .tick) ∧
      ¬ NoFrameLost (handlers.run (.powerOn 1) (List.replicate 11 .tick))
        [.can1 ⟨0x123, 1, 2, 8, 7⟩] := by
  refine ⟨by decide, ?_⟩
  rintro ⟨-, hsd, -⟩
  revert hsd
  decide

end Stm32Logger
