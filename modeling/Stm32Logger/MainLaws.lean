import Stm32Logger.Main

/-!
# What one handler does

The line of a frame, the calls each event makes and the state it leaves: one
equation a handler, from which the properties of runs are proved.
-/

namespace Stm32Logger

-- ---------------------------------------------------------------------------
-- The line of a frame
-- ---------------------------------------------------------------------------

/-- The data line of a frame: its own timestamp, id, length and data bytes. -/
def dataLine (f : CanFrame) (busId : UInt8) : List UInt8 :=
  sprintfLine f.stamp f.id (decide (f.id > 0x7FF)) busId f.length
    (bytesOf f.data0 ++ bytesOf f.data1)

theorem mergeId_bytesOf (v : UInt32) :
    mergeId v.toUInt8 (v >>> 8).toUInt8 (v >>> 16).toUInt8 (v >>> 24).toUInt8 = v := by
  apply UInt32.toNat_inj.mp
  have hv := v.toNat_lt
  have h24 : UInt32.toNat 24 % 32 = 24 := rfl
  have h16 : UInt32.toNat 16 % 32 = 16 := rfl
  have h8 : UInt32.toNat 8 % 32 = 8 := rfl
  simp only [mergeId, UInt32.toNat_or, UInt32.toNat_shiftLeft, UInt8.toNat_toUInt32,
    UInt32.toNat_toUInt8, UInt32.toNat_shiftRight, h24, h16, h8, Nat.shiftRight_eq_div_pow]
  -- each byte stays below the next one's place, so the four `or`s are a sum
  rw [Nat.mod_eq_of_lt (a := _ <<< 24), Nat.mod_eq_of_lt (a := _ <<< 16),
    Nat.mod_eq_of_lt (a := _ <<< 8), Nat.or_assoc, Nat.or_assoc,
    ← Nat.shiftLeft_add_eq_or_of_lt (i := 8), ← Nat.shiftLeft_add_eq_or_of_lt (i := 16),
    ← Nat.shiftLeft_add_eq_or_of_lt (i := 24)]
  all_goals (try simp only [Nat.shiftLeft_eq]); omega

theorem dataLine_length_le (f : CanFrame) (busId : UInt8) : (dataLine f busId).length ≤ 64 := by
  have hstamp : (fmtD 6 (int32 f.stamp)).length ≤ 11 :=
    fmtD_length_le (k := 10) (by decide) (by decide)
      (Nat.lt_of_le_of_lt int32_natAbs_le (by decide))
  have hid : (fmtX 8 f.id.toNat).length ≤ 8 := fmtX_length_le (by decide) le_rfl f.id.toNat_lt
  have hext : (ascii (if decide (f.id > 0x7FF) then "True" else "False")).length ≤ 5 := by
    split <;> decide
  have hbyte (b : UInt8) : (ascii "," ++ fmtX 2 b.toNat).length ≤ 3 := by
    have := fmtX_length_le (k := 2) (by decide) le_rfl b.toNat_lt
    rw [List.length_append, show (ascii ",").length = 1 from rfl]
    omega
  have hsmall (b : UInt8) : (fmtD 0 (b.toNat : Nat)).length ≤ 3 :=
    fmtD_natCast_length_le (by decide) (by decide) (Nat.lt_trans b.toNat_lt (by decide))
  have hbus := hsmall busId
  have hlen := hsmall f.length
  have hdata : ((bytesOf f.data0 ++ bytesOf f.data1).flatMap
      fun b => ascii "," ++ fmtX 2 b.toNat).length ≤ 24 := by
    simp only [bytesOf, List.cons_append, List.nil_append, List.flatMap_cons, List.flatMap_nil,
      @List.length_append _ (ascii "," ++ _), List.length_nil]
    have := hbyte f.data0.toUInt8
    have := hbyte (f.data0 >>> 8).toUInt8
    have := hbyte (f.data0 >>> 16).toUInt8
    have := hbyte (f.data0 >>> 24).toUInt8
    have := hbyte f.data1.toUInt8
    have := hbyte (f.data1 >>> 8).toUInt8
    have := hbyte (f.data1 >>> 16).toUInt8
    have := hbyte (f.data1 >>> 24).toUInt8
    omega
  have hcomma : (ascii ",").length = 1 := rfl
  have hrx : (ascii "Rx").length = 2 := rfl
  have hend : (ascii "\n\r").length = 2 := rfl
  simp only [dataLine, sprintfLine, List.length_append, hcomma, hrx, hend]
  omega

-- ---------------------------------------------------------------------------
-- Frames
-- ---------------------------------------------------------------------------

def Event.frame? : Event → Option (CanFrame × UInt8)
  | .can1 f => some (f, 0)
  | .can2 f => some (f, 1)
  | .tick | .setLogging _ => none

def toSd (mode : UInt8) : Bool := mode = 1 || mode = 3

def toUsb (mode : UInt8) : Bool := mode = 2 || mode = 3

def lineCalls (mode : UInt8) (arr : List UInt8) : List Call :=
  (if toUsb mode then [.usbSend arr] else []) ++ (if toSd mode then [.writeToFile arr] else [])

/-- The line a frame is turned into: the header as long as none was sent. -/
def frameLine (s : Logger) (f : CanFrame) (busId : UInt8) : List UInt8 :=
  if s.headerSent then dataLine f busId else savvyHeader

theorem frameLine_take (s : Logger) (f : CanFrame) (busId : UInt8) :
    (frameLine s f busId).take (UInt8.ofNat (frameLine s f busId).length).toNat =
      frameLine s f busId := by
  have hlen : (frameLine s f busId).length ≤ 64 := by
    unfold frameLine
    split
    · exact dataLine_length_le f busId
    · decide
  apply List.take_of_length_le
  rw [UInt8.toNat_ofNat']
  omega

/-- The modes `ProcessCanData` switches over. -/
theorem mode_cases (mode : UInt8) :
    mode = 0 ∨ mode = 1 ∨ mode = 2 ∨ mode = 3 ∨ 3 < mode.toNat := by
  simp only [← UInt8.toNat_inj]
  have h : UInt8.toNat 0 = 0 ∧ UInt8.toNat 1 = 1 ∧ UInt8.toNat 2 = 2 ∧ UInt8.toNat 3 = 3 := by
    decide
  omega

theorem processCanData_eq (s : Logger) (f : CanFrame) (busId : UInt8) :
    processCanData s f busId =
      ({ s with
          extended := decide (f.id > 0x7FF), rtcStamp := f.stamp, headerSent := true
          newFile := s.newFile && !toSd s.logging
          opmode := if toSd s.logging || toUsb s.logging then 1
            else if s.logging = 0 then 0 else s.opmode
          timer1Sec := 10 },
        lineCalls s.logging (frameLine s f busId)) := by
  have hline : (if !s.headerSent then savvyHeader
      else sprintfLine f.stamp (mergeId f.id.toUInt8 (f.id >>> 8).toUInt8 (f.id >>> 16).toUInt8
        (f.id >>> 24).toUInt8) (decide (f.id > 0x7FF)) busId f.length
        (bytesOf f.data0 ++ bytesOf f.data1)) = frameLine s f busId := by
    rw [mergeId_bytesOf]
    cases h : s.headerSent <;> simp [frameLine, dataLine, h]
  have htake := frameLine_take s f busId
  rw [← hline] at htake ⊢
  rcases mode_cases s.logging with h | h | h | h | h
  · simp [processCanData, h, lineCalls, toSd, toUsb]
  iterate 3
    · simp only [processCanData, h, lineCalls, toSd, toUsb]
      simpa [bytesOf] using htake
  · have h0 : ∀ k : UInt8, k.toNat ≤ 3 → s.logging ≠ k := by
      rintro k hk rfl
      omega
    have hm : toSd s.logging = false ∧ toUsb s.logging = false := by
      simp [toSd, toUsb, h0]
    obtain ⟨n, hn⟩ : ∃ n, s.logging.toNat = n + 4 := ⟨s.logging.toNat - 4, by omega⟩
    simp [processCanData, hn, hm, lineCalls, h0 0 (by decide)]

theorem emit_frame (h : e.frame? = some (f, busId)) :
    handlers.emit s e = lineCalls s.logging (frameLine s f busId) := by
  cases e <;> simp only [Event.frame?, Option.some.injEq, Prod.mk.injEq, reduceCtorEq] at h
  all_goals
    obtain ⟨rfl, rfl⟩ := h
    simp [Transducer.emit, handlers, canCallback1, canCallback2, processCanData_eq, frameLine]

section
variable {s : Logger} {e : Event} (h : e.frame? = some p)
include h

theorem next_frame : ∃ s', handlers.next s e = s' ∧ s'.headerSent = true ∧ s'.timer1Sec = 10 ∧
    s'.logging = s.logging ∧ s'.newFile = (s.newFile && !toSd s.logging) := by
  cases e <;> simp [Event.frame?] at h
  all_goals
    simp [Transducer.next, handlers, canCallback1, canCallback2, processCanData_eq]

theorem headerSent_frame : (handlers.next s e).headerSent = true := by
  obtain ⟨_, rfl, h, -⟩ := next_frame h
  exact h

theorem timer1Sec_frame : (handlers.next s e).timer1Sec = 10 := by
  obtain ⟨_, rfl, -, h, -⟩ := next_frame h
  exact h

theorem logging_frame : (handlers.next s e).logging = s.logging := by
  obtain ⟨_, rfl, -, -, h, -⟩ := next_frame h
  exact h

theorem newFile_frame : (handlers.next s e).newFile = (s.newFile && !toSd s.logging) := by
  obtain ⟨_, rfl, -, -, -, h⟩ := next_frame h
  exact h

end

-- ---------------------------------------------------------------------------
-- Ticks and mode changes
-- ---------------------------------------------------------------------------

theorem emit_tick : handlers.emit s .tick =
    if s.timer1Sec = 0 ∧ s.newFile = false then [.createFile] else [] := by
  by_cases ht : s.timer1Sec = 0 <;> cases hn : s.newFile <;>
    simp [Transducer.emit, handlers, ms100Task, updateCanStats, newSDFile, ht, hn]

@[simp] theorem newFile_tick :
    (handlers.next s .tick).newFile = (s.newFile || decide (s.timer1Sec = 0)) := by
  by_cases ht : s.timer1Sec = 0 <;> cases hn : s.newFile <;>
    simp [Transducer.next, handlers, ms100Task, updateCanStats, newSDFile, ht, hn]

@[simp] theorem headerSent_tick :
    (handlers.next s .tick).headerSent = (s.headerSent && !decide (s.timer1Sec = 0)) := by
  by_cases ht : s.timer1Sec = 0 <;> cases hn : s.newFile <;>
    simp [Transducer.next, handlers, ms100Task, updateCanStats, newSDFile, ht, hn]

@[simp] theorem timer1Sec_tick :
    (handlers.next s .tick).timer1Sec = (if s.timer1Sec = 0 then 10 else s.timer1Sec) - 1 := by
  by_cases ht : s.timer1Sec = 0 <;> cases hn : s.newFile <;>
    simp [Transducer.next, handlers, ms100Task, updateCanStats, newSDFile, ht, hn]

@[simp] theorem logging_tick : (handlers.next s .tick).logging = s.logging := by
  by_cases ht : s.timer1Sec = 0 <;> cases hn : s.newFile <;>
    simp [Transducer.next, handlers, ms100Task, updateCanStats, newSDFile, ht, hn]

@[simp] theorem next_setLogging (s : Logger) (mode : UInt8) :
    handlers.next s (.setLogging mode) = { s with logging := mode } := rfl

@[simp] theorem emit_setLogging : handlers.emit s (.setLogging mode) = [] := rfl

theorem Event.cases_frame (e : Event) :
    (∃ f busId, e.frame? = some (f, busId)) ∨ e = .tick ∨ ∃ mode, e = .setLogging mode := by
  cases e with
  | can1 f => exact .inl ⟨f, 0, rfl⟩
  | can2 f => exact .inl ⟨f, 1, rfl⟩
  | tick => exact .inr (.inl rfl)
  | setLogging mode => exact .inr (.inr ⟨mode, rfl⟩)

end Stm32Logger
