import Stm32Logger.MainLaws

/-!
# Reading a log line back

A reader splits a line at its commas and takes each field as a numeral or as a
word. `decodeLine` is that reader, and the line of a frame tells it everything
about the frame.
-/

namespace Stm32Logger

-- ---------------------------------------------------------------------------
-- Numerals
-- ---------------------------------------------------------------------------

def digitValue (c : UInt8) : Nat := if c < 97 then c.toNat - 48 else c.toNat - 87

def readNat (base : Nat) (cs : List UInt8) : Nat := cs.foldl (fun n c => n * base + digitValue c) 0

def readInt : List UInt8 → Int
  | [] => 0
  | c :: cs => if c = 45 then -(readNat 10 cs : Int) else readNat 10 (c :: cs)

theorem digitValue_digitChar (h : d < 16) : digitValue (digitChar d) = d := by
  revert h d
  decide

theorem digitChar_ne_sign (h : d < 10) : digitChar d ≠ 45 := by
  revert h d
  decide

theorem readNat_zeros (k : Nat) (cs : List UInt8) :
    readNat base (List.replicate k 48 ++ cs) = readNat base cs := by
  induction k with
  | zero => rfl
  | succ k ih =>
    rw [← ih, List.replicate_succ, List.cons_append, readNat, List.foldl_cons, Nat.zero_mul]
    rfl

theorem readNat_digits (h : ∀ d ∈ ds, d < 16) :
    readNat base (ds.reverse.map digitChar) = Nat.ofDigits base ds := by
  rw [readNat, List.map_reverse, List.foldl_reverse]
  induction ds with
  | nil => rfl
  | cons d ds ih =>
    rw [List.map_cons, List.foldr_cons, ih fun x hx => h x (List.mem_cons_of_mem d hx),
      digitValue_digitChar (h d (List.mem_cons_self ..)), Nat.ofDigits_cons]
    ring

theorem readNat_zeroPad (hb : 1 < base) (hb' : base ≤ 16) (width n : Nat) :
    readNat base (zeroPad width (digitList base n)) = n := by
  rw [zeroPad, readNat_zeros, digitList]
  split
  · rename_i h
    subst h
    exact readNat_zeros 1 []
  · rw [readNat_digits fun d hd => Nat.lt_of_lt_of_le (Nat.digits_lt_base hb hd) hb', Nat.ofDigits_digits]

theorem readNat_fmtX (width v : Nat) : readNat 16 (fmtX width v) = v :=
  readNat_zeroPad (by decide) (by decide) width v

theorem readInt_zeroPad (width n : Nat) : readInt (zeroPad width (digitList 10 n)) = n := by
  have hread := readNat_zeroPad (by decide : 1 < 10) (by decide) width n
  cases h : zeroPad width (digitList 10 n) with
  | nil =>
    rw [h] at hread
    exact congrArg Nat.cast hread
  | cons c cs =>
    have hc : c ≠ 45 := by
      have hmem : c ∈ zeroPad width (digitList 10 n) := h ▸ List.mem_cons_self ..
      rw [zeroPad, List.mem_append, List.mem_replicate, List.mem_map] at hmem
      rcases hmem with ⟨-, rfl⟩ | ⟨d, hd, rfl⟩
      · decide
      · exact digitChar_ne_sign (digitList_lt (by decide) d hd)
    rw [readInt, if_neg hc, ← h, hread]

theorem readInt_fmtD (width : Nat) (v : Int) : readInt (fmtD width v) = v := by
  rw [fmtD]
  split
  · rw [readInt, if_pos rfl, readNat_zeroPad (by decide) (by decide)]
    omega
  · rw [readInt_zeroPad]
    omega

-- ---------------------------------------------------------------------------
-- Lines
-- ---------------------------------------------------------------------------

structure CsvFrame where
  stamp : UInt32
  id : UInt32
  extended : Bool
  bus : UInt8
  length : UInt8
  data : List UInt8
  deriving DecidableEq

def toStamp (v : Int) : UInt32 := UInt32.ofNat (v % 2 ^ 32).toNat

def decodeFields : List (List UInt8) → Option CsvFrame
  | stamp :: id :: extended :: _dir :: bus :: length :: data =>
    some
      { stamp := toStamp (readInt stamp)
        id := UInt32.ofNat (readNat 16 id)
        extended := extended = ascii "True"
        bus := UInt8.ofNat (readInt bus).toNat
        length := UInt8.ofNat (readInt length).toNat
        data := data.map fun d => UInt8.ofNat (readNat 16 d) }
  | _ => none

def decodeLine (line : List UInt8) : Option CsvFrame :=
  decodeFields ((line.take (line.length - 2)).splitOn 44)

def csvFrame (f : CanFrame) (busId : UInt8) : CsvFrame where
  stamp := f.stamp
  id := f.id
  extended := f.id > 0x7FF
  bus := busId
  length := f.length
  data := bytesOf f.data0 ++ bytesOf f.data1

def lineFields (f : CanFrame) (busId : UInt8) : List (List UInt8) :=
  [fmtD 6 (int32 f.stamp), fmtX 8 f.id.toNat,
    ascii (if decide (f.id > 0x7FF) then "True" else "False"), ascii "Rx",
    fmtD 0 busId.toNat, fmtD 0 f.length.toNat] ++
      (bytesOf f.data0 ++ bytesOf f.data1).map
      fun b =>
      fmtX 2 b.toNat

theorem toStamp_int32 (v : UInt32) : toStamp (int32 v) = v := by
  have hv := v.toNat_lt
  have hmod : (int32 v % 2 ^ 32).toNat = v.toNat := by
    rw [int32]
    split <;> omega
  rw [toStamp, hmod, UInt32.ofNat_toNat]

theorem comma_not_numeral : ¬ IsNumeral 44 := by decide

theorem lineFields_no_comma : ∀ field ∈ lineFields f busId, (44 : UInt8) ∉ field := by
  intro field hfield hcomma
  rw [lineFields, List.mem_append, List.mem_map] at hfield
  rcases hfield with hfield | ⟨b, -, rfl⟩
  · simp only [List.mem_cons, List.not_mem_nil, or_false] at hfield
    rcases hfield with rfl | rfl | rfl | rfl | rfl | rfl
    · exact comma_not_numeral (fmtD_numeral _ hcomma)
    · exact comma_not_numeral (fmtX_numeral _ hcomma)
    · revert hcomma
      split <;> decide
    · exact absurd hcomma (by decide)
    · exact comma_not_numeral (fmtD_numeral _ hcomma)
    · exact comma_not_numeral (fmtD_numeral _ hcomma)
  · exact comma_not_numeral (fmtX_numeral _ hcomma)

theorem dataLine_eq (f : CanFrame) (busId : UInt8) :
    dataLine f busId = [44].intercalate (lineFields f busId) ++ [10, 13] := by
  have hcomma : ascii "," = [44] := by decide
  have hend : ascii "\n\r" = [10, 13] := by decide
  simp only [dataLine, sprintfLine, lineFields, bytesOf, hcomma, hend, List.cons_append, List.nil_append,
    List.map_cons,
    List.map_nil, List.flatMap_cons, List.flatMap_nil, List.intercalate_cons_cons, List.intercalate_singleton,
    List.append_assoc]

theorem extended_field (e : Bool) : decide (ascii (if e then "True" else "False") = ascii "True") = e := by
  cases e <;> decide

theorem byte_natCast (b : UInt8) : UInt8.ofNat (readInt (fmtD 0 (b.toNat : Nat))).toNat = b := by
  rw [readInt_fmtD, Int.toNat_natCast, UInt8.ofNat_toNat]

theorem decodeFields_lineFields (f : CanFrame) (busId : UInt8) :
    decodeFields (lineFields f busId) = some (csvFrame f busId) := by
  have hdata (bs : List UInt8) :
      ((bs.map fun b => fmtX 2 b.toNat).map fun d => UInt8.ofNat (readNat 16 d)) = bs := by
    rw [List.map_map]
    refine (List.map_congr_left fun b _ => ?_).trans (List.map_id bs)
    exact (congrArg UInt8.ofNat (readNat_fmtX 2 b.toNat)).trans UInt8.ofNat_toNat
  rw [lineFields, List.cons_append, List.cons_append, List.cons_append, List.cons_append, List.cons_append,
    List.cons_append, List.nil_append, decodeFields, readInt_fmtD, toStamp_int32, readNat_fmtX,
    UInt32.ofNat_toNat,
    extended_field, byte_natCast, byte_natCast, hdata]
  rfl

theorem decodeLine_dataLine (f : CanFrame) (busId : UInt8) :
    decodeLine (dataLine f busId) = some (csvFrame f busId) := by
  have htake :
      (dataLine f busId).take ((dataLine f busId).length - 2) = [44].intercalate (lineFields f busId) := by
    rw [dataLine_eq, List.length_append]
    exact List.take_left' rfl
  rw [decodeLine, htake, List.splitOn_intercalate 44 lineFields_no_comma (List.cons_ne_nil _ _),
    decodeFields_lineFields]

theorem csvFrame_inj (h : csvFrame f busId = csvFrame f' busId') : f = f' ∧ busId = busId' := by
  rw [csvFrame, csvFrame, CsvFrame.mk.injEq] at h
  obtain ⟨hstamp, hid, -, hbus, hlen, hdata⟩ := h
  obtain ⟨h0, h1⟩ := List.append_inj hdata rfl
  have hword {v v' : UInt32} (h : bytesOf v = bytesOf v') : v = v' := by
    simp only [bytesOf, List.cons.injEq, and_true] at h
    rw [← mergeId_bytesOf v, ← mergeId_bytesOf v', h.1, h.2.1, h.2.2.1, h.2.2.2]
  refine ⟨?_, hbus⟩
  cases f
  cases f'
  simp only [CanFrame.mk.injEq]
  exact ⟨hid, hword h0, hword h1, hlen, hstamp⟩

/-- The line a frame is turned into fits the buffer with its terminator, its length
fits a byte and it fits a packet; a data line tells everything about its frame. -/
theorem line_faithful (s : Logger) (f : CanFrame) (busId : UInt8) :
    (processCanData s f busId).2 = lineCalls s.logging (frameLine s f busId) ∧
    (frameLine s f busId).length + 1 ≤ 65 ∧ (frameLine s f busId).length ≤ 64 ∧
    (UInt8.ofNat (frameLine s f busId).length).toNat = (frameLine s f busId).length ∧
    (s.headerSent = false → frameLine s f busId = savvyHeader) ∧
    (s.headerSent = true →
      decodeLine (frameLine s f busId) = some (csvFrame f busId) ∧
      ∀ s' f' busId', s'.headerSent = true → frameLine s' f' busId' = frameLine s f busId →
        f' = f ∧ busId' = busId) := by
  have hlen : (frameLine s f busId).length ≤ 64 := by
    rw [frameLine]
    split
    · exact dataLine_length_le f busId
    · decide
  refine ⟨?_, by omega, hlen, ?_, fun h => if_neg (Bool.eq_false_iff.mp h), fun h => ?_⟩
  · rw [processCanData_eq]
  · rw [UInt8.toNat_ofNat']
    omega
  · have hline : frameLine s f busId = dataLine f busId := if_pos h
    rw [hline]
    refine ⟨decodeLine_dataLine f busId, fun s' f' busId' h' heq => ?_⟩
    have hline' : frameLine s' f' busId' = dataLine f' busId' := if_pos h'
    rw [hline'] at heq
    have hdec := decodeLine_dataLine f' busId'
    rw [heq, decodeLine_dataLine, Option.some.injEq] at hdec
    exact csvFrame_inj hdec.symm

/-- A frame with an extended id, and the largest timestamp. -/
theorem line_faithful_extended :
    decodeLine (frameLine { logging := 1, headerSent := true }
      { id := 0x18DAF110, data0 := 1, data1 := 2, length := 8, stamp := 0xFFFFFFFF } 1) =
      some { stamp := 0xFFFFFFFF, id := 0x18DAF110, extended := true, bus := 1, length := 8
             data := [1, 0, 0, 0, 2, 0, 0, 0] } :=
  ((line_faithful _ _ _).2.2.2.2.2 rfl).1.trans (by decide)

end Stm32Logger
