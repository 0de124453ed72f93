import Mathlib.Data.Nat.Digits.Lemmas

/-!
# `sprintf`

The conversions the logger's format string uses, as C defines them: `%d` and
`%0wd` of an `int`, `%0wx` of an `unsigned`, and `%s`. A conversion gives the
bytes it appends to the buffer.
-/

namespace Stm32Logger

def ascii (s : String) : List UInt8 := s.toList.map fun c => UInt8.ofNat c.toNat

def digitChar (d : Nat) : UInt8 := UInt8.ofNat (if d < 10 then 48 + d else 87 + d)

def digitList (base n : Nat) : List Nat := if n = 0 then [0] else (Nat.digits base n).reverse

def zeroPad (width : Nat) (ds : List Nat) : List UInt8 :=
  List.replicate (width - ds.length) 48 ++ ds.map digitChar

/-- `%0<width>d`; the sign counts as one character of the width. -/
def fmtD (width : Nat) (v : Int) : List UInt8 :=
  if v < 0 then 45 :: zeroPad (width - 1) (digitList 10 v.natAbs)
  else zeroPad width (digitList 10 v.natAbs)

/-- `%0<width>x`. -/
def fmtX (width v : Nat) : List UInt8 := zeroPad width (digitList 16 v)

def int32 (v : UInt32) : Int := if v.toNat < 2 ^ 31 then v.toNat else (v.toNat : Int) - 2 ^ 32

-- ---------------------------------------------------------------------------
-- The characters a conversion can produce
-- ---------------------------------------------------------------------------

def IsNumeral (b : UInt8) : Prop := b = 45 ∨ (48 ≤ b ∧ b ≤ 57) ∨ (97 ≤ b ∧ b ≤ 102)

instance (b : UInt8) : Decidable (IsNumeral b) := inferInstanceAs (Decidable (_ ∨ _))

theorem digitChar_numeral (h : d < 16) : IsNumeral (digitChar d) := by
  revert h d
  decide

theorem digitList_lt (hb : 1 < base) : ∀ d ∈ digitList base n, d < base := by
  intro d hd
  unfold digitList at hd
  split at hd
  · simp only [List.mem_singleton] at hd
    omega
  · exact Nat.digits_lt_base hb (List.mem_reverse.mp hd)

theorem zeroPad_numeral (h : ∀ d ∈ ds, d < 16) : ∀ b ∈ zeroPad width ds, IsNumeral b := by
  intro b hb
  simp only [zeroPad, List.mem_append, List.mem_replicate, List.mem_map] at hb
  rcases hb with ⟨-, rfl⟩ | ⟨d, hd, rfl⟩
  · decide
  · exact digitChar_numeral (h d hd)

theorem fmtD_numeral : ∀ b ∈ fmtD width v, IsNumeral b := by
  have hten : ∀ d ∈ digitList 10 v.natAbs, d < 16 := fun d hd => by
    have := digitList_lt (by decide) d hd
    omega
  intro b hb
  unfold fmtD at hb
  split at hb
  · rcases List.mem_cons.mp hb with rfl | hb
    · decide
    · exact zeroPad_numeral hten b hb
  · exact zeroPad_numeral hten b hb

theorem fmtX_numeral : ∀ b ∈ fmtX width v, IsNumeral b :=
  zeroPad_numeral fun d hd => digitList_lt (by decide) d hd

-- ---------------------------------------------------------------------------
-- How long a conversion can be
-- ---------------------------------------------------------------------------

theorem digitList_length_le (hb : 1 < base) (hk : 0 < k) (h : n < base ^ k) :
    (digitList base n).length ≤ k := by
  unfold digitList
  split
  · exact hk
  · rw [List.length_reverse]
    exact (Nat.digits_length_le_iff hb n).mpr h

theorem zeroPad_length : (zeroPad width ds).length = max width ds.length := by
  simp only [zeroPad, List.length_append, List.length_replicate, List.length_map]
  omega

theorem fmtX_length_le (hk : 0 < k) (hw : width ≤ k) (h : v < 16 ^ k) :
    (fmtX width v).length ≤ k := by
  have hd := digitList_length_le (by decide) hk h
  rw [fmtX, zeroPad_length]
  omega

theorem fmtD_natCast_length_le (hk : 0 < k) (hw : width ≤ k) (h : v < 10 ^ k) :
    (fmtD width (v : Nat)).length ≤ k := by
  have hd := digitList_length_le (by decide) hk h
  have hv : ¬ (v : Int) < 0 := by omega
  rw [fmtD, if_neg hv, zeroPad_length, Int.natAbs_natCast]
  omega

theorem fmtD_length_le (hk : 0 < k) (hw : width ≤ k + 1) (h : v.natAbs < 10 ^ k) :
    (fmtD width v).length ≤ k + 1 := by
  have hd := digitList_length_le (by decide) hk h
  unfold fmtD
  split
  · simp only [List.length_cons, zeroPad_length]
    omega
  · simp only [zeroPad_length]
    omega

theorem int32_natAbs_le : (int32 v).natAbs ≤ 2 ^ 31 := by
  have hv := v.toNat_lt
  unfold int32
  split <;> omega

end Stm32Logger
