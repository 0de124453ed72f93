import Mathlib.Algebra.Ring.Nat
import Mathlib.Data.List.Basic

/-!
# Reading with a cursor

A sequence that cannot change, and a position in it: reading takes what comes
next, seeking sets the position. What runs of reads and seeks give, for any
kind of element.
-/

namespace Cursor

variable {α : Type} {xs : List α} {p : Nat}

inductive Origin where
  | start
  | here
  | theEnd
  deriving DecidableEq

inductive Op where
  | read (n : Nat)
  | seek (offset : Int) (origin : Origin)
  deriving DecidableEq

inductive Answer (α : Type) where
  | items (xs : List α)
  | position (p : Nat)
  deriving DecidableEq

/-- A place outside the sequence, before its start too, becomes its end. -/
def clip (len : Nat) (target : Int) : Nat := if 0 ≤ target ∧ target ≤ len then target.toNat else len

def target (len p : Nat) (offset : Int) : Origin → Int
  | .start => offset
  | .here => p + offset
  | .theEnd => len + offset

def Op.move (len p : Nat) : Op → Nat
  | .read n => min (p + n) len
  | .seek offset origin => clip len (target len p offset origin)

def Op.answer (xs : List α) (p : Nat) : Op → Answer α
  | .read n => .items ((xs.drop p).take n)
  | .seek offset origin => .position (clip xs.length (target xs.length p offset origin))

def answers (xs : List α) (p : Nat) : List Op → List (Answer α)
  | [] => []
  | op :: ops => op.answer xs p :: answers xs (op.move xs.length p) ops

theorem clip_le (len : Nat) (target : Int) : clip len target ≤ len := by
  unfold clip
  split
  · omega
  · exact Nat.le_refl len

end Cursor
