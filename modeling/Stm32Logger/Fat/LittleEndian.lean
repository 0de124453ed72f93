import Mathlib.Algebra.Group.Nat.Defs
import Mathlib.Logic.Function.Basic

/-!
# Bytes in a sector

A sector is its bytes by offset. This file has the little-endian accessors of
`leaccess.h` on it, `memcpy` into it, and what a later read gives.
-/

namespace Stm32Logger

/-- Bytes by offset; a card's sector uses the first 512. -/
abbrev Sector := Nat → UInt8

/-- The value of a `uint32_t` expression. -/
def u32 (x : Nat) : Nat := x % 2 ^ 32

def u16 (x : Nat) : Nat := x % 2 ^ 16

def u8 (x : Nat) : Nat := x % 2 ^ 8

def le16 (b : Sector) (o : Nat) : Nat := (b o).toNat + 256 * (b (o + 1)).toNat

def le32 (b : Sector) (o : Nat) : Nat := le16 b o + 65536 * le16 b (o + 2)

def put8 (o v : Nat) (b : Sector) : Sector := Function.update b o (UInt8.ofNat v)

def put16 (o v : Nat) (b : Sector) : Sector := put8 (o + 1) (v / 256) (put8 o v b)

def put32 (o v : Nat) (b : Sector) : Sector := put16 (o + 2) (v / 65536) (put16 o v b)

def memcpy (o : Nat) (src : List UInt8) (b : Sector) : Sector := fun i =>
  if o ≤ i ∧ i < o + src.length then src.getD (i - o) 0 else b i

def bytesAt (b : Sector) (o n : Nat) : List UInt8 := (List.range n).map fun i => b (o + i)

theorem le16_lt (b : Sector) (o : Nat) : le16 b o < 2 ^ 16 := by
  have h0 := (b o).toNat_lt
  have h1 := (b (o + 1)).toNat_lt
  rw [le16]
  omega

theorem le32_lt (b : Sector) (o : Nat) : le32 b o < 2 ^ 32 := by
  have h0 := le16_lt b o
  have h1 := le16_lt b (o + 2)
  rw [le32]
  omega

end Stm32Logger
