import Stm32Logger.Slots
import Stm32Logger.Fat.Directory
import Stm32Logger.Fat.SdStore

/-!
# What a directory lists

The entries of a directory before its end slot, as a list: which of them a
name finds, where new entries have room, and that the entries made for a new
file are found by its name. Nothing here moves a handle or reads the card.
-/

namespace Stm32Logger

def deleted (e : Sector) : Bool := e 0 = 0xE5

def volumeId (e : Sector) : Bool := (e 11).toNat = attrVolumeId

def longName (e : Sector) : Bool := (e 11).toNat = attrLongName

/-- The name a reader has put together from long entries, and their checksum. -/
structure LongName where
  csum : Option Nat := none
  chars : Sector := fun _ => 0

/-- `ascii_from_utf16` where no store leaves `d_name`. -/
def asciiRun : List Nat → Nat → Sector → AsciiResult × Sector
  | [], _, chars => (.inputEnd, chars)
  | tmp :: units, i, chars =>
    if tmp > 127 then (.notAscii, chars)
    else if tmp = 0 then (.terminated, put8 i tmp chars)
    else asciiRun units (i + 1) (put8 i tmp chars)

def asciiEnd : List Nat → AsciiResult
  | [] => .inputEnd
  | tmp :: units => if tmp > 127 then .notAscii else if tmp = 0 then .terminated else asciiEnd units

/-- The indices `ascii_from_utf16` stores at, from index `i`. -/
def asciiStores : List Nat → Int → List Int
  | [], _ => []
  | tmp :: units, i =>
    if tmp > 127 then [] else if tmp = 0 then [i] else i :: asciiStores units (i + 1)

/-- The indices of `d_name` that a long entry stores at. -/
def longStores (e : Sector) : List Int :=
  let i : Int := (((e 0).toNat % 64 : Nat) - 1) * 13
  asciiStores (ldirentName1 e) i ++
    if asciiEnd (ldirentName1 e) = .terminated then []
    else
      asciiStores (ldirentName2 e) (i + 5) ++
        if asciiEnd (ldirentName2 e) = .terminated then [] else asciiStores (ldirentName3 e) (i + 11)

/-- Whatever `fat_readdir` stores for the entry goes into `d_name`. -/
def StoresInside (e : Sector) : Prop :=
  deleted e = false → longName e = true → ∀ i ∈ longStores e, 0 ≤ i ∧ i ≤ 255

instance : Decidable (StoresInside e) := inferInstanceAs (Decidable (_ → _))

def LongName.run (units : List Nat) (i : Nat) (n : LongName) : AsciiResult × LongName :=
  let (res, chars) := asciiRun units i n.chars
  (res, { csum := if res = .notAscii then none else n.csum, chars })

def LongName.start (e : Sector) (n : LongName) : LongName :=
  let checksum := (e 13).toNat
  let isLast := (e 0).toNat / lastLongEntry % 2 = 1
  let csum := if isLast then some checksum else n.csum
  { csum := if csum ≠ some checksum then none else csum
    chars := if isLast then fun _ => 0 else n.chars }

def longIndex (e : Sector) : Nat := ((e 0).toNat % 64 - 1) * 13

def LongName.read (e : Sector) (n : LongName) : LongName :=
  let i := longIndex e
  let (res, n) := (n.start e).run (ldirentName1 e) i
  if res = .terminated then n
  else
    let (res, n) := n.run (ldirentName2 e) (i + 5)
    if res = .terminated then n else (n.run (ldirentName3 e) (i + 11)).2

/-- `fat_open` takes this entry for `name`, with the long name before it. -/
def Matches (name : List UInt8) (e : Sector) (n : LongName) : Prop :=
  name = (shortEntry e n.csum n.chars).dName ∨ fatComparesfn name (shortEntry e n.csum n.chars).fatSname

instance : Decidable (Matches name e n) := inferInstanceAs (Decidable (_ ∨ _))

/-- What an entry does to the name so far when `name` is looked up; `none` when it is the one. -/
def scanEntry (name : List UInt8) (e : Sector) (n : LongName) : Option LongName :=
  if deleted e ∨ volumeId e then some n
  else if longName e then some (n.read e)
  else if Matches name e n then none
  else some {}

/-- The entry `name` finds, of those from index `i` on. -/
def lookup (name : List UInt8) : List Sector → (i : Nat) → LongName → Option Nat
  | [], _, _ => none
  | e :: es, i, n =>
    match scanEntry name e n with
    | none => some i
    | some n => lookup name es (i + 1) n

/-- Looking `name` up stores nothing outside `d_name`. -/
def ScanInside (name : List UInt8) : List Sector → LongName → Prop
  | [], _ => True
  | e :: es, n =>
    StoresInside e ∧
      match scanEntry name e n with
      | none => True
      | some n => ScanInside name es n

def LongName.after (name : List UInt8) : List Sector → LongName → LongName
  | [], n => n
  | e :: es, n => after name es ((scanEntry name e n).getD {})

/-- The entries `fat_readdir` returns. -/
structure Named (e : Sector) : Prop where
  live : deleted e = false
  file : volumeId e = false
  short : longName e = false

variable {name : List UInt8} {es es' : List Sector} {n : LongName} {e : Sector}

theorem scanEntry_named (he : Named e) :
    scanEntry name e n = if Matches name e n then none else some {} := by
  rw [scanEntry, if_neg (by simp [he.live, he.file]), if_neg (by simp [he.short])]

theorem scanEntry_long (hd : deleted e = false) (hv : volumeId e = false) (hl : longName e = true) :
    scanEntry name e n = some (n.read e) := by
  rw [scanEntry, if_neg (by simp [hd, hv]), if_pos hl]

theorem lookup_append (h : lookup name es i n = none) :
    lookup name (es ++ es') i n = lookup name es' (i + es.length) (n.after name es) := by
  induction es generalizing i n with
  | nil => rfl
  | cons e es ih =>
    rw [lookup] at h
    rw [List.cons_append, lookup, LongName.after, List.length_cons, Nat.add_comm es.length, ← Nat.add_assoc]
    cases hs : scanEntry name e n with
    | none =>
      rw [hs] at h
      exact absurd h (by simp)
    | some n' =>
      rw [hs] at h
      exact ih h

theorem lookup_append_some (es' : List Sector) (h : lookup name es i n = some j) :
    lookup name (es ++ es') i n = some j := by
  induction es generalizing i n with
  | nil => exact absurd h (by simp [lookup])
  | cons e es ih =>
    rw [lookup] at h
    rw [List.cons_append, lookup]
    cases hs : scanEntry name e n with
    | none => rwa [hs] at h
    | some n' =>
      rw [hs] at h
      exact ih h

theorem lookup_take (p : Nat) (h : lookup name es i n = none) : lookup name (es.take p) i n = none := by
  cases hl : lookup name (es.take p) i n with
  | none => rfl
  | some j =>
    have hj := lookup_append_some (es.drop p) hl
    rw [List.take_append_drop, h] at hj
    exact absurd hj (by simp)

theorem scanInside_of_none (h : lookup name es i n = none) :
    ScanInside name es n ↔ ∀ e ∈ es, StoresInside e := by
  induction es generalizing i n with
  | nil => exact iff_of_true trivial fun e he => absurd he List.not_mem_nil
  | cons e es ih =>
    rw [lookup] at h
    rw [ScanInside, List.forall_mem_cons]
    cases hs : scanEntry name e n with
    | none =>
      rw [hs] at h
      exact absurd h (by simp)
    | some n' =>
      rw [hs] at h
      exact and_congr_right' (ih h)

theorem scanInside_of_all (h : ∀ e ∈ es, StoresInside e) : ScanInside name es n := by
  induction es generalizing n with
  | nil => trivial
  | cons e es ih =>
    refine ⟨h e List.mem_cons_self, ?_⟩
    cases scanEntry name e n with
    | none => trivial
    | some n' => exact ih fun f hf => h f (List.mem_cons_of_mem e hf)

theorem lookup_none_ne {sname : List UInt8} (hself : fatComparesfn sname sname = true)
    (h : lookup sname es i n = none) (hmem : e ∈ es) (he : Named e) : bytesAt e 0 11 ≠ sname := by
  induction es generalizing i n with
  | nil => exact absurd hmem List.not_mem_nil
  | cons f es ih =>
    rw [lookup] at h
    rcases List.mem_cons.mp hmem with rfl | hmem
    · rintro hsame
      have hm : Matches sname e n := by
        refine .inr ?_
        rw [shortEntry, hsame]
        exact hself
      rw [scanEntry_named he, if_pos hm] at h
      exact absurd h (by simp)
    · cases hs : scanEntry sname f n with
      | none =>
        rw [hs] at h
        exact absurd h (by simp)
      | some n' =>
        rw [hs] at h
        exact ih h hmem

end Stm32Logger
