import Stm32Logger.Fat.Listing

/-!
# The entries of a new file

The long entries and the short one that `_fat_dir_create_file` writes, as a
reader of the directory meets them: the long name comes back whole, under the
checksum of the short one.
-/

namespace Stm32Logger

/-- A name as a C string at the start of `mem`, in ASCII, whose entries all fit `d_name`. -/
structure CName (name : List UInt8) (mem : Nat → UInt8) : Prop where
  chars : ∀ q < name.length, mem q = name.getD q 0
  stop : mem name.length = 0
  ascii : ∀ c ∈ name, c ≠ 0 ∧ c.toNat ≤ 127
  pos : 0 < name.length
  fits : name.length ≤ 246

def newLongs (mem : Nat → UInt8) (sname : List UInt8) : (i : Nat) → (last : Bool) → List Sector
  | 0, last => [structOf (longDirent mem sname 0 last)]
  | i + 1, last => structOf (longDirent mem sname (i + 1) last) :: newLongs mem sname i false

def newEntries (name : List UInt8) (mem : Nat → UInt8) (sname : List UInt8) (attr cluster : Nat) :
    List Sector :=
  newLongs mem sname (name.length / 13) true ++ [structOf (shortDirent sname attr cluster)]

variable {name sname : List UInt8} {mem : Nat → UInt8} {n : LongName} {chars : Sector}

theorem CName.mem_ascii (h : CName name mem) (hq : q < name.length) : mem q ≠ 0 ∧ (mem q).toNat ≤ 127 := by
  rw [h.chars q hq, List.getD_eq_getElem _ _ hq]
  exact h.ascii _ (List.getElem_mem hq)

theorem newLongs_length (mem : Nat → UInt8) (sname : List UInt8) (i : Nat) (last : Bool) :
    (newLongs mem sname i last).length = i + 1 := by
  induction i generalizing last with
  | zero => rfl
  | succ i ih => rw [newLongs, List.length_cons, ih]

theorem newEntries_length (name : List UInt8) (mem : Nat → UInt8) (sname : List UInt8) (attr cluster : Nat) :
    (newEntries name mem sname attr cluster).length = name.length / 13 + 2 := by
  rw [newEntries, List.length_append, newLongs_length, List.length_singleton]

-- ---------------------------------------------------------------------------
-- Runs of characters
-- ---------------------------------------------------------------------------

/-- `d_name` with the characters of `mem` from `a` to `b` in it. -/
def fill (mem : Nat → UInt8) (a b : Nat) (chars : Sector) : Sector := fun q =>
  if a ≤ q ∧ q < b then mem q else chars q

def units (mem : Nat → UInt8) (a k : Nat) : List Nat := (List.range k).map fun j => (mem (a + j)).toNat

theorem units_succ (mem : Nat → UInt8) (a k : Nat) :
    units mem a (k + 1) = (mem a).toNat :: units mem (a + 1) k := by
  simp only [units, List.range_succ_eq_map, List.map_cons, List.map_map, Nat.add_zero]
  congr 1
  refine List.map_congr_left fun j _ => ?_
  rw [Function.comp_apply, Nat.succ_eq_add_one, Nat.add_assoc, Nat.add_comm 1]

theorem fill_none (chars : Sector) : fill mem a a chars = chars := by
  funext q
  rw [fill, if_neg (by omega)]

theorem fill_fill (hab : a ≤ b) (hbc : b ≤ c) : fill mem b c (fill mem a b chars) = fill mem a c chars := by
  funext q
  simp only [fill]
  split
  next h => rw [if_pos (by omega)]
  next h =>
    split
    next h' => rw [if_pos (by omega)]
    next h' => rw [if_neg (by omega)]

theorem fill_before (hab : a ≤ b) (hbc : b ≤ c) : fill mem a b (fill mem b c chars) = fill mem a c chars := by
  funext q
  simp only [fill]
  split
  next h => rw [if_pos (by omega)]
  next h =>
    split
    next h' => rw [if_pos (by omega)]
    next h' => rw [if_neg (by omega)]

theorem put8_fill : put8 a (mem a).toNat chars = fill mem a (a + 1) chars := by
  funext q
  rw [put8, Function.update_apply, fill, UInt8.ofNat_toNat]
  by_cases h : q = a
  · rw [if_pos h, if_pos (by omega), h]
  · rw [if_neg h, if_neg (by omega)]

theorem asciiRun_chars (k : Nat) (h : ∀ q, a ≤ q → q < a + k → mem q ≠ 0 ∧ (mem q).toNat ≤ 127) :
    asciiRun (units mem a k) a chars = (.inputEnd, fill mem a (a + k) chars) := by
  induction k generalizing a chars with
  | zero => rw [Nat.add_zero, fill_none]; rfl
  | succ k ih =>
    obtain ⟨h0, h127⟩ := h a (Nat.le_refl a) (by omega)
    have hne : (mem a).toNat ≠ 0 := fun h => h0 (UInt8.toNat_inj.mp h)
    rw [units_succ, asciiRun, if_neg (by omega), if_neg hne, ih fun q hq hq' => h q (by omega) (by omega),
      put8_fill, fill_fill (Nat.le_succ a) (by omega), Nat.add_right_comm, Nat.add_assoc]

theorem asciiRun_end (k : Nat) (ha : a ≤ len) (hk : len < a + k) (h0 : mem len = 0)
    (h : ∀ q, a ≤ q → q < len → mem q ≠ 0 ∧ (mem q).toNat ≤ 127) :
    asciiRun (units mem a k) a chars = (.terminated, fill mem a (len + 1) chars) := by
  induction k generalizing a chars with
  | zero => omega
  | succ k ih =>
    rw [units_succ, asciiRun]
    by_cases hend : a = len
    · subst hend
      have hz : (mem a).toNat = 0 := by rw [h0]; rfl
      rw [if_neg (by omega), if_pos hz, put8_fill]
    · obtain ⟨hc, h127⟩ := h a (Nat.le_refl a) (by omega)
      have hne : (mem a).toNat ≠ 0 := fun h => hc (UInt8.toNat_inj.mp h)
      rw [if_neg (by omega), if_neg hne, ih (by omega) (by omega) fun q hq hq' => h q (by omega) hq',
        put8_fill, fill_fill (Nat.le_succ a) (by omega)]

theorem LongName.run_chars (k : Nat) (h : ∀ q, a ≤ q → q < a + k → mem q ≠ 0 ∧ (mem q).toNat ≤ 127) :
    n.run (units mem a k) a = (.inputEnd, { n with chars := fill mem a (a + k) n.chars }) := by
  simp only [LongName.run, asciiRun_chars k h, reduceCtorEq, if_false]

theorem LongName.run_end (k : Nat) (ha : a ≤ len) (hk : len < a + k) (h0 : mem len = 0)
    (h : ∀ q, a ≤ q → q < len → mem q ≠ 0 ∧ (mem q).toNat ≤ 127) :
    n.run (units mem a k) a = (.terminated, { n with chars := fill mem a (len + 1) n.chars }) := by
  simp only [LongName.run, asciiRun_end k ha hk h0 h, reduceCtorEq, if_false]

-- ---------------------------------------------------------------------------
-- The fields of a long entry
-- ---------------------------------------------------------------------------

theorem longDirent_ord (mem : Nat → UInt8) (sname : List UInt8) (hi : i < 63) (last : Bool) :
    (structOf (longDirent mem sname i last) 0).toNat = i + 1 + if last then lastLongEntry else 0 := by
  simp only [longDirent, structOf_bytesAt, put16, put8, List.range_succ, List.range_zero, lastLongEntry]
  cases last
  · simp
    omega
  · simp
    omega

theorem longDirent_used (hi : i < 63) (last : Bool) : structOf (longDirent mem sname i last) 0 ≠ 0 := by
  intro h
  have hord := longDirent_ord mem sname hi last
  rw [h] at hord
  change 0 = _ at hord
  omega

theorem longDirent_attr (mem : Nat → UInt8) (sname : List UInt8) (i : Nat) (last : Bool) :
    structOf (longDirent mem sname i last) 11 = 15 := by
  simp [longDirent, structOf_bytesAt, put16, put8, List.range_succ, attrLongName]

theorem fatDirentChksum_lt (e : Sector) : fatDirentChksum e < 256 := Nat.mod_lt _ (by decide)

theorem longDirent_chksum (i : Nat) (last : Bool) :
    (structOf (longDirent mem sname i last) 13).toNat = fatDirentChksum (structOf sname) := by
  have h := fatDirentChksum_lt (structOf sname)
  simp [longDirent, structOf_bytesAt, put16, put8, List.range_succ]
  omega

theorem longDirent_names (mem : Nat → UInt8) (sname : List UInt8) (i : Nat) (last : Bool) :
    ldirentName1 (structOf (longDirent mem sname i last)) = units mem (i * 13) 5 ∧
      ldirentName2 (structOf (longDirent mem sname i last)) = units mem (i * 13 + 5) 6 ∧
      ldirentName3 (structOf (longDirent mem sname i last)) = units mem (i * 13 + 11) 2 := by
  have h : ∀ b : UInt8, b.toNat / 256 = 0 := fun b => Nat.div_eq_of_lt b.toNat_lt
  refine ⟨?_, ?_, ?_⟩
  all_goals
    simp [ldirentName1, ldirentName2, ldirentName3, units, le16, longDirent, structOf_bytesAt, put16, put8,
      List.range_succ, h, Nat.add_assoc]

theorem longDirent_index (hi : i < 63) (last : Bool) :
    longIndex (structOf (longDirent mem sname i last)) = i * 13 := by
  rw [longIndex, longDirent_ord _ _ hi, lastLongEntry]
  cases last with
  | false =>
    rw [if_neg (by decide)]
    omega
  | true =>
    rw [if_pos rfl]
    omega

theorem longDirent_scan (name : List UInt8) (hi : i < 63) (last : Bool) :
    scanEntry name (structOf (longDirent mem sname i last)) n =
      some (n.read (structOf (longDirent mem sname i last))) := by
  have hord := longDirent_ord mem sname hi last
  have hattr := longDirent_attr mem sname i last
  refine scanEntry_long (decide_eq_false fun h => ?_) ?_ ?_
  · rw [h, lastLongEntry] at hord
    split at hord
    · exact absurd hord (by change ¬ (229 = _); omega)
    · exact absurd hord (by change ¬ (229 = _); omega)
  · rw [volumeId, hattr]
    rfl
  · rw [longName, hattr]
    rfl

-- ---------------------------------------------------------------------------
-- The name put together
-- ---------------------------------------------------------------------------

theorem read_last (n : LongName) (hc : CName name mem) (hi : i < 63) (hl : i * 13 ≤ name.length)
    (hl' : name.length < i * 13 + 13) :
    n.read (structOf (longDirent mem sname i true)) =
      { csum := some (fatDirentChksum (structOf sname))
        chars := fill mem (i * 13) (name.length + 1) fun _ => 0 } := by
  obtain ⟨h1, h2, h3⟩ := longDirent_names mem sname i true
  have hstart : n.start (structOf (longDirent mem sname i true)) =
      { csum := some (fatDirentChksum (structOf sname)) } := by
    have hord := longDirent_ord mem sname hi true
    rw [if_pos rfl, lastLongEntry] at hord
    have hlast : (i + 1 + 64) / 64 % 2 = 1 := by omega
    simp only [LongName.start, lastLongEntry, hord, hlast, if_true, longDirent_chksum, ne_eq,
      not_true_eq_false, if_false]
  have hascii : ∀ q, q < name.length → mem q ≠ 0 ∧ (mem q).toNat ≤ 127 := fun q => hc.mem_ascii
  rw [LongName.read, longDirent_index hi, h1, h2, h3, hstart]
  by_cases hend1 : name.length < i * 13 + 5
  · rw [LongName.run_end 5 hl hend1 hc.stop fun q _ => hascii q]
    rfl
  · rw [LongName.run_chars 5 fun q _ hq => hascii q (by omega)]
    simp only [reduceCtorEq, if_false]
    by_cases hend2 : name.length < i * 13 + 11
    · rw [LongName.run_end 6 (by omega) (by omega) hc.stop fun q _ => hascii q]
      simp only [if_true,
        fill_fill (show i * 13 ≤ i * 13 + 5 by omega) (show i * 13 + 5 ≤ name.length + 1 by omega)]
    · rw [LongName.run_chars 6 fun q _ hq => hascii q (by omega)]
      simp only [reduceCtorEq, if_false]
      rw [LongName.run_end 2 (by omega) (by omega) hc.stop fun q _ => hascii q]
      simp only [fill_fill (show i * 13 ≤ i * 13 + 5 by omega) (show i * 13 + 5 ≤ i * 13 + 5 + 6 by omega),
        fill_fill (show i * 13 ≤ i * 13 + 5 + 6 by omega) (show i * 13 + 5 + 6 ≤ name.length + 1 by omega)]

theorem read_next (hc : CName name mem) (hi : i < 63) (hl : i * 13 + 13 ≤ name.length)
    (hn : n.csum = some (fatDirentChksum (structOf sname))) :
    n.read (structOf (longDirent mem sname i false)) =
      { n with chars := fill mem (i * 13) (i * 13 + 13) n.chars } := by
  obtain ⟨h1, h2, h3⟩ := longDirent_names mem sname i false
  have hstart : n.start (structOf (longDirent mem sname i false)) = n := by
    have hord := longDirent_ord mem sname hi false
    rw [if_neg (by decide)] at hord
    have hlast : ¬ (i + 1 + 0) / 64 % 2 = 1 := by omega
    simp only [LongName.start, lastLongEntry, hord, hlast, if_false, longDirent_chksum, hn, ne_eq,
      not_true_eq_false]
    rw [← hn]
  have hascii : ∀ q, q < name.length → mem q ≠ 0 ∧ (mem q).toNat ≤ 127 := fun q => hc.mem_ascii
  rw [LongName.read, longDirent_index hi, h1, h2, h3, hstart,
    LongName.run_chars 5 fun q _ hq => hascii q (by omega)]
  simp only [reduceCtorEq, if_false]
  rw [LongName.run_chars 6 fun q _ hq => hascii q (by omega)]
  simp only [reduceCtorEq, if_false]
  rw [LongName.run_chars 2 fun q _ hq => hascii q (by omega)]
  simp only [fill_fill (show i * 13 ≤ i * 13 + 5 by omega) (show i * 13 + 5 ≤ i * 13 + 5 + 6 by omega),
    fill_fill (show i * 13 ≤ i * 13 + 5 + 6 by omega) (show i * 13 + 5 + 6 ≤ i * 13 + 13 by omega)]

theorem lookup_longs {sought : List UInt8} (es : List Sector) (i k : Nat) (last : Bool) (n : LongName)
    (hc : CName name mem) (hi : i < 63)
    (hn : if last then i * 13 ≤ name.length ∧ name.length < i * 13 + 13
      else i * 13 + 13 ≤ name.length ∧ n.csum = some (fatDirentChksum (structOf sname)) ∧
        n.chars = fill mem (i * 13 + 13) (name.length + 1) fun _ => 0) :
    lookup sought (newLongs mem sname i last ++ es) k n =
      lookup sought es (k + i + 1)
        { csum := some (fatDirentChksum (structOf sname))
          chars := fill mem 0 (name.length + 1) fun _ => 0 } := by
  induction i generalizing k last n with
  | zero =>
    rw [newLongs, List.cons_append, List.nil_append, lookup, longDirent_scan sought hi]
    cases last with
    | true =>
      have hl := hn.2
      rw [read_last n hc hi (by omega) (by omega)]
    | false =>
      obtain ⟨hl, hcs, hch⟩ := hn
      rw [read_next hc hi hl hcs, hch, fill_before (by omega) (by omega), hcs]
  | succ i ih =>
    rw [newLongs, List.cons_append, lookup, longDirent_scan sought hi]
    have hk : k + (i + 1) + 1 = k + 1 + i + 1 := by omega
    dsimp only
    rw [hk]
    cases last with
    | true =>
      obtain ⟨hl, hl'⟩ := hn
      rw [read_last n hc hi hl hl']
      refine ih (k + 1) false _ (by omega) ⟨by omega, rfl, ?_⟩
      rw [show (i + 1) * 13 = i * 13 + 13 by omega]
    | false =>
      obtain ⟨hl, hcs, hch⟩ := hn
      rw [read_next hc hi hl hcs]
      refine ih (k + 1) false _ (by omega) ⟨by omega, hcs, ?_⟩
      show fill mem _ _ n.chars = _
      rw [hch, fill_before (by omega) (by omega), show (i + 1) * 13 = i * 13 + 13 by omega]

theorem cString_fill (hc : CName name mem) :
    cString (bytesAt (fill mem 0 (name.length + 1) fun _ => 0) 0 256) = name := by
  have hfits := hc.fits
  have hsplit : bytesAt (fill mem 0 (name.length + 1) fun _ => 0) 0 256 =
      name ++ List.replicate (256 - name.length) 0 := by
    refine List.ext_getElem (by rw [bytesAt_length]; simp; omega) fun q hq _ => ?_
    rw [bytesAt_length] at hq
    simp only [bytesAt, List.getElem_map, List.getElem_range, Nat.zero_add, fill, Nat.zero_le, true_and]
    rcases Nat.lt_or_ge q name.length with hlt | hge
    · rw [if_pos (by omega), hc.chars q hlt, List.getElem_append_left hlt, List.getD_eq_getElem _ _ hlt]
    · rw [List.getElem_append_right hge, List.getElem_replicate]
      split
      next h =>
        obtain rfl : q = name.length := by omega
        exact hc.stop
      next => rfl
  have hrep : List.replicate (256 - name.length) (0 : UInt8) = 0 :: List.replicate (255 - name.length) 0 := by
    rw [show 256 - name.length = 255 - name.length + 1 by omega, List.replicate_succ]
  rw [cString, hsplit, hrep, List.takeWhile_append_of_pos fun c hcm => decide_eq_true (hc.ascii c hcm).1]
  simp

-- ---------------------------------------------------------------------------
-- The short entry
-- ---------------------------------------------------------------------------

/-- What `build_short_name` makes for a file: eleven characters that no reader
takes for a mark, and that compare equal to themselves. -/
structure ShortName (sname : List UInt8) : Prop where
  length : sname.length = 11
  first : sname.getD 0 0 ≠ 0 ∧ sname.getD 0 0 ≠ 0xE5
  self : fatComparesfn sname sname = true

theorem shortDirent_apply (attr cluster : Nat) (j : Nat) (hj : j < 32) :
    structOf (shortDirent sname attr cluster) j =
      put16 26 (cluster % 65536) (put16 20 (cluster / 65536) (put8 11 attr (memcpy 0 sname fun _ => 0))) j := by
  rw [shortDirent, structOf_bytesAt, if_pos hj]

theorem shortDirent_name (hs : ShortName sname) (attr cluster : Nat) (j : Nat) (hj : j < 11) :
    structOf (shortDirent sname attr cluster) j = sname.getD j 0 := by
  have hlen := hs.length
  rw [shortDirent_apply _ _ _ (by omega), put16_of_ne (by omega) (by omega), put16_of_ne (by omega) (by omega),
    put8_of_ne (by omega), memcpy_apply, if_pos (by omega), Nat.sub_zero]

theorem shortDirent_attr (sname : List UInt8) (attr cluster : Nat) :
    structOf (shortDirent sname attr cluster) 11 = UInt8.ofNat attr := by
  rw [shortDirent_apply _ _ _ (by omega), put16_of_ne (by omega) (by omega), put16_of_ne (by omega) (by omega),
    put8_self]

theorem fatDirentChksum_congr {e e' : Sector} (h : ∀ j < 11, e j = e' j) :
    fatDirentChksum e = fatDirentChksum e' := by
  refine List.foldl_ext _ _ _ fun sum j hj => ?_
  rw [h j (List.mem_range.mp hj)]

theorem shortDirent_named (attr : Nat) (hs : ShortName sname) (hv : UInt8.ofNat attr ≠ 8)
    (hl : UInt8.ofNat attr ≠ 15) (cluster : Nat) : Named (structOf (shortDirent sname attr cluster)) := by
  have hattr := shortDirent_attr sname attr cluster
  refine ⟨decide_eq_false ?_, decide_eq_false ?_, decide_eq_false ?_⟩
  · rw [shortDirent_name hs attr cluster 0 (by decide)]
    exact hs.first.2
  · rw [hattr]
    exact fun h => hv (UInt8.toNat_inj.mp h)
  · rw [hattr]
    exact fun h => hl (UInt8.toNat_inj.mp h)

theorem lookup_newEntries (es : List Sector) (k : Nat) (n : LongName) (hc : CName name mem)
    (hs : ShortName sname) (hv : UInt8.ofNat attr ≠ 8) (hl : UInt8.ofNat attr ≠ 15) (cluster : Nat) :
    lookup name (newEntries name mem sname attr cluster ++ es) k n = some (k + name.length / 13 + 1) := by
  have hfits := hc.fits
  have hpos := hc.pos
  rw [newEntries, List.append_assoc, lookup_longs _ _ _ true n hc (by omega) ⟨by omega, by omega⟩,
    List.cons_append, List.nil_append, lookup, scanEntry_named (shortDirent_named attr hs hv hl cluster)]
  have hcs : fatDirentChksum (structOf (shortDirent sname attr cluster)) = fatDirentChksum (structOf sname) :=
    fatDirentChksum_congr fun j hj => shortDirent_name hs attr cluster j hj
  have hne : name ≠ [] := List.ne_nil_of_length_pos hpos
  have hm : Matches name (structOf (shortDirent sname attr cluster))
      { csum := some (fatDirentChksum (structOf sname)), chars := fill mem 0 (name.length + 1) fun _ => 0 }
        := by
    refine .inl ?_
    simp only [shortEntry, hcs, cString_fill hc, ne_eq, not_true_eq_false, hne, or_self, if_false]
  rw [if_pos hm]

end Stm32Logger
