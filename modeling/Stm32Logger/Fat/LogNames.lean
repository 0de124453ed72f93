import Mathlib.Data.List.TakeWhile
import Stm32Logger.Fat.NewEntries

/-!
# The names of logs

What `sprintf` makes of a counter, and the short names `build_short_name` tries
for it. A file's number of one digit leaves the name as it is; a directory's
name has no dot, so that its short names are always numbered.
-/

namespace Stm32Logger

variable {name : List UInt8}

theorem fmtD_digits (id : UInt8) : ∃ ds : List Nat, ds ≠ [] ∧ ds.length ≤ 3 ∧ (∀ d ∈ ds, d < 10) ∧
    fmtD 0 (id.toNat : Nat) = ds.map digitChar := by
  have hlt := id.toNat_lt
  refine ⟨digitList 10 id.toNat, ?_, digitList_length_le (by decide) (by decide) (by omega),
    digitList_lt (by decide), ?_⟩
  · unfold digitList
    split
    · simp
    · next h =>
      rw [ne_eq, List.reverse_eq_nil_iff]
      exact Nat.digits_ne_nil_iff_ne_zero.mpr h
  · rw [fmtD, if_neg (by omega), zeroPad, Nat.zero_sub, List.replicate_zero, List.nil_append,
      Int.natAbs_natCast]

theorem fileNameOf_eq (id : UInt8) : ∃ ds : List Nat, ds ≠ [] ∧ ds.length ≤ 3 ∧ (∀ d ∈ ds, d < 10) ∧
    fileNameOf id = ascii "Logfile" ++ ds.map digitChar ++ ascii ".csv" := by
  obtain ⟨ds, hne, hlen, hds, heq⟩ := fmtD_digits id
  exact ⟨ds, hne, hlen, hds, by rw [fileNameOf, heq]⟩

theorem dirNameOf_eq (id : UInt8) : ∃ ds : List Nat, ds ≠ [] ∧ ds.length ≤ 3 ∧ (∀ d ∈ ds, d < 10) ∧
    dirNameOf id = ascii "Logger" ++ ds.map digitChar := by
  obtain ⟨ds, hne, hlen, hds, heq⟩ := fmtD_digits id
  exact ⟨ds, hne, hlen, hds, by rw [dirNameOf, heq]⟩

theorem fileNameOf_length (id : UInt8) : 12 ≤ (fileNameOf id).length ∧ (fileNameOf id).length ≤ 14 := by
  obtain ⟨ds, hne, hlen, -, heq⟩ := fileNameOf_eq id
  have hpos := List.length_pos_of_ne_nil hne
  have hlength : (fileNameOf id).length = ds.length + 11 := by
    rw [heq]
    simp [ascii]
  omega

theorem fileNameOf_full (id : UInt8) : (fileNameOf id).length % 13 = 12 ↔ id < 10 := by
  obtain ⟨ds, hne, hlen, -, heq⟩ := fmtD_digits id
  have hpos := List.length_pos_of_ne_nil hne
  have hlength : (fileNameOf id).length = ds.length + 11 := by
    rw [fileNameOf, heq]
    simp [ascii]
  have hds : ds.length = (digitList 10 id.toNat).length := by
    have hfmt := congrArg List.length heq
    rw [fmtD, if_neg (by omega), zeroPad, Nat.zero_sub, List.replicate_zero, List.nil_append,
      Int.natAbs_natCast,
      List.length_map, List.length_map] at hfmt
    exact hfmt.symm
  rw [UInt8.lt_iff_toNat_lt]
  refine ⟨fun h => ?_, fun h => ?_⟩
  · have h1 : (digitList 10 id.toNat).length = 1 := by omega
    unfold digitList at h1
    split at h1
    next h0 => rw [h0]; decide
    next =>
      rw [List.length_reverse] at h1
      have := Nat.lt_base_pow_length_digits (show 1 < 10 by decide) (m := id.toNat)
      rwa [h1] at this
  · have := digitList_length_le (by decide) Nat.one_pos (show id.toNat < 10 ^ 1 from h)
    omega

theorem dirNameOf_length (id : UInt8) : 7 ≤ (dirNameOf id).length ∧ (dirNameOf id).length ≤ 9 := by
  obtain ⟨ds, hne, hlen, -, heq⟩ := dirNameOf_eq id
  have hpos := List.length_pos_of_ne_nil hne
  have hlength : (dirNameOf id).length = ds.length + 6 := by
    rw [heq]
    simp [ascii]
  omega

theorem dirNameOf_ne_dot (id : UInt8) : dirNameOf id ≠ [46] := fun h => by
  have hlen := dirNameOf_length id
  rw [h] at hlen
  exact absurd hlen.1 (by decide)

theorem fileNameOf_ne_dot (id : UInt8) : fileNameOf id ≠ [46] := fun h => by
  have hlen := fileNameOf_length id
  rw [h] at hlen
  exact absurd hlen.1 (by decide)

theorem digitChar_ascii (h : d < 10) : digitChar d ≠ 0 ∧ digitChar d ≠ 46 ∧ (digitChar d).toNat ≤ 127 := by
  revert h d
  decide

theorem buildShortName_one (n : Nat) (ha : a ≠ 46) : buildShortName (ascii "Logfile" ++ [a] ++ ascii ".csv") n =
    [76, 79, 71, 70, 73, 76, 69, toupper a, 67, 83, 86] := by
  simp [buildShortName, ascii, List.takeWhile, ha]
  decide

theorem buildShortName_more (n : Nat) (bs : List UInt8) (ha : a ≠ 46) (hbs : ∀ b ∈ bs, b ≠ 46) (hne : bs ≠ []) :
    buildShortName (ascii "Logfile" ++ (a :: bs) ++ ascii ".csv") n =
      [76, 79, 71, 70, 73, 76, 126, UInt8.ofNat (48 + n % 10), 67, 83, 86] := by
  obtain ⟨b, bs, rfl⟩ := List.exists_cons_of_ne_nil hne
  have hb := hbs b List.mem_cons_self
  simp [buildShortName, ascii, List.takeWhile, ha, hb]
  decide

theorem shortName_file (id : UInt8) (n : Nat) : ShortName (buildShortName (fileNameOf id) n) := by
  obtain ⟨ds, hne, -, hds, heq⟩ := fileNameOf_eq id
  obtain ⟨d, ds, rfl⟩ := List.exists_cons_of_ne_nil hne
  have hd := hds d List.mem_cons_self
  rw [heq, List.map_cons]
  by_cases hone : ds = []
  · subst hone
    rw [List.map_nil, buildShortName_one n (digitChar_ascii hd).2.1]
    interval_cases d <;> exact ⟨rfl, by decide, by decide⟩
  · have hmore : ∀ b ∈ ds.map digitChar, b ≠ 46 := by
      intro b hb
      obtain ⟨c, hc, rfl⟩ := List.mem_map.mp hb
      exact (digitChar_ascii (hds c (List.mem_cons_of_mem d hc))).2.1
    rw [buildShortName_more n _ (digitChar_ascii hd).2.1 hmore (by simpa using hone)]
    have hlt := Nat.mod_lt n (show 10 > 0 by decide)
    generalize n % 10 = m at hlt
    interval_cases m <;> exact ⟨rfl, by decide, by decide⟩

theorem buildShortName_dir (n : Nat) (bs : List UInt8) (hbs : ∀ b ∈ bs, b ≠ 46) (hne : bs ≠ []) :
    buildShortName (ascii "Logger" ++ bs) n =
      [76, 79, 71, 71, 69, 82, 126, UInt8.ofNat (48 + n % 10), 32, 32, 32] := by
  have hlit : ∀ c ∈ ascii "Logger", c ≠ 46 := by decide +kernel
  have htake : (ascii "Logger" ++ bs).takeWhile (· ≠ 46) = ascii "Logger" ++ bs :=
    List.takeWhile_eq_self_iff.mpr fun c hc => by
      rcases List.mem_append.mp hc with hc | hc
      · exact decide_eq_true (hlit c hc)
      · exact decide_eq_true (hbs c hc)
  have hdot : (ascii "Logger" ++ bs).contains 46 = false := by
    rw [List.contains_eq_mem]
    exact decide_eq_false fun hc => (List.mem_append.mp hc).elim (fun hc => hlit 46 hc rfl) fun hc =>
      hbs 46 hc rfl
  obtain ⟨b, bs, rfl⟩ := List.exists_cons_of_ne_nil hne
  simp only [buildShortName, htake, hdot]
  cases bs with
  | nil => simp [ascii]; decide
  | cons b' bs => simp [ascii]; decide

theorem shortName_dir (id : UInt8) (n : Nat) : ShortName (buildShortName (dirNameOf id) n) := by
  obtain ⟨ds, hne, -, hds, heq⟩ := dirNameOf_eq id
  have hmore : ∀ b ∈ ds.map digitChar, b ≠ 46 := by
    intro b hb
    obtain ⟨c, hc, rfl⟩ := List.mem_map.mp hb
    exact (digitChar_ascii (hds c hc)).2.1
  rw [heq, buildShortName_dir n _ hmore (by simpa using hne)]
  have hlt := Nat.mod_lt n (show 10 > 0 by decide)
  generalize n % 10 = m at hlt
  interval_cases m <;> exact ⟨rfl, by decide, by decide⟩

theorem CName.sprintf (mem : Nat → UInt8) (hascii : ∀ c ∈ name, c ≠ 0 ∧ c.toNat ≤ 127) (hpos : 0 < name.length)
    (hfits : name.length ≤ 246) : CName name (sprintfInto name mem) := by
  refine ⟨fun q hq => ?_, ?_, hascii, hpos, hfits⟩
  · rw [sprintfInto, memcpy_apply, if_pos ⟨Nat.zero_le q, by simp; omega⟩, Nat.sub_zero,
      List.getD_append _ _ _ _ hq]
  · rw [sprintfInto, memcpy_apply, if_pos ⟨Nat.zero_le _, by simp⟩, Nat.sub_zero,
      List.getD_append_right _ _ _ _ (Nat.le_refl _), Nat.sub_self]
    rfl

theorem cName_file (id : UInt8) (mem : Nat → UInt8) :
    CName (fileNameOf id) (sprintfInto (fileNameOf id) mem) := by
  have hlen := fileNameOf_length id
  refine .sprintf mem (fun c hc => ?_) (by omega) (by omega)
  obtain ⟨ds, -, -, hds, heq⟩ := fileNameOf_eq id
  have hlit : ∀ c ∈ ascii "Logfile" ++ ascii ".csv", c ≠ 0 ∧ c.toNat ≤ 127 := by decide +kernel
  rw [heq, List.mem_append, List.mem_append, List.mem_map] at hc
  rcases hc with (hc | ⟨d, hd, rfl⟩) | hc
  · exact hlit c (List.mem_append_left _ hc)
  · exact ⟨(digitChar_ascii (hds d hd)).1, (digitChar_ascii (hds d hd)).2.2⟩
  · exact hlit c (List.mem_append_right _ hc)

theorem cName_dir (id : UInt8) (mem : Nat → UInt8) : CName (dirNameOf id) (sprintfInto (dirNameOf id) mem) := by
  have hlen := dirNameOf_length id
  refine .sprintf mem (fun c hc => ?_) (by omega) (by omega)
  obtain ⟨ds, -, -, hds, heq⟩ := dirNameOf_eq id
  have hlit : ∀ c ∈ ascii "Logger", c ≠ 0 ∧ c.toNat ≤ 127 := by decide +kernel
  rw [heq, List.mem_append, List.mem_map] at hc
  rcases hc with hc | ⟨d, hd, rfl⟩
  · exact hlit c hc
  · exact ⟨(digitChar_ascii (hds d hd)).1, (digitChar_ascii (hds d hd)).2.2⟩

end Stm32Logger
