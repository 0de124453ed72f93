import Stm32Logger.Fat.Listing

/-!
# Long entries read

`longEntry` stores the characters of a long entry one by one. Inside `d_name`
it does what `LongName.read` says, and the first store outside ends it.
-/

namespace Stm32Logger

/-- A long entry that leads no reader out of `d_name`: its ordinal is not 0, and
where the 256 characters end it has no more of them. So it is for the ordinals
1 to 20 of names of at most 255 characters. -/
structure LongOk (e : Sector) : Prop where
  ordinal : 0 < (e 0).toNat % 64
  units : ∀ j < 13, 256 ≤ longIndex e + j →
    127 < (ldirentName1 e ++ ldirentName2 e ++ ldirentName3 e).getD j 0

variable {s : FatState} {e : Sector} {n : LongName}

theorem mem_asciiStores {units : List Nat} (h : j ∈ asciiStores units i) :
    ∃ q < units.length, j = i + q ∧ units.getD q 0 ≤ 127 := by
  induction units generalizing i with
  | nil => exact absurd h List.not_mem_nil
  | cons tmp units ih =>
    rw [asciiStores] at h
    split at h
    · exact absurd h List.not_mem_nil
    next htmp =>
      have here : ∃ q < (tmp :: units).length, i = i + q ∧ (tmp :: units).getD q 0 ≤ 127 :=
        ⟨0, Nat.succ_pos _, (Int.add_zero i).symm, Nat.le_of_not_lt htmp⟩
      split at h
      · rw [List.mem_singleton.mp h]
        exact here
      · rcases List.mem_cons.mp h with rfl | h
        · exact here
        · obtain ⟨q, hq, rfl, hle⟩ := ih h
          exact ⟨q + 1, Nat.succ_lt_succ hq, by omega, by simpa using hle⟩

theorem LongOk.inside (h : LongOk e) : StoresInside e := by
  intro _ _ i hi
  have h1 : (ldirentName1 e).length = 5 := by simp [ldirentName1]
  have h2 : (ldirentName2 e).length = 6 := by simp [ldirentName2]
  have hord := h.ordinal
  have hidx : (((e 0).toNat % 64 : Nat) - 1 : Int) * 13 = ((longIndex e : Nat) : Int) := by
    rw [longIndex]
    omega
  -- every store is one of the thirteen units
  have hunit : ∃ j < 13, i = ((longIndex e + j : Nat) : Int) ∧
      (ldirentName1 e ++ ldirentName2 e ++ ldirentName3 e).getD j 0 ≤ 127 := by
    have hname : ∀ (units pre post : List Nat) (k : Int), i ∈ asciiStores units k →
        k = ((longIndex e + pre.length : Nat) : Int) → (pre ++ units ++ post).length = 13 →
        ∃ j < 13, i = ((longIndex e + j : Nat) : Int) ∧ (pre ++ units ++ post).getD j 0 ≤ 127 := by
      intro units pre post k hm hk hlen
      obtain ⟨q, hq, hiq, hle⟩ := mem_asciiStores hm
      rw [List.length_append, List.length_append] at hlen
      refine ⟨pre.length + q, by omega, by omega, ?_⟩
      rwa [List.append_assoc, List.getD_append_right _ _ _ _ (Nat.le_add_right _ _), Nat.add_sub_cancel_left,
        List.getD_append _ _ _ _ hq]
    have hall : (ldirentName1 e ++ ldirentName2 e ++ ldirentName3 e).length = 13 := by
      simp [ldirentName1, ldirentName2, ldirentName3]
    simp only [longStores, hidx] at hi
    rcases List.mem_append.mp hi with hi | hi
    · have := hname (ldirentName1 e) [] (ldirentName2 e ++ ldirentName3 e) _ hi (by simp)
        (by rw [List.nil_append, ← List.append_assoc, hall])
      rwa [List.nil_append, ← List.append_assoc] at this
    · split at hi
      · exact absurd hi List.not_mem_nil
      · rcases List.mem_append.mp hi with hi | hi
        · exact hname (ldirentName2 e) (ldirentName1 e) (ldirentName3 e) _ hi (by rw [h1]; omega) hall
        · split at hi
          · exact absurd hi List.not_mem_nil
          · have := hname (ldirentName3 e) (ldirentName1 e ++ ldirentName2 e) [] _ hi
              (by rw [List.length_append, h1, h2]; omega) (by rw [List.append_nil, hall])
            rwa [List.append_nil] at this
  obtain ⟨j, hj, rfl, hle⟩ := hunit
  have := h.units j hj
  omega

theorem asciiRun_fst (units : List Nat) (i : Nat) (chars : Sector) :
    (asciiRun units i chars).1 = asciiEnd units := by
  induction units generalizing i chars with
  | nil => rfl
  | cons tmp units ih =>
    rw [asciiRun, asciiEnd]
    split
    · rfl
    · split
      · rfl
      · exact ih ..

theorem asciiFromUtf16_run {units : List Nat} (chars : Sector) (i : Int) (k : Nat)
    (h : ∀ j ∈ asciiStores units i, 0 ≤ j ∧ j ≤ 255) (hk : 0 ≤ i → (k : Int) = i) :
    asciiFromUtf16 units i chars s = .ok (asciiRun units k chars) s := by
  induction units generalizing i k chars with
  | nil => rfl
  | cons tmp units ih =>
    rw [asciiFromUtf16, asciiRun]
    by_cases htmp : tmp > 127
    · rw [if_pos htmp, if_pos htmp]
      rfl
    · rw [asciiStores, if_neg htmp] at h
      by_cases h0 : tmp = 0
      · rw [if_pos h0] at h
        obtain ⟨hlo, hhi⟩ := h i (List.mem_singleton_self i)
        have hik := hk hlo
        rw [if_neg htmp, if_neg htmp, if_neg (by omega), if_pos h0, ← hik, Int.toNat_natCast]
        simp only [h0, if_true]
        rfl
      · rw [if_neg h0] at h
        obtain ⟨hlo, hhi⟩ := h i List.mem_cons_self
        have hik := hk hlo
        rw [if_neg htmp, if_neg htmp, if_neg (by omega), if_neg h0, ← hik, Int.toNat_natCast]
        simp only [h0, if_false]
        exact ih _ _ (k + 1) (fun j hj => h j (List.mem_cons_of_mem i (hik ▸ hj))) fun _ => by omega

theorem asciiFromUtf16_overrun {units : List Nat} (chars : Sector) (i : Int)
    (h : ¬ ∀ j ∈ asciiStores units i, 0 ≤ j ∧ j ≤ 255) :
    asciiFromUtf16 units i chars s = .error .outOfBounds s := by
  induction units generalizing i chars with
  | nil => exact absurd (fun j hj => absurd hj List.not_mem_nil) h
  | cons tmp units ih =>
    rw [asciiFromUtf16]
    rw [asciiStores] at h
    by_cases htmp : tmp > 127
    · rw [if_pos htmp] at h
      exact absurd (fun j hj => absurd hj List.not_mem_nil) h
    · rw [if_neg htmp] at h ⊢
      by_cases hi : i < 0 ∨ 255 < i
      · rw [if_pos hi]
        rfl
      · rw [if_neg hi]
        by_cases h0 : tmp = 0
        · rw [if_pos h0] at h
          refine absurd (fun j hj => ?_) h
          rw [List.mem_singleton.mp hj]
          omega
        · rw [if_neg h0] at h
          simp only [h0, if_false]
          refine ih _ _ fun hall => h fun j hj => ?_
          rcases List.mem_cons.mp hj with rfl | hj
          · omega
          · exact hall j hj

/-- The head of a long entry: what `longEntry` begins its three runs with. -/
theorem longEntry_eq (e : Sector) (n : LongName) :
    longEntry e n.csum n.chars = (do
      let i : Int := (((e 0).toNat % 64 : Nat) - 1) * 13
      let (res, chars) ← asciiFromUtf16 (ldirentName1 e) i (n.start e).chars
      if res = .terminated then pure ((n.start e).csum, chars)
      else
        let csum := if res = .notAscii then none else (n.start e).csum
        let (res, chars) ← asciiFromUtf16 (ldirentName2 e) (i + 5) chars
        if res = .terminated then pure (csum, chars)
        else
          let csum := if res = .notAscii then none else csum
          let (res, chars) ← asciiFromUtf16 (ldirentName3 e) (i + 11) chars
          pure (if res = .notAscii then none else csum, chars)) := rfl

theorem longEntry_run (h : ∀ i ∈ longStores e, 0 ≤ i ∧ i ≤ 255) (n : LongName) :
    longEntry e n.csum n.chars s = .ok ((n.read e).csum, (n.read e).chars) s := by
  have hidx : 0 ≤ (((e 0).toNat % 64 : Nat) - 1 : Int) * 13 →
      ((longIndex e : Nat) : Int) = (((e 0).toNat % 64 : Nat) - 1) * 13 := by
    intro h0
    rw [longIndex]
    omega
  have hlate : ∀ k ≤ 11, 0 ≤ (((e 0).toNat % 64 : Nat) - 1 : Int) * 13 + (k : Nat) →
      ((longIndex e + k : Nat) : Int) = (((e 0).toNat % 64 : Nat) - 1) * 13 + k := by
    intro k hk h0
    rw [longIndex]
    omega
  simp only [longStores] at h
  have r1 := fun chars => asciiFromUtf16_run (s := s) chars _ (longIndex e)
    (fun j hj => h j (List.mem_append_left _ hj)) hidx
  rw [longEntry_eq]
  simp only [LongName.read, LongName.run]
  rw [bind_ok (r1 _)]
  simp only [asciiRun_fst]
  by_cases ht1 : asciiEnd (ldirentName1 e) = .terminated
  · simp only [ht1, if_true, reduceCtorEq, if_false]
    rfl
  · simp only [ht1, if_false] at h ⊢
    have h' : ∀ j ∈ asciiStores (ldirentName2 e) ((((e 0).toNat % 64 : Nat) - 1) * 13 + 5), 0 ≤ j ∧ j ≤ 255 :=
      fun j hj => h j (List.mem_append_right _ (List.mem_append_left _ hj))
    have r2 := fun chars => asciiFromUtf16_run (s := s) chars _ (longIndex e + 5) h' (hlate 5 (by decide))
    rw [bind_ok (r2 _)]
    simp only [asciiRun_fst]
    by_cases ht2 : asciiEnd (ldirentName2 e) = .terminated
    · simp only [ht2, if_true, reduceCtorEq, if_false]
      rfl
    · simp only [ht2, if_false] at h ⊢
      have h'' : ∀ j ∈ asciiStores (ldirentName3 e) ((((e 0).toNat % 64 : Nat) - 1) * 13 + 11),
          0 ≤ j ∧ j ≤ 255 :=
        fun j hj => h j (List.mem_append_right _ (List.mem_append_right _ hj))
      have r3 := fun chars => asciiFromUtf16_run (s := s) chars _ (longIndex e + 11) h'' (hlate 11 (by decide))
      rw [bind_ok (r3 _)]
      simp only [asciiRun_fst]
      rfl

theorem longEntry_overrun (h : ¬ ∀ i ∈ longStores e, 0 ≤ i ∧ i ≤ 255) (n : LongName) :
    longEntry e n.csum n.chars s = .error .outOfBounds s := by
  have hsplit : ∀ {l l' : List Int}, (∀ i ∈ l, 0 ≤ i ∧ i ≤ 255) → (¬ ∀ i ∈ l ++ l', 0 ≤ i ∧ i ≤ 255) →
      ¬ ∀ i ∈ l', 0 ≤ i ∧ i ≤ 255 := fun hl h hl' => h fun i hi => (List.mem_append.mp hi).elim (hl i) (hl' i)
  simp only [longStores] at h
  rw [longEntry_eq]
  by_cases h1 : ∀ i ∈ asciiStores (ldirentName1 e) ((((e 0).toNat % 64 : Nat) - 1) * 13), 0 ≤ i ∧ i ≤ 255
  · have h := hsplit h1 h
    have r1 := asciiFromUtf16_run (s := s) (n.start e).chars _ _ h1 fun h0 => Int.toNat_of_nonneg h0
    rw [bind_ok r1]
    simp only [asciiRun_fst]
    by_cases ht1 : asciiEnd (ldirentName1 e) = .terminated
    · rw [if_pos ht1] at h
      exact absurd (fun i hi => absurd hi List.not_mem_nil) h
    · rw [if_neg ht1] at h ⊢
      by_cases h2 : ∀ i ∈ asciiStores (ldirentName2 e) ((((e 0).toNat % 64 : Nat) - 1) * 13 + 5),
        0 ≤ i ∧ i ≤ 255
      · have h := hsplit h2 h
        have r2 := fun chars => asciiFromUtf16_run (s := s) chars _ _ h2 fun h0 => Int.toNat_of_nonneg h0
        rw [bind_ok (r2 _)]
        simp only [asciiRun_fst]
        by_cases ht2 : asciiEnd (ldirentName2 e) = .terminated
        · rw [if_pos ht2] at h
          exact absurd (fun i hi => absurd hi List.not_mem_nil) h
        · rw [if_neg ht2] at h ⊢
          exact bind_error (asciiFromUtf16_overrun _ _ h)
      · exact bind_error (asciiFromUtf16_overrun _ _ h2)
  · exact bind_error (asciiFromUtf16_overrun _ _ h1)

end Stm32Logger
