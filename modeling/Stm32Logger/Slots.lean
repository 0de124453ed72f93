import Mathlib.Data.List.GetD

/-!
# Rows of slots

A row is the list of its slots that have been used; behind it every slot is
new. Room for `k` neighbours is looked for among the slots given up since, and
if need be behind the row, and `k` values are stored there one by one.
-/

namespace Slots

variable {α : Type} {hole : α → Bool} {row new before : List α}

-- ---------------------------------------------------------------------------
-- Room
-- ---------------------------------------------------------------------------

/-- Where the first `k` holes in a row start, or else the holes the row ends in.
The search has come to the slot `start + run`, after `run` holes. -/
def firstFit (hole : α → Bool) (k : Nat) : (run start : Nat) → List α → Nat
  | _, start, [] => start
  | run, start, a :: row =>
    if hole a then
      if run + 1 = k then start else firstFit hole k (run + 1) start row
    else firstFit hole k 0 (start + run + 1) row

theorem firstFit_le (hole : α → Bool) (k run start : Nat) (row : List α) :
    firstFit hole k run start row ≤ start + run + row.length := by
  induction row generalizing run start with
  | nil =>
    rw [firstFit]
    omega
  | cons a row ih =>
    rw [firstFit, List.length_cons]
    split
    · split
      · omega
      · have := ih (run + 1) start
        omega
    · have := ih 0 (start + run + 1)
      omega

/-- The slots of the row among the `k` found are holes. -/
theorem firstFit_hole_from (before : List α) (hlen : before.length = start + run) (hrun : run < k)
    (hbefore : ∀ n a, start ≤ n → before[n]? = some a → hole a = true) :
    ∀ n a, firstFit hole k run start row ≤ n → n < firstFit hole k run start row + k →
      (before ++ row)[n]? = some a → hole a = true := by
  induction row generalizing run start before with
  | nil =>
    intro n a h _ hn
    rw [List.append_nil] at hn
    exact hbefore n a h hn
  | cons b row ih =>
    have hstep : before ++ b :: row = (before ++ [b]) ++ row := by simp
    have hlen' : (before ++ [b]).length = start + run + 1 := by simp [hlen]
    rw [firstFit]
    by_cases hb : hole b = true
    · -- the run of holes goes on
      have hmore : ∀ n a, start ≤ n → (before ++ [b])[n]? = some a → hole a = true := by
        intro n a h hn
        rcases Nat.lt_or_ge n before.length with hlt | hge
        · rw [List.getElem?_append_left hlt] at hn
          exact hbefore n a h hn
        · rw [List.getElem?_append_right hge] at hn
          have := List.mem_of_getElem? hn
          rwa [List.mem_singleton.mp this]
      rw [if_pos hb]
      split
      next hk =>
        intro n a h h' hn
        have hlt : n < (before ++ [b]).length := by omega
        rw [hstep, List.getElem?_append_left hlt] at hn
        exact hmore n a h hn
      next hk =>
        rw [hstep]
        exact ih _ (by omega) (by omega) hmore
    · rw [if_neg hb, hstep]
      refine ih _ (by omega) (by omega) fun n a h hn => ?_
      rw [List.getElem?_eq_none (by omega)] at hn
      exact absurd hn (by simp)

theorem firstFit_hole (hk : 0 < k) (hn : firstFit hole k 0 0 row ≤ n)
    (hn' : n < firstFit hole k 0 0 row + k) (ha : row[n]? = some a) : hole a = true :=
  firstFit_hole_from [] rfl hk (fun _ _ _ h => absurd h (by simp)) n a hn hn' ha

-- ---------------------------------------------------------------------------
-- Storing
-- ---------------------------------------------------------------------------

/-- The row with `new` stored from slot `p` on. -/
def store (p : Nat) (new row : List α) : List α := row.take p ++ new ++ row.drop (p + new.length)

theorem store_length (new : List α) (hp : p ≤ row.length) :
    (store p new row).length = max row.length (p + new.length) := by
  simp only [store, List.length_append, List.length_take, List.length_drop]
  omega

theorem store_getElem? (hp : p ≤ row.length) (n : Nat) :
    (store p new row)[n]? = if p ≤ n ∧ n < p + new.length then new[n - p]? else row[n]? := by
  have htake : (row.take p).length = p := by
    rw [List.length_take]
    omega
  rw [store, List.append_assoc]
  rcases Nat.lt_or_ge n p with hlt | hge
  · rw [if_neg (by omega), List.getElem?_append_left (by omega), List.getElem?_take_of_lt hlt]
  · rw [List.getElem?_append_right (by omega), htake]
    rcases Nat.lt_or_ge n (p + new.length) with hin | hout
    · rw [if_pos ⟨hge, hin⟩, List.getElem?_append_left (by omega)]
    · rw [if_neg (by omega), List.getElem?_append_right (by omega), List.getElem?_drop]
      congr 1
      omega

theorem store_append_left (row' : List α) (hp : p + new.length ≤ row.length) :
    store p new (row ++ row') = store p new row ++ row' := by
  rw [store, store, List.take_append_of_le_length (by omega), List.drop_append_of_le_length hp,
    List.append_assoc,
    List.append_assoc, List.append_assoc]

theorem store_append_right (new row' : List α) (hp : row.length ≤ p) :
    store p new (row ++ row') = row ++ store (p - row.length) new row' := by
  obtain ⟨k, rfl⟩ := Nat.exists_eq_add_of_le hp
  rw [store, store, Nat.add_sub_cancel_left, List.take_length_add_append, Nat.add_assoc,
    List.drop_length_add_append,
    List.append_assoc, List.append_assoc, List.append_assoc]

theorem mem_store (h : a ∈ store p new row) : a ∈ new ∨ a ∈ row := by
  rw [store, List.mem_append, List.mem_append] at h
  rcases h with (h | h) | h
  · exact .inr (List.mem_of_mem_take h)
  · exact .inl h
  · exact .inr (List.mem_of_mem_drop h)

end Slots
