import Mathlib.Logic.Function.Basic

/-!
# Write logs

A store that is only changed by writes to single addresses, and what a cut of
its log leaves: every prefix of the writes is a state the store can be found in.
-/

namespace WriteLog

variable {α β : Type} [DecidableEq α]

/-- The store after the writes of a log, in order. -/
def replay (img : α → β) : List (α × β) → α → β
  | [] => img
  | (a, b) :: ws => replay (Function.update img a b) ws

/-- Every store that is left by a cut after at least one write satisfies `P`. -/
def Cuts (P : (α → β) → Prop) (img : α → β) : List (α × β) → Prop
  | [] => True
  | (a, b) :: ws => P (Function.update img a b) ∧ Cuts P (Function.update img a b) ws

@[simp] theorem replay_nil (img : α → β) : replay img [] = img := rfl

theorem replay_append (img : α → β) (ws ws' : List (α × β)) :
    replay img (ws ++ ws') = replay (replay img ws) ws' := by
  induction ws generalizing img with
  | nil => rfl
  | cons w ws ih => exact ih _

theorem cuts_append {P : (α → β) → Prop} {img : α → β} {ws ws' : List (α × β)}
    (h : Cuts P img ws) (h' : Cuts P (replay img ws) ws') : Cuts P img (ws ++ ws') := by
  induction ws generalizing img with
  | nil => exact h'
  | cons w ws ih => exact ⟨h.1, ih h.2 h'⟩

theorem Cuts.mono {P Q : (α → β) → Prop} {img : α → β} {ws : List (α × β)} (h : Cuts P img ws)
    (hPQ : ∀ i, P i → Q i) : Cuts Q img ws := by
  induction ws generalizing img with
  | nil => trivial
  | cons w ws ih => exact ⟨hPQ _ h.1, ih h.2⟩

theorem Cuts.take {P : (α → β) → Prop} {img : α → β} {ws : List (α × β)} (h : Cuts P img ws)
    (h0 : P img) (k : Nat) : P (replay img (ws.take k)) := by
  induction ws generalizing img k with
  | nil => simpa using h0
  | cons w ws ih =>
    cases k with
    | zero => exact h0
    | succ k => exact ih h.2 h.1 k

/-- Every write takes the store to one related to the store before it. -/
def Steps (R : (α → β) → (α → β) → Prop) (img : α → β) : List (α × β) → Prop
  | [] => True
  | (a, b) :: ws => R img (Function.update img a b) ∧ Steps R (Function.update img a b) ws

theorem steps_append {R : (α → β) → (α → β) → Prop} {img : α → β} {ws ws' : List (α × β)}
    (h : Steps R img ws) (h' : Steps R (replay img ws) ws') : Steps R img (ws ++ ws') := by
  induction ws generalizing img with
  | nil => exact h'
  | cons w ws ih => exact ⟨h.1, ih h.2 h'⟩

theorem Cuts.steps {P : (α → β) → Prop} {R : (α → β) → (α → β) → Prop} {img : α → β}
    {ws : List (α × β)} (h : Cuts P img ws) (h0 : ∀ i, P i → R img i)
    (hR : ∀ i j, P i → P j → R i j) : Steps R img ws := by
  induction ws generalizing img with
  | nil => trivial
  | cons w ws ih => exact ⟨h0 _ h.1, ih h.2 fun i hi => hR _ _ h.1 hi⟩

end WriteLog
