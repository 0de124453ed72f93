/-!
# Calls with a state and a way out

How a call runs that is made of others: forward, from what the first part
does, and backward, from a result to the results of its parts.
-/

namespace Stm32Logger

variable {ε σ α β : Type} {m : EStateM ε σ α} {k : α → EStateM ε σ β} {s s' : σ}

theorem bind_ok (h : m s = .ok a s') : (m >>= k) s = k a s' := by
  simp only [bind, EStateM.bind, h]

theorem bind_error (h : m s = .error e s') : (m >>= k) s = .error e s' := by
  simp only [bind, EStateM.bind, h]

theorem pure_run (a : α) : (pure a : EStateM ε σ α) s = .ok a s := rfl

theorem get_bind {k : σ → EStateM ε σ β} : (get >>= k) s = k s s := rfl

theorem set_bind {k : PUnit → EStateM ε σ β} : (set s' >>= k) s = k ⟨⟩ s' := rfl

theorem modify_bind {k : PUnit → EStateM ε σ β} : (modify f >>= k) s = k ⟨⟩ (f s) := rfl

theorem modify_run : (modify f : EStateM ε σ PUnit) s = .ok ⟨⟩ (f s) := rfl

theorem map_ok {f : α → β} (h : m s = .ok a s') : (f <$> m) s = .ok (f a) s' := by
  simp only [Functor.map, EStateM.map, h]

-- ---------------------------------------------------------------------------
-- From the result backward
-- ---------------------------------------------------------------------------

theorem bind_eq_ok : (m >>= k) s = .ok b s'' ↔ ∃ a s', m s = .ok a s' ∧ k a s' = .ok b s'' := by
  cases h : m s with
  | ok a s' =>
    rw [bind_ok h]
    constructor
    · exact fun hk => ⟨a, s', rfl, hk⟩
    · rintro ⟨a, s', h', hk⟩
      cases h'
      exact hk
  | error e s' =>
    rw [bind_error h]
    constructor
    · exact fun hk => nomatch hk
    · rintro ⟨a, s', h', -⟩
      cases h'

theorem pure_eq_ok : (pure a : EStateM ε σ α) s = .ok b s' ↔ a = b ∧ s = s' := by
  simp only [pure, EStateM.pure, EStateM.Result.ok.injEq]

-- ---------------------------------------------------------------------------
-- What a call keeps
-- ---------------------------------------------------------------------------

/-- From a state in `P` the call ends in one, with a value in `Q`, or with a fault in `E`. -/
def Keeps (P : σ → Prop) (E : ε → Prop) (m : EStateM ε σ α) (Q : α → Prop) : Prop :=
  ∀ s, P s →
    match m s with
    | .ok a s' => P s' ∧ Q a
    | .error e _ => E e

section
variable {P : σ → Prop} {E : ε → Prop} {Q R : α → Prop} {S : β → Prop}

theorem Keeps.ok (h : Keeps P E m Q) (hs : P s) (hm : m s = .ok a s') : P s' ∧ Q a := by
  have := h s hs
  rwa [hm] at this

theorem Keeps.error (h : Keeps P E m Q) (hs : P s) (hm : m s = .error e s') : E e := by
  have := h s hs
  rwa [hm] at this

theorem Keeps.pure (h : Q a) : Keeps P E (pure a) Q := fun _ hs => ⟨hs, h⟩

theorem Keeps.throw (h : E e) : Keeps P E (throw e) Q := fun _ _ => h

theorem Keeps.get : Keeps P E (ε := ε) get P := fun _ hs => ⟨hs, hs⟩

theorem Keeps.modify (h : ∀ s, P s → P (f s)) : Keeps P E (modify f) fun _ => True :=
  fun s hs => ⟨h s hs, trivial⟩

theorem Keeps.bind (hm : Keeps P E m Q) (hk : ∀ a, Q a → Keeps P E (k a) S) : Keeps P E (m >>= k) S := by
  intro s hs
  cases hrun : m s with
  | ok a s' =>
    obtain ⟨hs', ha⟩ := hm.ok hs hrun
    rw [bind_ok hrun]
    exact hk a ha s' hs'
  | error e s' =>
    rw [bind_error hrun]
    exact hm.error hs hrun

end

end Stm32Logger
