import Mathlib.Data.List.Induction

/-!
# Transducers

A transducer answers each input with a new state and a list of outputs. This
file has its runs, what a run emits, and the two ways a property is carried
along a run: an invariant of the inputs read and the state, and a condition on
every step.
-/

/-- A deterministic machine that answers every input with some outputs. -/
structure Transducer (σ ι ω : Type) where
  step : σ → ι → σ × List ω

namespace Transducer

variable {σ ι ω : Type} (m : Transducer σ ι ω)

def next (s : σ) (i : ι) : σ := (m.step s i).1

def emit (s : σ) (i : ι) : List ω := (m.step s i).2

def run (s : σ) : List ι → σ
  | [] => s
  | i :: is => run (m.next s i) is

def out (s : σ) : List ι → List ω
  | [] => []
  | i :: is => m.emit s i ++ out (m.next s i) is

/-- Every step of the run starts in a state, and with an input, that satisfy `P`. -/
def Always (P : σ → ι → Prop) (s : σ) : List ι → Prop
  | [] => True
  | i :: is => P s i ∧ Always P (m.next s i) is

@[simp] theorem run_nil (s : σ) : m.run s [] = s := rfl

@[simp] theorem run_cons (s : σ) : m.run s (i :: is) = m.run (m.next s i) is := rfl

@[simp] theorem out_nil (s : σ) : m.out s [] = [] := rfl

@[simp] theorem out_cons (s : σ) : m.out s (i :: is) = m.emit s i ++ m.out (m.next s i) is := rfl

theorem run_append (s : σ) (is js : List ι) : m.run s (is ++ js) = m.run (m.run s is) js := by
  induction is generalizing s with
  | nil => rfl
  | cons i is ih => exact ih _

theorem out_append (s : σ) (is js : List ι) :
    m.out s (is ++ js) = m.out s is ++ m.out (m.run s is) js := by
  induction is generalizing s with
  | nil => rfl
  | cons i is ih => simp [ih]

theorem run_snoc (s : σ) (is : List ι) (i : ι) : m.run s (is ++ [i]) = m.next (m.run s is) i := by
  simp [run_append]

theorem out_snoc (s : σ) (is : List ι) (i : ι) :
    m.out s (is ++ [i]) = m.out s is ++ m.emit (m.run s is) i := by
  simp [out_append]

theorem run_history {I : List ι → σ → Prop} (hs : I [] s)
    (hstep : ∀ is i s, I is s → I (is ++ [i]) (m.next s i)) (is : List ι) :
    I is (m.run s is) := by
  induction is using List.reverseRecOn with
  | nil => exact hs
  | append_singleton is i ih =>
    rw [run_snoc]
    exact hstep is i _ ih

theorem always_append {P : σ → ι → Prop} (s : σ) (is js : List ι) :
    m.Always P s (is ++ js) ↔ m.Always P s is ∧ m.Always P (m.run s is) js := by
  induction is generalizing s with
  | nil => simp [Always]
  | cons i is ih => simp [Always, ih, and_assoc]

theorem always_iff {P : σ → ι → Prop} (s : σ) (is : List ι) :
    m.Always P s is ↔ ∀ pre i suf, is = pre ++ i :: suf → P (m.run s pre) i := by
  constructor
  · rintro h pre i suf rfl
    exact ((m.always_append s pre (i :: suf)).mp h).2.1
  · intro h
    induction is generalizing s with
    | nil => trivial
    | cons i is ih =>
      refine ⟨h [] i is rfl, ih _ fun pre j suf he => ?_⟩
      exact h (i :: pre) j suf (by simp [he])

theorem Always.mono {P Q : σ → ι → Prop} (h : m.Always P s is) (hpq : ∀ s i, P s i → Q s i) :
    m.Always Q s is := by
  induction is generalizing s with
  | nil => trivial
  | cons i is ih => exact ⟨hpq _ _ h.1, ih h.2⟩

theorem mem_out {o : ω} (s : σ) (is : List ι) :
    o ∈ m.out s is ↔ ∃ pre i suf, is = pre ++ i :: suf ∧ o ∈ m.emit (m.run s pre) i := by
  induction is generalizing s with
  | nil => simp
  | cons i is ih =>
    rw [out_cons, List.mem_append, ih]
    constructor
    · rintro (h | ⟨pre, j, suf, rfl, h⟩)
      · exact ⟨[], i, is, rfl, h⟩
      · exact ⟨i :: pre, j, suf, rfl, h⟩
    · rintro ⟨pre, j, suf, he, h⟩
      cases pre with
      | nil =>
        obtain ⟨rfl, rfl⟩ : i = j ∧ is = suf := by simpa using he
        exact .inl h
      | cons p pre =>
        obtain ⟨rfl, rfl⟩ : i = p ∧ is = pre ++ j :: suf := by simpa using he
        exact .inr ⟨pre, j, suf, rfl, h⟩

theorem out_split (s : σ) (is : List ι) (h : m.out s is = a ++ o :: b) :
    ∃ pre i suf a₁ b₁, is = pre ++ i :: suf ∧ m.emit (m.run s pre) i = a₁ ++ o :: b₁ ∧
      a = m.out s pre ++ a₁ := by
  induction is generalizing s a with
  | nil => simp at h
  | cons i is ih =>
    rw [out_cons] at h
    rcases List.append_eq_append_iff.mp h with ⟨t, rfl, ht⟩ | ⟨t, ht, ht'⟩
    · obtain ⟨pre, j, suf, a₁, b₁, rfl, hemit, rfl⟩ := ih _ ht
      exact ⟨i :: pre, j, suf, a₁, b₁, rfl, hemit, by simp⟩
    · cases t with
      | nil =>
        obtain ⟨pre, j, suf, a₁, b₁, rfl, hemit, he⟩ := ih (a := []) _ ht'.symm
        refine ⟨i :: pre, j, suf, a₁, b₁, rfl, hemit, ?_⟩
        rw [List.append_nil] at ht
        rw [out_cons, List.append_assoc, ← he, ht, List.append_nil]
      | cons c t =>
        obtain ⟨rfl, rfl⟩ := List.cons.inj ht'
        exact ⟨[], i, is, a, t, rfl, ht, rfl⟩

end Transducer
