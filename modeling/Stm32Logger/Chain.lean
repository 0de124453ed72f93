import Mathlib.Data.List.Nodup
import Mathlib.Logic.Function.Iterate

/-!
# Chains in a table of links

A table gives each node its successor, or the mark that ends a chain. This
file has chains as lists of nodes, what a change of the table keeps of them,
and how a chain grows.
-/

namespace Chain

variable {α : Type} {next next' : α → α} {stop : α}

/-- The nodes lie one after the other, and the last has the end mark. -/
def IsChain (next : α → α) (stop : α) : List α → Prop
  | [] => False
  | [c] => next c = stop
  | c :: d :: cs => next c = d ∧ IsChain next stop (d :: cs)

theorem IsChain.ne_nil (h : IsChain next stop cs) : cs ≠ [] := by
  rintro rfl
  exact h

theorem IsChain.congr (h : IsChain next stop cs) (hn : ∀ c ∈ cs, next' c = next c) :
    IsChain next' stop cs := by
  induction cs with
  | nil => exact h
  | cons c cs ih =>
    cases cs with
    | nil => exact (hn c List.mem_cons_self).trans h
    | cons d cs =>
      exact ⟨(hn c List.mem_cons_self).trans h.1, ih h.2 fun e he => hn e (List.mem_cons_of_mem c he)⟩

theorem IsChain.getLast (h : IsChain next stop cs) : next (cs.getLast h.ne_nil) = stop := by
  induction cs with
  | nil => exact h.elim
  | cons c cs ih =>
    cases cs with
    | nil => exact h
    | cons d cs => simpa using ih h.2

theorem IsChain.getElem (h : IsChain next stop cs) (hi : i + 1 < cs.length) :
    next cs[i] = cs[i + 1] := by
  induction cs generalizing i with
  | nil => exact h.elim
  | cons c cs ih =>
    cases cs with
    | nil => simp at hi
    | cons d cs =>
      cases i with
      | zero => exact h.1
      | succ i => exact ih h.2 (Nat.lt_of_succ_lt_succ hi)

theorem IsChain.of_links (hne : cs ≠ []) (hlink : ∀ i (hi : i + 1 < cs.length), next cs[i] = cs[i + 1])
    (hlast : next (cs.getLast hne) = stop) : IsChain next stop cs := by
  induction cs with
  | nil => exact hne rfl
  | cons c cs ih =>
    cases cs with
    | nil => exact hlast
    | cons d cs =>
      refine ⟨hlink 0 (by simp), ih (List.cons_ne_nil d cs) (fun i hi => ?_) (by simpa using hlast)⟩
      exact hlink (i + 1) (Nat.succ_lt_succ hi)

theorem IsChain.iterate (h : IsChain next stop cs) (hi : i < cs.length) :
    next^[i] (cs.head h.ne_nil) = cs[i] := by
  induction i with
  | zero => simp [List.head_eq_getElem]
  | succ i ih => rw [Function.iterate_succ_apply', ih (Nat.lt_of_succ_lt hi), h.getElem hi]

theorem IsChain.nodup (h : IsChain next stop cs) (hs : stop ∉ cs) : cs.Nodup := by
  rw [List.nodup_iff_injective_getElem]
  -- two equal nodes are equally far from the end
  have hend : ∀ (i k : Nat) (hik : i + k + 1 = cs.length),
      next^[k] cs[i] = cs.getLast h.ne_nil := by
    intro i k hik
    have hi : i < cs.length := by omega
    rw [← h.iterate hi, ← Function.iterate_add_apply, Nat.add_comm, h.iterate (by omega),
      List.getLast_eq_getElem]
    congr 1
    omega
  have hlt : ∀ {i j : Nat} (hi : i < cs.length) (hj : j < cs.length), cs[i] = cs[j] → ¬ i < j := by
    intro i j hi hj he hij
    -- from `i` the last node is reached, and one more step would still be in the chain
    obtain ⟨k, hk⟩ : ∃ k, j + k + 1 = cs.length := ⟨cs.length - 1 - j, by omega⟩
    have h1 := hend j k hk
    rw [← he, ← h.iterate hi, ← Function.iterate_add_apply, Nat.add_comm k i,
      h.iterate (by omega)] at h1
    have h2 : next cs[i + k] = cs[i + k + 1] := h.getElem (by omega)
    rw [h1, h.getLast] at h2
    exact hs (h2 ▸ List.getElem_mem _)
  intro i j he
  rcases Nat.lt_trichotomy i.1 j.1 with hij | hij | hij
  · exact absurd hij (hlt i.2 j.2 he)
  · exact Fin.ext hij
  · exact absurd hij (hlt j.2 i.2 he.symm)

theorem IsChain.unique (h : IsChain next stop cs) (hs : stop ∉ cs) (h' : IsChain next stop cs')
    (hs' : stop ∉ cs') (hhead : cs.head? = cs'.head?) : cs = cs' := by
  induction cs generalizing cs' with
  | nil => exact h.elim
  | cons c cs ih =>
    cases cs' with
    | nil => exact h'.elim
    | cons c' cs' =>
      obtain rfl : c = c' := Option.some.inj hhead
      cases cs with
      | nil =>
        cases cs' with
        | nil => rfl
        | cons d' cs' => exact absurd (h.symm.trans h'.1 ▸ .tail _ List.mem_cons_self) hs'
      | cons d cs =>
        cases cs' with
        | nil => exact absurd (h'.symm.trans h.1 ▸ .tail _ List.mem_cons_self) hs
        | cons d' cs' =>
          rw [ih h.2 (fun hm => hs (.tail _ hm)) h'.2 (fun hm => hs' (.tail _ hm))
            (congrArg some (h.1.symm.trans h'.1))]

theorem IsChain.snoc (h : IsChain next stop cs) (hs : stop ∉ cs)
    (hlast : next' (cs.getLast h.ne_nil) = d) (hd : next' d = stop)
    (hn : ∀ c ∈ cs, c ≠ cs.getLast h.ne_nil → next' c = next c) :
    IsChain next' stop (cs ++ [d]) := by
  have hnd := h.nodup hs
  induction cs with
  | nil => exact h.elim
  | cons c cs ih =>
    cases cs with
    | nil => exact ⟨hlast, hd⟩
    | cons e cs =>
      have hne : c ≠ (c :: e :: cs).getLast h.ne_nil := by
        rw [List.getLast_cons (List.cons_ne_nil e cs)]
        intro hc
        exact (List.nodup_cons.mp hnd).1 (hc ▸ List.getLast_mem _)
      refine ⟨(hn c List.mem_cons_self hne).trans h.1, ih h.2 (fun hm => hs (.tail _ hm)) ?_ ?_
        (List.nodup_cons.mp hnd).2⟩
      · simpa using hlast
      · intro a ha hal
        exact hn a (.tail _ ha) (by simpa using hal)

end Chain
