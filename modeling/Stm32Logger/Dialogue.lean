/-!
# Programs that talk to a peer

A program takes items of input from a peer and keeps a record of what passes
between them; the peer is a transition system with the recorded events as
labels. `Meets` is total correctness against every peer behaviour: a run that
returns ends as it should whatever the peer has done, and wherever a run stops
to wait the peer can go on so that it returns.
-/

namespace Dialogue

variable {σ τ κ ω ι ε α β : Type}

/-- The peer takes part in these events, one after the other. -/
inductive Steps (step : κ → ω → κ → Prop) : κ → List ω → κ → Prop where
  | nil : Steps step k [] k
  | cons (h : step k e k') (hs : Steps step k' es k'') : Steps step k (e :: es) k''

/-- What a program's state shows of itself and its record of the events, how its input is put
before it, and what its peer may do. -/
structure Link (σ τ κ ω ι : Type) where
  view : σ → τ
  record : σ → List ω
  feed : σ → List ι → σ
  step : κ → ω → κ → Prop
  view_feed : ∀ s input, view (feed s input) = view s
  record_feed : ∀ s input, record (feed s input) = record s
  feed_feed : ∀ s input input', feed (feed s input) input' = feed s input'

/-- The program returns with this input, leaves the rest of it, and has recorded these events. -/
structure Returned (l : Link σ τ κ ω ι) (m : EStateM ε σ α) (s : σ) (input rest : List ι) (es : List ω) (a : α)
    (t : σ) :
    Prop where
  run : ∀ more, m (l.feed s (input ++ more)) = .ok a (l.feed t (rest ++ more))
  record : l.record t = l.record s ++ es

/-- From `P`, the program and its peer come to `Q` together. -/
structure Meets (l : Link σ τ κ ω ι) (P : τ → κ → Prop) (m : EStateM ε σ α) (Q : α → τ → κ → Prop) : Prop where
  safe : ∀ s input a t, m (l.feed s input) = .ok a t → ∃ rest es, t = l.feed t rest ∧
    Returned l m s input rest es a t ∧ ∀ k k', P (l.view s) k → Steps l.step k es k' → Q a (l.view t) k'
  live : ∀ s input x t, m (l.feed s input) = .error x t → ∃ es, l.record t = l.record s ++ es ∧
    ∀ k k', P (l.view s) k → Steps l.step k es k' → ∃ more es' a u k'',
      Returned l m s (input ++ more) [] (es ++ es') a u ∧
      Steps l.step k' es' k'' ∧ Q a (l.view u) k''
  served : ∀ s k, P (l.view s) k → ∃ input es a t k', Returned l m s input [] es a t ∧ Steps l.step k es k' ∧
    Q a (l.view t) k'

/-- The program takes input until an item does not have the property, and returns that.
Each item is an event. -/
structure Polls (l : Link σ τ κ ω ι) (m : EStateM ε σ ι) (p : ι → Bool) (w : ι → σ → σ) (e : ι → ω) : Prop where
  run : ∀ s b bs, m (l.feed s (b :: bs)) = if p b then m (l.feed (w b s) bs) else .ok b (l.feed (w b s) bs)
  wait : ∀ s, ∃ x, m (l.feed s []) = .error x (l.feed s [])
  view : ∀ s b, l.view (w b s) = l.view s
  record : ∀ s b, l.record (w b s) = l.record s ++ [e b]

variable {step : κ → ω → κ → Prop} {k k' k'' : κ} {e : ω} {es es' : List ω}

theorem Steps.append (h : Steps step k es k') (h' : Steps step k' es' k'') : Steps step k (es ++ es') k'' := by
  induction h with
  | nil => exact h'
  | cons he _ ih => exact .cons he (ih h')

theorem Steps.split (h : Steps step k (es ++ es') k'') : ∃ k', Steps step k es k' ∧ Steps step k' es' k'' := by
  induction es generalizing k with
  | nil => exact ⟨k, .nil, h⟩
  | cons e es ih =>
    cases h with
    | cons he hs =>
      obtain ⟨k', h1, h2⟩ := ih hs
      exact ⟨k', .cons he h1, h2⟩

theorem Steps.nil_eq (h : Steps step k [] k') : k' = k := by
  cases h
  rfl

theorem Steps.single (h : Steps step k [e] k') : step k e k' := by
  cases h with
  | cons he hs =>
    cases hs
    exact he

-- ---------------------------------------------------------------------------
-- Runs that return
-- ---------------------------------------------------------------------------

section
variable {l : Link σ τ κ ω ι} {m : EStateM ε σ α} {f : α → EStateM ε σ β} {s t u : σ} {a : α} {b : β}
  {input rest rest' : List ι}

theorem Returned.more (h : Returned l m s input rest es a t) (more : List ι) :
    Returned l m s (input ++ more) (rest ++ more) es a t := by
  refine ⟨fun more' => ?_, h.record⟩
  rw [List.append_assoc, List.append_assoc]
  exact h.run (more ++ more')

theorem Returned.bind (h : Returned l m s input rest es a t) (h' : Returned l (f a) t rest rest' es' b u) :
    Returned l (m >>= f) s input rest' (es ++ es') b u := by
  refine ⟨fun more => ?_, by rw [h'.record, h.record, List.append_assoc]⟩
  simp only [Bind.bind, EStateM.bind, h.run more]
  exact h'.run more

end

-- ---------------------------------------------------------------------------
-- Rules
-- ---------------------------------------------------------------------------

section
variable {l : Link σ τ κ ω ι} {P P' : τ → κ → Prop} {Q Q' : α → τ → κ → Prop} {R : β → τ → κ → Prop}
  {m : EStateM ε σ α}
  {f : α → EStateM ε σ β} {w : σ → σ} {u : τ → τ}

theorem Meets.mono (h : Meets l P m Q) (hP : ∀ v k, P' v k → P v k) (hQ : ∀ a v k, Q a v k → Q' a v k) :
    Meets l P' m Q' := by
  refine ⟨fun s input a t hrun => ?_, fun s input x t hrun => ?_, fun s k hk => ?_⟩
  · obtain ⟨rest, es, ht, hret, hpost⟩ := h.safe s input a t hrun
    exact ⟨rest, es, ht, hret, fun k k' hk hs => hQ a _ k' (hpost k k' (hP _ k hk) hs)⟩
  · obtain ⟨es, hrec, hgo⟩ := h.live s input x t hrun
    refine ⟨es, hrec, fun k k' hk hs => ?_⟩
    obtain ⟨more, es', a, u, k'', hret, hs', hpost⟩ := hgo k k' (hP _ k hk) hs
    exact ⟨more, es', a, u, k'', hret, hs', hQ a _ k'' hpost⟩
  · obtain ⟨input, es, a, t, k', hret, hs, hpost⟩ := h.served s k (hP _ k hk)
    exact ⟨input, es, a, t, k', hret, hs, hQ a _ k' hpost⟩

theorem Meets.keep {φ : Prop} (h : Meets l P m Q) :
    Meets l (fun v k => φ ∧ P v k) m fun a v k => φ ∧ Q a v k := by
  refine ⟨fun s input a t hrun => ?_, fun s input x t hrun => ?_, fun s k hk => ?_⟩
  · obtain ⟨rest, es, ht, hret, hpost⟩ := h.safe s input a t hrun
    exact ⟨rest, es, ht, hret, fun k k' hk hs => ⟨hk.1, hpost k k' hk.2 hs⟩⟩
  · obtain ⟨es, hrec, hgo⟩ := h.live s input x t hrun
    refine ⟨es, hrec, fun k k' hk hs => ?_⟩
    obtain ⟨more, es', a, u, k'', hret, hs', hpost⟩ := hgo k k' hk.2 hs
    exact ⟨more, es', a, u, k'', hret, hs', hk.1, hpost⟩
  · obtain ⟨input, es, a, t, k', hret, hs, hpost⟩ := h.served s k hk.2
    exact ⟨input, es, a, t, k', hret, hs, hk.1, hpost⟩

theorem Meets.of_exists {X : Type} [Nonempty X] {P : X → τ → κ → Prop} (h : ∀ x, Meets l (P x) m Q) :
    Meets l (fun v k => ∃ x, P x v k) m Q := by
  obtain ⟨x0⟩ := ‹Nonempty X›
  refine ⟨fun s input a t hrun => ?_, fun s input y t hrun => ?_, fun s k ⟨x, hk⟩ => (h x).served s k hk⟩
  · obtain ⟨rest, es, ht, hret, -⟩ := (h x0).safe s input a t hrun
    refine ⟨rest, es, ht, hret, fun k k' ⟨x, hk⟩ hs => ?_⟩
    obtain ⟨rest', es', -, hret', hpost⟩ := (h x).safe s input a t hrun
    rw [List.append_cancel_left (hret'.record.symm.trans hret.record)] at hpost
    exact hpost k k' hk hs
  · obtain ⟨es, hrec, -⟩ := (h x0).live s input y t hrun
    refine ⟨es, hrec, fun k k' ⟨x, hk⟩ hs => ?_⟩
    obtain ⟨es', hrec', hgo⟩ := (h x).live s input y t hrun
    rw [List.append_cancel_left (hrec'.symm.trans hrec)] at hgo
    exact hgo k k' hk hs

theorem Meets.never {step' : κ → ω → κ → Prop} (h : Meets { l with step := step' } P m Q)
    (hP : ∀ v k, ¬ P' v k) :
    Meets l P' m Q' := by
  refine ⟨fun s input a t hrun => ?_, fun s input x t hrun => ?_, fun s k hk => absurd hk (hP _ k)⟩
  · obtain ⟨rest, es, ht, hret, -⟩ := h.safe s input a t hrun
    exact ⟨rest, es, ht, ⟨hret.run, hret.record⟩, fun k _ hk => absurd hk (hP _ k)⟩
  · obtain ⟨es, hrec, -⟩ := h.live s input x t hrun
    exact ⟨es, hrec, fun k _ hk => absurd hk (hP _ k)⟩

theorem Meets.bind (hm : Meets l P m Q) (hf : ∀ a, Meets l (Q a) (f a) R) : Meets l P (m >>= f) R := by
  refine ⟨fun s input b u hrun => ?_, fun s input x u hrun => ?_, fun s k hk => ?_⟩
  · cases hfirst : m (l.feed s input) with
    | error x t =>
      simp only [Bind.bind, EStateM.bind, hfirst] at hrun
      cases hrun
    | ok a t =>
      simp only [Bind.bind, EStateM.bind, hfirst] at hrun
      obtain ⟨rest, es, ht, hret, hQ⟩ := hm.safe s input a t hfirst
      rw [ht] at hrun
      obtain ⟨rest', es', hu, hret', hR⟩ := (hf a).safe t rest b u hrun
      refine ⟨rest', es ++ es', hu, hret.bind hret', fun k k' hk hs => ?_⟩
      obtain ⟨k1, h1, h2⟩ := hs.split
      exact hR k1 k' (hQ k k1 hk h1) h2
  · cases hfirst : m (l.feed s input) with
    | error y t =>
      -- the first part waits: the peer lets it return, and then serves the second
      simp only [Bind.bind, EStateM.bind, hfirst] at hrun
      cases hrun
      obtain ⟨es, hrec, hgo⟩ := hm.live s input x u hfirst
      refine ⟨es, hrec, fun k k' hk hs => ?_⟩
      obtain ⟨more, es1, a, t, k1, hret, hs1, hQ⟩ := hgo k k' hk hs
      obtain ⟨more', es2, b, u, k2, hret', hs2, hR⟩ := (hf a).served t k1 hQ
      refine ⟨more ++ more', es1 ++ es2, b, u, k2, ?_, hs1.append hs2, hR⟩
      rw [← List.append_assoc, ← List.append_assoc]
      exact (hret.more more').bind hret'
    | ok a t =>
      simp only [Bind.bind, EStateM.bind, hfirst] at hrun
      obtain ⟨rest, es, ht, hret, hQ⟩ := hm.safe s input a t hfirst
      rw [ht] at hrun
      obtain ⟨es', hrec, hgo⟩ := (hf a).live t rest x u hrun
      refine ⟨es ++ es', by rw [hrec, hret.record, List.append_assoc], fun k k' hk hs => ?_⟩
      obtain ⟨k1, h1, h2⟩ := hs.split
      obtain ⟨more, es2, b, u, k2, hret', hs2, hR⟩ := hgo k1 k' (hQ k k1 hk h1) h2
      refine ⟨more, es2, b, u, k2, ?_, hs2, hR⟩
      rw [List.append_assoc]
      exact (hret.more more).bind hret'
  · obtain ⟨input, es, a, t, k1, hret, hs, hQ⟩ := hm.served s k hk
    obtain ⟨input', es', b, u, k2, hret', hs', hR⟩ := (hf a).served t k1 hQ
    exact ⟨input ++ input', es ++ es', b, u, k2, (hret.more input').bind hret', hs.append hs', hR⟩

theorem Meets.of_run {es : List ω} (a : α) (hrun : ∀ s input, m (l.feed s input) = .ok a (l.feed (w s) input))
    (hview : ∀ s, l.view (w s) = u (l.view s)) (hrec : ∀ s, l.record (w s) = l.record s ++ es)
    (hcan : ∀ v k, P v k → ∃ k', Steps l.step k es k')
    (h : ∀ v k k', P v k → Steps l.step k es k' → Q a (u v) k') :
    Meets l P m Q := by
  refine ⟨fun s input b t hb => ?_, fun s input x t hx => ?_, fun s k hk => ?_⟩
  · rw [hrun] at hb
    cases hb
    refine ⟨input, es, (l.feed_feed ..).symm, ⟨fun more => ?_, by rw [l.record_feed, hrec]⟩,
      fun k k' hk hs => ?_⟩
    · rw [hrun, l.feed_feed]
    · rw [l.view_feed, hview]
      exact h (l.view s) k k' hk hs
  · rw [hrun] at hx
    cases hx
  · obtain ⟨k', hs⟩ := hcan (l.view s) k hk
    refine ⟨[], es, a, w s, k', ⟨fun more => hrun s more, hrec s⟩, hs, ?_⟩
    rw [hview]
    exact h (l.view s) k k' hk hs

theorem Meets.pure (a : α) (h : ∀ v k, P v k → Q a v k) : Meets l P (pure a : EStateM ε σ α) Q :=
  .of_run (w := id) (u := id) a (fun _ _ => rfl) (fun _ => rfl) (fun _ => (List.append_nil _).symm)
    (fun _ k _ => ⟨k, .nil⟩)
    fun v k _ hk hs => hs.nil_eq ▸ h v k hk

theorem Meets.change {Q : PUnit → τ → κ → Prop} (u : τ → τ)
    (hfeed : ∀ s input, w (l.feed s input) = l.feed (w s) input) (hview : ∀ s, l.view (w s) = u (l.view s))
    (hrec : ∀ s, l.record (w s) = l.record s) (h : ∀ v k, P v k → Q ⟨⟩ (u v) k) :
    Meets l P (modify w : EStateM ε σ PUnit) Q :=
  .of_run ⟨⟩ (fun s input => congrArg (EStateM.Result.ok PUnit.unit) (hfeed s input)) hview
    (fun s => (hrec s).trans (List.append_nil _).symm) (fun _ k _ => ⟨k, .nil⟩) fun v k _ hk hs =>
      hs.nil_eq ▸ h v k hk

theorem Meets.event {Q : PUnit → τ → κ → Prop} (hfeed : ∀ s input, w (l.feed s input) = l.feed (w s) input)
    (hview : ∀ s, l.view (w s) = l.view s) (hrec : ∀ s, l.record (w s) = l.record s ++ [e])
    (hcan : ∀ v k, P v k → ∃ k', l.step k e k') (h : ∀ v k k', P v k → l.step k e k' → Q ⟨⟩ v k') :
    Meets l P (modify w : EStateM ε σ PUnit) Q :=
  .of_run (u := id) ⟨⟩ (fun s input => congrArg (EStateM.Result.ok PUnit.unit) (hfeed s input)) hview hrec
    (fun v k hk => (hcan v k hk).imp fun _ hk' => .cons hk' .nil) fun v k k' hk hs => h v k k' hk hs.single

theorem Meets.gets {φ : Type} {p : σ → φ} {g : φ → EStateM ε σ β} (q : τ → φ) (hq : ∀ s, p s = q (l.view s))
    (h : ∀ v0, Meets l (fun v k => v = v0 ∧ P v k) (g (q v0)) R) : Meets l P (get >>= fun s => g (p s)) R := by
  have hrun : ∀ s input, (get >>= fun s => g (p s) : EStateM ε σ β) (l.feed s input) = g (q (l.view s))
    (l.feed s input) := by
    intro s input
    rw [← l.view_feed s input, ← hq]
    rfl
  have hret : ∀ {s input rest es b t}, Returned l (g (q (l.view s))) s input rest es b t →
      Returned l (get >>= fun s => g (p s) : EStateM ε σ β) s input rest es b t :=
    fun hr => ⟨fun more => (hrun _ _).trans (hr.run more), hr.record⟩
  refine ⟨fun s input b t hb => ?_, fun s input x t hx => ?_, fun s k hk => ?_⟩
  · rw [hrun] at hb
    obtain ⟨rest, es, ht, hr, hpost⟩ := (h (l.view s)).safe s input b t hb
    exact ⟨rest, es, ht, hret hr, fun k k' hk => hpost k k' ⟨rfl, hk⟩⟩
  · rw [hrun] at hx
    obtain ⟨es, hrec, hgo⟩ := (h (l.view s)).live s input x t hx
    refine ⟨es, hrec, fun k k' hk hs => ?_⟩
    obtain ⟨more, es', b, u, k'', hr, hs', hpost⟩ := hgo k k' ⟨rfl, hk⟩ hs
    exact ⟨more, es', b, u, k'', hret hr, hs', hpost⟩
  · obtain ⟨input, es, b, t, k', hr, hs, hpost⟩ := (h (l.view s)).served s k ⟨rfl, hk⟩
    exact ⟨input, es, b, t, k', hret hr, hs, hpost⟩

end

-- ---------------------------------------------------------------------------
-- Waiting
-- ---------------------------------------------------------------------------

section
variable {l : Link σ τ κ ω ι} {P : τ → κ → Prop} {Q : ι → τ → κ → Prop} {m : EStateM ε σ ι} {p : ι → Bool}
  {w : ι → σ → σ} {ev : ι → ω} {s t : σ} {b : ι} {input rest : List ι}

theorem Polls.stay (h : Polls l m p w ev) (hp : p b = true) (hr : Returned l m (w b s) input rest es c t) :
    Returned l m s (b :: input) rest (ev b :: es) c t := by
  refine ⟨fun more => ?_, ?_⟩
  · rw [List.cons_append, h.run, if_pos hp]
    exact hr.run more
  · rw [hr.record, h.record, List.append_assoc]
    rfl

theorem Polls.stop (h : Polls l m p w ev) (hp : p b = false) :
    Returned l m s (b :: input) input [ev b] b (w b s) := by
  refine ⟨fun more => ?_, h.record s b⟩
  rw [List.cons_append, h.run, if_neg (by simp [hp])]

/-- The peer keeps the program waiting inside `P`, and can always end that. -/
theorem Meets.poll (h : Polls l m p w ev)
    (hstay : ∀ v k b k', P v k → l.step k (ev b) k' → p b = true → P v k')
    (hstop : ∀ v k b k', P v k → l.step k (ev b) k' → p b = false → Q b v k')
    (hcan : ∀ v k, P v k → ∃ b k', p b = false ∧ l.step k (ev b) k') : Meets l P m Q := by
  have hserved : ∀ s k, P (l.view s) k → ∃ b k', Returned l m s [b] [] [ev b] b (w b s) ∧
      Steps l.step k [ev b] k' ∧
      Q b (l.view (w b s)) k' := by
    intro s k hk
    obtain ⟨b, k', hp, hs⟩ := hcan _ k hk
    rw [← h.view s b] at hk
    exact ⟨b, k', h.stop hp, .cons hs .nil, hstop _ k b k' hk hs hp⟩
  refine ⟨fun s input => ?_, fun s input => ?_, fun s k hk => ?_⟩
  · -- every item but the last keeps the program waiting
    induction input generalizing s with
    | nil =>
      intro c t hrun
      obtain ⟨x, hx⟩ := h.wait s
      rw [hx] at hrun
      cases hrun
    | cons b bs ih =>
      intro c t hrun
      rw [h.run] at hrun
      by_cases hp : p b = true
      · rw [if_pos hp] at hrun
        obtain ⟨rest, es, ht, hr, hpost⟩ := ih (w b s) c t hrun
        refine ⟨rest, ev b :: es, ht, h.stay hp hr, fun k k' hk hs => ?_⟩
        cases hs with
        | cons hb hs => exact hpost _ k' (h.view s b ▸ hstay _ k b _ hk hb hp) hs
      · rw [if_neg hp] at hrun
        cases hrun
        have hp := Bool.eq_false_iff.mpr hp
        have hr : Returned l m s (b :: bs) bs [ev b] b (w b s) := h.stop hp
        refine ⟨bs, [ev b], (l.feed_feed ..).symm, ⟨fun more => ?_, by rw [l.record_feed, hr.record]⟩,
            fun k k' hk hs => ?_⟩
        · rw [l.feed_feed]
          exact hr.run more
        · rw [l.view_feed, h.view]
          exact hstop _ k b k' hk hs.single hp
  · induction input generalizing s with
    | nil =>
      intro x t hrun
      obtain ⟨y, hy⟩ := h.wait s
      rw [hy] at hrun
      cases hrun
      refine ⟨[], by rw [l.record_feed, List.append_nil], fun k k' hk hs => ?_⟩
      cases hs.nil_eq
      obtain ⟨b, k1, hr, hs1, hpost⟩ := hserved s k hk
      exact ⟨[b], [ev b], b, w b s, k1, hr, hs1, hpost⟩
    | cons b bs ih =>
      intro x t hrun
      rw [h.run] at hrun
      by_cases hp : p b = true
      · rw [if_pos hp] at hrun
        obtain ⟨es, hrec, hgo⟩ := ih (w b s) x t hrun
        refine ⟨ev b :: es, by rw [hrec, h.record, List.append_assoc]; rfl, fun k k' hk hs => ?_⟩
        cases hs with
        | cons hb hs =>
          obtain ⟨more, es', c, u, k'', hr, hs', hpost⟩ := hgo _ k' (h.view s b ▸ hstay _ k b _ hk hb hp) hs
          exact ⟨more, es', c, u, k'', h.stay hp hr, hs', hpost⟩
      · rw [if_neg hp] at hrun
        cases hrun
  · obtain ⟨b, k', hr, hs, hpost⟩ := hserved s k hk
    exact ⟨[b], [ev b], b, w b s, k', hr, hs, hpost⟩

end

-- ---------------------------------------------------------------------------
-- Repetition
-- ---------------------------------------------------------------------------

section
variable {l : Link σ τ κ ω ι} {P : Nat → τ → κ → Prop} {Q : τ → κ → Prop} {m : EStateM ε σ PUnit}
  {body : EStateM ε σ α}
  {p : α → Bool} {s t u : σ} {a : α} {b : PUnit} {input rest rest' : List ι}

theorem Returned.again (hm : m = body >>= fun a => if p a then m else Pure.pure ⟨⟩) (hp : p a = true)
    (h : Returned l body s input rest es a t) (h' : Returned l m t rest rest' es' b u) :
    Returned l m s input rest' (es ++ es') b u := by
  rw [hm]
  exact h.bind (by rw [if_pos hp]; exact h')

theorem Returned.last (hm : m = body >>= fun a => if p a then m else Pure.pure ⟨⟩) (hp : p a = false)
    (h : Returned l body s input rest es a t) : Returned l m s input rest es ⟨⟩ t := by
  rw [hm, ← List.append_nil es]
  exact h.bind ⟨fun _ => by rw [if_neg (by simp [hp])]; rfl, (List.append_nil _).symm⟩

/-- A loop whose rounds take input. `P w` measures how often the peer may still ask for another round. -/
theorem Meets.repeat (hm : m = body >>= fun a => if p a then m else Pure.pure ⟨⟩)
    (hbody : ∀ w, Meets l (P w) body fun a v k => p a = true ∧ (∃ w' < w, P w' v k) ∨ p a = false ∧ Q v k)
    (hless : ∀ {s input rest es a t}, Returned l body s input rest es a t → rest.length < input.length) :
    Meets l (fun v k => ∃ w, P w v k) m fun _ => Q := by
  have hround : Meets l (fun v k => ∃ w, P w v k) body fun a v k =>
      p a = true ∧ (∃ w, P w v k) ∨ p a = false ∧ Q v k :=
    .of_exists fun w => .mono (hbody w) (fun _ _ h => h) fun _ _ _ h =>
      h.imp (fun h => ⟨h.1, h.2.imp fun _ hw => hw.2⟩) id
  have hserved : ∀ w s k, P w (l.view s) k → ∃ input es a t k', Returned l m s input [] es a t ∧
      Steps l.step k es k' ∧ Q (l.view t) k' := by
    intro w
    induction w using Nat.strongRecOn with
    | ind w ih =>
      intro s k hk
      obtain ⟨input, es, a, t, k1, hr, hs, hpost⟩ := (hbody w).served s k hk
      rcases hpost with ⟨hp, w', hw', hk1⟩ | ⟨hp, hQ⟩
      · obtain ⟨input', es', b, u, k2, hr', hs', hQ⟩ := ih w' hw' t k1 hk1
        exact ⟨input ++ input', es ++ es', b, u, k2, (hr.more input').again hm hp hr', hs.append hs', hQ⟩
      · exact ⟨input, es, ⟨⟩, t, k1, hr.last hm hp, hs, hQ⟩
  refine ⟨fun s input => ?_, fun s input => ?_, fun s k ⟨w, hk⟩ => hserved w s k hk⟩
  · induction hn : input.length using Nat.strongRecOn generalizing s input with
    | ind n ih =>
      intro b u hrun
      cases hfirst : body (l.feed s input) with
      | error x t =>
        rw [hm] at hrun
        simp only [Bind.bind, EStateM.bind, hfirst] at hrun
        cases hrun
      | ok a t =>
        obtain ⟨rest, es, ht, hr, hpost⟩ := hround.safe s input a t hfirst
        rw [hm] at hrun
        simp only [Bind.bind, EStateM.bind, hfirst] at hrun
        by_cases hp : p a = true
        · rw [if_pos hp, ht] at hrun
          obtain ⟨rest', es', hu, hr', hQ⟩ := ih _ (hn ▸ hless hr) t rest rfl b u hrun
          refine ⟨rest', es ++ es', hu, hr.again hm hp hr', fun k k' hk hs => ?_⟩
          obtain ⟨k1, h1, h2⟩ := hs.split
          rcases hpost k k1 hk h1 with ⟨-, hk1⟩ | ⟨hp', -⟩
          · exact hQ k1 k' hk1 h2
          · rw [hp] at hp'
            cases hp'
        · rw [if_neg hp] at hrun
          cases hrun
          have hp := Bool.eq_false_iff.mpr hp
          refine ⟨rest, es, ht, hr.last hm hp, fun k k' hk hs => ?_⟩
          rcases hpost k k' hk hs with ⟨hp', -⟩ | ⟨-, hQ⟩
          · rw [hp] at hp'
            cases hp'
          · exact hQ
  · induction hn : input.length using Nat.strongRecOn generalizing s input with
    | ind n ih =>
      intro x u hrun
      cases hfirst : body (l.feed s input) with
      | error y t =>
        rw [hm] at hrun
        simp only [Bind.bind, EStateM.bind, hfirst] at hrun
        cases hrun
        obtain ⟨es, hrec, hgo⟩ := hround.live s input x u hfirst
        refine ⟨es, hrec, fun k k' hk hs => ?_⟩
        obtain ⟨more, es1, a, t, k1, hr, hs1, hpost⟩ := hgo k k' hk hs
        rcases hpost with ⟨hp, w, hk1⟩ | ⟨hp, hQ⟩
        · obtain ⟨more', es2, b, u, k2, hr', hs2, hQ⟩ := hserved w t k1 hk1
          refine ⟨more ++ more', es1 ++ es2, b, u, k2, ?_, hs1.append hs2, hQ⟩
          rw [← List.append_assoc, ← List.append_assoc]
          exact (hr.more more').again hm hp hr'
        · exact ⟨more, es1, ⟨⟩, t, k1, hr.last hm hp, hs1, hQ⟩
      | ok a t =>
        obtain ⟨rest, es, ht, hr, hpost⟩ := hround.safe s input a t hfirst
        rw [hm] at hrun
        simp only [Bind.bind, EStateM.bind, hfirst] at hrun
        by_cases hp : p a = true
        · rw [if_pos hp, ht] at hrun
          obtain ⟨es', hrec, hgo⟩ := ih _ (hn ▸ hless hr) t rest rfl x u hrun
          refine ⟨es ++ es', by rw [hrec, hr.record, List.append_assoc], fun k k' hk hs => ?_⟩
          obtain ⟨k1, h1, h2⟩ := hs.split
          rcases hpost k k1 hk h1 with ⟨-, hk1⟩ | ⟨hp', -⟩
          · obtain ⟨more, es2, b, u, k2, hr', hs2, hQ⟩ := hgo k1 k' hk1 h2
            refine ⟨more, es2, b, u, k2, ?_, hs2, hQ⟩
            rw [List.append_assoc]
            exact (hr.more more).again hm hp hr'
          · rw [hp] at hp'
            cases hp'
        · rw [if_neg hp] at hrun
          cases hrun

end

end Dialogue
