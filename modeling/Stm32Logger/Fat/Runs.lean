import Stm32Logger.Fat.Slot

/-!
# Runs of calls

The store called again and again, and what the writes the card took on the way
did to the file in a slot.
-/

namespace Stm32Logger

def runAll (f : α → StoreM Unit) : List α → StoreM Unit
  | [] => pure ()
  | c :: cs => do
    f c
    runAll f cs

/-- Every call of the run starts in a state that satisfies `p`. -/
def Along (f : α → StoreM Unit) (p : SdStore → α → Prop) : List α → SdStore → Prop
  | [], _ => True
  | c :: cs, s => p s c ∧ ∀ t, f c s = .ok ⟨⟩ t → Along f p cs t

section
variable {f : α → StoreM Unit} {p : SdStore → α → Prop} {cs : List α} {s t u : SdStore}

theorem runAll_cons (h : f c s = .ok ⟨⟩ t) (h' : runAll f cs t = .ok ⟨⟩ u) :
    runAll f (c :: cs) s = .ok ⟨⟩ u := by
  rw [runAll, bind_ok h, h']

theorem runAll_inv (h : runAll f (c :: cs) s = .ok ⟨⟩ u) :
    ∃ t, f c s = .ok ⟨⟩ t ∧ runAll f cs t = .ok ⟨⟩ u := by
  rw [runAll] at h
  cases hrun : f c s with
  | ok a t =>
    rw [bind_ok hrun] at h
    exact ⟨t, rfl, h⟩
  | error e t =>
    rw [bind_error hrun] at h
    cases h

theorem runAll_append (h : runAll f cs s = .ok ⟨⟩ t) (h' : runAll f ds t = .ok ⟨⟩ u) :
    runAll f (cs ++ ds) s = .ok ⟨⟩ u := by
  induction cs generalizing s with
  | nil =>
    cases h
    exact h'
  | cons c' cs ih =>
    obtain ⟨v, h1, h2⟩ := runAll_inv h
    exact runAll_cons h1 (ih h2)

theorem runAll_concat (h : runAll f cs s = .ok ⟨⟩ t) (h' : f c t = .ok ⟨⟩ u) :
    runAll f (cs ++ [c]) s = .ok ⟨⟩ u := runAll_append h (runAll_cons h' rfl)

def stateAfter (m : StoreM Unit) (s : SdStore) (look : SdStore → β) : Option β :=
  match m s with
  | .ok _ t => some (look t)
  | .error _ _ => none

theorem stateAfter_ok (look : SdStore → β) (h : m s = .ok ⟨⟩ t) :
    stateAfter m s look = some (look t) := by
  rw [stateAfter, h]

theorem Along.take (h : Along f p cs s) (k : Nat) : Along f p (cs.take k) s := by
  induction cs generalizing s k with
  | nil => rwa [List.take_nil]
  | cons c cs ih =>
    cases k with
    | zero => trivial
    | succ k => exact ⟨h.1, fun t ht => ih (h.2 t ht) k⟩

theorem Along.append (h : Along f p (cs ++ ds) s) :
    Along f p cs s ∧ ∀ t, runAll f cs s = .ok ⟨⟩ t → Along f p ds t := by
  induction cs generalizing s with
  | nil =>
    refine ⟨trivial, fun t ht => ?_⟩
    cases ht
    exact h
  | cons c cs ih =>
    refine ⟨⟨h.1, fun t ht => (ih (h.2 t ht)).1⟩, fun t ht => ?_⟩
    obtain ⟨u, h1, h2⟩ := runAll_inv ht
    exact (ih (h.2 u h1)).2 t h2

theorem Along.at (h : Along f p cs s) (hk : k < cs.length)
    (ht : runAll f (cs.take k) s = .ok ⟨⟩ t) : p t cs[k] := by
  induction cs generalizing s k with
  | nil => exact absurd hk (Nat.not_lt_zero k)
  | cons c cs ih =>
    cases k with
    | zero =>
      cases ht
      exact h.1
    | succ k =>
      obtain ⟨u, h1, h2⟩ := runAll_inv ht
      exact ih (h.2 u h1) (Nat.lt_of_succ_lt_succ hk) h2

end

-- ---------------------------------------------------------------------------
-- The images a card goes through
-- ---------------------------------------------------------------------------

/-- The bytes of the file in slot `e` on a card's image are still there on another. -/
def Extends (v : FatVolHandle) (p : MbrPartition) (e : Slot) (img img' : Nat → Sector) : Prop :=
  ∀ log, readFile v (p.view img) e = some log →
    ∃ log', readFile v (p.view img') e = some log' ∧ log <+: log'

/-- The writes between two states, every one of which kept the bytes of the file. -/
def KeptOn (v : FatVolHandle) (e : Slot) (s t : FatState) : Prop :=
  ∃ ws, t.card.writes = s.card.writes ++ ws ∧ t.card.image = WriteLog.replay s.card.image ws ∧
    WriteLog.Steps (Extends v s.part e) s.card.image ws

def Reads (v : FatVolHandle) (e : Slot) (log : List UInt8) (d : Disk) : Prop :=
  readFile v d e = some log

/-- What the file in slot `e` reads as on the card is a beginning of `log`. -/
def FatState.Behind (s : FatState) (v : FatVolHandle) (e : Slot) (log : List UInt8) : Prop :=
  ∀ log', readFile v s.stored e = some log' → log' <+: log

variable {v : FatVolHandle} {e : Slot} {log log' : List UInt8} {s t u : FatState}

theorem Extends.refl (v : FatVolHandle) (p : MbrPartition) (e : Slot) (img : Nat → Sector) :
    Extends v p e img img := fun log h => ⟨log, h, List.prefix_rfl⟩

theorem Extends.trans (h : Extends v p e i j) (h' : Extends v p e j k) : Extends v p e i k := by
  intro log hl
  obtain ⟨log1, h1, hp1⟩ := h log hl
  obtain ⟨log2, h2, hp2⟩ := h' log1 h1
  exact ⟨log2, h2, hp1.trans hp2⟩

theorem KeptOn.refl (v : FatVolHandle) (e : Slot) (s : FatState) : KeptOn v e s s :=
  ⟨[], by simp, rfl, trivial⟩

theorem KeptOn.trans (h : KeptOn v e s t) (hp : t.part = s.part) (h' : KeptOn v e t u) :
    KeptOn v e s u := by
  obtain ⟨ws, hw, hi, hs⟩ := h
  obtain ⟨ws', hw', hi', hs'⟩ := h'
  refine ⟨ws ++ ws', by rw [hw', hw, List.append_assoc], ?_, ?_⟩
  · rw [hi', hi, WriteLog.replay_append]
  · rw [hi, hp] at hs'
    exact WriteLog.steps_append hs hs'

theorem Ran.keptOn (h : Ran (Reads v e log) s t) (hb : s.Behind v e log) :
    KeptOn v e s t ∧ t.Behind v e log := by
  obtain ⟨ws, hw, hi, hc⟩ := h.writes
  have hsteps : WriteLog.Steps (Extends v s.part e) s.card.image ws := by
    refine hc.steps (fun i h log' hl => ⟨log, h, hb log' hl⟩) fun i j h h' log' hl => ?_
    have : log = log' := Option.some.inj (h.symm.trans hl)
    exact ⟨log, h', this ▸ List.prefix_rfl⟩
  refine ⟨⟨ws, hw, hi, hsteps⟩, ?_⟩
  have hend := (hc.mono (Q := fun i => ∀ log', readFile v (s.part.view i) e = some log' → log' <+: log)
    fun i h log' hl => Option.some.inj (h.symm.trans hl) ▸ List.prefix_rfl).take hb ws.length
  rw [List.take_length, ← hi] at hend
  rw [FatState.Behind, FatState.stored, h.part]
  exact hend

theorem RanThen.keptOn (h : RanThen (Reads v e log) (Reads v e log') s t) (hb : s.Behind v e log)
    (hp : log <+: log') : KeptOn v e s t ∧ t.Behind v e log' := by
  obtain ⟨u, h1, h2⟩ := h
  obtain ⟨hk, hb'⟩ := h1.keptOn hb
  obtain ⟨hk', hb''⟩ := h2.keptOn fun l hl => (hb' l hl).trans hp
  exact ⟨hk.trans h1.part hk', hb''⟩

end Stm32Logger
