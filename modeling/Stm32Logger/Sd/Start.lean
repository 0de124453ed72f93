import Stm32Logger.Sd.BlockDevice
import Stm32Logger.Sd.Ends

/-!
# Starting a card

`sdDrvInit` against a card of each kind: it gets the card out of its idle
state, and takes it for what it is.
-/

namespace Stm32Logger.Sd

open Dialogue

variable {c : SpiCard} {v : Kept} {st : Store} {P : SpiCard.State → Prop} {arg w : Nat} {mem : Nat → Sector}

-- ---------------------------------------------------------------------------
-- The loop of the detection
-- ---------------------------------------------------------------------------

theorem sdDrvCommand_takes {s t : Driver} (h : sdDrvCommand cmd arg s = .ok ret t) (harg : arg < 2 ^ 32) :
    t.rx.length < s.rx.length := by
  obtain ⟨-, -, -, hans, -⟩ := sdDrvCommand_ok h harg
  have hlen := (commandAnswered_sublist cmd s.rx).length_le
  rw [hans, List.length_cons] at hlen
  exact hlen

theorem leaveIdleLoop_fuel (cmd : UInt8) (harg : arg < 2 ^ 32) {s : Driver} {fuel : Nat}
    (h : s.rx.length < fuel) :
    leaveIdleLoop cmd arg fuel s = leaveIdle cmd arg s := by
  rw [leaveIdle, get_bind]
  induction fuel using Nat.strongRecOn generalizing s with
  | ind fuel ih =>
    obtain ⟨fuel, rfl⟩ := Nat.exists_eq_add_one_of_ne_zero (Nat.ne_of_gt (Nat.zero_lt_of_lt h))
    rw [leaveIdleLoop, leaveIdleLoop]
    cases hrun : sdDrvCommand cmd arg s with
    | error e t => rw [bind_error hrun, bind_error hrun]
    | ok ret t =>
      rw [bind_ok hrun, bind_ok hrun]
      have hless := sdDrvCommand_takes hrun harg
      by_cases hret : ret ≠ 0
      · rw [if_pos hret, if_pos hret,
          ih fuel (Nat.lt_succ_self fuel) (Nat.lt_of_lt_of_le hless (Nat.le_of_lt_succ h))]
        exact (ih _ h hless).symm
      · rw [if_neg hret, if_neg hret]

theorem leaveIdle_eq (cmd : UInt8) (harg : arg < 2 ^ 32) :
    leaveIdle cmd arg = sdDrvCommand cmd arg >>= fun ret =>
      if decide (ret ≠ 0) then leaveIdle cmd arg else pure ⟨⟩ := by
  funext s
  rw [leaveIdle, get_bind, leaveIdleLoop]
  cases hrun : sdDrvCommand cmd arg s with
  | error e t => rw [bind_error hrun, bind_error hrun]
  | ok ret t =>
    rw [bind_ok hrun, bind_ok hrun]
    by_cases hret : ret ≠ 0
    · rw [if_pos hret, if_pos (decide_eq_true hret)]
      exact leaveIdleLoop_fuel cmd harg (sdDrvCommand_takes hrun harg)
    · rw [if_neg hret, if_neg (by simpa using hret)]

-- ---------------------------------------------------------------------------
-- Commands of the detection
-- ---------------------------------------------------------------------------

theorem keep_meets (f : Kept → Kept) {g : Driver → Driver} (hg : ∀ s rx, g { s with rx } = { g s with rx })
    (hview : ∀ s, (g s).kept = f s.kept) (htrace : ∀ s, (g s).trace = s.trace) :
    Meets c.link (Sees v P) (modify g : SpiM PUnit) fun _ => Sees (f v) P := by
  refine .change f hg hview htrace ?_
  rintro v' k ⟨rfl, hk⟩
  exact ⟨rfl, hk⟩

theorem setStatus_meets (x : Int) :
    Meets c.link (Sees v P) (setStatus x) fun _ => Sees { v with sdStatus := x } P :=
  keep_meets (fun v => { v with sdStatus := x }) (fun _ _ => rfl) (fun _ => rfl) fun _ => rfl

theorem setType_meets (x : Int) : Meets c.link (Sees v P) (setType x) fun _ => Sees { v with sdType := x } P :=
  keep_meets (fun v => { v with sdType := x }) (fun _ _ => rfl) (fun _ => rfl) fun _ => rfl

theorem setCardType_meets (x : UInt8) :
    Meets c.link (Sees v P) (setCardType x) fun _ => Sees { v with cardType := x } P :=
  keep_meets (fun v => { v with cardType := x }) (fun _ _ => rfl) (fun _ => rfl) fun _ => rfl

theorem fill_meets (n : Nat) :
    Meets c.link (Sees v (Rests st)) (sdSPIWriteBuffer (List.replicate n 0xFF)) fun _ => Sees v (Rests st) := by
  have hff : ∀ {done : List UInt8} {b}, (done ++ [b]) <+: List.replicate n 0xFF → b = 0xFF := fun h =>
    List.eq_of_mem_replicate (h.subset (List.mem_append_right _ (List.mem_singleton_self _)))
  refine writeBuffer_meets (P := fun _ => Rests st) [] _ ?_ ?_ rfl
  · rintro done b h k g k' ⟨rfl, hph⟩ hs
    obtain rfl := hff h
    cases hs with
    | apart => exact ⟨rfl, hph⟩
    | done => exact ⟨rfl, .inr rfl⟩
    | byte hr =>
      dsimp only at hph
      rcases hph with rfl | rfl
      · cases hr with
        | busy => exact ⟨rfl, .inl rfl⟩
        | done => exact ⟨rfl, .inr rfl⟩
      · cases hr with
        | listen => exact ⟨rfl, .inr rfl⟩
        | start h => exact absurd h (by decide)
  · rintro done b h ⟨ph, st, low⟩ ⟨rfl, hph⟩
    obtain rfl := hff h
    dsimp only at hph
    cases low with
    | false => exact ⟨0xFF, _, .apart⟩
    | true =>
      rcases hph with rfl | rfl
      · exact ⟨0, _, .byte .busy⟩
      · exact ⟨0xFF, _, .byte (.listen (by decide))⟩

def WokenBy (st : Store) (w : Nat) : Store := { st with idle := true, app := false, warmUp := w }

theorem goIdle_meets : Meets c.link (Sees v (Rests st)) (sdDrvCommand SD_CMD0 0) fun ret v' k =>
    ret = 1 ∧ ∃ w, Sees v (At .ready (WokenBy st w)) v' k := by
  have hcan : ∃ ret ph st', c.Answers st (SD_CMD0.toNat % 64) (u32 0) ret ph st' :=
    ⟨1, .ready, WokenBy st 0, .goIdle⟩
  refine .mono (command_meets SD_CMD0 (by decide) 0 hcan) (fun _ _ h => h) ?_
  rintro ret v' k ⟨hv, ph, st', h, hk⟩
  cases h with
  | goIdle => exact ⟨rfl, _, hv, hk⟩
  | working h => exact absurd (opCond_index h) (by decide)
  | awake h => exact absurd (opCond_index h) (by decide)
  | refused h => exact absurd h (by decide)
  | illegal h => exact absurd h (by decide)

theorem ifCond_meets (h8 : c.Knows 8) (hidle : st.idle = true) :
    Meets c.link (Sees v (Rests st)) (sdDrvCommand SD_CMD8 0x1AA) fun ret v' k =>
      ret = 1 ∧ Sees v (At (.after [0, 0, 0x01, 0xAA]) st.noApp) v' k := by
  have hr1 : st.r1 = 1 := by rw [Store.r1, hidle]; rfl
  refine .mono (command_meets SD_CMD8 (by decide) 0x1AA ⟨_, _, _, .ifCond h8⟩) (fun _ _ h => h) ?_
  rintro ret v' k ⟨hv, ph, st', h, hk⟩
  cases h with
  | ifCond => exact ⟨hr1, hv, hk⟩
  | working h => exact absurd (opCond_index h) (by decide)
  | awake h => exact absurd (opCond_index h) (by decide)
  | refused h => exact absurd h (by decide)
  | illegal _ h => exact absurd h8 h

theorem illegal_answer {ret : UInt8} (h : ret &&& 0x84 = 0x04) : ret ≠ 1 ∧ ret > 1 := by
  have hall : ∀ b : BitVec 8, UInt8.ofBitVec b &&& 0x84 = 0x04 → UInt8.ofBitVec b ≠ 1 ∧ UInt8.ofBitVec b > 1 :=
      by decide
  exact hall ret.toBitVec h

theorem noIfCond_meets (h8 : ¬ c.Knows 8) :
    Meets c.link (Sees v (Rests st)) (sdDrvCommand SD_CMD8 0x1AA) fun ret v' k =>
      ret ≠ 1 ∧ Sees v (At .ready st.noApp) v' k := by
  have hcan : c.Answers st 8 (u32 0x1AA) 0x04 .ready st.noApp := .illegal (.inl rfl) h8 rfl
  refine .mono (command_meets SD_CMD8 (by decide) 0x1AA ⟨_, _, _, hcan⟩) (fun _ _ h => h) ?_
  rintro ret v' k ⟨hv, ph, st', h, hk⟩
  cases h with
  | ifCond h => exact absurd h h8
  | working h => exact absurd (opCond_index h) (by decide)
  | awake h => exact absurd (opCond_index h) (by decide)
  | refused h => exact absurd h (by decide)
  | illegal _ _ h => exact ⟨(illegal_answer h).1, hv, hk⟩

def OpAnswer (st : Store) (ret : UInt8) (st' : Store) : Prop :=
  (∃ w, st.warmUp = w + 1 ∧ ret = 1 ∧ st' = { st with app := false, warmUp := w }) ∨
    st.warmUp = 0 ∧ ret = 0 ∧ st' = { st with idle := false, app := false }

def CardKind.opCommand (kind : CardKind) : UInt8 := if kind = .mmc then SD_CMD1 else SD_ACMD41

/-- The idle bit goes with the rounds that are left. -/
def Store.Warming (st : Store) : Prop := st.warmUp ≠ 0 → st.idle = true

theorem Answered.opCond (hop : c.OpCond st index) (h : Answered c st index arg ret k) :
    ∃ st', OpAnswer st ret st' ∧ At .ready st' k := by
  obtain ⟨ph, st', h, hk⟩ := h
  rcases opCond_index hop with rfl | rfl
  · cases h with
    | working _ _ hw => exact ⟨_, .inl ⟨_, hw, rfl, rfl⟩, hk⟩
    | awake _ hw => exact ⟨_, .inr ⟨hw, rfl, rfl⟩, hk⟩
    | refused h => exact absurd h (by decide)
    | illegal h => exact absurd h (by decide)
  · cases h with
    | working _ _ hw => exact ⟨_, .inl ⟨_, hw, rfl, rfl⟩, hk⟩
    | awake _ hw => exact ⟨_, .inr ⟨hw, rfl, rfl⟩, hk⟩
    | refused h => exact absurd h (by decide)
    | illegal _ h =>
      refine absurd (fun hmmc => ?_) h
      rw [SpiCard.OpCond, if_pos hmmc] at hop
      exact absurd hop (by decide)

theorem opCond_can (hop : c.OpCond st index) (hw : st.Warming) (hhcs : c.kind = .sdhc → arg.testBit 30 = true) :
    ∃ ret ph st', c.Answers st index arg ret ph st' := by
  cases h : st.warmUp with
  | zero => exact ⟨_, _, _, .awake hop h hhcs⟩
  | succ w => exact ⟨_, _, _, .working hop (hw (by rw [h]; exact Nat.succ_ne_zero w)) h⟩

theorem opCond_meets (hw : st.Warming) (hhcs : c.kind = .sdhc → (u32 arg).testBit 30 = true) :
    Meets c.link (Sees v (Rests st)) (sdDrvCommand c.kind.opCommand arg) fun ret v' k =>
      ∃ st', OpAnswer st ret st' ∧ Sees v (At .ready st') v' k := by
  rw [CardKind.opCommand]
  by_cases hk : c.kind = .mmc
  · rw [if_pos hk]
    have hop : c.OpCond st 1 := by rw [SpiCard.OpCond, if_pos hk]
    refine .mono (command_meets SD_CMD1 (by decide) arg (opCond_can hop hw hhcs)) (fun _ _ h => h) ?_
    rintro ret v' k ⟨hv, h⟩
    obtain ⟨st', ha, hk⟩ := h.opCond hop
    exact ⟨st', ha, hv, hk⟩
  · rw [if_neg hk, sdDrvCommand, if_pos (by decide)]
    have h55 : c.Knows 55 := by rwa [SpiCard.Knows, if_neg (by decide)]
    refine .bind (sendFrame_meets SD_CMD55 0 ⟨_, _, _, .app h55⟩) fun ret => ?_
    have happ : ∀ k, Answered c st (SD_CMD55.toNat % 64) (u32 0) ret k → ¬ ret > 1 ∧
      At .ready { st with app := true } k := by
      rintro k ⟨ph, st', h, hk⟩
      cases h with
      | app =>
        refine ⟨?_, hk⟩
        rw [Store.r1]
        split <;> decide
      | working h => exact absurd (opCond_index h) (by decide)
      | awake h => exact absurd (opCond_index h) (by decide)
      | refused h => exact absurd h (by decide)
      | illegal _ h => exact absurd h55 h
    by_cases hret : ret > 1
    · rw [if_pos hret]
      exact .pure ret fun v' k hk => absurd hret (happ k hk.2).1
    · rw [if_neg hret]
      have hop : c.OpCond { st with app := true } 41 := by rw [SpiCard.OpCond, if_neg hk]; exact ⟨rfl, rfl⟩
      refine .mono (sendFrame_meets (v := v) SD_ACMD41 arg (opCond_can hop hw hhcs))
        (fun v' k hk => ⟨hk.1, (happ k hk.2).2.rests⟩) ?_
      rintro ret v' k ⟨hv, h⟩
      obtain ⟨st', ha, hk⟩ := h.opCond hop
      exact ⟨st', ha, hv, hk⟩

theorem noOpCond_meets (hk : c.kind = .mmc) (arg : Nat) :
    Meets c.link (Sees v (Rests st)) (sdDrvCommand SD_ACMD41 arg) fun ret v' k =>
      ret > 1 ∧ Sees v (At .ready st.noApp) v' k := by
  have h55 : ¬ c.Knows 55 := by
    rw [SpiCard.Knows, if_neg (by decide)]
    exact fun h => h hk
  have hcan : c.Answers st 55 (u32 0) 0x04 .ready st.noApp := .illegal (.inr (.inr rfl)) h55 rfl
  have h : ∀ ret k, Answered c st (SD_CMD55.toNat % 64) (u32 0) ret k → ret > 1 ∧ At .ready st.noApp k := by
    rintro ret k ⟨ph, st', h, hk⟩
    cases h with
    | app h => exact absurd h h55
    | working h => exact absurd (opCond_index h) (by decide)
    | awake h => exact absurd (opCond_index h) (by decide)
    | refused h => exact absurd h (by decide)
    | illegal _ _ h => exact ⟨(illegal_answer h).2, hk⟩
  rw [sdDrvCommand, if_pos (by decide)]
  refine .bind (sendFrame_meets SD_CMD55 0 ⟨_, _, _, hcan⟩) fun ret => ?_
  by_cases hret : ret > 1
  · rw [if_pos hret]
    exact .pure ret fun v' k hk => ⟨hret, hk.1, (h ret k hk.2).2⟩
  · rw [if_neg hret]
    have hother : ({ c with kind := .sdV1 } : SpiCard).OpCond { st with app := true, warmUp := 0 } 41 :=
      ⟨rfl, rfl⟩
    have hsend := sendFrame_meets (v := v) SD_ACMD41 arg (opCond_can hother (fun h => absurd rfl h) fun h =>
        absurd h (by simp))
    exact .never hsend fun v' k hk => hret (h ret k hk.2).1

/-- A card on its way out of the idle state, with `w` rounds left. -/
structure OnItsWay (mem : Nat → Sector) (w : Nat) (k : SpiCard.State) : Prop where
  mem : k.store.mem = mem
  left : k.store.warmUp = w
  warming : k.store.Warming
  rests : Rests k.store k

structure Awake (mem : Nat → Sector) (k : SpiCard.State) : Prop where
  mem : k.store.mem = mem
  idle : k.store.idle = false
  rests : Rests k.store k

theorem OpAnswer.next (ha : OpAnswer st ret st') (hw : st.Warming) (hk : At .ready st' k) :
    ret ≠ 0 ∧ (∃ w, w < st.warmUp ∧ OnItsWay st.mem w k) ∨ ret = 0 ∧ Awake st.mem k := by
  rcases ha with ⟨w, hleft, rfl, rfl⟩ | ⟨-, rfl, rfl⟩
  · refine .inl ⟨by decide, w, by omega, ?_⟩
    cases hk
    exact ⟨rfl, rfl, fun _ => hw (by omega), rfl, .inr rfl⟩
  · cases hk
    exact .inr ⟨rfl, rfl, rfl, rfl, .inr rfl⟩

theorem leaveIdle_meets (harg : arg < 2 ^ 32) (hhcs : c.kind = .sdhc → arg.testBit 30 = true) :
    Meets c.link (fun v' k => ∃ w, Sees v (OnItsWay mem w) v' k) (leaveIdle c.kind.opCommand arg) fun _ =>
      Sees v (Awake mem) := by
  have hround : ∀ w (st : Store), Meets c.link
      (fun v' k => (st.mem = mem ∧ st.warmUp = w ∧ st.Warming) ∧ Sees v (Rests st) v' k)
      (sdDrvCommand c.kind.opCommand arg) fun ret v' k =>
        decide (ret ≠ 0) = true ∧ (∃ w' < w, Sees v (OnItsWay mem w') v' k) ∨ decide (ret ≠ 0) = false ∧
            Sees v (Awake mem) v' k := by
    intro w st
    by_cases hw : st.Warming
    · refine .mono (.keep (opCond_meets hw (by rwa [u32, Nat.mod_eq_of_lt harg]))) (fun _ _ h => h) ?_
      rintro ret v' k ⟨⟨rfl, rfl, -⟩, st', ha, hv, hk⟩
      rcases ha.next hw hk with ⟨hret, w', hlt, hon⟩ | ⟨hret, hawake⟩
      · exact .inl ⟨decide_eq_true hret, w', hlt, hv, hon⟩
      · exact .inr ⟨decide_eq_false (not_not.mpr hret), hv, hawake⟩
    · have hother : Store.Warming { st with warmUp := 0 } := fun h => absurd rfl h
      exact .never (opCond_meets (v := v) hother (by rwa [u32, Nat.mod_eq_of_lt harg])) fun v' k hk =>
        hw hk.1.2.2
  refine .repeat (leaveIdle_eq _ harg) (fun w => .mono (.of_exists (hround w)) ?_ fun _ _ _ h => h) ?_
  · rintro v' k ⟨hv, hk⟩
    exact ⟨k.store, ⟨hk.mem, hk.left, hk.warming⟩, hv, hk.rests⟩
  · intro s input rest es ret t hr
    have hrun := hr.run []
    rw [List.append_nil, List.append_nil] at hrun
    exact sdDrvCommand_takes hrun harg

theorem ocr_meets (hidle : st.idle = false) :
    Meets c.link (Sees v (Rests st)) (sdDrvCommand SD_CMD58 0) fun ret v' k =>
      ret = 0 ∧ ∃ ocr : UInt8 × UInt8 × UInt8 × UInt8, (ocr.1 &&& 0x40 ≠ 0 ↔ c.kind = .sdhc) ∧
        Sees v (At (.after [ocr.1, ocr.2.1, ocr.2.2.1, ocr.2.2.2]) st.noApp) v' k := by
  have hr1 : st.r1 = 0 := by rw [Store.r1, hidle]; rfl
  have hcan : ∃ ccs : UInt8, st.idle = false → (ccs &&& 0x40 ≠ 0 ↔ c.kind = .sdhc) := by
    by_cases hk : c.kind = .sdhc
    · exact ⟨0x40, fun _ => iff_of_true (by decide) hk⟩
    · exact ⟨0, fun _ => iff_of_false (by decide) hk⟩
  obtain ⟨ccs, hccs⟩ := hcan
  have hans : c.Answers st 58 (u32 0) st.r1 (.after [ccs, 0, 0, 0]) st.noApp := .ocr hccs
  refine .mono (command_meets SD_CMD58 (by decide) 0 ⟨_, _, _, hans⟩) (fun _ _ h => h) ?_
  rintro ret v' k ⟨hv, ph, st', h, hk⟩
  cases h with
  | ocr hccs => exact ⟨hr1, (_, _, _, _), hccs hidle, hv, hk⟩
  | working h => exact absurd (opCond_index h) (by decide)
  | awake h => exact absurd (opCond_index h) (by decide)
  | refused h => exact absurd h (by decide)
  | illegal h => exact absurd h (by decide)

theorem blockLength_meets (hidle : st.idle = false) :
    Meets c.link (Sees v (Rests st)) (sdDrvCommand SD_CMD16 512) fun ret v' k =>
      ret = 0 ∧ Sees v (At .ready st.noApp) v' k := by
  refine .mono (command_meets SD_CMD16 (by decide) 512 ⟨_, _, _, .blockLength hidle⟩) (fun _ _ h => h) ?_
  rintro ret v' k ⟨hv, ph, st', h, hk⟩
  cases h with
  | blockLength => exact ⟨rfl, hv, hk⟩
  | working h => exact absurd (opCond_index h) (by decide)
  | awake h => exact absurd (opCond_index h) (by decide)
  | refused h => exact absurd h (by decide)
  | illegal h => exact absurd h (by decide)

-- ---------------------------------------------------------------------------
-- The detection
-- ---------------------------------------------------------------------------

def CardKind.cardType : CardKind → UInt8
  | .mmc => CT_MMC
  | .sdV1 => CT_SD1
  | .sdV2 => CT_SD2
  | .sdhc => CT_SD2 ||| CT_BLOCK

theorem CardKind.cardType_ne_zero (kind : CardKind) : kind.cardType ≠ 0 := by
  cases kind <;> decide

def CardKind.sdType : CardKind → Int
  | .mmc => 3
  | .sdV1 => 2
  | .sdV2 => 1
  | .sdhc => 1

def Kept.found (v : Kept) (kind : CardKind) : Kept := ⟨v.dest, kind.cardType, 1, kind.sdType⟩

theorem awake_meets {α : Type} {m : SpiM α} {Q : α → Kept → SpiCard.State → Prop}
    (h : ∀ st, st.mem = mem → st.idle = false → Meets c.link (Sees v (Rests st)) m Q) :
    Meets c.link (Sees v (Awake mem)) m Q := by
  have hst : ∀ st : {st : Store // st.mem = mem ∧ st.idle = false}, Meets c.link (Sees v (Rests st.val)) m Q :=
    fun st => h st.val st.property.1 st.property.2
  have : Nonempty {st : Store // st.mem = mem ∧ st.idle = false} := ⟨⟨mem, false, false, 0⟩, rfl, rfl⟩
  exact .mono (.of_exists hst) (fun v k hk => ⟨⟨k.store, hk.2.mem, hk.2.idle⟩, hk.1, hk.2.rests⟩) fun _ _ _ h =>
    h

theorem At.awake (h : At .ready st k) (hmem : st.mem = mem) (hidle : st.idle = false) : Awake mem k := by
  cases h
  exact ⟨hmem, hidle, rfl, .inr rfl⟩

theorem At.onItsWay (h : At .ready st k) (hw : st.Warming) : OnItsWay st.mem st.warmUp k := by
  cases h
  exact ⟨rfl, rfl, hw, rfl, .inr rfl⟩

theorem readCcs_meets (v : Kept) (st : Store) (ocr : UInt8 × UInt8 × UInt8 × UInt8) :
    Meets c.link (Sees v (At (.after [ocr.1, ocr.2.1, ocr.2.2.1, ocr.2.2.2]) st))
      (do
        let ocr ← sdSPIReadBuffer 4
        setCardType (if ocr.getD 0 0 &&& 0x40 ≠ 0 then CT_SD2 ||| CT_BLOCK else CT_SD2))
      fun _ => Sees { v with cardType := if ocr.1 &&& 0x40 ≠ 0 then CT_SD2 ||| CT_BLOCK else CT_SD2 }
          (At .ready st) := by
  refine .bind (readBuffer_meets [ocr.1, ocr.2.1, ocr.2.2.1, ocr.2.2.2] []) fun got => ?_
  refine .mono (.keep (φ := got = [ocr.1, ocr.2.1, ocr.2.2.1, ocr.2.2.2]) (setCardType_meets _))
    (fun v' k hk => ⟨hk.2.1, hk.1, hk.2.2⟩) ?_
  rintro _ v' k ⟨rfl, h⟩
  exact h

theorem ccs_cardType {kind : CardKind} {ccs : UInt8} (h : kind = .sdV2 ∨ kind = .sdhc)
    (hccs : ccs &&& 0x40 ≠ 0 ↔ kind = .sdhc) :
    (if ccs &&& 0x40 ≠ 0 then CT_SD2 ||| CT_BLOCK else CT_SD2) = kind.cardType := by
  rcases h with rfl | rfl
  · rw [if_neg fun h => absurd (hccs.mp h) (by simp)]
    rfl
  · rw [if_pos (hccs.mpr rfl)]
    rfl

theorem detectV2_meets (h8 : c.Knows 8) (hw : st.Warming) :
    Meets c.link (Sees v (At (.after [0, 0, 0x01, 0xAA]) st)) detectV2 fun _ =>
        Sees (v.found c.kind) (Awake st.mem) := by
  rw [SpiCard.Knows, if_pos rfl] at h8
  have hcmd : c.kind.opCommand = SD_ACMD41 := by rcases h8 with h | h <;> rw [h] <;> rfl
  have htype : c.kind.sdType = 1 := by rcases h8 with h | h <;> rw [h] <;> rfl
  have hloop : Meets c.link (fun v' k => ∃ w, Sees ⟨v.dest, v.cardType, 1, 1⟩ (OnItsWay st.mem w) v' k)
      (leaveIdle c.kind.opCommand (2 ^ 30)) fun _ => Sees ⟨v.dest, v.cardType, 1, 1⟩ (Awake st.mem) :=
    leaveIdle_meets (by decide) fun _ => by decide
  rw [hcmd] at hloop
  refine .bind (setStatus_meets 1) fun _ => .bind (setType_meets 1) fun _ => ?_
  refine .bind (readBuffer_meets [0, 0, 0x01, 0xAA] []) fun ocr => ?_
  by_cases hecho : ocr.getD 2 0 = 0x01 ∧ ocr.getD 3 0 = 0xAA
  · rw [if_pos hecho]
    refine .bind (.mono hloop (fun v' k hk => ⟨st.warmUp, hk.1, hk.2.2.onItsWay hw⟩) fun _ _ _ h => h) fun _ =>
      ?_
    refine awake_meets fun st' hmem hidle => .bind (ocr_meets hidle) fun ret => ?_
    by_cases hret : ret = 0
    · rw [if_pos hret]
      refine .mono (.of_exists fun ocr => .mono (.keep (readCcs_meets _ st'.noApp ocr)) (fun _ _ h => h) ?_)
        (fun v' k hk => hk.2) fun _ _ _ h => h
      rintro _ v' k ⟨hccs, rfl, hk⟩
      refine ⟨?_, hk.awake hmem hidle⟩
      rw [Kept.found, htype, ← ccs_cardType h8 hccs]
    · rw [if_neg hret]
      exact .pure () fun v' k hk => absurd hk.1 hret
  · rw [if_neg hecho]
    refine .pure () fun v' k hk => absurd ?_ hecho
    rw [hk.2.1]
    exact ⟨rfl, rfl⟩

def settleV1 (sdsc : Bool) : SpiM Unit := do
  setStatus 1
  setType (if sdsc then 2 else 3)
  setCardType (if sdsc then CT_SD1 else CT_MMC)
  leaveIdle (if sdsc then SD_ACMD41 else SD_CMD1) 0
  if (← sdDrvCommand SD_CMD16 512) ≠ 0 then
    setStatus 0
    setType 0
    setCardType 0

theorem detectV1_eq : detectV1 = sdDrvCommand SD_ACMD41 0 >>= fun ret => settleV1 (decide (ret ≤ 1)) := by
  rw [detectV1]
  congr 1
  funext ret
  rw [settleV1]
  simp only [decide_eq_true_eq]

theorem settleV1_meets (sdsc : Bool) (hk : c.kind = if sdsc then .sdV1 else .mmc) :
    Meets c.link (fun v' k => ∃ w, Sees v (OnItsWay mem w) v' k) (settleV1 sdsc) fun _ =>
      Sees (v.found c.kind) (Awake mem) := by
  have hcmd : c.kind.opCommand = if sdsc then SD_ACMD41 else SD_CMD1 := by rw [hk]; cases sdsc <;> rfl
  have hfound : v.found c.kind = ⟨v.dest, if sdsc then CT_SD1 else CT_MMC, 1, if sdsc then 2 else 3⟩ := by
    rw [hk]; cases sdsc <;> rfl
  have hhcs : c.kind = .sdhc → (0 : Nat).testBit 30 = true := fun h => by rw [h] at hk; cases sdsc <;> cases hk
  have hloop : Meets c.link (fun v' k => ∃ w, Sees (v.found c.kind) (OnItsWay mem w) v' k)
      (leaveIdle c.kind.opCommand 0) fun _ => Sees (v.found c.kind) (Awake mem) :=
      leaveIdle_meets (by decide) hhcs
  rw [hcmd] at hloop
  refine .of_exists fun w => .bind (setStatus_meets 1) fun _ => .bind (setType_meets _) fun _ =>
    .bind (setCardType_meets _) fun _ => .bind (.mono hloop ?_ fun _ _ _ h => h) fun _ => ?_
  · rintro v' k ⟨rfl, hk⟩
    exact ⟨w, hfound.symm, hk⟩
  · refine awake_meets fun st hmem hidle => .bind (blockLength_meets hidle) fun ret => ?_
    by_cases hret : ret ≠ 0
    · rw [if_pos hret]
      have hreset : Meets c.link (Sees v (Rests st))
          (do
            setStatus 0
            setType 0
            setCardType 0)
          fun _ => Sees ⟨v.dest, 0, 0, 0⟩ (Rests st) :=
        .bind (setStatus_meets 0) fun _ => .bind (setType_meets 0) fun _ => setCardType_meets 0
      exact .never hreset fun v' k hk => hret hk.1
    · rw [if_neg hret]
      exact .pure () fun v' k hk => ⟨hk.2.1, hk.2.2.awake hmem hidle⟩

theorem OpAnswer.le (ha : OpAnswer st ret st') : ret ≤ 1 := by
  rcases ha with ⟨w, -, rfl, -⟩ | ⟨-, rfl, -⟩ <;> decide

theorem OpAnswer.onItsWay (ha : OpAnswer st ret st') (hw : st.Warming) (hk : At .ready st' k) :
    ∃ w, OnItsWay st.mem w k := by
  rcases ha with ⟨w, hleft, -, rfl⟩ | ⟨hleft, -, rfl⟩
  · exact ⟨w, hk.onItsWay fun _ => hw (by omega)⟩
  · exact ⟨_, hk.onItsWay fun h => absurd hleft h⟩

theorem detectV1_meets (h8 : ¬ c.Knows 8) (hw : st.Warming) :
    Meets c.link (Sees v (At .ready st)) detectV1 fun _ => Sees (v.found c.kind) (Awake st.mem) := by
  have hkind : c.kind = .mmc ∨ c.kind = .sdV1 := by
    rw [SpiCard.Knows, if_pos rfl] at h8
    cases h : c.kind with
    | mmc => exact .inl rfl
    | sdV1 => exact .inr rfl
    | sdV2 => exact absurd (.inl h) h8
    | sdhc => exact absurd (.inr h) h8
  have hfirst : Meets c.link (Sees v (At .ready st)) (sdDrvCommand SD_ACMD41 0) fun ret v' k =>
      (c.kind = if decide (ret ≤ 1) then .sdV1 else .mmc) ∧ ∃ w, Sees v (OnItsWay st.mem w) v' k := by
    rcases hkind with hk | hk
    · refine .mono (noOpCond_meets hk 0) (fun v' k h => ⟨h.1, h.2.rests⟩) ?_
      rintro ret v' k ⟨hret, hv, h⟩
      rw [if_neg (by simpa using hret)]
      exact ⟨hk, _, hv, h.onItsWay hw⟩
    · have hop : Meets c.link (Sees v (Rests st)) (sdDrvCommand c.kind.opCommand 0) fun ret v' k =>
          ∃ st', OpAnswer st ret st' ∧ Sees v (At .ready st') v' k :=
        opCond_meets hw fun h => absurd (hk.symm.trans h) (by simp)
      rw [hk] at hop
      refine .mono hop (fun v' k h => ⟨h.1, h.2.rests⟩) ?_
      rintro ret v' k ⟨st', ha, hv, h⟩
      rw [if_pos (decide_eq_true ha.le)]
      exact ⟨hk, (ha.onItsWay hw h).imp fun _ hon => ⟨hv, hon⟩⟩
  rw [detectV1_eq]
  refine .bind hfirst fun ret => ?_
  by_cases hk : c.kind = if decide (ret ≤ 1) then .sdV1 else .mmc
  · exact .mono (settleV1_meets _ hk) (fun _ _ h => h.2) fun _ _ _ h => h
  · -- the other kind of card answers so
    let other : SpiCard := { c with kind := if decide (ret ≤ 1) then .sdV1 else .mmc }
    have hother :
      Meets other.link (fun v' k => ∃ w, Sees v (OnItsWay st.mem w) v' k) (settleV1 (decide (ret ≤ 1)))
        fun _ => Sees (v.found other.kind) (Awake st.mem) := settleV1_meets _ rfl
    exact .never hother fun v' k h => hk h.1

theorem detect_meets (hidle : st.idle = true) :
    Meets c.link (Sees v (Rests st))
      (sdDrvCommand SD_CMD8 0x1AA >>= fun ret => if ret = 1 then detectV2 else detectV1)
      fun _ => Sees (v.found c.kind) (Awake st.mem) := by
  have hw : st.noApp.Warming := fun _ => hidle
  by_cases h8 : c.Knows 8
  · refine .bind (ifCond_meets h8 hidle) fun ret => ?_
    by_cases hret : ret = 1
    · rw [if_pos hret]
      exact .mono (detectV2_meets h8 hw) (fun _ _ h => h.2) fun _ _ _ h => h
    · rw [if_neg hret]
      have hold : ¬ ({ c with kind := .sdV1 } : SpiCard).Knows 8 := by rw [SpiCard.Knows, if_pos rfl]; simp
      exact .never (detectV1_meets (v := v) hold hw) fun _ _ h => hret h.1
  · refine .bind (noIfCond_meets h8) fun ret => ?_
    by_cases hret : ret = 1
    · rw [if_pos hret]
      have hnew : ({ c with kind := .sdV2 } : SpiCard).Knows 8 := by rw [SpiCard.Knows, if_pos rfl]; simp
      exact .never (detectV2_meets (v := v) hnew hw) fun _ _ h => h.1 hret
    · rw [if_neg hret]
      exact .mono (detectV1_meets h8 hw) (fun _ _ h => h.2) fun _ _ _ h => h

theorem report_meets (kind : CardKind) : Meets c.link (Sees (v.found kind) (Awake mem))
    (do
      sdSPIRelease
      pure (if (← get).cardType ≠ 0 then 1 else 0) : SpiM Int)
    fun r v' k => r = 1 ∧ Sees (v.found kind) (Awake mem) v' k := by
  refine awake_meets fun st hmem hidle => ?_
  refine .bind (.mono release_meets (fun _ _ h => ⟨h.1, h.2.1⟩) fun _ _ _ h => h) fun _ => ?_
  refine .gets (p := Driver.cardType) (g := fun ct => pure (if ct ≠ 0 then 1 else 0)) Kept.cardType
    (fun _ => rfl)
    fun v0 => .pure _ ?_
  rintro v' k ⟨rfl, rfl, rfl, hph⟩
  exact ⟨if_pos kind.cardType_ne_zero, rfl, hmem, hidle, rfl, hph⟩

theorem init_meets : Meets c.link (Sees v (Rests st)) sdDrvInit fun r v' k =>
    r = 1 ∧ Sees (v.found c.kind) (Awake st.mem) v' k := by
  refine .bind (setCardType_meets 0) fun _ => .bind (fill_meets 80) fun _ => .bind goIdle_meets fun ret => ?_
  by_cases hret : ret ≠ 1
  · rw [if_pos hret]
    have hfail :
        Meets c.link (Sees v (Rests st)) (setStatus 0 >>= fun _ => pure (-1) : SpiM Int) fun _ _ _ => True :=
      .bind (setStatus_meets 0) fun _ => .pure (-1) fun _ _ _ => trivial
    exact .never hfail fun _ _ h => hret h.1
  · rw [if_neg hret]
    have hdetect : ∀ w, Meets c.link (Sees { v with cardType := 0 } (At .ready (WokenBy st w)))
        (sdDrvCommand SD_CMD8 0x1AA >>= fun ret => if ret = 1 then detectV2 else detectV1)
        fun _ => Sees (v.found c.kind) (Awake st.mem) :=
      fun w => .mono (detect_meets rfl) (fun _ _ h => ⟨h.1, h.2.rests⟩) fun _ _ _ h => h
    have hall := (Meets.of_exists hdetect).bind fun _ => report_meets c.kind
    rw [bind_assoc] at hall
    exact .mono hall (fun _ _ h => h.2) fun _ _ _ h => h

end Stm32Logger.Sd
