import Stm32Logger.Sd.Transfer

/-!
# Detecting the card

What `sdDrvInit` finds out is decided by the card's answers to CMD0, CMD8,
ACMD41, CMD58, CMD1 and CMD16. `Detected` has one case for each way through
them; the parameters and the chip select are read off it.
-/

namespace Stm32Logger.Sd

/-- The command is repeated until the card answers it with 0; the bytes after that answer. -/
inductive Idles (cmd : UInt8) : List UInt8 → List UInt8 → Prop where
  | ready (h : commandAnswered cmd rx = 0 :: rx') : Idles cmd rx rx'
  | again (h : commandAnswered cmd rx = ret :: rx1) (hret : ret ≠ 0) (hrest : Idles cmd rx1 rx') :
      Idles cmd rx rx'

/-- A card that answers CMD8 repeats the pattern it was sent. -/
def Echoes (rx : List UInt8) : Prop := rx.getD 2 0 = 0x01 ∧ rx.getD 3 0 = 0xAA

def OcrRead (rx ocr : List UInt8) : Prop :=
  ∃ rx8 rx41, commandAnswered SD_CMD8 rx = 1 :: rx8 ∧ Echoes rx8 ∧
    Idles SD_ACMD41 (rx8.drop 4) rx41 ∧ commandAnswered SD_CMD58 rx41 = 0 :: ocr

/-- From the bytes after the answer to CMD0, the card type and the parameters
`SDStatus` and `SDType` that the detection ends with. -/
inductive Detected (rx : List UInt8) : UInt8 → Int → Int → Prop where
  | noEcho (h8 : commandAnswered SD_CMD8 rx = 1 :: rx8) (hecho : ¬ Echoes rx8) : Detected rx 0 1 1
  | noOcr (h8 : commandAnswered SD_CMD8 rx = 1 :: rx8) (hecho : Echoes rx8)
      (hidle : Idles SD_ACMD41 (rx8.drop 4) rx41) (h58 : commandAnswered SD_CMD58 rx41 = ret :: rx58)
      (hret : ret ≠ 0) : Detected rx 0 1 1
  | v2 (hocr : OcrRead rx ocr) :
      Detected rx (if ocr.getD 0 0 &&& 0x40 ≠ 0 then CT_SD2 ||| CT_BLOCK else CT_SD2) 1 1
  | v1 (h8 : commandAnswered SD_CMD8 rx = ret :: rx8) (hret : ret ≠ 1)
      (h41 : commandAnswered SD_ACMD41 rx8 = a :: rx41)
      (hidle : Idles (if a ≤ 1 then SD_ACMD41 else SD_CMD1) rx41 rx16)
      (h16 : commandAnswered SD_CMD16 rx16 = 0 :: rx') :
      Detected rx (if a ≤ 1 then CT_SD1 else CT_MMC) 1 (if a ≤ 1 then 2 else 3)
  | noBlockSize (h8 : commandAnswered SD_CMD8 rx = ret :: rx8) (hret : ret ≠ 1)
      (h41 : commandAnswered SD_ACMD41 rx8 = a :: rx41)
      (hidle : Idles (if a ≤ 1 then SD_ACMD41 else SD_CMD1) rx41 rx16)
      (h16 : commandAnswered SD_CMD16 rx16 = b :: rx') (hb : b ≠ 0) : Detected rx 0 0 0

variable {s t u : Driver} {rx rx' ocr ocr' : List UInt8} {cmd ret : UInt8} {arg : Nat} {r : Int}

theorem Idles.unique (h : Idles cmd rx ocr) (h' : Idles cmd rx ocr') : ocr = ocr' := by
  induction h with
  | ready h =>
    cases h' with
    | ready h' => exact (List.cons.inj (h.symm.trans h')).2
    | again h' hret => exact absurd (List.cons.inj (h.symm.trans h')).1.symm hret
  | again h hret _ ih =>
    cases h' with
    | ready h' => exact absurd (List.cons.inj (h.symm.trans h')).1 hret
    | again h' _ hrest => exact ih ((List.cons.inj (h.symm.trans h')).2 ▸ hrest)

theorem OcrRead.unique (h : OcrRead rx ocr) (h' : OcrRead rx ocr') : ocr = ocr' := by
  obtain ⟨rx8, rx41, h8, -, hidle, h58⟩ := h
  obtain ⟨rx8', rx41', h8', -, hidle', h58'⟩ := h'
  cases h8.symm.trans h8'
  cases hidle.unique hidle'
  exact (List.cons.inj (h58.symm.trans h58')).2

-- ---------------------------------------------------------------------------
-- What the detection does
-- ---------------------------------------------------------------------------

theorem leaveIdle_ok (h : leaveIdle cmd arg s = .ok x t) (harg : arg < 2 ^ 32) :
    Idles cmd s.rx t.rx ∧ ∃ ps, Spoke s t ps := by
  rw [leaveIdle, get_bind] at h
  generalize s.rx.length + 1 = fuel at h
  induction fuel generalizing s with
  | zero => cases h
  | succ fuel ih =>
    rw [leaveIdleLoop, bind_eq_ok] at h
    obtain ⟨ret, t1, h1, h⟩ := h
    obtain ⟨ps, hspoke, -, hans, -⟩ := sdDrvCommand_ok h1 harg
    by_cases hret : ret ≠ 0
    · rw [if_pos hret] at h
      obtain ⟨hidle, ps', hspoke'⟩ := ih h
      exact ⟨.again hans hret hidle, _, hspoke.trans hspoke'⟩
    · rw [if_neg hret] at h
      obtain ⟨-, rfl⟩ := pure_eq_ok.mp h
      obtain rfl : ret = 0 := not_not.mp hret
      exact ⟨.ready hans, ps, hspoke⟩

theorem readOcr_ok (h : sdSPIReadBuffer 4 s = .ok ocr t) :
    Spoke s t [] ∧ t.rx = s.rx.drop 4 ∧ ∀ i < 4, ocr.getD i 0 = s.rx.getD i 0 := by
  obtain ⟨hspoke, hlen, hrx, -⟩ := sdSPIReadBuffer_ok h
  refine ⟨hspoke, ?_, fun i hi => ?_⟩
  · rw [hrx, List.drop_left' hlen]
  · rw [hrx, List.getD_append _ _ _ _ (hlen ▸ hi)]

theorem detectV2_ok (h : detectV2 s = .ok x t) (hct : s.cardType = 0)
    (h8 : commandAnswered SD_CMD8 rx = 1 :: s.rx) : Detected rx t.cardType t.sdStatus t.sdType := by
  rw [detectV2, setStatus, modify_bind, setType, modify_bind, bind_eq_ok] at h
  obtain ⟨ocr, t1, h1, h⟩ := h
  obtain ⟨hspoke1, hrx1, hocr⟩ := readOcr_ok h1
  by_cases hecho : ocr.getD 2 0 = 0x01 ∧ ocr.getD 3 0 = 0xAA
  · rw [if_pos hecho, bind_eq_ok] at h
    obtain ⟨y, t2, h2, h⟩ := h
    rw [hocr 2 (by decide), hocr 3 (by decide)] at hecho
    obtain ⟨hidle, ps, hspoke2⟩ := leaveIdle_ok h2 (by decide)
    rw [hrx1] at hidle
    rw [bind_eq_ok] at h
    obtain ⟨ret, t3, h3, h⟩ := h
    obtain ⟨ps', hspoke3, -, h58, -⟩ := sdDrvCommand_ok h3 (by decide)
    have hkept := (hspoke1.trans hspoke2).trans hspoke3
    by_cases hret : ret = 0
    · rw [if_pos hret, bind_eq_ok] at h
      obtain ⟨ocr', t4, h4, h⟩ := h
      obtain ⟨hspoke4, -, hocr'⟩ := readOcr_ok h4
      rw [setCardType, modify_run] at h
      cases h
      subst hret
      have hall := hkept.trans hspoke4
      rw [hall.status, hall.type, hocr' 0 (by decide)]
      exact .v2 ⟨s.rx, t2.rx, h8, hecho, hidle, h58⟩
    · rw [if_neg hret] at h
      obtain ⟨-, rfl⟩ := pure_eq_ok.mp h
      rw [hkept.cardType, hkept.status, hkept.type]
      dsimp only
      rw [hct]
      exact .noOcr h8 hecho hidle h58 hret
  · rw [if_neg hecho] at h
    obtain ⟨-, rfl⟩ := pure_eq_ok.mp h
    rw [hocr 2 (by decide), hocr 3 (by decide)] at hecho
    rw [hspoke1.cardType, hspoke1.status, hspoke1.type]
    dsimp only
    rw [hct]
    exact .noEcho h8 hecho

theorem detectV1_ok (h : detectV1 s = .ok x t) (h8 : commandAnswered SD_CMD8 rx = ret :: s.rx)
    (hret : ret ≠ 1) :
    Detected rx t.cardType t.sdStatus t.sdType := by
  rw [detectV1, bind_eq_ok] at h
  obtain ⟨a, t1, h1, h⟩ := h
  obtain ⟨-, -, -, h41, -⟩ := sdDrvCommand_ok h1 (by decide)
  rw [setStatus, modify_bind, setType, modify_bind, setCardType, modify_bind, bind_eq_ok] at h
  simp only at h
  obtain ⟨y, t2, h2, h⟩ := h
  obtain ⟨hidle, ps, hspoke2⟩ := leaveIdle_ok h2 (by decide)
  rw [bind_eq_ok] at h
  obtain ⟨b, t3, h3, h⟩ := h
  obtain ⟨ps', hspoke3, -, h16, -⟩ := sdDrvCommand_ok h3 (by decide)
  have hkept := hspoke2.trans hspoke3
  by_cases hb : b ≠ 0
  · rw [if_pos hb, setStatus, modify_bind, setType, modify_bind, setCardType, modify_run] at h
    cases h
    exact .noBlockSize h8 hret h41 hidle h16 hb
  · rw [if_neg hb] at h
    obtain ⟨-, rfl⟩ := pure_eq_ok.mp h
    obtain rfl : b = 0 := not_not.mp hb
    rw [hkept.cardType, hkept.status, hkept.type]
    exact .v1 h8 hret h41 hidle h16

-- ---------------------------------------------------------------------------
-- The chip select
-- ---------------------------------------------------------------------------

theorem poll_csHigh (h : poll p s = .ok b t) : t.csHigh = s.csHigh := by
  cases hrx : s.rx.dropWhile p with
  | nil =>
    obtain ⟨u, hu⟩ := poll_stuck hrx
    rw [hu] at h
    cases h
  | cons c cs =>
    rw [poll_run hrx] at h
    cases h
    rfl

theorem sendFrame_csHigh (h : sendFrame cmd arg s = .ok ret t) : t.csHigh = false := by
  rw [sendFrame, bind_eq_ok] at h
  obtain ⟨x, t1, h1, h⟩ := h
  rw [bind_eq_ok] at h
  obtain ⟨y, t2, h2, h⟩ := h
  rw [sdSPISelect, modify_bind, bind_eq_ok] at h1
  obtain ⟨b, t0, h0, h1⟩ := h1
  obtain ⟨-, rfl⟩ := pure_eq_ok.mp h1
  obtain ⟨got, -, -, ht2⟩ := sdSPIWriteBuffer_ok h2
  calc t.csHigh = t2.csHigh := poll_csHigh h
    _ = t0.csHigh := by rw [ht2]; rfl
    _ = false := poll_csHigh h0

theorem sdDrvCommand_csHigh (h : sdDrvCommand cmd arg s = .ok ret t) : t.csHigh = false := by
  rw [sdDrvCommand] at h
  split at h
  · rw [bind_eq_ok] at h
    obtain ⟨a, t1, h1, h⟩ := h
    split at h
    · obtain ⟨-, rfl⟩ := pure_eq_ok.mp h
      exact sendFrame_csHigh h1
    · exact sendFrame_csHigh h
  · exact sendFrame_csHigh h

-- ---------------------------------------------------------------------------
-- The whole detection
-- ---------------------------------------------------------------------------

/-- CMD0 is not answered 1; nothing is released, and `SDType` is left. -/
structure NoCard (s t : Driver) (r : Int) : Prop where
  result : r = -1
  cardType : t.cardType = 0
  status : t.sdStatus = 0
  type : t.sdType = s.sdType
  csHigh : t.csHigh = false

/-- CMD0 is answered 1, and the identification runs to its end. -/
structure Identified (rx : List UInt8) (t : Driver) (r : Int) : Prop where
  detected : Detected rx t.cardType t.sdStatus t.sdType
  result : r = if t.cardType ≠ 0 then 1 else 0
  released : ∃ u, Released u t

theorem sdDrvInit_ok (h : sdDrvInit s = .ok r t) :
    ∃ ret rx, commandAnswered SD_CMD0 (s.rx.drop 80) = ret :: rx ∧
      (ret ≠ 1 ∧ NoCard s t r ∨ ret = 1 ∧ Identified rx t r) := by
  rw [sdDrvInit, setCardType, modify_bind, bind_eq_ok] at h
  obtain ⟨x, t1, h1, h⟩ := h
  obtain ⟨got, hlen, hrx, ht1⟩ := sdSPIWriteBuffer_ok h1
  rw [List.length_replicate] at hlen
  have hdrop : s.rx.drop 80 = t1.rx := by
    rw [show s.rx = got ++ t1.rx from hrx, List.drop_left' hlen]
  have hct1 : t1.cardType = 0 := by rw [ht1]; rfl
  have hty1 : t1.sdType = s.sdType := by rw [ht1]; rfl
  rw [bind_eq_ok] at h
  obtain ⟨ret, t2, h2, h⟩ := h
  obtain ⟨ps, hspoke2, -, h0, -⟩ := sdDrvCommand_ok h2 (by decide)
  refine ⟨ret, t2.rx, by rw [hdrop, h0], ?_⟩
  by_cases hret : ret ≠ 1
  · have hcs := sdDrvCommand_csHigh h2
    rw [if_pos hret, setStatus, modify_bind] at h
    obtain ⟨rfl, rfl⟩ := pure_eq_ok.mp h
    exact .inl ⟨hret, rfl, hspoke2.cardType.trans hct1, rfl, hspoke2.type.trans hty1, hcs⟩
  · rw [if_neg hret, bind_eq_ok] at h
    obtain ⟨ret8, t3, h3, h⟩ := h
    obtain ⟨ps', hspoke3, -, h8, -⟩ := sdDrvCommand_ok h3 (by decide)
    have hct3 : t3.cardType = 0 := hspoke3.cardType.trans (hspoke2.cardType.trans hct1)
    rw [bind_eq_ok] at h
    obtain ⟨y, t4, h4, h⟩ := h
    have hdet : Detected t2.rx t4.cardType t4.sdStatus t4.sdType := by
      by_cases hret8 : ret8 = 1
      · rw [if_pos hret8] at h4
        exact detectV2_ok h4 hct3 (hret8 ▸ h8)
      · rw [if_neg hret8] at h4
        exact detectV1_ok h4 h8 hret8
    rw [bind_eq_ok] at h
    obtain ⟨z, t5, h5, h⟩ := h
    have hrel := sdSPIRelease_ok h5
    rw [get_bind] at h
    obtain ⟨hr, rfl⟩ := pure_eq_ok.mp h
    refine .inr ⟨not_not.mp hret, ⟨?_, hr.symm, ⟨t4, hrel⟩⟩⟩
    rw [hrel.spoke.cardType, hrel.spoke.status, hrel.spoke.type]
    exact hdet

-- ---------------------------------------------------------------------------
-- What the parameters say
-- ---------------------------------------------------------------------------

/-- The result, the card type and the parameters `SDStatus` and `SDType` tell one story. -/
structure Consistent (rx : List UInt8) (r : Int) (ct : UInt8) (status type : Int) : Prop where
  found : r = 1 ↔ ct ≠ 0
  announced : ct ≠ 0 ↔ status = 1
  kind : r = 1 → (type = 1 ∨ type = 2 ∨ type = 3) ∧ (type = 1 ↔ ct &&& CT_SD2 ≠ 0) ∧
    (type = 2 ↔ ct = CT_SD1) ∧ (type = 3 ↔ ct = CT_MMC)
  blocks : r = 1 → (ct &&& CT_BLOCK ≠ 0 ↔ ct &&& CT_SD2 ≠ 0 ∧
    ∃ rx0 ocr, commandAnswered SD_CMD0 (rx.drop 80) = 1 :: rx0 ∧ OcrRead rx0 ocr ∧ ocr.getD 0 0 &&& 0x40 ≠ 0)
  none : r ≠ 1 → ct = 0 ∧ type = 0

/-- A card that answers CMD8 with 1 also repeats the pattern, and CMD58 is answered 0. -/
def OcrGiven (rx : List UInt8) : Prop :=
  ∀ rx8, commandAnswered SD_CMD8 rx = 1 :: rx8 →
    Echoes rx8 ∧ ∀ rx41, Idles SD_ACMD41 (rx8.drop 4) rx41 → ∃ ocr, commandAnswered SD_CMD58 rx41 = 0 :: ocr

/-- CMD0 is answered 1, or `SDType` was 0 before; and `OcrGiven` after the answer 1. -/
def CleanDetection (type : Int) (rx : List UInt8) : Prop :=
  ∀ ret rx0, commandAnswered SD_CMD0 (rx.drop 80) = ret :: rx0 → (ret ≠ 1 → type = 0) ∧ (ret = 1 → OcrGiven rx0)

variable {rx0 : List UInt8} {ct : UInt8} {status type : Int}

theorem ocrGiven_of_refused (h8 : commandAnswered SD_CMD8 rx = ret :: rx8) (hret : ret ≠ 1) : OcrGiven rx :=
  fun _ h8' => absurd (List.cons.inj (h8.symm.trans h8')).1 hret

theorem OcrRead.given (h : OcrRead rx ocr) : OcrGiven rx := by
  obtain ⟨rx8, rx41, h8, hecho, hidle, h58⟩ := h
  intro rx8' h8'
  cases h8.symm.trans h8'
  exact ⟨hecho, fun rx41' hidle' => ⟨ocr, hidle.unique hidle' ▸ h58⟩⟩

theorem not_consistent_of_announced : ¬ Consistent rx r 0 1 type :=
  fun h => h.announced.mpr rfl rfl

theorem v2_consistent (h0 : commandAnswered SD_CMD0 (rx.drop 80) = 1 :: rx0) (hocr : OcrRead rx0 ocr)
    (hct : ct = if ocr.getD 0 0 &&& 0x40 ≠ 0 then CT_SD2 ||| CT_BLOCK else CT_SD2)
    (hr : r = if ct ≠ 0 then 1 else 0) : Consistent rx r ct 1 1 := by
  by_cases hccs : ocr.getD 0 0 &&& 0x40 ≠ 0
  · rw [if_pos hccs] at hct
    subst hct hr
    refine ⟨by decide, by decide, fun _ => by decide, fun _ => ?_, fun h => absurd rfl h⟩
    exact iff_of_true (by decide) ⟨by decide, rx0, ocr, h0, hocr, hccs⟩
  · rw [if_neg hccs] at hct
    subst hct hr
    refine ⟨by decide, by decide, fun _ => by decide, fun _ => ?_, fun h => absurd rfl h⟩
    refine iff_of_false (by decide) ?_
    rintro ⟨-, rx0', ocr', h0', hocr', hccs'⟩
    cases h0.symm.trans h0'
    exact hccs (hocr.unique hocr' ▸ hccs')

theorem v1_consistent (hct : ct = CT_SD1 ∧ type = 2 ∨ ct = CT_MMC ∧ type = 3)
    (hr : r = if ct ≠ 0 then 1 else 0) : Consistent rx r ct 1 type := by
  rcases hct with ⟨rfl, rfl⟩ | ⟨rfl, rfl⟩
  all_goals
    subst hr
    refine ⟨by decide, by decide, fun _ => by decide, fun _ => ?_, fun h => absurd rfl h⟩
    exact iff_of_false (by decide) fun h => absurd h.1 (by decide)

theorem none_consistent : Consistent rx 0 0 0 0 :=
  ⟨by decide, by decide, fun h => absurd h (by decide), fun h => absurd h (by decide), fun _ => ⟨rfl, rfl⟩⟩

theorem Detected.announces_iff (h : Detected rx0 ct status type)
    (h0 : commandAnswered SD_CMD0 (rx.drop 80) = 1 :: rx0) (hr : r = if ct ≠ 0 then 1 else 0) :
    Consistent rx r ct status type ↔ OcrGiven rx0 := by
  cases h with
  | noEcho h8 hecho => exact iff_of_false not_consistent_of_announced fun hg => hecho (hg _ h8).1
  | noOcr h8 _ hidle h58 hret =>
    refine iff_of_false not_consistent_of_announced fun hg => ?_
    obtain ⟨ocr, h58'⟩ := (hg _ h8).2 _ hidle
    exact hret (List.cons.inj (h58.symm.trans h58')).1
  | v2 hocr => exact iff_of_true (v2_consistent h0 hocr rfl hr) hocr.given
  | @v1 ret rx8 a _ _ _ h8 hret =>
    refine iff_of_true (v1_consistent ?_ hr) (ocrGiven_of_refused h8 hret)
    by_cases ha : a ≤ 1
    · rw [if_pos ha, if_pos ha]
      exact .inl ⟨rfl, rfl⟩
    · rw [if_neg ha, if_neg ha]
      exact .inr ⟨rfl, rfl⟩
  | noBlockSize h8 hret => exact iff_of_true (hr ▸ none_consistent) (ocrGiven_of_refused h8 hret)

theorem consistent_iff (h : sdDrvInit s = .ok r t) :
    Consistent s.rx r t.cardType t.sdStatus t.sdType ↔ CleanDetection s.sdType s.rx := by
  obtain ⟨ret, rx0, h0, hcase⟩ := sdDrvInit_ok h
  have hclean : CleanDetection s.sdType s.rx ↔ (ret ≠ 1 → s.sdType = 0) ∧ (ret = 1 → OcrGiven rx0) := by
    constructor
    · exact fun hc => hc ret rx0 h0
    · intro hc ret' rx0' h0'
      cases h0.symm.trans h0'
      exact hc
  rw [hclean]
  rcases hcase with ⟨hret, hno⟩ | ⟨rfl, hid⟩
  · rw [hno.cardType, hno.status, hno.type, hno.result]
    constructor
    · exact fun hc => ⟨fun _ => (hc.none (by decide)).2, fun h1 => absurd h1 hret⟩
    · intro hc
      rw [hc.1 hret]
      exact ⟨by decide, by decide, fun h => absurd h (by decide), fun h => absurd h (by decide),
        fun _ => ⟨rfl, rfl⟩⟩
  · rw [hid.detected.announces_iff h0 hid.result]
    exact ⟨fun hg => ⟨fun h1 => absurd rfl h1, fun _ => hg⟩, fun hc => hc.2 rfl⟩

def report (m : SpiM α) (f : Driver → β) (s : Driver) : Option (α × β) :=
  match m s with
  | .ok a t => some (a, f t)
  | .error _ _ => none

theorem ok_of_report {m : SpiM α} (h : report m f s = some (a, b)) : ∃ t, m s = .ok a t ∧ f t = b := by
  rw [report] at h
  split at h
  · rename_i a' t ht
    cases h
    exact ⟨t, ht, rfl⟩
  · cases h

def noEchoBytes : List UInt8 :=
  List.replicate 87 0xFF ++ 0x01 :: List.replicate 7 0xFF ++ [0x01, 0, 0, 0, 0, 0xFF]

/-- `SDStatus` announces a card that was not taken. -/
theorem noEcho_announced :
    ∃ t, sdDrvInit { rx := noEchoBytes } = .ok 0 t ∧
      ¬ Consistent noEchoBytes 0 t.cardType t.sdStatus t.sdType := by
  obtain ⟨t, ht, hf⟩ := ok_of_report (s := { rx := noEchoBytes }) (m := sdDrvInit)
    (f := fun t => (t.cardType, t.sdStatus)) (a := 0) (b := (0, 1)) (by decide +kernel)
  obtain ⟨hct, hst⟩ := Prod.mk.inj hf
  refine ⟨t, ht, ?_⟩
  rw [hct, hst]
  exact not_consistent_of_announced

theorem consistent_iff_noEcho :
    ∃ t, sdDrvInit { rx := noEchoBytes } = .ok 0 t ∧
      (Consistent noEchoBytes 0 t.cardType t.sdStatus t.sdType ↔ CleanDetection 0 noEchoBytes) := by
  obtain ⟨t, ht⟩ := ok_of_outcome (s := { rx := noEchoBytes }) (m := sdDrvInit) (a := 0) (by decide +kernel)
  have h := consistent_iff ht
  exact ⟨t, ht, h⟩

end Stm32Logger.Sd
