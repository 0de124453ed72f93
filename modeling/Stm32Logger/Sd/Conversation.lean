import Stm32Logger.Sd.SpiCard

/-!
# The driver and the card

Each call of the driver against a card: what holds of both when it returns,
whatever the card has done, and that it never waits for a byte the card
cannot come to send.
-/

namespace Stm32Logger.Sd

open Dialogue

structure Kept where
  dest : Nat → UInt8
  cardType : UInt8
  sdStatus : Int
  sdType : Int
  deriving Inhabited

def Driver.kept (s : Driver) : Kept := ⟨s.dest, s.cardType, s.sdStatus, s.sdType⟩

def SpiCard.link (c : SpiCard) : Link Driver Kept SpiCard.State Event UInt8 where
  view := Driver.kept
  record := Driver.trace
  feed s rx := { s with rx }
  step := c.Step
  view_feed _ _ := rfl
  record_feed _ _ := rfl
  feed_feed _ _ _ := rfl

/-- The driver keeps `v`, and the card is one of `P`. -/
def Sees (v : Kept) (P : SpiCard.State → Prop) (v' : Kept) (k : SpiCard.State) : Prop := v' = v ∧ P k

def At (ph : Phase) (st : Store) (k : SpiCard.State) : Prop := k = ⟨ph, st, true⟩

def Rests (st : Store) (k : SpiCard.State) : Prop := k.store = st ∧ (k.phase = .busy ∨ k.phase = .ready)

variable {c : SpiCard} {v : Kept} {P P' : SpiCard.State → Prop} {Q : UInt8 → SpiCard.State → Prop}
  {st st' : Store}
  {ph : Phase}

-- ---------------------------------------------------------------------------
-- The bus
-- ---------------------------------------------------------------------------

theorem readwrite_polls (c : SpiCard) (data : UInt8) :
    Polls c.link (sdSPIreadwrite data) (fun _ => false) (fun b s => s.after [.byte data b] s.rx)
      (Event.byte data) where
  run s b bs := by rw [if_neg (by decide)]; exact sdSPIreadwrite_run rfl
  wait s := ⟨.waiting, sdSPIreadwrite_stuck rfl⟩
  view _ _ := rfl
  record _ _ := rfl

theorem poll_polls (c : SpiCard) (p : UInt8 → Bool) :
    Polls c.link (poll p) p (fun b s => s.after [.byte 0xFF b] s.rx) (Event.byte 0xFF) where
  run s b bs := by
    have hfirst : sdSPIreadwrite 0xFF (c.link.feed s (b :: bs)) = .ok b
      (c.link.feed (s.after [.byte 0xFF b] s.rx) bs) :=
      sdSPIreadwrite_run rfl
    have hpoll : poll p (c.link.feed s (b :: bs)) = pollLoop p (bs.length + 1 + 1) (c.link.feed s (b :: bs)) :=
      rfl
    rw [hpoll, pollLoop, bind_ok hfirst]
    by_cases hp : p b = true
    · rw [if_pos hp, if_pos hp]
      rfl
    · rw [if_neg hp, if_neg hp]
      rfl
  wait s := by
    have hpoll : poll p (c.link.feed s []) = pollLoop p 1 (c.link.feed s []) := rfl
    exact ⟨.waiting, by rw [hpoll, pollLoop, bind_error (sdSPIreadwrite_stuck rfl)]⟩
  view _ _ := rfl
  record _ _ := rfl

theorem exchange (hstep : ∀ k b k', P k → c.Step k (.byte data b) k' → Q b k')
    (hcan : ∀ k, P k → ∃ b k', c.Step k (.byte data b) k') :
    Meets c.link (Sees v P) (sdSPIreadwrite data) fun b => Sees v (Q b) :=
  .poll (readwrite_polls c data) (fun _ _ _ _ _ _ h => absurd h (by decide))
    (fun _ k b k' hk hs _ => ⟨hk.1, hstep k b k' hk.2 hs⟩) fun _ k hk => by
      obtain ⟨b, k', hs⟩ := hcan k hk.2
      exact ⟨b, k', rfl, hs⟩

theorem wait_meets (hstay : ∀ k b k', P k → c.Step k (.byte 0xFF b) k' → p b = true → P k')
    (hstop : ∀ k b k', P k → c.Step k (.byte 0xFF b) k' → p b = false → Q b k')
    (hcan : ∀ k, P k → ∃ b k', p b = false ∧ c.Step k (.byte 0xFF b) k') :
    Meets c.link (Sees v P) (poll p) fun b => Sees v (Q b) :=
  .poll (poll_polls c p) (fun _ k b k' hk hs hp => ⟨hk.1, hstay k b k' hk.2 hs hp⟩)
    (fun _ k b k' hk hs hp => ⟨hk.1, hstop k b k' hk.2 hs hp⟩) fun _ k hk => hcan k hk.2

/-- A buffer sent, where `P done` is the card after the bytes `done`. -/
theorem writeBuffer_meets {P : List UInt8 → SpiCard.State → Prop} {all : List UInt8} (done buf : List UInt8)
    (hstep : ∀ done b, (done ++ [b]) <+: all → ∀ k g k',
      P done k → c.Step k (.byte b g) k' → P (done ++ [b]) k')
    (hcan : ∀ done b, (done ++ [b]) <+: all → ∀ k, P done k → ∃ g k', c.Step k (.byte b g) k')
    (hall : done ++ buf = all) :
    Meets c.link (Sees v (P done)) (sdSPIWriteBuffer buf) fun _ => Sees v (P all) := by
  induction buf generalizing done with
  | nil =>
    rw [List.append_nil] at hall
    subst hall
    exact .pure () fun _ _ hk => hk
  | cons b buf ih =>
    have hpre : (done ++ [b]) <+: all := Exists.intro buf (by rw [← hall, List.append_assoc]; rfl)
    refine .bind (exchange (Q := fun _ => P (done ++ [b])) (hstep done b hpre) (hcan done b hpre)) fun _ => ?_
    exact ih (done ++ [b]) (by rw [← hall, List.append_assoc]; rfl)

theorem give_meets : Meets c.link (Sees v (At (.giving b bs) st)) (sdSPIreadwrite 0xFF) fun got =>
    Sees v fun k => got = b ∧ At (.after bs) st k := by
  refine exchange ?_ ?_
  · rintro k g k' rfl hs
    cases hs with
    | byte h =>
      cases h
      exact ⟨rfl, rfl⟩
  · rintro k rfl
    exact ⟨b, _, .byte .give⟩

theorem readBuffer_meets (bs rest : List UInt8) :
    Meets c.link (Sees v (At (.after (bs ++ rest)) st)) (sdSPIReadBuffer bs.length) fun got =>
      Sees v fun k => got = bs ∧ At (.after rest) st k := by
  induction bs with
  | nil => exact .pure [] fun _ _ hk => ⟨hk.1, rfl, hk.2⟩
  | cons b bs ih =>
    refine .bind give_meets fun got => ?_
    refine .bind (.mono (.keep (φ := got = b) ih) (fun _ _ hk => ⟨hk.2.1, hk.1, hk.2.2⟩) fun _ _ _ hk => hk)
        fun bs' => ?_
    refine .pure _ fun s k hk => ⟨hk.2.1, ?_, hk.2.2.2⟩
    rw [hk.1, hk.2.2.1]

theorem select_meets : Meets c.link (Sees v (Rests st)) sdSPISelect fun _ => Sees v (At .ready st) := by
  refine .bind (Q := fun _ => Sees v fun k => At .busy st k ∨ At .ready st k)
      (.event (e := .select) ?_ ?_ ?_ ?_ ?_) fun _ => ?_
  · exact fun _ _ => rfl
  · exact fun _ => rfl
  · exact fun _ => rfl
  · exact fun _ k _ => ⟨_, .select⟩
  · rintro s k k' ⟨hv, rfl, hph⟩ hs
    cases hs with
    | select =>
      dsimp only at hph
      rcases hph with rfl | rfl
      · exact ⟨hv, .inl rfl⟩
      · exact ⟨hv, .inr rfl⟩
  · refine .bind (Q := fun _ => Sees v (At .ready st)) (wait_meets ?_ ?_ ?_) fun _ => .pure () fun _ _ hk => hk
    · rintro k b k' (rfl | rfl) hs hb
      · cases hs with
        | byte h =>
          cases h with
          | busy => exact .inl rfl
          | done hb' => exact absurd (of_decide_eq_true hb) hb'
      · cases hs with
        | byte h =>
          cases h with
          | listen => exact absurd hb (by decide)
          | start h => exact absurd h (by decide)
    · rintro k b k' (rfl | rfl) hs hb
      · cases hs with
        | byte h =>
          cases h with
          | busy => exact absurd hb (by decide)
          | done => rfl
      · cases hs with
        | byte h =>
          cases h with
          | listen => rfl
          | start h => exact absurd h (by decide)
    · rintro k (rfl | rfl)
      · exact ⟨0xFF, _, by decide, .byte (.done (by decide))⟩
      · exact ⟨0xFF, _, by decide, .byte (.listen (by decide))⟩

theorem release_meets :
    Meets c.link (Sees v fun k => k.store = st) sdSPIRelease fun _ => Sees v (Rests st) := by
  refine .bind (Q := fun _ => Sees v fun k => Rests st k ∧ k.low = false)
      (.event (e := .release) ?_ ?_ ?_ ?_ ?_) fun _ => ?_
  · exact fun _ _ => rfl
  · exact fun _ => rfl
  · exact fun _ => rfl
  · exact fun _ k _ => ⟨_, .release⟩
  · rintro s k k' ⟨hv, rfl⟩ hs
    cases hs with
    | release =>
      refine ⟨hv, ⟨rfl, ?_⟩, rfl⟩
      split
      · exact .inl rfl
      · exact .inr rfl
  · refine .bind (Q := fun _ => Sees v (Rests st)) (exchange ?_ ?_) fun _ => .pure () fun _ _ hk => hk
    · rintro k b k' ⟨⟨rfl, hph⟩, hlow⟩ hs
      cases hs with
      | byte => cases hlow
      | apart => exact ⟨rfl, hph⟩
      | done => exact ⟨rfl, .inr rfl⟩
    · rintro ⟨ph, st, low⟩ ⟨-, hlow⟩
      cases hlow
      exact ⟨0xFF, _, .apart⟩

-- ---------------------------------------------------------------------------
-- Commands
-- ---------------------------------------------------------------------------

/-- The card has answered the command with `ret`. -/
def Answered (c : SpiCard) (st : Store) (index arg : Nat) (ret : UInt8) (k : SpiCard.State) : Prop :=
  ∃ ph st', c.Answers st index arg ret ph st' ∧ At ph st' k

def Phase.heard (done : List UInt8) : Phase :=
  if done = [] then .ready else if done.length < 6 then .frame done else .asked done

theorem r1_answer (st : Store) : noAnswer st.r1 = false := by
  rw [Store.r1]
  split <;> decide

theorem SpiCard.Answers.answers (h : c.Answers st index arg ret ph st') : noAnswer ret = false := by
  cases h with
  | ifCond | app | ocr => exact r1_answer st
  | refused _ _ _ h => exact h
  | illegal _ _ h =>
    have hall : ∀ b : BitVec 8, UInt8.ofBitVec b &&& 0x84 = 0x04 →
      noAnswer (UInt8.ofBitVec b) = false := by decide
    exact hall ret.toBitVec h
  | _ => decide

theorem frame_step (hlen : (done ++ [b]).length ≤ 6) (hb : done = [] → b / 64 = 1) (hk : At (.heard done) st k)
    (hs : c.Step k (.byte b g) k') : At (.heard (done ++ [b])) st k' := by
  rw [List.length_append] at hlen
  cases done with
  | nil =>
    cases hk
    cases hs with
    | byte h =>
      cases h with
      | listen h => exact absurd (hb rfl) h
      | start => rfl
  | cons d done =>
    have hlt : (d :: done).length < 6 := hlen
    rw [Phase.heard, if_neg (List.cons_ne_nil d done), if_pos hlt] at hk
    cases hk
    cases hs with
    | byte h =>
      cases h with
      | frame h =>
        have h6 : ((d :: done) ++ [b]).length < 6 := by rw [List.length_append]; exact Nat.succ_lt_succ h
        rw [Phase.heard, if_neg (by simp), if_pos h6]
        rfl
      | asked h =>
        have h6 : ¬ ((d :: done) ++ [b]).length < 6 := by rw [List.length_append, h]; exact Nat.lt_irrefl 6
        rw [Phase.heard, if_neg (by simp), if_neg h6]
        rfl

theorem frame_can (hlen : (done ++ [b]).length ≤ 6) (hb : done = [] → b / 64 = 1) (hk : At (.heard done) st k) :
    ∃ g k', c.Step k (.byte b g) k' := by
  rw [List.length_append] at hlen
  cases done with
  | nil =>
    cases hk
    exact ⟨0xFF, _, .byte (.start (hb rfl))⟩
  | cons d done =>
    have hlt : (d :: done).length < 6 := hlen
    rw [Phase.heard, if_neg (List.cons_ne_nil d done), if_pos hlt] at hk
    cases hk
    rcases Nat.lt_or_ge (d :: done).length 5 with h | h
    · exact ⟨0xFF, _, .byte (.frame h)⟩
    · exact ⟨0xFF, _, .byte (.asked (Nat.le_antisymm (Nat.le_of_lt_succ hlt) h))⟩

theorem frame_bytes (cmd : UInt8) (arg : Nat) :
    (commandFrame cmd arg).length = 6 ∧ ((commandFrame cmd arg).headD 0).toNat % 64 = cmd.toNat % 64 ∧
      frameArg (commandFrame cmd arg).tail = u32 arg := by
  refine ⟨rfl, (frame_start cmd).2, ?_⟩
  simp only [commandFrame, List.tail_cons, frameArg, be32, UInt8.toNat_ofNat', u32]
  omega

theorem sendFrame_meets (cmd : UInt8) (arg : Nat)
    (hcan : ∃ ret ph st', c.Answers st (cmd.toNat % 64) (u32 arg) ret ph st') :
    Meets c.link (Sees v (Rests st)) (sendFrame cmd arg) fun ret =>
      Sees v (Answered c st (cmd.toNat % 64) (u32 arg) ret) := by
  obtain ⟨hlen, hindex, hfarg⟩ := frame_bytes cmd arg
  have hfirst : ∀ done b, (done ++ [b]) <+: commandFrame cmd arg → done = [] → b / 64 = 1 := by
    rintro _ b ⟨rest, hrest⟩ rfl
    cases hrest
    exact (frame_start cmd).1
  have hle : ∀ done b, (done ++ [b]) <+: commandFrame cmd arg → (done ++ [b]).length ≤ 6 :=
    fun _ _ h => hlen ▸ h.length_le
  refine .bind select_meets fun _ => .bind ?_ fun _ =>
    wait_meets (P := At (.asked (commandFrame cmd arg)) st) ?_ ?_ ?_
  · refine writeBuffer_meets (P := fun done => At (.heard done) st) [] (commandFrame cmd arg) ?_ ?_ rfl
    · exact fun done b h k g k' hk hs => frame_step (hle done b h) (hfirst done b h) hk hs
    · exact fun done b h k hk => frame_can (hle done b h) (hfirst done b h) hk
  · rintro k b k' rfl hs hb
    cases hs with
    | byte h =>
      cases h with
      | noAnswer => rfl
      | answer h => rw [h.answers] at hb; cases hb
  · rintro k b k' rfl hs hb
    cases hs with
    | byte h =>
      cases h with
      | noAnswer h => rw [h] at hb; cases hb
      | answer h =>
        rw [hindex, hfarg] at h
        exact ⟨_, _, h, rfl⟩
  · rintro k rfl
    obtain ⟨ret, ph, st', h⟩ := hcan
    have hr : c.Reacts (.asked (commandFrame cmd arg)) st 0xFF ret ph st' :=
      .answer (by rw [hindex, hfarg]; exact h)
    exact ⟨ret, _, h.answers, .byte hr⟩

theorem command_meets (cmd : UInt8) (happ : isAppCommand cmd = false) (arg : Nat)
    (hcan : ∃ ret ph st', c.Answers st (cmd.toNat % 64) (u32 arg) ret ph st') :
    Meets c.link (Sees v (Rests st)) (sdDrvCommand cmd arg) fun ret =>
      Sees v (Answered c st (cmd.toNat % 64) (u32 arg) ret) := by
  rw [sdDrvCommand, if_neg (by simp [happ])]
  exact sendFrame_meets cmd arg hcan

-- ---------------------------------------------------------------------------
-- Blocks
-- ---------------------------------------------------------------------------

/-- What becomes of the memory behind `buf` when the card has taken a read. -/
def BlockCame (c : SpiCard) (data : List UInt8) (d d' : Nat → UInt8) : Prop :=
  d' = memcpy 0 data (memcpy 0 [TOKEN_SINGLE_READ] d) ∨ c.sound = false ∧ ∃ token, d' = memcpy 0 [token] d

/-- What becomes of the card's memory when the card has taken a write. -/
def BlockWent (c : SpiCard) (st : Store) (n : Nat) (data : List UInt8) (st' : Store) : Prop :=
  st' = st.put n data ∨ c.sound = false ∧ st' = st

theorem setDest_meets (f : (Nat → UInt8) → Nat → UInt8) :
    Meets c.link (Sees v P) (modify fun s => { s with dest := f s.dest } : SpiM PUnit) fun _ =>
      Sees { v with dest := f v.dest } P := by
  refine .change (fun v : Kept => { v with dest := f v.dest }) ?_ ?_ ?_ ?_
  · exact fun _ _ => rfl
  · exact fun _ => rfl
  · exact fun _ => rfl
  · rintro v' k ⟨rfl, hk⟩
    exact ⟨rfl, hk⟩

/-- The card after the byte that the driver takes for the token. -/
def Token (c : SpiCard) (st : Store) (n : Nat) (token : UInt8) (k : SpiCard.State) : Prop :=
  if token = TOKEN_SINGLE_READ then ∃ crc : UInt8 × UInt8,
    At (.after (block (st.mem n) 0 ++ [crc.1, crc.2])) st k
  else c.sound = false ∧ At .ready st k

theorem token_meets : Meets c.link (Sees v (At (.reading n) st)) (poll fun b => b = 0xFF) fun token =>
    Sees v (Token c st n token) := by
  refine wait_meets ?_ ?_ ?_
  · rintro k b k' rfl hs hb
    cases hs with
    | byte h =>
      cases h with
      | noToken => rfl
      | token => exact absurd hb (by decide)
      | errorToken _ hff => exact absurd (of_decide_eq_true hb) hff
  · rintro k b k' rfl hs hb
    cases hs with
    | byte h =>
      cases h with
      | noToken => exact absurd hb (by decide)
      | token =>
        rw [Token, if_pos rfl]
        exact ⟨(_, _), rfl⟩
      | errorToken hs _ hfe =>
        rw [Token, if_neg hfe]
        exact ⟨hs, rfl⟩
  · rintro k rfl
    have hr : c.Reacts (.reading n) st 0xFF TOKEN_SINGLE_READ (.after (block (st.mem n) 0 ++ [0, 0])) st :=
      .token
    exact ⟨TOKEN_SINGLE_READ, _, by decide, .byte hr⟩

theorem block_meets (v : Kept) (st : Store) (crc1 crc0 : UInt8) (hlen : data.length = 512) :
    Meets c.link (Sees v (At (.after (data ++ [crc1, crc0])) st))
      (do
        let bs ← sdSPIReadBuffer 512
        modify fun s => { s with dest := memcpy 0 bs s.dest }
        let _ ← sdSPIreadwrite 0xFF
        let _ ← sdSPIreadwrite 0xFF
        pure 0 : SpiM Int)
      fun _ => Sees { v with dest := memcpy 0 data v.dest } (At .ready st) := by
  have hread :
      Meets c.link (Sees v (At (.after (data ++ [crc1, crc0])) st)) (sdSPIReadBuffer data.length) fun bs =>
      Sees v fun k => bs = data ∧ At (.after [crc1, crc0]) st k := readBuffer_meets data [crc1, crc0]
  rw [hlen] at hread
  refine .bind hread fun bs => ?_
  refine .mono (P := fun v' k => bs = data ∧ Sees v (At (.after [crc1, crc0]) st) v' k)
    (Q := fun _ v' k => bs = data ∧ Sees { v with dest := memcpy 0 bs v.dest } (At .ready st) v' k) (.keep ?_)
    (fun _ _ hk => ⟨hk.2.1, hk.1, hk.2.2⟩) fun _ _ _ hk => hk.1 ▸ hk.2
  refine .bind (setDest_meets (memcpy 0 bs)) fun _ => .bind give_meets fun _ => ?_
  refine .bind (.mono give_meets (fun _ _ hk => ⟨hk.1, hk.2.2⟩) fun _ _ _ hk => hk) fun _ => ?_
  exact .pure 0 fun _ _ hk => ⟨hk.1, hk.2.2⟩

theorem getBlock_meets : Meets c.link (Sees v (At (.reading n) st)) (sdDrvGetBlock 0 512) fun _ v' k =>
    ∃ d, BlockCame c (block (st.mem n) 0) v.dest d ∧ Sees { v with dest := d } (At .ready st) v' k := by
  refine .bind token_meets fun token => .bind (setDest_meets _) fun _ => ?_
  by_cases ht : token = TOKEN_SINGLE_READ
  · subst ht
    rw [if_neg (by decide)]
    have hblock := fun crc : UInt8 × UInt8 => block_meets (c := c)
      { v with dest := memcpy 0 [TOKEN_SINGLE_READ] v.dest } st crc.1 crc.2 (block_length (st.mem n) 0)
    refine .mono (.of_exists hblock) ?_ ?_
    · rintro v' k ⟨hv, hk⟩
      rw [Token, if_pos rfl] at hk
      exact hk.imp fun _ hk => ⟨hv, hk⟩
    · exact fun _ v' k hk => ⟨_, .inl rfl, hk⟩
  · rw [if_pos ht]
    refine .pure _ fun v' k hk => ?_
    have hk2 := hk.2
    rw [Token, if_neg ht] at hk2
    exact ⟨_, .inr ⟨hk2.1, token, rfl⟩, hk.1, hk2.2⟩

theorem expecting_meets : Meets c.link (Sees v (At (.expecting n) st)) (poll fun b => b ≠ 0xFF) fun _ =>
    Sees v (At (.expecting n) st) := by
  have hstay : ∀ k b k', At (.expecting n) st k → c.Step k (.byte 0xFF b) k' → At (.expecting n) st k' := by
    rintro k b k' rfl hs
    cases hs with
    | byte h =>
      cases h with
      | noData => rfl
      | data h => exact absurd h (by decide)
  refine wait_meets (fun k b k' hk hs _ => hstay k b k' hk hs) (fun k b k' hk hs _ => hstay k b k' hk hs) ?_
  rintro k rfl
  exact ⟨0xFF, _, by decide, .byte (.noData rfl)⟩

theorem data_meets (n : Nat) (st : Store) (hlen : all.length = 512) :
    Meets c.link (Sees v (At (.taking n []) st)) (sdSPIWriteBuffer all) fun _ =>
      Sees v (At (.taking n all) st) := by
  have hle : ∀ {done : List UInt8} {b}, (done ++ [b]) <+: all → done.length < 513 := by
    intro done b h
    have := h.length_le
    rw [List.length_append, hlen] at this
    exact Nat.lt_of_succ_le (Nat.le_succ_of_le this)
  refine writeBuffer_meets (P := fun done => At (.taking n done) st) [] all ?_ ?_ rfl
  · rintro done b h k g k' rfl hs
    cases hs with
    | byte hr =>
      cases hr with
      | take => rfl
      | taken h' => exact absurd (h' ▸ hle h) (Nat.lt_irrefl 513)
  · rintro done b h k rfl
    exact ⟨0xFF, _, .byte (.take (hle h))⟩

theorem setBlock_meets (hlen : buf.length = 512) :
    Meets c.link (Sees v (At (.expecting n) st)) (sdDrvSetBlock buf TOKEN_SINGLE_WRITE) fun _ v' k =>
      ∃ st', BlockWent c st n buf st' ∧ Sees v (At .busy st') v' k := by
  rw [sdDrvSetBlock, if_pos (by decide)]
  refine .bind expecting_meets fun _ =>
    .bind (Q := fun _ => Sees v (At (.taking n []) st)) (exchange ?_ ?_) fun _ => ?_
  · rintro k b k' rfl hs
    cases hs with
    | byte h =>
      cases h with
      | noData h => exact absurd h (by decide)
      | data => rfl
  · rintro k rfl
    exact ⟨0xFF, _, .byte (.data rfl)⟩
  refine .bind (data_meets n st hlen) fun _ => ?_
  refine .bind (Q := fun _ => Sees v (At (.taking n (buf ++ [0xFF])) st)) (exchange ?_ ?_) fun _ => ?_
  · rintro k b k' rfl hs
    cases hs with
    | byte h =>
      cases h with
      | take => rfl
      | taken h => exact absurd (h.symm.trans hlen) (by decide)
  · rintro k rfl
    exact ⟨0xFF, _, .byte (.take (by rw [hlen]; decide))⟩
  have hlen' : (buf ++ [0xFF]).length = 513 := by rw [List.length_append, hlen]; rfl
  refine .bind (Q := fun _ => Sees v (At (.taken n buf) st)) (exchange ?_ ?_) fun _ => ?_
  · rintro k b k' rfl hs
    cases hs with
    | byte h =>
      cases h with
      | take h => exact absurd (hlen' ▸ h) (by decide)
      | taken => rw [List.take_left' hlen]; rfl
  · rintro k rfl
    exact ⟨0xFF, _, .byte (.taken hlen')⟩
  refine .bind (Q := fun _ v' k => ∃ st', BlockWent c st n buf st' ∧ Sees v (At .busy st') v' k) ?_ fun r =>
    .pure _ fun _ _ hk => hk
  refine .mono (exchange (Q := fun _ k => ∃ st', BlockWent c st n buf st' ∧ At .busy st' k) ?_ ?_)
    (fun _ _ h => h) ?_
  · rintro k b k' rfl hs
    cases hs with
    | byte h =>
      cases h with
      | accept => exact ⟨_, .inl rfl, rfl⟩
      | reject hs => exact ⟨_, .inr ⟨hs, rfl⟩, rfl⟩
  · rintro k rfl
    exact ⟨0x05, _, .byte (.accept (by rw [Accepted]; decide))⟩
  · rintro _ v' k ⟨hv, st', hw, hk⟩
    exact ⟨st', hw, hv, hk⟩

-- ---------------------------------------------------------------------------
-- Sectors
-- ---------------------------------------------------------------------------

/-- The result of a read from an address, and the memory behind `buf` after it. -/
def ReadFrom (c : SpiCard) (st : Store) (address r : Nat) (d d' : Nat → UInt8) : Prop :=
  (c.Refuses st address ∧ r = 0 ∧ d' = d) ∨
    r = 1 ∧ ∃ n, c.sectorAt address = some n ∧ BlockCame c (block (st.mem n) 0) d d'

/-- The result of a write to an address, and what the card keeps after it. -/
def WrittenTo (c : SpiCard) (st : Store) (address : Nat) (data : List UInt8) (r : Nat) (st' : Store) : Prop :=
  (c.Refuses st address ∧ r = 0 ∧ st' = st) ∨ r = 1 ∧ ∃ n, c.sectorAt address = some n ∧
    BlockWent c st n data st'

theorem opCond_index (h : c.OpCond st index) : index = 1 ∨ index = 41 := by
  rw [SpiCard.OpCond] at h
  split at h
  · exact .inl h
  · exact .inr h.1

theorem takes_or_refuses (c : SpiCard) (st : Store) (address : Nat) :
    (st.idle = false ∧ ∃ n, c.sectorAt address = some n) ∨ c.Refuses st address := by
  cases hidle : st.idle with
  | true => exact .inr (.inr (.inl hidle))
  | false =>
    cases hn : c.sectorAt address with
    | none => exact .inr (.inr (.inr hn))
    | some n => exact .inl ⟨rfl, n, rfl⟩

theorem read_can (c : SpiCard) (st : Store) (address : Nat) :
    ∃ ret ph st', c.Answers st 17 address ret ph st' := by
  rcases takes_or_refuses c st address with ⟨hidle, n, hn⟩ | hr
  · exact ⟨0, _, _, .read hidle hn⟩
  · exact ⟨0x40, _, _, .refused (.inl rfl) hr (by decide) (by decide)⟩

theorem write_can (c : SpiCard) (st : Store) (address : Nat) :
    ∃ ret ph st', c.Answers st 24 address ret ph st' := by
  rcases takes_or_refuses c st address with ⟨hidle, n, hn⟩ | hr
  · exact ⟨0, _, _, .write hidle hn⟩
  · exact ⟨0x40, _, _, .refused (.inr rfl) hr (by decide) (by decide)⟩

theorem Answered.read (h : Answered c st 17 address ret k) :
    if ret = 0 then ∃ n, c.sectorAt address = some n ∧ At (.reading n) st.noApp k
    else c.Refuses st address ∧ At .ready st.noApp k := by
  obtain ⟨ph, st', h, hk⟩ := h
  cases h with
  | read _ hn =>
    rw [if_pos rfl]
    exact ⟨_, hn, hk⟩
  | refused _ hr hret =>
    rw [if_neg hret]
    exact ⟨hr, hk⟩
  | working h => exact absurd (opCond_index h) (by decide)
  | awake h => exact absurd (opCond_index h) (by decide)
  | illegal h => exact absurd h (by decide)

theorem Answered.write (h : Answered c st 24 address ret k) :
    if ret = 0 then ∃ n, c.sectorAt address = some n ∧ At (.expecting n) st.noApp k
    else c.Refuses st address ∧ At .ready st.noApp k := by
  obtain ⟨ph, st', h, hk⟩ := h
  cases h with
  | write _ hn =>
    rw [if_pos rfl]
    exact ⟨_, hn, hk⟩
  | refused _ hr hret =>
    rw [if_neg hret]
    exact ⟨hr, hk⟩
  | working h => exact absurd (opCond_index h) (by decide)
  | awake h => exact absurd (opCond_index h) (by decide)
  | illegal h => exact absurd h (by decide)

theorem readSingle_meets (address : Nat) :
    Meets c.link (Sees v (Rests st)) (readSingle address) fun r v' k =>
      ∃ d, ReadFrom c st (u32 address) r v.dest d ∧ Sees { v with dest := d } (At .ready st.noApp) v' k := by
  have hblock : ∀ n, Meets c.link
      (fun v' k => c.sectorAt (u32 address) = some n ∧ Sees v (At (.reading n) st.noApp) v' k)
      (sdDrvGetBlock 0 512)
      fun _ v' k => ∃ d, ReadFrom c st (u32 address) 1 v.dest d ∧
        Sees { v with dest := d } (At .ready st.noApp) v' k :=
    fun n => .mono (.keep getBlock_meets) (fun _ _ h => h) fun _ _ _ ⟨hn, d, hd, hk⟩ =>
      ⟨d, .inr ⟨rfl, n, hn, hd⟩, hk⟩
  refine .bind (command_meets SD_CMD17 (by decide) address (read_can c st _)) fun ret => ?_
  by_cases hret : ret = 0
  · subst hret
    rw [if_pos rfl]
    refine .bind (.mono (.of_exists hblock) ?_ fun _ _ _ h => h) fun _ => .pure 1 fun _ _ h => h
    exact fun v' k hk => hk.2.read.imp fun n hn => ⟨hn.1, hk.1, hn.2⟩
  · rw [if_neg hret]
    refine .pure 0 fun v' k hk => ?_
    have h := hk.2.read
    rw [if_neg hret] at h
    exact ⟨v.dest, .inl ⟨h.1, rfl, rfl⟩, hk.1, h.2⟩

theorem writeSingle_meets (address : Nat) (buf : Nat → UInt8) :
    Meets c.link (Sees v (Rests st)) (writeSingle address buf) fun r v' k =>
      WrittenTo c st.noApp (u32 address) (block buf 0) r k.store ∧ v' = v := by
  have hblock : ∀ n, Meets c.link
      (fun v' k => c.sectorAt (u32 address) = some n ∧ Sees v (At (.expecting n) st.noApp) v' k)
      (sdDrvSetBlock (block buf 0) TOKEN_SINGLE_WRITE)
      fun _ v' k => WrittenTo c st.noApp (u32 address) (block buf 0) 1 k.store ∧ v' = v := by
    refine fun n => .mono (.keep (setBlock_meets (block_length buf 0))) (fun _ _ h => h) ?_
    rintro _ v' k ⟨hn, st', hst, hv, rfl⟩
    exact ⟨.inr ⟨rfl, n, hn, hst⟩, hv⟩
  refine .bind (command_meets SD_CMD24 (by decide) address (write_can c st _)) fun ret => ?_
  by_cases hret : ret = 0
  · subst hret
    rw [if_pos rfl]
    refine .bind (.mono (.of_exists hblock) ?_ fun _ _ _ h => h) fun _ => .pure 1 fun _ _ h => h
    exact fun v' k hk => hk.2.write.imp fun n hn => ⟨hn.1, hk.1, hn.2⟩
  · rw [if_neg hret]
    refine .pure 0 fun v' k hk => ?_
    have h := hk.2.write
    rw [if_neg hret] at h
    obtain ⟨hr, rfl⟩ := h
    exact ⟨.inl ⟨hr, rfl, rfl⟩, hk.1⟩

theorem At.rests (h : At .ready st k) : Rests st k := by
  cases h
  exact ⟨rfl, .inr rfl⟩

theorem finish_meets (r : Nat) : Meets c.link (Sees v fun k => k.store = st)
    (do
      sdSPIRelease
      pure r : SpiM Nat)
    fun r' v' k => r' = r ∧ Sees v (Rests st) v' k :=
  .bind release_meets fun _ => .pure r fun _ _ h => ⟨rfl, h⟩

theorem readSector_meets (n : Nat) :
    Meets c.link (Sees v (Rests st)) (sdDrvReadSector n 1) fun r v' k =>
      ∃ d, ReadFrom c st (u32 (cardAddress v.cardType n)) r v.dest d ∧
          Sees { v with dest := d } (Rests st.noApp) v' k := by
  have hend : ∀ v : Kept, ∀ r d, Meets c.link
      (fun v' k => ReadFrom c st (u32 (cardAddress v.cardType n)) r v.dest d ∧
        Sees { v with dest := d } (At .ready st.noApp) v' k)
      (do
        sdSPIRelease
        pure r : SpiM Nat)
      fun r v' k => ∃ d, ReadFrom c st (u32 (cardAddress v.cardType n)) r v.dest d ∧
        Sees { v with dest := d } (Rests st.noApp) v' k := by
    refine fun v r d => .mono (.keep (finish_meets r)) (fun v' k hk => ⟨hk.1, hk.2.1, hk.2.2.rests.1⟩) ?_
    rintro _ v' k ⟨hd, rfl, hk⟩
    exact ⟨d, hd, hk⟩
  refine .bind select_meets fun _ => ?_
  refine .gets (p := Driver.cardType) (g := fun ct => do
    let status ← readSingle (cardAddress ct n)
    sdSPIRelease
    pure status) Kept.cardType (fun _ => rfl) fun v0 => ?_
  refine .mono (P := fun v' k => v0 = v ∧ Sees v0 (Rests st) v' k)
    (.keep (.bind (readSingle_meets _) fun r => .of_exists (hend v0 r)))
    (fun v' k hk => ⟨hk.1.symm.trans hk.2.1, hk.1, hk.2.2.rests⟩) ?_
  rintro r v' k ⟨rfl, h⟩
  exact h

theorem writeSector_meets (n : Nat) (buf : Nat → UInt8) :
    Meets c.link (Sees v (Rests st)) (sdDrvWriteSector n 1 buf) fun r v' k =>
      WrittenTo c st.noApp (u32 (cardAddress v.cardType n)) (block buf 0) r k.store ∧
        Sees v (Rests k.store) v' k := by
  have hend : ∀ v : Kept, ∀ r st', Meets c.link
      (fun v' k => WrittenTo c st.noApp (u32 (cardAddress v.cardType n)) (block buf 0) r st' ∧
        Sees v (fun k => k.store = st') v' k)
      (do
        sdSPIRelease
        pure r : SpiM Nat)
      fun r v' k => WrittenTo c st.noApp (u32 (cardAddress v.cardType n)) (block buf 0) r k.store ∧
        Sees v (Rests k.store) v' k := by
    refine fun v r st' => .mono (.keep (finish_meets r)) (fun v' k hk => hk) ?_
    rintro _ v' k ⟨hst, rfl, hv, rfl, hph⟩
    exact ⟨hst, hv, rfl, hph⟩
  refine .bind select_meets fun _ => ?_
  refine .gets (p := Driver.cardType) (g := fun ct => do
    let status ← writeSingle (cardAddress ct n) buf
    sdSPIRelease
    pure status) Kept.cardType (fun _ => rfl) fun v0 => ?_
  have hwrite : Meets c.link (Sees v0 (Rests st)) (writeSingle (cardAddress v0.cardType n) buf) fun r v' k =>
      ∃ st', WrittenTo c st.noApp (u32 (cardAddress v0.cardType n)) (block buf 0) r st' ∧
        Sees v0 (fun k => k.store = st') v' k :=
    .mono (writeSingle_meets _ buf) (fun _ _ h => h) fun _ _ k h => ⟨k.store, h.1, h.2, rfl⟩
  refine .mono (P := fun v' k => v0 = v ∧ Sees v0 (Rests st) v' k)
    (.keep (.bind hwrite fun r => .of_exists (hend v0 r)))
    (fun v' k hk => ⟨hk.1.symm.trans hk.2.1, hk.1, hk.2.2.rests⟩) ?_
  rintro r v' k ⟨rfl, h⟩
  exact h

end Stm32Logger.Sd
