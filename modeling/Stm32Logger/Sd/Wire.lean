import Stm32Logger.Effect
import Stm32Logger.Sd.Driver

/-!
# What the card hears

The bytes on the wire, read as a card reads them: fill bytes, command frames
with their answers, data packets with their responses, and stop tokens. Then,
for each call on the bus, what it puts on the wire and which of the card's
bytes it takes.
-/

namespace Stm32Logger.Sd

/-- What a card makes of the bytes it is sent. -/
inductive Packet where
  | command (index arg : Nat) (answer : UInt8)
  | data (token : UInt8) (bytes : List UInt8) (response : UInt8)
  | stop
  deriving DecidableEq

def fills (bs : List UInt8) : List Event := bs.map (Event.byte 0xFF)

def sends (buf got : List UInt8) : List Event := List.zipWith Event.byte buf got

def gots : List Event → List UInt8
  | [] => []
  | .byte _ got :: es => got :: gots es
  | .select :: es => gots es
  | .release :: es => gots es

/-- The number that four bytes make, the highest first. -/
def be32 (a b c d : UInt8) : Nat := ((a.toNat * 256 + b.toNat) * 256 + c.toNat) * 256 + d.toNat

/-- The events carry these packets, one after the other, among fill bytes. A
frame starts with the bits 01, and its answer is the first byte with bit 7 clear. -/
inductive Speaks : List Event → List Packet → Prop where
  | nil : Speaks [] []
  | select (h : Speaks es ps) : Speaks (.select :: es) ps
  | release (h : Speaks es ps) : Speaks (.release :: es) ps
  | fill (h : Speaks es ps) : Speaks (.byte 0xFF got :: es) ps
  | command (hcmd : cmd / 64 = 1) (hgot : got.length = 6) (hno : ∀ b ∈ no, noAnswer b = true)
      (hret : noAnswer ret = false) (h : Speaks es ps) :
      Speaks (sends [cmd, a3, a2, a1, a0, crc] got ++ (fills no ++ .byte 0xFF ret :: es))
        (.command (cmd.toNat % 64) (be32 a3 a2 a1 a0) ret :: ps)
  | data (htoken : token = TOKEN_SINGLE_WRITE ∨ token = TOKEN_MULTI_WRITE) (hbytes : bytes.length = 512)
      (hgot : got.length = 515) (h : Speaks es ps) :
      Speaks (sends (token :: bytes ++ [0xFF, 0xFF]) got ++ .byte 0xFF response :: es)
        (.data token bytes response :: ps)
  | stop (h : Speaks es ps) : Speaks (.byte TOKEN_STOP_TRAN got :: es) (.stop :: ps)

def Driver.after (s : Driver) (es : List Event) (rx : List UInt8) : Driver :=
  { s with rx, trace := s.trace ++ es }

variable {s t : Driver} {es es' : List Event} {ps ps' : List Packet} {rx : List UInt8}

-- ---------------------------------------------------------------------------
-- Packets
-- ---------------------------------------------------------------------------

theorem Speaks.append (h : Speaks es ps) (h' : Speaks es' ps') : Speaks (es ++ es') (ps ++ ps') := by
  induction h with
  | nil => exact h'
  | select _ ih => exact .select ih
  | release _ ih => exact .release ih
  | fill _ ih => exact .fill ih
  | command hcmd hgot hno hret _ ih =>
    rw [List.append_assoc, List.append_assoc]
    exact .command hcmd hgot hno hret ih
  | data htoken hbytes hgot _ ih =>
    rw [List.append_assoc]
    exact .data htoken hbytes hgot ih
  | stop _ ih => exact .stop ih

theorem speaks_fills (bs : List UInt8) : Speaks (fills bs) [] := by
  induction bs with
  | nil => exact .nil
  | cons b bs ih => exact .fill ih

theorem gots_append (es es' : List Event) : gots (es ++ es') = gots es ++ gots es' := by
  induction es with
  | nil => rfl
  | cons e es ih =>
    cases e with
    | byte sent got => exact congrArg (got :: ·) ih
    | select => exact ih
    | release => exact ih

theorem gots_fills (bs : List UInt8) : gots (fills bs) = bs := by
  induction bs with
  | nil => rfl
  | cons b bs ih => exact congrArg (b :: ·) ih

theorem gots_sends (h : got.length = buf.length) : gots (sends buf got) = got := by
  induction buf generalizing got with
  | nil => rw [List.length_eq_zero_iff.mp h]; rfl
  | cons b buf ih =>
    cases got with
    | nil => cases h
    | cons g got => exact congrArg (g :: ·) (ih (Nat.succ.inj h))

-- ---------------------------------------------------------------------------
-- The bus
-- ---------------------------------------------------------------------------

@[simp] theorem after_rx : (s.after es rx).rx = rx := rfl

@[simp] theorem after_cardType : (s.after es rx).cardType = s.cardType := rfl

theorem after_after : (s.after es rx).after es' rx' = s.after (es ++ es') rx' := by
  rw [Driver.after, Driver.after, Driver.after, List.append_assoc]

theorem sdSPIreadwrite_run (h : s.rx = b :: rx) :
    sdSPIreadwrite data s = .ok b (s.after [.byte data b] rx) := by
  rw [sdSPIreadwrite, get_bind, h]
  rfl

theorem sdSPIreadwrite_stuck (h : s.rx = []) : sdSPIreadwrite data s = .error .waiting s := by
  rw [sdSPIreadwrite, get_bind, h]
  rfl

theorem pollLoop_run (fuel : Nat) (h : s.rx.dropWhile p = b :: rx) (hfuel : s.rx.length < fuel) :
    pollLoop p fuel s = .ok b (s.after (fills (s.rx.takeWhile p ++ [b])) rx) := by
  induction fuel generalizing s with
  | zero => exact absurd hfuel (Nat.not_lt_zero _)
  | succ fuel ih =>
    cases hrx : s.rx with
    | nil =>
      rw [hrx] at h
      cases h
    | cons c cs =>
      rw [hrx] at h hfuel
      rw [pollLoop, bind_ok (sdSPIreadwrite_run hrx)]
      by_cases hp : p c = true
      · rw [List.dropWhile_cons_of_pos hp] at h
        have hrec := ih (s := s.after [.byte 0xFF c] cs) h (Nat.lt_of_succ_lt_succ hfuel)
        rw [if_pos hp, hrec, after_rx, after_after, List.takeWhile_cons_of_pos hp]
        rfl
      · rw [List.dropWhile_cons_of_neg hp] at h
        cases h
        rw [if_neg hp, List.takeWhile_cons_of_neg hp]
        rfl

theorem pollLoop_stuck (fuel : Nat) (h : s.rx.dropWhile p = []) :
    ∃ t, pollLoop p fuel s = .error .waiting t := by
  induction fuel generalizing s with
  | zero => exact ⟨s, rfl⟩
  | succ fuel ih =>
    cases hrx : s.rx with
    | nil => exact ⟨s, by rw [pollLoop, bind_error (sdSPIreadwrite_stuck hrx)]⟩
    | cons c cs =>
      rw [hrx] at h
      have hp : p c = true := by
        by_contra hp
        rw [List.dropWhile_cons_of_neg hp] at h
        cases h
      rw [List.dropWhile_cons_of_pos hp] at h
      rw [pollLoop, bind_ok (sdSPIreadwrite_run hrx), if_pos hp]
      exact ih (s := s.after [.byte 0xFF c] cs) h

theorem poll_run (h : s.rx.dropWhile p = b :: rx) :
    poll p s = .ok b (s.after (fills (s.rx.takeWhile p ++ [b])) rx) := by
  rw [poll, get_bind]
  exact pollLoop_run _ h (Nat.lt_succ_self _)

theorem poll_stuck (h : s.rx.dropWhile p = []) : ∃ t, poll p s = .error .waiting t := by
  rw [poll, get_bind]
  exact pollLoop_stuck _ h

theorem poll_takes (h : s.rx.dropWhile p = b :: rx) : s.rx = (s.rx.takeWhile p ++ [b]) ++ rx := by
  rw [List.append_assoc, List.singleton_append, ← h, List.takeWhile_append_dropWhile]

theorem sdSPIWriteBuffer_run (buf got : List UInt8) (h : s.rx = got ++ rx) (hlen : got.length = buf.length) :
    sdSPIWriteBuffer buf s = .ok ⟨⟩ (s.after (sends buf got) rx) := by
  induction buf generalizing s got with
  | nil =>
    rw [List.length_eq_zero_iff.mp hlen] at h ⊢
    subst h
    rw [sdSPIWriteBuffer, sends, List.zipWith_nil_left, Driver.after, List.append_nil]
    rfl
  | cons b buf ih =>
    cases got with
    | nil => cases hlen
    | cons g got =>
      have hg : s.rx = g :: (got ++ rx) := h
      rw [sdSPIWriteBuffer, bind_ok (sdSPIreadwrite_run hg),
        ih (s := s.after [.byte b g] (got ++ rx)) got rfl (Nat.succ.inj hlen), after_after]
      rfl

theorem sdSPIWriteBuffer_stuck (buf : List UInt8) (h : s.rx.length < buf.length) :
    ∃ t, sdSPIWriteBuffer buf s = .error .waiting t := by
  induction buf generalizing s with
  | nil => exact absurd h (Nat.not_lt_zero _)
  | cons b buf ih =>
    cases hrx : s.rx with
    | nil => exact ⟨s, by rw [sdSPIWriteBuffer, bind_error (sdSPIreadwrite_stuck hrx)]⟩
    | cons c cs =>
      rw [sdSPIWriteBuffer, bind_ok (sdSPIreadwrite_run hrx)]
      rw [hrx] at h
      exact ih (s := s.after [.byte b c] cs) (Nat.lt_of_succ_lt_succ h)

theorem sdSPIReadBuffer_run (got : List UInt8) (h : s.rx = got ++ rx) (hlen : got.length = len) :
    sdSPIReadBuffer len s = .ok got (s.after (fills got) rx) := by
  induction len generalizing s got with
  | zero =>
    rw [List.length_eq_zero_iff.mp hlen] at h ⊢
    subst h
    rw [sdSPIReadBuffer, fills, List.map_nil, Driver.after, List.append_nil]
    rfl
  | succ len ih =>
    cases got with
    | nil => cases hlen
    | cons g got =>
      have hg : s.rx = g :: (got ++ rx) := h
      rw [sdSPIReadBuffer, bind_ok (sdSPIreadwrite_run hg),
        bind_ok (ih (s := s.after [.byte 0xFF g] (got ++ rx)) got rfl (Nat.succ.inj hlen)), after_after]
      rfl

theorem sdSPIReadBuffer_stuck (h : s.rx.length < len) :
    ∃ t, sdSPIReadBuffer len s = .error .waiting t := by
  induction len generalizing s with
  | zero => exact absurd h (Nat.not_lt_zero _)
  | succ len ih =>
    cases hrx : s.rx with
    | nil => exact ⟨s, by rw [sdSPIReadBuffer, bind_error (sdSPIreadwrite_stuck hrx)]⟩
    | cons c cs =>
      rw [hrx] at h
      obtain ⟨t, ht⟩ := ih (s := s.after [.byte 0xFF c] cs) (Nat.lt_of_succ_lt_succ h)
      exact ⟨t, by rw [sdSPIReadBuffer, bind_ok (sdSPIreadwrite_run hrx), bind_error ht]⟩

end Stm32Logger.Sd
