import Stm32Logger.Sd.Wire

/-!
# Commands and blocks

Whether a call of the driver returns, and with what, is decided by the bytes
the card returns. `answered` and its kin read that off the bytes to come; the
calls are then followed on the wire.
-/

namespace Stm32Logger.Sd

/-- The bytes from the answer to a frame on: the card is selected, six bytes
go by during the frame, and bytes with bit 7 set are no answer. -/
def answered (rx : List UInt8) : List UInt8 :=
  (((rx.dropWhile fun b => b = 0).tail).drop 6).dropWhile noAnswer

def commandAnswered (cmd : UInt8) (rx : List UInt8) : List UInt8 :=
  if isAppCommand cmd then
    match answered rx with
    | [] => []
    | ret :: rx => if ret > 1 then ret :: rx else answered rx
  else answered rx

def announced (rx : List UInt8) : List UInt8 := rx.dropWhile fun b => b = 0xFF

/-- A call that went over the wire: the packets it sent, and what it left as it was. -/
structure Spoke (s t : Driver) (ps : List Packet) : Prop where
  events : ∃ es, s.rx = gots es ++ t.rx ∧ t.trace = s.trace ++ es ∧ Speaks es ps
  cardType : t.cardType = s.cardType
  status : t.sdStatus = s.sdStatus
  type : t.sdType = s.sdType

/-- The packets of a command with the result `ret`. -/
inductive Asked (cmd : UInt8) (arg : Nat) (ret : UInt8) : List Packet → Prop where
  | plain (h : isAppCommand cmd = false) : Asked cmd arg ret [.command (cmd.toNat % 64) arg ret]
  | refused (h : isAppCommand cmd = true) (hret : 1 < ret) : Asked cmd arg ret [.command 55 0 ret]
  | app (h : isAppCommand cmd = true) (ha : a ≤ 1) :
      Asked cmd arg ret [.command 55 0 a, .command (cmd.toNat % 64) arg ret]

variable {s t u : Driver} {ps ps' : List Packet} {rx : List UInt8} {cmd ret : UInt8} {arg : Nat}

theorem Spoke.refl (s : Driver) : Spoke s s [] :=
  ⟨⟨[], rfl, (List.append_nil _).symm, .nil⟩, rfl, rfl, rfl⟩

theorem Spoke.trans (h : Spoke s t ps) (h' : Spoke t u ps') : Spoke s u (ps ++ ps') := by
  obtain ⟨es, hrx, htrace, hes⟩ := h.events
  obtain ⟨es', hrx', htrace', hes'⟩ := h'.events
  refine ⟨⟨es ++ es', ?_, ?_, hes.append hes'⟩, h'.cardType.trans h.cardType,
    h'.status.trans h.status, h'.type.trans h.type⟩
  · rw [hrx, hrx', gots_append, List.append_assoc]
  · rw [htrace', htrace, List.append_assoc]

theorem Spoke.of_after (hrx : s.rx = gots es ++ rx) (hes : Speaks es ps) : Spoke s (s.after es rx) ps :=
  ⟨⟨es, hrx, rfl, hes⟩, rfl, rfl, rfl⟩

theorem Spoke.dest (h : Spoke s t ps) (dest : Nat → UInt8) : Spoke s { t with dest } ps :=
  ⟨h.events, h.cardType, h.status, h.type⟩

-- ---------------------------------------------------------------------------
-- Waiting and single bytes
-- ---------------------------------------------------------------------------

theorem poll_spoke (h : s.rx.dropWhile p = b :: rx) :
    ∃ t, poll p s = .ok b t ∧ Spoke s t [] ∧ t.rx = rx ∧ t.dest = s.dest := by
  refine ⟨_, poll_run h, .of_after ?_ (speaks_fills _), rfl, rfl⟩
  rw [gots_fills]
  exact poll_takes h

theorem sdSPISelect_run (h : (s.rx.dropWhile fun b => b = 0) = b :: rx) :
    ∃ t, sdSPISelect s = .ok ⟨⟩ t ∧ Spoke s t [] ∧ t.rx = rx ∧ t.dest = s.dest := by
  obtain ⟨t, hrun, ⟨⟨es, hrx, htrace, hes⟩, hct, hst, hty⟩, ht, hd⟩ := poll_spoke
    (s := { s with csHigh := false, trace := s.trace ++ [.select] }) h
  refine ⟨t, ?_, ⟨⟨.select :: es, hrx, ?_, .select hes⟩, hct, hst, hty⟩, ht, hd⟩
  · rw [sdSPISelect, modify_bind, bind_ok hrun]
    rfl
  · rw [htrace, List.append_assoc]
    rfl

theorem sdSPISelect_stuck (h : (s.rx.dropWhile fun b => b = 0) = []) :
    ∃ t, sdSPISelect s = .error .waiting t := by
  obtain ⟨t, ht⟩ := poll_stuck (s := { s with csHigh := false, trace := s.trace ++ [.select] }) h
  exact ⟨t, by rw [sdSPISelect, modify_bind, bind_error ht]⟩

-- ---------------------------------------------------------------------------
-- Commands
-- ---------------------------------------------------------------------------

theorem frame_start (cmd : UInt8) :
    ((cmd ||| 0x40) &&& 0x7F) / 64 = 1 ∧ ((cmd ||| 0x40) &&& 0x7F).toNat % 64 = cmd.toNat % 64 := by
  have h : ∀ b : BitVec 8, (((UInt8.ofBitVec b) ||| 0x40) &&& 0x7F) / 64 = 1 ∧
      (((UInt8.ofBitVec b) ||| 0x40) &&& 0x7F).toNat % 64 = (UInt8.ofBitVec b).toNat % 64 := by decide
  exact h cmd.toBitVec

theorem be32_bytes (h : arg < 2 ^ 32) :
    be32 (UInt8.ofNat (arg / 2 ^ 24)) (UInt8.ofNat (arg / 2 ^ 16)) (UInt8.ofNat (arg / 2 ^ 8))
      (UInt8.ofNat arg) = arg := by
  simp only [be32, UInt8.toNat_ofNat']
  omega

theorem sendFrame_run (cmd : UInt8) (h : answered s.rx = ret :: rx) (harg : arg < 2 ^ 32) :
    ∃ t, sendFrame cmd arg s = .ok ret t ∧ Spoke s t [.command (cmd.toNat % 64) arg ret] ∧
      t.rx = rx ∧ t.dest = s.dest := by
  rw [answered] at h
  cases hsel : (s.rx.dropWhile fun b => b = 0) with
  | nil =>
    rw [hsel] at h
    cases h
  | cons b rx1 =>
    rw [hsel, List.tail_cons] at h
    obtain ⟨t1, hrun1, hspoke1, hrx1, hd1⟩ := sdSPISelect_run hsel
    have hlen : 6 ≤ rx1.length := by
      by_contra hlt
      rw [List.drop_eq_nil_of_le (by omega)] at h
      cases h
    have hgot : (rx1.take 6).length = (commandFrame cmd arg).length := by
      rw [List.length_take, Nat.min_eq_left hlen]
      rfl
    have hsplit : t1.rx = rx1.take 6 ++ rx1.drop 6 := by rw [hrx1, List.take_append_drop]
    have hrun2 := sdSPIWriteBuffer_run _ _ hsplit hgot
    have hrun3 := poll_run (p := noAnswer)
      (s := t1.after (sends (commandFrame cmd arg) (rx1.take 6)) (rx1.drop 6)) h
    have hret : noAnswer ret = false := by
      have hne : (rx1.drop 6).dropWhile noAnswer ≠ [] := h ▸ List.cons_ne_nil ret rx
      have hhead := List.head_dropWhile_not noAnswer hne
      simpa only [h, List.head_cons] using hhead
    rw [after_after] at hrun3
    refine ⟨_, by rw [sendFrame, bind_ok hrun1, bind_ok hrun2, hrun3],
      hspoke1.trans (.of_after ?_ ?_), rfl, hd1⟩
    · rw [gots_append, gots_sends hgot, gots_fills, List.append_assoc, ← poll_takes (s := t1.after _ _) h]
      exact hsplit
    · have hframe : Speaks (sends (commandFrame cmd arg) (rx1.take 6) ++
            (fills ((rx1.drop 6).takeWhile noAnswer) ++ [.byte 0xFF ret]))
          [.command (((cmd ||| 0x40) &&& 0x7F).toNat % 64) (be32 (UInt8.ofNat (arg / 2 ^ 24))
            (UInt8.ofNat (arg / 2 ^ 16)) (UInt8.ofNat (arg / 2 ^ 8)) (UInt8.ofNat arg)) ret] :=
        .command (frame_start cmd).1 hgot (List.all_eq_true.mp List.all_takeWhile) hret .nil
      rw [(frame_start cmd).2, be32_bytes harg] at hframe
      rw [fills, List.map_append]
      exact hframe

theorem sendFrame_stuck (cmd : UInt8) (arg : Nat) (h : answered s.rx = []) :
    ∃ t, sendFrame cmd arg s = .error .waiting t := by
  rw [answered] at h
  cases hsel : (s.rx.dropWhile fun b => b = 0) with
  | nil =>
    obtain ⟨t, ht⟩ := sdSPISelect_stuck hsel
    exact ⟨t, by rw [sendFrame, bind_error ht]⟩
  | cons b rx1 =>
    rw [hsel, List.tail_cons] at h
    obtain ⟨t1, hrun1, -, hrx1, -⟩ := sdSPISelect_run hsel
    rw [sendFrame, bind_ok hrun1]
    by_cases hlen : rx1.length < 6
    · obtain ⟨t, ht⟩ := sdSPIWriteBuffer_stuck (s := t1) (commandFrame cmd arg) (by rw [hrx1]; exact hlen)
      exact ⟨t, by rw [bind_error ht]⟩
    · have hgot : (rx1.take 6).length = (commandFrame cmd arg).length := by
        rw [List.length_take, Nat.min_eq_left (Nat.le_of_not_lt hlen)]
        rfl
      have hsplit : t1.rx = rx1.take 6 ++ rx1.drop 6 := by rw [hrx1, List.take_append_drop]
      obtain ⟨t, ht⟩ := poll_stuck (p := noAnswer)
        (s := t1.after (sends (commandFrame cmd arg) (rx1.take 6)) (rx1.drop 6)) h
      exact ⟨t, by rw [bind_ok (sdSPIWriteBuffer_run _ _ hsplit hgot), ht]⟩

theorem sdDrvCommand_run (h : commandAnswered cmd s.rx = ret :: rx) (harg : arg < 2 ^ 32) :
    ∃ t ps, sdDrvCommand cmd arg s = .ok ret t ∧ Spoke s t ps ∧ Asked cmd arg ret ps ∧
      t.rx = rx ∧ t.dest = s.dest := by
  rw [commandAnswered] at h
  rw [sdDrvCommand]
  by_cases happ : isAppCommand cmd = true
  · rw [if_pos happ] at h ⊢
    cases hans : answered s.rx with
    | nil =>
      rw [hans] at h
      cases h
    | cons a rx1 =>
      rw [hans] at h
      obtain ⟨t1, hrun1, hspoke1, hrx1, hd1⟩ := sendFrame_run SD_CMD55 hans (by decide : 0 < 2 ^ 32)
      rw [bind_ok hrun1]
      dsimp only at h
      by_cases ha : a > 1
      · rw [if_pos ha] at h ⊢
        cases h
        exact ⟨t1, _, rfl, hspoke1, .refused happ ha, hrx1, hd1⟩
      · rw [if_neg ha] at h ⊢
        rw [← hrx1] at h
        obtain ⟨t, hrun, hspoke, hrx, hd⟩ := sendFrame_run cmd h harg
        exact ⟨t, _, hrun, hspoke1.trans hspoke, .app happ (UInt8.not_lt.mp ha), hrx, hd.trans hd1⟩
  · rw [if_neg happ] at h ⊢
    obtain ⟨t, hrun, hspoke, hrx, hd⟩ := sendFrame_run cmd h harg
    exact ⟨t, _, hrun, hspoke, .plain (Bool.eq_false_iff.mpr happ), hrx, hd⟩

theorem sdDrvCommand_stuck (arg : Nat) (h : commandAnswered cmd s.rx = []) :
    ∃ t, sdDrvCommand cmd arg s = .error .waiting t := by
  rw [commandAnswered] at h
  rw [sdDrvCommand]
  by_cases happ : isAppCommand cmd = true
  · rw [if_pos happ] at h ⊢
    cases hans : answered s.rx with
    | nil =>
      obtain ⟨t, ht⟩ := sendFrame_stuck SD_CMD55 0 hans
      exact ⟨t, by rw [bind_error ht]⟩
    | cons a rx1 =>
      rw [hans] at h
      obtain ⟨t1, hrun1, -, hrx1, -⟩ := sendFrame_run SD_CMD55 hans (by decide : 0 < 2 ^ 32)
      rw [bind_ok hrun1]
      dsimp only at h
      by_cases ha : a > 1
      · rw [if_pos ha] at h
        cases h
      · rw [if_neg ha] at h ⊢
        rw [← hrx1] at h
        exact sendFrame_stuck cmd arg h
  · rw [if_neg happ] at h ⊢
    exact sendFrame_stuck cmd arg h

end Stm32Logger.Sd
