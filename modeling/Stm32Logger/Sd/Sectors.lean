import Mathlib.Data.List.GetD
import Stm32Logger.Sd.Talk

/-!
# Blocks and sectors

What a call that returned has put on the wire, and what it has made of the
bytes the card returned.
-/

namespace Stm32Logger.Sd

variable {s t u : Driver} {ps ps' : List Packet} {rx : List UInt8} {cmd ret : UInt8} {arg : Nat}

-- ---------------------------------------------------------------------------
-- Calls that returned
-- ---------------------------------------------------------------------------

theorem sdSPIreadwrite_ok (h : sdSPIreadwrite data s = .ok b t) :
    s.rx = b :: t.rx ∧ t = s.after [.byte data b] t.rx := by
  cases hrx : s.rx with
  | nil =>
    rw [sdSPIreadwrite_stuck hrx] at h
    cases h
  | cons c cs =>
    rw [sdSPIreadwrite_run hrx] at h
    cases h
    exact ⟨rfl, rfl⟩

theorem poll_ok (h : poll p s = .ok b t) :
    Spoke s t [] ∧ s.rx.dropWhile p = b :: t.rx ∧ t.dest = s.dest := by
  cases hrx : s.rx.dropWhile p with
  | nil =>
    obtain ⟨u, hu⟩ := poll_stuck hrx
    rw [hu] at h
    cases h
  | cons c cs =>
    obtain ⟨u, hu, hspoke, hurx, hd⟩ := poll_spoke hrx
    rw [hu] at h
    cases h
    exact ⟨hspoke, by rw [hurx], hd⟩

theorem fill_ok (h : sdSPIreadwrite 0xFF s = .ok b t) :
    Spoke s t [] ∧ s.rx = b :: t.rx ∧ t.dest = s.dest := by
  obtain ⟨hrx, ht⟩ := sdSPIreadwrite_ok h
  rw [ht]
  exact ⟨.of_after hrx (.fill .nil), hrx, rfl⟩

theorem sdSPISelect_ok (h : sdSPISelect s = .ok x t) :
    Spoke s t [] ∧ (∃ b, (s.rx.dropWhile fun b => b = 0) = b :: t.rx) ∧ t.dest = s.dest := by
  cases hrx : (s.rx.dropWhile fun b => b = 0) with
  | nil =>
    obtain ⟨u, hu⟩ := sdSPISelect_stuck hrx
    rw [hu] at h
    cases h
  | cons c cs =>
    obtain ⟨u, hu, hspoke, hurx, hd⟩ := sdSPISelect_run hrx
    rw [hu] at h
    cases h
    exact ⟨hspoke, ⟨c, by rw [hurx]⟩, hd⟩

theorem sdSPIWriteBuffer_ok (h : sdSPIWriteBuffer buf s = .ok x t) :
    ∃ got, got.length = buf.length ∧ s.rx = got ++ t.rx ∧ t = s.after (sends buf got) t.rx := by
  by_cases hlen : s.rx.length < buf.length
  · obtain ⟨u, hu⟩ := sdSPIWriteBuffer_stuck buf hlen
    rw [hu] at h
    cases h
  · have hgot : (s.rx.take buf.length).length = buf.length := by
      rw [List.length_take, Nat.min_eq_left (Nat.le_of_not_lt hlen)]
    have hsplit : s.rx = s.rx.take buf.length ++ s.rx.drop buf.length := (List.take_append_drop _ _).symm
    rw [sdSPIWriteBuffer_run buf _ hsplit hgot] at h
    cases h
    exact ⟨_, hgot, hsplit, rfl⟩

theorem sdSPIReadBuffer_ok (h : sdSPIReadBuffer len s = .ok bs t) :
    Spoke s t [] ∧ bs.length = len ∧ s.rx = bs ++ t.rx ∧ t.dest = s.dest := by
  by_cases hlen : s.rx.length < len
  · obtain ⟨u, hu⟩ := sdSPIReadBuffer_stuck hlen
    rw [hu] at h
    cases h
  · have hgot : (s.rx.take len).length = len := by
      rw [List.length_take, Nat.min_eq_left (Nat.le_of_not_lt hlen)]
    have hsplit : s.rx = s.rx.take len ++ s.rx.drop len := (List.take_append_drop _ _).symm
    rw [sdSPIReadBuffer_run _ hsplit hgot] at h
    cases h
    refine ⟨.of_after ?_ (speaks_fills _), hgot, hsplit, rfl⟩
    rw [gots_fills]
    exact hsplit

theorem sdDrvCommand_ok (h : sdDrvCommand cmd arg s = .ok ret t) (harg : arg < 2 ^ 32) :
    ∃ ps, Spoke s t ps ∧ Asked cmd arg ret ps ∧ commandAnswered cmd s.rx = ret :: t.rx ∧
      t.dest = s.dest := by
  cases hrx : commandAnswered cmd s.rx with
  | nil =>
    obtain ⟨u, hu⟩ := sdDrvCommand_stuck arg hrx
    rw [hu] at h
    cases h
  | cons c cs =>
    obtain ⟨u, ps, hu, hspoke, hasked, hurx, hd⟩ := sdDrvCommand_run hrx harg
    rw [hu] at h
    cases h
    exact ⟨ps, hspoke, hasked, by rw [hurx], hd⟩

structure Released (s t : Driver) : Prop where
  spoke : Spoke s t []
  csHigh : t.csHigh = true
  trace : ∃ b, t.trace = s.trace ++ [.release, .byte 0xFF b]
  dest : t.dest = s.dest

theorem sdSPIRelease_ok (h : sdSPIRelease s = .ok x t) : Released s t := by
  rw [sdSPIRelease, modify_bind, bind_eq_ok] at h
  obtain ⟨b, u, hu, h⟩ := h
  cases h
  obtain ⟨hrx, ht⟩ := sdSPIreadwrite_ok hu
  have htrace : t.trace = s.trace ++ [.release, .byte 0xFF b] := by
    rw [ht]
    exact List.append_assoc ..
  refine ⟨⟨⟨[.release, .byte 0xFF b], hrx, htrace, .release (.fill .nil)⟩, ?_, ?_, ?_⟩, ?_, ⟨b, htrace⟩, ?_⟩
  all_goals rw [ht]; rfl

-- ---------------------------------------------------------------------------
-- Reading blocks
-- ---------------------------------------------------------------------------

theorem memcpy_getD (o : Nat) (bs : List UInt8) (b : Sector) (i : Nat) :
    memcpy o bs b i = if o ≤ i ∧ i < o + bs.length then bs.getD (i - o) 0 else b i := rfl

theorem sdDrvGetBlock_ok (h : sdDrvGetBlock o len s = .ok r t) :
    ∃ token rx, announced s.rx = token :: rx ∧ Spoke s t [] ∧
      (token ≠ TOKEN_SINGLE_READ ∧ r = -1 ∧ t.rx = rx ∧ t.dest = memcpy o [token] s.dest ∨
        token = TOKEN_SINGLE_READ ∧ r = 0 ∧ len + 2 ≤ rx.length ∧ t.rx = rx.drop (len + 2) ∧
          t.dest = memcpy o (rx.take len) (memcpy o [token] s.dest)) := by
  rw [sdDrvGetBlock, bind_eq_ok] at h
  obtain ⟨token, t1, h1, h⟩ := h
  obtain ⟨hspoke1, hrx1, hd1⟩ := poll_ok h1
  rw [modify_bind] at h
  have hspoke2 := hspoke1.dest (memcpy o [token] t1.dest)
  refine ⟨token, t1.rx, hrx1, ?_⟩
  by_cases htok : token ≠ TOKEN_SINGLE_READ
  · rw [if_pos htok, pure_eq_ok] at h
    obtain ⟨rfl, rfl⟩ := h
    exact ⟨hspoke2, .inl ⟨htok, rfl, rfl, by rw [hd1]⟩⟩
  · rw [if_neg htok, bind_eq_ok] at h
    obtain ⟨bs, t3, h3, h⟩ := h
    obtain ⟨hspoke3, hlen, hrx3, hd3⟩ := sdSPIReadBuffer_ok h3
    rw [modify_bind, bind_eq_ok] at h
    obtain ⟨c1, t4, h4, h⟩ := h
    obtain ⟨hspoke4, hrx4, hd4⟩ := fill_ok h4
    rw [bind_eq_ok] at h
    obtain ⟨c2, t5, h5, h⟩ := h
    obtain ⟨hspoke5, hrx5, hd5⟩ := fill_ok h5
    obtain ⟨rfl, rfl⟩ := pure_eq_ok.mp h
    have hrx : t1.rx = bs ++ c1 :: c2 :: t5.rx := by
      rw [← hrx5, ← hrx4]
      exact hrx3
    refine ⟨((hspoke2.trans hspoke3).dest _ |>.trans hspoke4).trans hspoke5,
      .inr ⟨not_not.mp htok, rfl, ?_, ?_, ?_⟩⟩
    · rw [hrx, List.length_append, hlen]
      exact Nat.add_le_add_left (Nat.le_add_left 2 _) _
    · rw [hrx, ← hlen, List.drop_append]
      simp
    · rw [hd5, hd4, hrx, ← hlen, List.take_left]
      show memcpy o bs t3.dest = _
      rw [hd3, hd1]

def announcedBlocks : (n : Nat) → (rx : List UInt8) → List (List UInt8)
  | 0, _ => []
  | n + 1, rx =>
    match announced rx with
    | [] => []
    | token :: rx =>
      if token = TOKEN_SINGLE_READ then rx.take 512 :: announcedBlocks n (rx.drop 514) else []

theorem readBlocks_ok (n : Nat) (h : readBlocks n status s = .ok k t) :
    k = status + (announcedBlocks n s.rx).length ∧ Spoke s t [] ∧
      (∀ i < 512 * status, t.dest i = s.dest i) ∧
      ∀ i < 512 * (announcedBlocks n s.rx).length,
        t.dest (512 * status + i) = (announcedBlocks n s.rx).flatten.getD i 0 := by
  induction n generalizing status s with
  | zero =>
    obtain ⟨rfl, rfl⟩ := pure_eq_ok.mp h
    exact ⟨rfl, .refl _, fun _ _ => rfl, fun i hi => absurd hi (Nat.not_lt_zero i)⟩
  | succ n ih =>
    rw [readBlocks, bind_eq_ok] at h
    obtain ⟨r, t1, h1, h⟩ := h
    obtain ⟨token, rx, hann, hspoke, hcase⟩ := sdDrvGetBlock_ok h1
    rw [announcedBlocks, hann]
    dsimp only
    rcases hcase with ⟨htok, rfl, -, hd⟩ | ⟨rfl, rfl, hlen, hrx, hd⟩
    · rw [if_pos (by decide), pure_eq_ok] at h
      obtain ⟨rfl, rfl⟩ := h
      rw [if_neg htok]
      refine ⟨rfl, hspoke, fun i hi => ?_, fun i hi => absurd hi (Nat.not_lt_zero i)⟩
      rw [hd, memcpy_getD, if_neg (by omega)]
    · rw [if_neg (by decide)] at h
      obtain ⟨rfl, hspoke', hbelow, hblocks⟩ := ih h
      replace hrx : t1.rx = rx.drop 514 := hrx
      rw [hrx] at hblocks ⊢
      rw [if_pos rfl, List.length_cons, List.flatten_cons]
      have htake : (rx.take 512).length = 512 := by
        rw [List.length_take, Nat.min_eq_left (by omega)]
      refine ⟨by omega, hspoke.trans hspoke', fun i hi => ?_, fun i hi => ?_⟩
      · rw [hbelow i (by omega), hd, memcpy_getD, if_neg (by omega), memcpy_getD, if_neg]
        rw [List.length_singleton]
        omega
      · by_cases hfirst : i < 512
        · rw [hbelow _ (by omega), hd, memcpy_getD, if_pos (by omega), List.getD_append _ _ _ _ (by omega),
            Nat.add_sub_cancel_left]
        · have hnext := hblocks (i - 512) (by omega)
          rw [List.getD_append_right _ _ _ _ (by omega), htake, ← hnext]
          exact congrArg t.dest (by omega)

-- ---------------------------------------------------------------------------
-- Writing blocks
-- ---------------------------------------------------------------------------

def responded (rx : List UInt8) : List UInt8 := (rx.dropWhile fun b => b ≠ 0xFF).drop 516

def responses : (n : Nat) → (rx : List UInt8) → List UInt8
  | 0, _ => []
  | n + 1, rx =>
    match responded rx with
    | [] => []
    | r :: rx => r :: responses n rx

def dataPackets (buf : Nat → UInt8) : (status : Nat) → (rs : List UInt8) → List Packet
  | _, [] => []
  | status, r :: rs => .data TOKEN_MULTI_WRITE (block buf status) r :: dataPackets buf (status + 1) rs

theorem block_length (buf : Nat → UInt8) (k : Nat) : (block buf k).length = 512 := by
  rw [block, List.length_map, List.length_range]

theorem sends_append {buf buf' got got' : List UInt8} (h : got.length = buf.length) :
    sends (buf ++ buf') (got ++ got') = sends buf got ++ sends buf' got' :=
  List.zipWith_append h.symm

theorem sdDrvSetBlock_ok (h : sdDrvSetBlock (block buf k) token s = .ok r t)
    (htoken : token = TOKEN_SINGLE_WRITE ∨ token = TOKEN_MULTI_WRITE) :
    ∃ response, responded s.rx = response :: t.rx ∧ Spoke s t [.data token (block buf k) response] ∧
      t.dest = s.dest := by
  have hstop : token ≠ TOKEN_STOP_TRAN := by
    rcases htoken with rfl | rfl <;> decide
  rw [sdDrvSetBlock, bind_eq_ok] at h
  obtain ⟨ready, t1, h1, h⟩ := h
  obtain ⟨hspoke1, hrx1, hd1⟩ := poll_ok h1
  rw [bind_eq_ok] at h
  obtain ⟨g0, t2, h2, h⟩ := h
  obtain ⟨hrx2, ht2⟩ := sdSPIreadwrite_ok h2
  rw [if_pos hstop, bind_eq_ok] at h
  obtain ⟨x, t3, h3, h⟩ := h
  obtain ⟨got, hlen, hrx3, ht3⟩ := sdSPIWriteBuffer_ok h3
  rw [bind_eq_ok] at h
  obtain ⟨g1, t4, h4, h⟩ := h
  obtain ⟨hrx4, ht4⟩ := sdSPIreadwrite_ok h4
  rw [bind_eq_ok] at h
  obtain ⟨g2, t5, h5, h⟩ := h
  obtain ⟨hrx5, ht5⟩ := sdSPIreadwrite_ok h5
  rw [bind_eq_ok] at h
  obtain ⟨response, t6, h6, h⟩ := h
  obtain ⟨hrx6, ht6⟩ := sdSPIreadwrite_ok h6
  obtain ⟨-, rfl⟩ := pure_eq_ok.mp h
  have hrx : t1.rx = (g0 :: got ++ [g1, g2]) ++ response :: t6.rx := by
    rw [hrx2, hrx3, hrx4, hrx5, hrx6]
    simp
  have hpacket : t6 = t1.after (sends (token :: block buf k ++ [0xFF, 0xFF]) (g0 :: got ++ [g1, g2]) ++
      [.byte 0xFF response]) t6.rx := by
    calc
      t6 = ((((t1.after [.byte token g0] t2.rx).after (sends (block buf k) got) t3.rx).after
          [.byte 0xFF g1] t4.rx).after [.byte 0xFF g2] t5.rx).after [.byte 0xFF response] t6.rx := by
        rw [← ht2, ← ht3, ← ht4, ← ht5, ← ht6]
      _ = _ := by
        have hcons : (g0 :: got).length = (token :: block buf k).length := congrArg Nat.succ hlen
        rw [sends_append hcons, after_after, after_after, after_after, after_after]
        simp [sends]
  have hgot : (g0 :: got ++ [g1, g2]).length = 515 := by
    simp [hlen, block_length]
  refine ⟨response, ?_, hspoke1.trans ?_, ?_⟩
  · rw [responded, hrx1, hrx, List.drop_succ_cons, ← hgot, List.drop_left]
  · rw [hpacket]
    refine .of_after ?_ (.data htoken (block_length buf k) hgot .nil)
    rw [gots_append, gots_sends (by simp [hlen]), hrx, List.append_assoc (_ ++ _)]
    rfl
  · rw [hpacket]
    exact hd1

theorem sdDrvSetBlock_stop_ok (h : sdDrvSetBlock [] TOKEN_STOP_TRAN s = .ok r t) :
    r = 0 ∧ Spoke s t [.stop] ∧ t.dest = s.dest := by
  rw [sdDrvSetBlock, bind_eq_ok] at h
  obtain ⟨ready, t1, h1, h⟩ := h
  obtain ⟨hspoke1, -, hd1⟩ := poll_ok h1
  rw [bind_eq_ok] at h
  obtain ⟨g0, t2, h2, h⟩ := h
  obtain ⟨hrx2, ht2⟩ := sdSPIreadwrite_ok h2
  rw [if_neg (by decide), pure_eq_ok] at h
  obtain ⟨rfl, rfl⟩ := h
  have hspoke2 : Spoke t1 t2 [.stop] := by
    rw [ht2]
    exact .of_after hrx2 (.stop .nil)
  refine ⟨rfl, hspoke1.trans hspoke2, ?_⟩
  rw [ht2]
  exact hd1

theorem writeBlocks_ok (n : Nat) (h : writeBlocks buf n status s = .ok k t) :
    k = status + n ∧ (responses n s.rx).length = n ∧
      Spoke s t (dataPackets buf status (responses n s.rx)) ∧ t.dest = s.dest := by
  induction n generalizing status s with
  | zero =>
    obtain ⟨rfl, rfl⟩ := pure_eq_ok.mp h
    exact ⟨rfl, rfl, .refl _, rfl⟩
  | succ n ih =>
    rw [writeBlocks, bind_eq_ok] at h
    obtain ⟨r, t1, h1, h⟩ := h
    obtain ⟨response, hresp, hspoke, hd⟩ := sdDrvSetBlock_ok h1 (.inr rfl)
    obtain ⟨rfl, hlen, hspoke', hd'⟩ := ih h
    rw [responses, hresp]
    dsimp only
    exact ⟨by omega, congrArg Nat.succ hlen, hspoke.trans hspoke', hd'.trans hd⟩

end Stm32Logger.Sd
