import Stm32Logger.Sd.Wire

/-!
# Reading the wire back

A card finds the packets in the bytes it is sent: the first byte of a packet
says what it is, and how far it goes. So events carry one list of packets only.
-/

namespace Stm32Logger.Sd

def Event.sent : Event → UInt8
  | .byte sent _ => sent
  | .select => 0xFF
  | .release => 0xFF

def Event.got : Event → UInt8
  | .byte _ got => got
  | .select => 0xFF
  | .release => 0xFF

def frameArg : List UInt8 → Nat
  | a :: b :: c :: d :: _ => be32 a b c d
  | _ => 0

/-- What a card makes of the byte `sent` and the events after it, and the events left. -/
def hear (sent : UInt8) (es : List Event) : Option Packet × List Event :=
  if sent = 0xFF then (none, es)
  else if sent = TOKEN_STOP_TRAN then (some .stop, es)
  else if sent / 64 = 1 then
    let answer := (es.drop 5).dropWhile fun e => noAnswer e.got
    (some (.command (sent.toNat % 64) (frameArg (es.map Event.sent)) ((answer.map Event.got).headD 0)),
      answer.tail)
  else
    (some (.data sent ((es.take 512).map Event.sent) (((es.drop 514).map Event.got).headD 0)), es.drop 515)

/-- The packet that the first event starts, if any, and the events left. -/
def next : List Event → Option Packet × List Event
  | [] => (none, [])
  | .select :: es => (none, es)
  | .release :: es => (none, es)
  | .byte sent _ :: es => hear sent es

variable {es : List Event} {ps ps' : List Packet}

theorem sends_length (h : got.length = buf.length) : (sends buf got).length = buf.length := by
  rw [sends, List.length_zipWith, h, Nat.min_self]

theorem sends_sent (h : got.length = buf.length) : (sends buf got).map Event.sent = buf := by
  induction buf generalizing got with
  | nil => rfl
  | cons b buf ih =>
    cases got with
    | nil => cases h
    | cons g got => exact congrArg (b :: ·) (ih (Nat.succ.inj h))

theorem sends_cons (b : UInt8) (buf : List UInt8) {got : List UInt8} (h : got.length = buf.length + 1) :
    ∃ g got', got'.length = buf.length ∧ sends (b :: buf) got = .byte b g :: sends buf got' := by
  cases got with
  | nil => cases h
  | cons g got => exact ⟨g, got, Nat.succ.inj h, rfl⟩

theorem dropWhile_fills (hno : ∀ b ∈ no, noAnswer b = true) (hret : noAnswer ret = false) :
    ((fills no ++ .byte 0xFF ret :: es).dropWhile fun e => noAnswer e.got) = .byte 0xFF ret :: es := by
  induction no with
  | nil => exact List.dropWhile_cons_of_neg (by rw [Event.got, hret]; decide)
  | cons b no ih =>
    have hb : noAnswer (Event.byte 0xFF b).got = true := hno b (List.mem_cons_self ..)
    exact (List.dropWhile_cons_of_pos (p := fun e : Event => noAnswer e.got) hb).trans
      (ih fun c hc => hno c (List.mem_cons_of_mem b hc))

theorem next_command (hcmd : cmd / 64 = 1) (hgot : got.length = 6) (hno : ∀ b ∈ no, noAnswer b = true)
    (hret : noAnswer ret = false) :
    next (sends [cmd, a3, a2, a1, a0, crc] got ++ (fills no ++ .byte 0xFF ret :: es)) =
      (some (.command (cmd.toNat % 64) (be32 a3 a2 a1 a0) ret), es) := by
  obtain ⟨g, got, hlen, hsends⟩ := sends_cons cmd [a3, a2, a1, a0, crc] hgot
  have hff : cmd ≠ 0xFF := fun h => absurd (h ▸ hcmd) (by decide)
  have hstop : cmd ≠ TOKEN_STOP_TRAN := fun h => absurd (h ▸ hcmd) (by decide)
  have hdrop : (sends [a3, a2, a1, a0, crc] got ++ (fills no ++ .byte 0xFF ret :: es)).drop 5 =
      fills no ++ .byte 0xFF ret :: es := List.drop_left' (sends_length hlen)
  have harg :
      frameArg ((sends [a3, a2, a1, a0, crc] got ++ (fills no ++ .byte 0xFF ret :: es)).map Event.sent) =
      be32 a3 a2 a1 a0 := by
    rw [List.map_append, sends_sent hlen]
    rfl
  rw [hsends, List.cons_append, next, hear, if_neg hff, if_neg hstop, if_pos hcmd, hdrop,
    dropWhile_fills hno hret, harg]
  rfl

theorem next_data (htoken : token = TOKEN_SINGLE_WRITE ∨ token = TOKEN_MULTI_WRITE)
    (hbytes : bytes.length = 512) (hgot : got.length = 515) :
    next (sends (token :: bytes ++ [0xFF, 0xFF]) got ++ .byte 0xFF response :: es) =
      (some (.data token bytes response), es) := by
  have hbuf : (bytes ++ [0xFF, 0xFF]).length = 514 := by rw [List.length_append, hbytes]; rfl
  have hgot' : got.length = (bytes ++ [0xFF, 0xFF]).length + 1 := by rw [hbuf, hgot]
  obtain ⟨g, got, hlen, hsends⟩ := sends_cons token (bytes ++ [0xFF, 0xFF]) hgot'
  have hdrop :
      (sends (bytes ++ [0xFF, 0xFF]) got ++ .byte 0xFF response :: es).drop 514 = .byte 0xFF response :: es :=
    List.drop_left' ((sends_length hlen).trans hbuf)
  have htake :
      ((sends (bytes ++ [0xFF, 0xFF]) got ++ .byte 0xFF response :: es).take 512).map Event.sent = bytes := by
    rw [List.map_take, List.map_append, sends_sent hlen, List.append_assoc, List.take_left' hbytes]
  have hrest : (sends (bytes ++ [0xFF, 0xFF]) got ++ .byte 0xFF response :: es).drop 515 = es := by
    rw [← List.drop_drop (i := 1) (j := 514), hdrop]
    rfl
  have hkind : token ≠ 0xFF ∧ token ≠ TOKEN_STOP_TRAN ∧ token / 64 ≠ 1 := by
    rcases htoken with rfl | rfl <;> decide
  rw [List.cons_append, hsends, List.cons_append, next, hear, if_neg hkind.1, if_neg hkind.2.1,
    if_neg hkind.2.2, htake,
    hdrop, hrest]
  rfl

theorem Speaks.next (h : Speaks es ps) (hne : es ≠ []) :
    ∃ ps', ps = (next es).1.toList ++ ps' ∧ Speaks (next es).2 ps' ∧ (next es).2.length < es.length := by
  cases h with
  | nil => exact absurd rfl hne
  | select h => exact ⟨_, rfl, h, Nat.lt_succ_self _⟩
  | release h => exact ⟨_, rfl, h, Nat.lt_succ_self _⟩
  | fill h => exact ⟨_, rfl, h, Nat.lt_succ_self _⟩
  | command hcmd hgot hno hret h =>
    rw [next_command hcmd hgot hno hret]
    refine ⟨_, rfl, h, ?_⟩
    simp only [List.length_append, List.length_cons]
    omega
  | data htoken hbytes hgot h =>
    rw [next_data htoken hbytes hgot]
    refine ⟨_, rfl, h, ?_⟩
    simp only [List.length_append, List.length_cons]
    omega
  | stop h => exact ⟨_, rfl, h, Nat.lt_succ_self _⟩

theorem Speaks.of_nil (h : Speaks [] ps) : ps = [] := by
  generalize hes : ([] : List Event) = es at h
  cases h with
  | nil => rfl
  | command =>
    have := congrArg List.length hes
    simp at this
  | data =>
    have := congrArg List.length hes
    simp at this
  | _ => cases hes

theorem Speaks.unique (h : Speaks es ps) (h' : Speaks es ps') : ps = ps' := by
  induction hn : es.length using Nat.strongRecOn generalizing es ps ps' with
  | _ n ih =>
    by_cases hne : es = []
    · subst hne
      rw [h.of_nil, h'.of_nil]
    · obtain ⟨ps1, hps, hrest, hlt⟩ := h.next hne
      obtain ⟨ps2, hps', hrest', -⟩ := h'.next hne
      rw [hps, hps', ih _ (hn ▸ hlt) hrest hrest' rfl]

end Stm32Logger.Sd
