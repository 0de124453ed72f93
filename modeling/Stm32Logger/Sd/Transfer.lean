import Stm32Logger.Sd.Sectors
import Stm32Logger.Sd.Decode

/-!
# Transfers of sectors

What `sdDrvReadSector` and `sdDrvWriteSector` put on the wire, and how much
their results say about what the card did.
-/

namespace Stm32Logger.Sd

def readAnswer (count : Nat) (rx : List UInt8) : List UInt8 :=
  commandAnswered (if count = 1 then SD_CMD17 else SD_CMD18) (rx.dropWhile fun b => b = 0).tail

/-- The blocks the card delivers for a read: none when the command is refused. -/
def deliveredBlocks (count : Nat) (rx : List UInt8) : List (List UInt8) :=
  match readAnswer count rx with
  | [] => []
  | ret :: rx => if ret = 0 then announcedBlocks count rx else []

/-- The packets of a read; a read of several blocks ends with one stop command. -/
inductive ReadTransfer (address count : Nat) : List Packet → Prop where
  | refused (h : ret ≠ 0) :
      ReadTransfer address count [.command (if count = 1 then 17 else 18) address ret]
  | single (h : count = 1) : ReadTransfer address count [.command 17 address 0]
  | multi (h : count ≠ 1) : ReadTransfer address count [.command 18 address 0, .command 12 0 ret]

def writeAnswer (cardType : UInt8) (count : Nat) (rx : List UInt8) : List UInt8 :=
  let rx := (rx.dropWhile fun b => b = 0).tail
  if count = 1 then commandAnswered SD_CMD24 rx
  else commandAnswered SD_CMD25
    (if cardType &&& CT_SDC ≠ 0 then (commandAnswered SD_ACMD23 rx).tail else rx)

/-- The card's responses to the data packets of a write: none when the command is refused. -/
def dataResponses (cardType : UInt8) (count : Nat) (rx : List UInt8) : List UInt8 :=
  match writeAnswer cardType count rx with
  | [] => []
  | ret :: rx => if ret = 0 then responses count rx else []

/-- The packets of the bulk erase, for several blocks on an SD card: an application command after its prefix,
which was accepted. -/
inductive EraseTransfer (cardType : UInt8) (count : Nat) : List Packet → Prop where
  | none (h : count = 1 ∨ cardType &&& CT_SDC = 0) : EraseTransfer cardType count []
  | refused (hc : count ≠ 1) (hsdc : cardType &&& CT_SDC ≠ 0) (h : 1 < ret) :
      EraseTransfer cardType count [.command 55 0 ret]
  | erase (hc : count ≠ 1) (hsdc : cardType &&& CT_SDC ≠ 0) (h : a ≤ 1) :
      EraseTransfer cardType count [.command 55 0 a, .command 23 count ret]

/-- The packets of a write. -/
inductive WriteTransfer (cardType : UInt8) (address count : Nat) (buf : Nat → UInt8) :
    List Packet → Prop where
  | refused (he : EraseTransfer cardType count ps) (h : ret ≠ 0) :
      WriteTransfer cardType address count buf
        (ps ++ [.command (if count = 1 then 24 else 25) address ret])
  | single (h : count = 1) :
      WriteTransfer cardType address count buf
        [.command 24 address 0, .data TOKEN_SINGLE_WRITE (block buf 0) response]
  | multi (he : EraseTransfer cardType count ps) (h : count ≠ 1) (hrs : rs.length = count) :
      WriteTransfer cardType address count buf
        (ps ++ .command 25 address 0 :: dataPackets buf 0 rs ++ [.stop])

variable {s t u : Driver} {ps : List Packet} {rx : List UInt8} {sector count k : Nat}

theorem cardAddress_lt (cardType : UInt8) (h : sector < 2 ^ 32) : cardAddress cardType sector < 2 ^ 32 := by
  rw [cardAddress]
  split
  · exact Nat.mod_lt _ (by decide)
  · exact h

theorem rounds_of_pos (h : 1 ≤ count) : rounds count = count := if_neg (by omega)

theorem Asked.plain_eq (h : Asked cmd arg ret ps) (hcmd : isAppCommand cmd = false) :
    ps = [.command (cmd.toNat % 64) arg ret] := by
  cases h with
  | plain => rfl
  | refused happ => exact absurd happ (by rw [hcmd]; decide)
  | app happ => exact absurd happ (by rw [hcmd]; decide)

-- ---------------------------------------------------------------------------
-- Reading
-- ---------------------------------------------------------------------------

/-- What a read does between selecting and releasing the card. -/
structure DidRead (address count k : Nat) (s t : Driver) : Prop where
  spoke : ∃ ps, Spoke s t ps ∧ ReadTransfer address count ps
  result : ∃ ret rx, commandAnswered (if count = 1 then SD_CMD17 else SD_CMD18) s.rx = ret :: rx ∧
    (ret ≠ 0 ∧ k = 0 ∨
      ret = 0 ∧ k = (if count = 1 then 1 else (announcedBlocks count rx).length) ∧
        (count = 1 → ∃ token rx', announced rx = token :: rx') ∧
        ∀ i < 512 * (announcedBlocks count rx).length, t.dest i = (announcedBlocks count rx).flatten.getD i 0)

theorem readSingle_ok (h : readSingle address s = .ok k t) (haddr : address < 2 ^ 32) :
    DidRead address 1 k s t := by
  rw [readSingle, bind_eq_ok] at h
  obtain ⟨ret, t1, h1, h⟩ := h
  obtain ⟨ps, hspoke, hasked, hans, -⟩ := sdDrvCommand_ok h1 haddr
  cases hasked.plain_eq (by decide)
  by_cases hret : ret = 0
  · rw [if_pos hret, bind_eq_ok] at h
    obtain ⟨r, t2, h2, h⟩ := h
    obtain ⟨rfl, rfl⟩ := pure_eq_ok.mp h
    obtain ⟨token, rx, hann, hspoke', hcase⟩ := sdDrvGetBlock_ok h2
    refine ⟨⟨_, hspoke.trans hspoke', hret ▸ .single rfl⟩, ret, t1.rx, hans,
      .inr ⟨hret, rfl, fun _ => ⟨token, rx, hann⟩, fun i hi => ?_⟩⟩
    rw [announcedBlocks, hann] at hi ⊢
    dsimp only at hi ⊢
    rcases hcase with ⟨htok, -⟩ | ⟨htok, -, hlen, -, hd⟩
    · rw [if_neg htok] at hi
      exact absurd hi (Nat.not_lt_zero i)
    · rw [if_pos htok] at hi ⊢
      have htake : (rx.take 512).length = 512 := by
        rw [List.length_take, Nat.min_eq_left (by omega)]
      have hi' : i < 512 := hi
      rw [hd, memcpy_getD, if_pos ⟨Nat.zero_le i, by omega⟩, List.flatten_cons,
        List.getD_append _ _ _ _ (by omega),
        Nat.sub_zero]
  · rw [if_neg hret, pure_eq_ok] at h
    obtain ⟨rfl, rfl⟩ := h
    exact ⟨⟨_, hspoke, .refused hret⟩, ret, t1.rx, hans, .inl ⟨hret, rfl⟩⟩

theorem readMulti_ok (h : readMulti address count s = .ok k t) (haddr : address < 2 ^ 32)
    (hcount : 1 ≤ count) (hne : count ≠ 1) : DidRead address count k s t := by
  rw [readMulti, bind_eq_ok] at h
  obtain ⟨ret, t1, h1, h⟩ := h
  obtain ⟨ps, hspoke, hasked, hans, -⟩ := sdDrvCommand_ok h1 haddr
  cases hasked.plain_eq (by decide)
  have hcmd : (if count = 1 then SD_CMD17 else SD_CMD18) = SD_CMD18 := if_neg hne
  by_cases hret : ret = 0
  · rw [if_pos hret, bind_eq_ok] at h
    obtain ⟨status, t2, h2, h⟩ := h
    rw [bind_eq_ok] at h
    obtain ⟨r, t3, h3, h⟩ := h
    obtain ⟨rfl, rfl⟩ := pure_eq_ok.mp h
    rw [rounds_of_pos hcount] at h2
    obtain ⟨rfl, hspoke2, -, hdest⟩ := readBlocks_ok count h2
    obtain ⟨ps3, hspoke3, hasked3, -, hd3⟩ := sdDrvCommand_ok h3 (by decide)
    cases hasked3.plain_eq (by decide)
    refine ⟨⟨_, (hspoke.trans hspoke2).trans hspoke3, ?_⟩, ret, t1.rx, by rw [hcmd]; exact hans,
      .inr ⟨hret, ?_, fun h1 => absurd h1 hne, ?_⟩⟩
    · rw [hret]
      exact .multi hne
    · rw [if_neg hne, Nat.zero_add]
    · intro i hi
      have hi' := hdest i hi
      rw [Nat.mul_zero, Nat.zero_add] at hi'
      rw [hd3, hi']
  · rw [if_neg hret, pure_eq_ok] at h
    obtain ⟨rfl, rfl⟩ := h
    refine ⟨⟨_, hspoke, ?_⟩, ret, t1.rx, by rw [hcmd]; exact hans, .inl ⟨hret, rfl⟩⟩
    have hidx : ((if count = 1 then 17 else 18) : Nat) = 18 := if_neg hne
    have hr : ReadTransfer address count [.command (if count = 1 then 17 else 18) address ret] := .refused hret
    rw [hidx] at hr
    exact hr

theorem sdDrvReadSector_ok (h : sdDrvReadSector sector count s = .ok k t) (hsector : sector < 2 ^ 32)
    (hcount : 1 ≤ count) :
    ∃ t0 t1, Spoke s t0 [] ∧ t0.rx = (s.rx.dropWhile fun b => b = 0).tail ∧
      DidRead (cardAddress s.cardType sector) count k t0 t1 ∧ Released t1 t := by
  rw [sdDrvReadSector, bind_eq_ok] at h
  obtain ⟨x, t0, h0, h⟩ := h
  obtain ⟨hspoke, ⟨b, hrx⟩, -⟩ := sdSPISelect_ok h0
  have haddr := cardAddress_lt t0.cardType hsector
  rw [get_bind, bind_eq_ok] at h
  obtain ⟨status, t1, h1, h⟩ := h
  rw [bind_eq_ok] at h
  obtain ⟨y, t2, h2, h⟩ := h
  obtain ⟨rfl, rfl⟩ := pure_eq_ok.mp h
  refine ⟨t0, t1, hspoke, by rw [hrx]; rfl, ?_, sdSPIRelease_ok h2⟩
  rw [← hspoke.cardType]
  by_cases hone : count = 1
  · rw [if_pos hone] at h1
    rw [hone]
    exact readSingle_ok h1 haddr
  · rw [if_neg hone] at h1
    exact readMulti_ok h1 haddr hcount hone

/-- The result of a read counts the blocks the card delivered, and the memory holds their bytes. -/
def ReadHonest (count : Nat) (rx : List UInt8) (k : Nat) (dest : Nat → UInt8) : Prop :=
  k = (deliveredBlocks count rx).length ∧
    ∀ i < 512 * k, dest i = (deliveredBlocks count rx).flatten.getD i 0

/-- A read of a single block, if accepted, is answered with a start token. -/
def SingleAnnounced (count : Nat) (rx : List UInt8) : Prop :=
  count = 1 → ∀ rx' token rest, readAnswer count rx = 0 :: rx' → announced rx' = token :: rest →
    token = TOKEN_SINGLE_READ

theorem readHonest_iff (h : sdDrvReadSector sector count s = .ok k t) (hsector : sector < 2 ^ 32)
    (hcount : 1 ≤ count) : ReadHonest count s.rx k t.dest ↔ SingleAnnounced count s.rx := by
  obtain ⟨t0, t1, -, hrx, hdid, hrel⟩ := sdDrvReadSector_ok h hsector hcount
  obtain ⟨ret, rx, hans, hcase⟩ := hdid.result
  have hread : readAnswer count s.rx = ret :: rx := by rw [readAnswer, ← hrx, hans]
  rw [ReadHonest, deliveredBlocks, hread, hrel.dest]
  dsimp only
  rcases hcase with ⟨hret, rfl⟩ | ⟨rfl, rfl, hone, hdest⟩
  · -- a refused command: nothing is delivered, and nothing is reported
    rw [if_neg hret]
    refine iff_of_true ⟨rfl, fun i hi => absurd hi (Nat.not_lt_zero i)⟩ fun _ rx' token rest h0 => ?_
    rw [hread, List.cons.injEq] at h0
    exact absurd h0.1 hret
  · rw [if_pos rfl]
    by_cases hc : count = 1
    · rw [if_pos hc]
      obtain ⟨token, rx', hann⟩ := hone hc
      have hiff : SingleAnnounced count s.rx ↔ token = TOKEN_SINGLE_READ := by
        constructor
        · exact fun hs => hs hc rx token rx' hread hann
        · intro htok _ rx1 token' rest h0 h1
          rw [hread, List.cons.injEq] at h0
          rw [← h0.2, hann, List.cons.injEq] at h1
          exact h1.1 ▸ htok
      rw [hiff]
      subst hc
      rw [announcedBlocks, hann] at hdest ⊢
      dsimp only at hdest ⊢
      by_cases htok : token = TOKEN_SINGLE_READ
      · rw [if_pos htok] at hdest ⊢
        exact iff_of_true ⟨rfl, hdest⟩ htok
      · rw [if_neg htok]
        exact iff_of_false (fun hh => absurd hh.1 (by decide)) htok
    · rw [if_neg hc]
      exact iff_of_true ⟨rfl, hdest⟩ fun h1 => absurd h1 hc

def errorTokenBytes : List UInt8 := List.replicate 8 0xFF ++ [0x00, 0x08, 0xFF]

def outcome (m : SpiM α) (s : Driver) : Option α :=
  match m s with
  | .ok a _ => some a
  | .error _ _ => none

theorem ok_of_outcome {m : SpiM α} (h : outcome m s = some a) : ∃ t, m s = .ok a t := by
  rw [outcome] at h
  split at h
  · rename_i b t ht
    cases h
    exact ⟨t, ht⟩
  · cases h

/-- The read of a single block reports success all the same. -/
theorem errorToken_read_as_success :
    ∃ t, sdDrvReadSector 0 1 { rx := errorTokenBytes } = .ok 1 t ∧ ¬ ReadHonest 1 errorTokenBytes 1 t.dest := by
  obtain ⟨t, ht⟩ := ok_of_outcome (s := { rx := errorTokenBytes }) (m := sdDrvReadSector 0 1) (a := 1)
    (by decide +kernel)
  exact ⟨t, ht, fun h => absurd h.1 (by decide +kernel)⟩

theorem readHonest_iff_errorToken :
    ∃ t, sdDrvReadSector 0 1 { rx := errorTokenBytes } = .ok 1 t ∧
      (ReadHonest 1 errorTokenBytes 1 t.dest ↔ SingleAnnounced 1 errorTokenBytes) := by
  obtain ⟨t, ht⟩ := ok_of_outcome (s := { rx := errorTokenBytes }) (m := sdDrvReadSector 0 1) (a := 1)
    (by decide +kernel)
  exact ⟨t, ht, readHonest_iff ht (by decide) (Nat.le_refl 1)⟩

-- ---------------------------------------------------------------------------
-- Writing
-- ---------------------------------------------------------------------------

/-- What a write does between selecting and releasing the card. -/
structure DidWrite (cardType : UInt8) (address count : Nat) (buf : Nat → UInt8) (k : Nat)
    (answer : List UInt8) (s t : Driver) : Prop where
  spoke : ∃ ps, Spoke s t ps ∧ WriteTransfer cardType address count buf ps
  result : ∃ ret rx, answer = ret :: rx ∧
    (ret ≠ 0 ∧ k = 0 ∨ ret = 0 ∧ k = count ∧ (responses count rx).length = count)

theorem writeSingle_ok (h : writeSingle address buf s = .ok k t) (haddr : address < 2 ^ 32) :
    DidWrite cardType address 1 buf k (commandAnswered SD_CMD24 s.rx) s t := by
  rw [writeSingle, bind_eq_ok] at h
  obtain ⟨ret, t1, h1, h⟩ := h
  obtain ⟨ps, hspoke, hasked, hans, -⟩ := sdDrvCommand_ok h1 haddr
  cases hasked.plain_eq (by decide)
  by_cases hret : ret = 0
  · rw [if_pos hret, bind_eq_ok] at h
    obtain ⟨r, t2, h2, h⟩ := h
    obtain ⟨rfl, rfl⟩ := pure_eq_ok.mp h
    obtain ⟨response, hresp, hspoke', -⟩ := sdDrvSetBlock_ok h2 (.inl rfl)
    refine ⟨⟨_, hspoke.trans hspoke', hret ▸ .single rfl⟩, ret, t1.rx, hans, .inr ⟨hret, rfl, ?_⟩⟩
    rw [responses, hresp]
    rfl
  · rw [if_neg hret, pure_eq_ok] at h
    obtain ⟨rfl, rfl⟩ := h
    exact ⟨⟨_, hspoke, .refused (.none (.inl rfl)) hret⟩, ret, t1.rx, hans, .inl ⟨hret, rfl⟩⟩

theorem preErase_ok (h : preErase cardType count s = .ok x t) (hcount : count < 2 ^ 32) (hne : count ≠ 1) :
    ∃ ps, Spoke s t ps ∧ EraseTransfer cardType count ps ∧
      t.rx = if cardType &&& CT_SDC ≠ 0 then (commandAnswered SD_ACMD23 s.rx).tail else s.rx := by
  rw [preErase] at h
  by_cases hsdc : cardType &&& CT_SDC ≠ 0
  · rw [if_pos hsdc] at h ⊢
    obtain ⟨ret, t1, h1, h⟩ := bind_eq_ok.mp h
    obtain ⟨-, rfl⟩ := pure_eq_ok.mp h
    obtain ⟨ps, hspoke, hasked, hans, -⟩ := sdDrvCommand_ok h1 hcount
    refine ⟨ps, hspoke, ?_, by rw [hans]; rfl⟩
    cases hasked with
    | plain happ => exact absurd happ (by decide)
    | refused _ hret => exact .refused hne hsdc hret
    | app _ ha => exact .erase hne hsdc ha
  · rw [if_neg hsdc] at h ⊢
    obtain ⟨-, rfl⟩ := pure_eq_ok.mp h
    exact ⟨[], .refl s, .none (.inr (not_not.mp hsdc)), rfl⟩

theorem writeMulti_ok (h : writeMulti cardType address count buf s = .ok k t) (haddr : address < 2 ^ 32)
    (hcount : 1 ≤ count) (hcount' : count < 2 ^ 32) (hne : count ≠ 1) :
    DidWrite cardType address count buf k
      (commandAnswered SD_CMD25
        (if cardType &&& CT_SDC ≠ 0 then (commandAnswered SD_ACMD23 s.rx).tail else s.rx)) s t := by
  rw [writeMulti, bind_eq_ok] at h
  obtain ⟨x, t0, h0, h⟩ := h
  obtain ⟨pre, hspoke0, herase, hrx0⟩ := preErase_ok h0 hcount' hne
  rw [← hrx0]
  rw [bind_eq_ok] at h
  obtain ⟨ret, t1, h1, h⟩ := h
  obtain ⟨ps, hspoke, hasked, hans, -⟩ := sdDrvCommand_ok h1 haddr
  cases hasked.plain_eq (by decide)
  by_cases hret : ret = 0
  · rw [if_pos hret, bind_eq_ok] at h
    obtain ⟨status, t2, h2, h⟩ := h
    rw [rounds_of_pos hcount] at h2
    obtain ⟨rfl, hlen, hspoke2, -⟩ := writeBlocks_ok count h2
    rw [bind_eq_ok] at h
    obtain ⟨r, t3, h3, h⟩ := h
    obtain ⟨rfl, hspoke3, -⟩ := sdDrvSetBlock_stop_ok h3
    rw [if_neg (by decide), pure_eq_ok] at h
    obtain ⟨rfl, rfl⟩ := h
    refine ⟨⟨_, ((hspoke0.trans hspoke).trans hspoke2).trans hspoke3, ?_⟩, ret, t1.rx, hans,
      .inr ⟨hret, Nat.zero_add count, hlen⟩⟩
    rw [hret, List.append_assoc pre, List.singleton_append]
    exact .multi herase hne hlen
  · rw [if_neg hret, pure_eq_ok] at h
    obtain ⟨rfl, rfl⟩ := h
    refine ⟨⟨_, hspoke0.trans hspoke, ?_⟩, ret, t1.rx, hans, .inl ⟨hret, rfl⟩⟩
    have hidx : ((if count = 1 then 24 else 25) : Nat) = 25 := if_neg hne
    have hr : WriteTransfer cardType address count buf _ := .refused herase hret
    rw [hidx] at hr
    exact hr

theorem sdDrvWriteSector_ok (h : sdDrvWriteSector sector count buf s = .ok k t) (hsector : sector < 2 ^ 32)
    (hcount : 1 ≤ count) (hcount' : count < 2 ^ 32) :
    ∃ t0 t1, Spoke s t0 [] ∧
      DidWrite s.cardType (cardAddress s.cardType sector) count buf k
      (writeAnswer s.cardType count s.rx) t0 t1 ∧
      Released t1 t := by
  rw [sdDrvWriteSector, bind_eq_ok] at h
  obtain ⟨x, t0, h0, h⟩ := h
  obtain ⟨hspoke, ⟨b, hrx⟩, -⟩ := sdSPISelect_ok h0
  have haddr := cardAddress_lt t0.cardType hsector
  rw [get_bind, bind_eq_ok] at h
  obtain ⟨status, t1, h1, h⟩ := h
  rw [bind_eq_ok] at h
  obtain ⟨y, t2, h2, h⟩ := h
  obtain ⟨rfl, rfl⟩ := pure_eq_ok.mp h
  refine ⟨t0, t1, hspoke, ?_, sdSPIRelease_ok h2⟩
  rw [← hspoke.cardType, writeAnswer, hrx, List.tail_cons]
  by_cases hone : count = 1
  · rw [if_pos hone] at h1
    subst hone
    exact writeSingle_ok h1 haddr
  · rw [if_neg hone] at h1
    rw [if_neg hone]
    exact writeMulti_ok h1 haddr hcount hcount' hone

def Accepted (response : UInt8) : Prop := response &&& 0x1F = 0x05

def Rejected (response : UInt8) : Prop := response &&& 0x1F = 0x0B ∨ response &&& 0x1F = 0x0D

/-- The result `k` of a write is `count` only when the card took the command and every block. -/
def WriteHonest (cardType : UInt8) (count : Nat) (rx : List UInt8) (k : Nat) : Prop :=
  (k = count → (∃ rx', writeAnswer cardType count rx = 0 :: rx') ∧
    ∀ r ∈ dataResponses cardType count rx, Accepted r) ∧
  ((∃ r ∈ dataResponses cardType count rx, Rejected r) → k < count)

theorem Rejected.not_accepted (h : Rejected r) : ¬ Accepted r := by
  intro ha
  rw [Accepted] at ha
  rcases h with h | h <;> rw [ha] at h <;> exact absurd h (by decide)

theorem writeHonest_iff (h : sdDrvWriteSector sector count buf s = .ok k t) (hsector : sector < 2 ^ 32)
    (hcount : 1 ≤ count) (hcount' : count < 2 ^ 32) :
    WriteHonest s.cardType count s.rx k ↔ ∀ r ∈ dataResponses s.cardType count s.rx, Accepted r := by
  obtain ⟨t0, t1, -, hdid, -⟩ := sdDrvWriteSector_ok h hsector hcount hcount'
  obtain ⟨ret, rx, hans, hcase⟩ := hdid.result
  rcases hcase with ⟨hret, rfl⟩ | ⟨rfl, rfl, -⟩
  · -- a refused command is reported, and no block is sent
    have hnone : dataResponses s.cardType count s.rx = [] := by
      rw [dataResponses, hans]
      exact if_neg hret
    rw [WriteHonest, hnone]
    refine iff_of_true ⟨fun h0 => ?_, fun _ => hcount⟩ fun r hr => absurd hr List.not_mem_nil
    omega
  · constructor
    · exact fun hw => (hw.1 rfl).2
    · intro hall
      refine ⟨fun _ => ⟨⟨rx, hans⟩, hall⟩, ?_⟩
      rintro ⟨r, hr, hrej⟩
      exact absurd (hall r hr) hrej.not_accepted

def writeErrorBytes : List UInt8 := List.replicate 8 0xFF ++ 0x00 :: List.replicate 516 0xFF ++ [0x0D, 0xFF]

/-- The write reports success all the same. -/
theorem writeError_as_success :
    ∃ t, sdDrvWriteSector 0 1 (fun _ => 0) { rx := writeErrorBytes } = .ok 1 t ∧
      ¬ WriteHonest 0 1 writeErrorBytes 1 := by
  obtain ⟨t, ht⟩ :=
    ok_of_outcome (s := { rx := writeErrorBytes }) (m := sdDrvWriteSector 0 1 fun _ => 0) (a := 1)
    (by decide +kernel)
  have hresp : dataResponses 0 1 writeErrorBytes = [0x0D] := by decide +kernel
  refine ⟨t, ht, fun h => absurd ((h.1 rfl).2 0x0D (by rw [hresp]; exact List.mem_singleton_self _)) ?_⟩
  rw [Accepted]
  decide

theorem writeHonest_iff_writeError :
    ∃ t, sdDrvWriteSector 0 1 (fun _ => 0) { rx := writeErrorBytes } = .ok 1 t ∧
      (WriteHonest 0 1 writeErrorBytes 1 ↔ ∀ r ∈ dataResponses 0 1 writeErrorBytes, Accepted r) := by
  obtain ⟨t, ht⟩ :=
    ok_of_outcome (s := { rx := writeErrorBytes }) (m := sdDrvWriteSector 0 1 fun _ => 0) (a := 1)
    (by decide +kernel)
  have h := writeHonest_iff ht (by decide) (Nat.le_refl 1) (by decide)
  exact ⟨t, ht, h⟩

-- ---------------------------------------------------------------------------
-- The whole call
-- ---------------------------------------------------------------------------

def Transcript (s t : Driver) (ps : List Packet) : Prop :=
  ∃ es, t.trace = s.trace ++ es ∧ Speaks es ps ∧ ∀ ps', Speaks es ps' → ps' = ps

theorem Spoke.transcript (h : Spoke s t ps) : Transcript s t ps := by
  obtain ⟨es, -, htrace, hes⟩ := h.events
  exact ⟨es, htrace, hes, fun ps' h' => h'.unique hes⟩

theorem transfers_wellformed (hsector : sector < 2 ^ 32) (hcount : 1 ≤ count) (hcount' : count < 2 ^ 32) :
    (∀ k t, sdDrvReadSector sector count s = .ok k t →
      ∃ ps, Transcript s t ps ∧ ReadTransfer (cardAddress s.cardType sector) count ps) ∧
    ∀ k t, sdDrvWriteSector sector count buf s = .ok k t →
      ∃ ps, Transcript s t ps ∧ WriteTransfer s.cardType (cardAddress s.cardType sector) count buf ps := by
  constructor
  · intro k t h
    obtain ⟨t0, t1, hspoke0, -, hdid, hrel⟩ := sdDrvReadSector_ok h hsector hcount
    obtain ⟨ps, hspoke, htransfer⟩ := hdid.spoke
    have hwhole := (hspoke0.trans hspoke).trans hrel.spoke
    rw [List.nil_append, List.append_nil] at hwhole
    exact ⟨ps, hwhole.transcript, htransfer⟩
  · intro k t h
    obtain ⟨t0, t1, hspoke0, hdid, hrel⟩ := sdDrvWriteSector_ok h hsector hcount hcount'
    obtain ⟨ps, hspoke, htransfer⟩ := hdid.spoke
    have hwhole := (hspoke0.trans hspoke).trans hrel.spoke
    rw [List.nil_append, List.append_nil] at hwhole
    exact ⟨ps, hwhole.transcript, htransfer⟩

def brokenReadBytes : List UInt8 :=
  List.replicate 8 0xFF ++ [0x00, 0x08] ++ List.replicate 7 0xFF ++ [0x00, 0xFF]

theorem transfers_wellformed_brokenRead :
    ∃ t, sdDrvReadSector 3 2 { rx := brokenReadBytes, cardType := CT_SD1 } = .ok 0 t ∧
      ∃ ps, Transcript { rx := brokenReadBytes, cardType := CT_SD1 } t ps ∧ ReadTransfer 1536 2 ps := by
  obtain ⟨t, ht⟩ :=
    ok_of_outcome (s := { rx := brokenReadBytes, cardType := CT_SD1 }) (m := sdDrvReadSector 3 2) (a := 0)
    (by decide +kernel)
  have h := (@transfers_wellformed _ 3 2 (fun _ => 0) (by decide) (by decide) (by decide)).1 0 t ht
  exact ⟨t, ht, h⟩

end Stm32Logger.Sd
