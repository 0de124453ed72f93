import Mathlib.Data.List.TakeWhile
import Mathlib.Data.Nat.Find
import Stm32Logger.Sd.Transfer

/-!
# Calls on an endless stream

No loop of the driver counts its rounds, so a call ends only if the card
returns what each loop waits for. The bytes come from an endless stream here,
and a call ends when it returns on a long enough piece of it.
-/

namespace Stm32Logger.Sd

def window (st : Nat → UInt8) (c n : Nat) : List UInt8 := (List.range n).map fun i => st (c + i)

def Recurs (st : Nat → UInt8) (P : UInt8 → Prop) : Prop := ∀ c, ∃ i, P (st (c + i))

def Ends (st : Nat → UInt8) (m : SpiM α) (s : Driver) : Prop :=
  ∃ n r t, m { s with rx := window st 0 n } = .ok r t

/-- With a card of type `ct`, the call takes `k` bytes from the position `c` on and returns `r`. -/
def Takes (st : Nat → UInt8) (m : SpiM α) (ct : UInt8) (c k : Nat) (r : α) (ct' : UInt8) : Prop :=
  ∀ n s, s.rx = window st c (k + n) → s.cardType = ct →
    ∃ t, m s = .ok r t ∧ t.rx = window st (c + k) n ∧ t.cardType = ct'

def ReturnsAt (st : Nat → UInt8) (m : SpiM α) (ct : UInt8) (c : Nat) : Prop :=
  ∃ k r ct', Takes st m ct c k r ct'

def Returns (st : Nat → UInt8) (m : SpiM α) : Prop := ∀ ct c, ReturnsAt st m ct c

/-- A command sent from the position `c` on is answered `ret`, `k` bytes later. -/
def AnsweredAt (st : Nat → UInt8) (cmd : UInt8) (c k : Nat) (ret : UInt8) : Prop :=
  ∀ n, commandAnswered cmd (window st c (k + n)) = ret :: window st (c + k) n

/-- The card answers the command with 0 when it has been sent often enough. -/
inductive LeavesIdle (st : Nat → UInt8) (cmd : UInt8) : Nat → Prop where
  | ready (h : AnsweredAt st cmd c k 0) : LeavesIdle st cmd c
  | again (h : AnsweredAt st cmd c k ret) (hret : ret ≠ 0) (hrest : LeavesIdle st cmd (c + k)) :
      LeavesIdle st cmd c

/-- The four bytes from `c` on end in the echo of CMD8. -/
def Echoed (st : Nat → UInt8) (c : Nat) : Prop := st (c + 2) = 0x01 ∧ st (c + 3) = 0xAA

/-- The command that `sdDrvInit` repeats, if it comes to that, is answered with 0 in the end. -/
def IdleReleased (st : Nat → UInt8) : Prop :=
  ∀ k0 k8 ret, AnsweredAt st SD_CMD0 80 k0 1 → AnsweredAt st SD_CMD8 (80 + k0) k8 ret →
    (ret = 1 → Echoed st (80 + k0 + k8) → LeavesIdle st SD_ACMD41 (80 + k0 + k8 + 4)) ∧
    (ret ≠ 1 → ∀ k41 ret41, AnsweredAt st SD_ACMD41 (80 + k0 + k8) k41 ret41 →
      LeavesIdle st (if ret41 ≤ 1 then SD_ACMD41 else SD_CMD1) (80 + k0 + k8 + k41))

variable {st : Nat → UInt8} {m : SpiM α} {f : α → SpiM β} {ct ct' ct'' : UInt8} {c k k' : Nat}

-- ---------------------------------------------------------------------------
-- Pieces of a stream
-- ---------------------------------------------------------------------------

theorem window_length (st : Nat → UInt8) (c n : Nat) : (window st c n).length = n := by
  rw [window, List.length_map, List.length_range]

theorem window_succ (st : Nat → UInt8) (c n : Nat) : window st c (n + 1) = st c :: window st (c + 1) n := by
  rw [window, List.range_succ_eq_map, List.map_cons, List.map_map]
  refine congrArg (st c :: ·) (List.map_congr_left fun i _ => ?_)
  exact congrArg st (by simp only [Nat.succ_eq_add_one]; omega)

theorem window_add (st : Nat → UInt8) (c k n : Nat) :
    window st c (k + n) = window st c k ++ window st (c + k) n := by
  induction k generalizing c with
  | zero => rw [Nat.zero_add]; rfl
  | succ k ih =>
    rw [Nat.add_right_comm, window_succ, window_succ, ih, List.cons_append]
    rw [Nat.add_right_comm c 1 k, Nat.add_assoc c k 1]

theorem dropWhile_window (n : Nat) {p : UInt8 → Bool} {i : Nat} (h : p (st (c + i)) = false)
    (hbefore : ∀ j < i, p (st (c + j)) = true) :
    (window st c (i + 1 + n)).dropWhile p = st (c + i) :: window st (c + (i + 1)) n := by
  have hall : ∀ b ∈ window st c i, p b = true := by
    intro b hb
    obtain ⟨j, hj, rfl⟩ := List.mem_map.mp hb
    exact hbefore j (List.mem_range.mp hj)
  rw [Nat.add_assoc i 1 n, window_add, List.dropWhile_append_of_pos hall, Nat.add_comm 1 n, window_succ]
  exact List.dropWhile_cons_of_neg (by rw [h]; decide)

theorem drop_window (st : Nat → UInt8) (c k n : Nat) : (window st c (k + n)).drop k = window st (c + k) n := by
  rw [window_add, List.drop_left' (window_length st c k)]

theorem Recurs.first {P : UInt8 → Prop} {p : UInt8 → Bool} (h : Recurs st P) (hp : ∀ b, P b → p b = false)
    (c : Nat) :
    ∃ i, p (st (c + i)) = false ∧ ∀ j < i, p (st (c + j)) = true := by
  obtain ⟨i, hi⟩ := h c
  have hex : ∃ i, p (st (c + i)) = false := ⟨i, hp _ hi⟩
  exact ⟨Nat.find hex, Nat.find_spec hex, fun j hj => (Bool.not_eq_false _).mp (Nat.find_min hex hj)⟩

-- ---------------------------------------------------------------------------
-- Calls one after the other
-- ---------------------------------------------------------------------------

theorem Takes.pure (a : α) : Takes st (pure a) ct c 0 a ct := by
  intro n s hrx hct
  rw [Nat.zero_add] at hrx
  exact ⟨s, rfl, hrx, hct⟩

theorem Takes.bind (h : Takes st m ct c k r ct') (h' : Takes st (f r) ct' (c + k) j r' ct'') :
    Takes st (m >>= f) ct c (k + j) r' ct'' := by
  intro n s hrx hct
  rw [Nat.add_assoc] at hrx
  obtain ⟨t, hrun, htrx, htct⟩ := h (j + n) s hrx hct
  obtain ⟨u, hrun', hurx, huct⟩ := h' n t htrx htct
  exact ⟨u, by rw [bind_ok hrun, hrun'], by rw [hurx, Nat.add_assoc], huct⟩

theorem Takes.modify {g : Driver → Driver} (hrx : ∀ s, (g s).rx = s.rx)
    (hct : ∀ s, s.cardType = ct → (g s).cardType = ct') : Takes st (modify g) ct c 0 ⟨⟩ ct' := by
  intro n s h hs
  rw [Nat.zero_add] at h
  exact ⟨g s, rfl, (hrx s).trans h, hct s hs⟩

theorem Takes.get {f : Driver → SpiM β} (hf : ∀ s s' : Driver, s.cardType = s'.cardType → f s = f s')
    {s : Driver} (hs : s.cardType = ct) (h : Takes st (f s) ct c k r ct') :
    Takes st (get >>= f) ct c k r ct' := by
  intro n s' hrx hct
  rw [get_bind, hf s' s (hct.trans hs.symm)]
  exact h n s' hrx hct

theorem Takes.returnsAt (h : Takes st m ct c k r ct') (h' : ReturnsAt st (f r) ct' (c + k)) :
    ReturnsAt st (m >>= f) ct c := by
  obtain ⟨k', r', ct'', hf⟩ := h'
  exact ⟨k + k', r', ct'', h.bind hf⟩

theorem Returns.pure (a : α) : Returns st (pure a) := fun ct _ => ⟨0, a, ct, .pure a⟩

theorem ReturnsAt.bind (h : ReturnsAt st m ct c) (h' : ∀ r, Returns st (f r)) :
    ReturnsAt st (m >>= f) ct c := by
  obtain ⟨k, r, ct', hm⟩ := h
  exact hm.returnsAt (h' r ct' (c + k))

theorem Returns.bind (h : Returns st m) (h' : ∀ r, Returns st (f r)) : Returns st (m >>= f) :=
  fun ct c => (h ct c).bind h'

theorem Returns.ite {p : Prop} [Decidable p] {m m' : SpiM α} (h : Returns st m) (h' : Returns st m') :
    Returns st (if p then m else m') := by
  split
  · exact h
  · exact h'

theorem Returns.get {f : Driver → SpiM β} (hf : ∀ s s' : Driver, s.cardType = s'.cardType → f s = f s')
    (h : ∀ s, Returns st (f s)) : Returns st (get >>= f) := by
  intro ct c
  obtain ⟨k, r, ct', h'⟩ := h { rx := [], cardType := ct } ct c
  exact ⟨k, r, ct', h'.get hf rfl⟩

theorem ReturnsAt.ends {s : Driver} (h : ReturnsAt st m s.cardType 0) : Ends st m s := by
  obtain ⟨k, r, ct', hm⟩ := h
  obtain ⟨t, hrun, -⟩ := hm 0 { s with rx := window st 0 k } rfl rfl
  exact ⟨k, r, t, hrun⟩

-- ---------------------------------------------------------------------------
-- The bus
-- ---------------------------------------------------------------------------

theorem takes_readwrite (data : UInt8) : Takes st (sdSPIreadwrite data) ct c 1 (st c) ct := by
  intro n s hrx hct
  rw [Nat.add_comm 1 n, window_succ] at hrx
  exact ⟨_, sdSPIreadwrite_run hrx, rfl, hct⟩

theorem takes_poll {p : UInt8 → Bool} {i : Nat} (h : p (st (c + i)) = false)
    (hbefore : ∀ j < i, p (st (c + j)) = true) : Takes st (poll p) ct c (i + 1) (st (c + i)) ct := by
  intro n s hrx hct
  have hdrop := dropWhile_window n h hbefore
  rw [← hrx] at hdrop
  obtain ⟨t, hrun, hspoke, htrx, -⟩ := poll_spoke hdrop
  exact ⟨t, hrun, htrx, hspoke.cardType.trans hct⟩

theorem takes_writeBuffer (buf : List UInt8) : Takes st (sdSPIWriteBuffer buf) ct c buf.length ⟨⟩ ct := by
  intro n s hrx hct
  rw [window_add] at hrx
  exact ⟨_, sdSPIWriteBuffer_run buf _ hrx (window_length st c _), rfl, hct⟩

theorem takes_readBuffer (len : Nat) : Takes st (sdSPIReadBuffer len) ct c len (window st c len) ct := by
  intro n s hrx hct
  rw [window_add] at hrx
  exact ⟨_, sdSPIReadBuffer_run _ hrx (window_length st c _), rfl, hct⟩

theorem returns_readwrite (data : UInt8) : Returns st (sdSPIreadwrite data) :=
  fun ct c => ⟨1, st c, ct, takes_readwrite data⟩

theorem returns_poll {P : UInt8 → Prop} {p : UInt8 → Bool} (h : Recurs st P) (hp : ∀ b, P b → p b = false) :
    Returns st (poll p) := by
  intro ct c
  obtain ⟨i, hi, hbefore⟩ := h.first hp c
  exact ⟨i + 1, st (c + i), ct, takes_poll hi hbefore⟩

theorem returns_writeBuffer (buf : List UInt8) : Returns st (sdSPIWriteBuffer buf) :=
  fun ct _ => ⟨buf.length, ⟨⟩, ct, takes_writeBuffer buf⟩

theorem returns_readBuffer (len : Nat) : Returns st (sdSPIReadBuffer len) :=
  fun ct c => ⟨len, window st c len, ct, takes_readBuffer len⟩

theorem returns_setDest (g : Driver → Nat → UInt8) : Returns st (modify fun s => { s with dest := g s }) :=
  fun ct _ => ⟨0, ⟨⟩, ct, .modify (fun _ => rfl) fun _ h => h⟩

theorem returns_release : Returns st sdSPIRelease :=
  .bind (fun ct _ => ⟨0, ⟨⟩, ct, .modify (fun _ => rfl) fun _ h => h⟩) fun _ =>
    .bind (returns_readwrite 0xFF) fun _ => .pure _

theorem takes_command (h : AnsweredAt st cmd c k ret) (harg : arg < 2 ^ 32) :
    Takes st (sdDrvCommand cmd arg) ct c k ret ct := by
  intro n s hrx hct
  have hans := h n
  rw [← hrx] at hans
  obtain ⟨t, ps, hrun, hspoke, -, htrx, -⟩ := sdDrvCommand_run hans harg
  exact ⟨t, hrun, htrx, hspoke.cardType.trans hct⟩

theorem noAnswer_of_lt {b : UInt8} (h : b < 0x80) : noAnswer b = false := by
  have hall : ∀ b : BitVec 8, UInt8.ofBitVec b < 0x80 → noAnswer (UInt8.ofBitVec b) = false := by decide
  exact hall b.toBitVec h

-- ---------------------------------------------------------------------------
-- Reading and writing
-- ---------------------------------------------------------------------------

theorem returns_select (hselect : Recurs st (· ≠ 0)) : Returns st sdSPISelect := by
  refine .bind (fun ct _ => ⟨0, ⟨⟩, ct, .modify (fun _ => rfl) fun _ h => h⟩) fun _ => ?_
  exact .bind (returns_poll hselect fun b hb => decide_eq_false hb) fun _ => .pure _

theorem returns_getBlock (hanswer : Recurs st (· < 0x80)) (o len : Nat) : Returns st (sdDrvGetBlock o len) := by
  refine .bind (returns_poll hanswer fun b hb => ?_) fun token => ?_
  · exact decide_eq_false fun h => absurd (h ▸ hb) (by decide)
  · refine .bind (returns_setDest _) fun _ => .ite (.pure _) ?_
    refine .bind (returns_readBuffer len) fun bs => .bind (returns_setDest _) fun _ => ?_
    exact .bind (returns_readwrite _) fun _ => .bind (returns_readwrite _) fun _ => .pure _

theorem returns_readBlocks (hanswer : Recurs st (· < 0x80)) (n status : Nat) :
    Returns st (readBlocks n status) := by
  induction n generalizing status with
  | zero => exact .pure status
  | succ n ih => exact .bind (returns_getBlock hanswer _ _) fun r => .ite (.pure status) (ih (status + 1))

theorem returns_setBlock (hready : Recurs st (· = 0xFF)) (buf : List UInt8) (token : UInt8) :
    Returns st (sdDrvSetBlock buf token) := by
  refine .bind (returns_poll hready fun b hb => ?_) fun _ => .bind (returns_readwrite token) fun _ => ?_
  · exact decide_eq_false (not_not.mpr hb)
  · refine .ite (.bind (returns_writeBuffer buf) fun _ => ?_) (.pure 0)
    refine .bind (returns_readwrite _) fun _ => .bind (returns_readwrite _) fun _ => ?_
    exact .bind (returns_readwrite _) fun response => .pure _

theorem returns_writeBlocks (hready : Recurs st (· = 0xFF)) (buf : Nat → UInt8) (n status : Nat) :
    Returns st (writeBlocks buf n status) := by
  induction n generalizing status with
  | zero => exact .pure status
  | succ n ih => exact .bind (returns_setBlock hready _ _) fun _ => ih (status + 1)

-- ---------------------------------------------------------------------------
-- The calls of the driver
-- ---------------------------------------------------------------------------

section Fair
variable (hselect : Recurs st (· ≠ 0)) (hanswer : Recurs st (· < 0x80))
include hselect hanswer

theorem exists_answered (c : Nat) :
    ∃ k ret, ∀ n, answered (window st c (k + n)) = ret :: window st (c + k) n := by
  obtain ⟨i, hi, hi'⟩ := hselect.first (p := fun b => b = 0) (fun b hb => decide_eq_false hb) c
  obtain ⟨j, hj, hj'⟩ := hanswer.first (fun b => noAnswer_of_lt) (c + (i + 1) + 6)
  refine ⟨i + 1 + (6 + (j + 1)), st (c + (i + 1) + 6 + j), fun n => ?_⟩
  have hsel := dropWhile_window (p := fun b => b = 0) (6 + (j + 1) + n) hi hi'
  rw [Nat.add_assoc (i + 1), answered, hsel, List.tail_cons, Nat.add_assoc 6, drop_window,
    dropWhile_window n hj hj']
  simp only [Nat.add_assoc]

theorem exists_answeredAt (cmd : UInt8) (c : Nat) : ∃ k ret, AnsweredAt st cmd c k ret := by
  obtain ⟨k, ret, h⟩ := exists_answered hselect hanswer c
  by_cases happ : isAppCommand cmd = true
  · by_cases hret : ret > 1
    · refine ⟨k, ret, fun n => ?_⟩
      rw [commandAnswered, if_pos happ, h]
      exact if_pos hret
    · obtain ⟨k', ret', h'⟩ := exists_answered hselect hanswer (c + k)
      refine ⟨k + k', ret', fun n => ?_⟩
      rw [commandAnswered, if_pos happ, Nat.add_assoc, h]
      dsimp only
      rw [if_neg hret, h', Nat.add_assoc]
  · refine ⟨k, ret, fun n => ?_⟩
    rw [commandAnswered, if_neg happ, h]

theorem returns_command (cmd : UInt8) (harg : arg < 2 ^ 32) : Returns st (sdDrvCommand cmd arg) := by
  intro ct c
  obtain ⟨k, ret, h⟩ := exists_answeredAt hselect hanswer cmd c
  exact ⟨k, ret, ct, takes_command h harg⟩

theorem returns_readSector (count : Nat) (hsector : sector < 2 ^ 32) :
    Returns st (sdDrvReadSector sector count) := by
  refine .bind (returns_select hselect) fun _ => .get (fun s s' h => by rw [h]) fun s => ?_
  have haddr := cardAddress_lt s.cardType hsector
  refine .bind (.ite ?_ ?_) fun k => .bind returns_release fun _ => .pure k
  · refine .bind (returns_command hselect hanswer SD_CMD17 haddr) fun ret => .ite ?_ (.pure 0)
    exact .bind (returns_getBlock hanswer 0 512) fun _ => .pure 1
  · refine .bind (returns_command hselect hanswer SD_CMD18 haddr) fun ret => .ite ?_ (.pure 0)
    refine .bind (returns_readBlocks hanswer _ 0) fun status => ?_
    exact .bind (returns_command hselect hanswer SD_CMD12 (by decide)) fun _ => .pure status

theorem returns_writeSector (hready : Recurs st (· = 0xFF)) (buf : Nat → UInt8) (hsector : sector < 2 ^ 32)
    (hcount : count < 2 ^ 32) : Returns st (sdDrvWriteSector sector count buf) := by
  refine .bind (returns_select hselect) fun _ => .get (fun s s' h => by rw [h]) fun s => ?_
  have haddr := cardAddress_lt s.cardType hsector
  refine .bind (.ite ?_ ?_) fun k => .bind returns_release fun _ => .pure k
  · refine .bind (returns_command hselect hanswer SD_CMD24 haddr) fun ret => .ite ?_ (.pure 0)
    exact .bind (returns_setBlock hready _ _) fun _ => .pure 1
  · refine .bind (.ite ?_ (.pure _)) fun _ => ?_
    · exact .bind (returns_command hselect hanswer SD_ACMD23 hcount) fun _ => .pure _
    · refine .bind (returns_command hselect hanswer SD_CMD25 haddr) fun ret => .ite ?_ (.pure 0)
      refine .bind (returns_writeBlocks hready buf _ 0) fun status => ?_
      exact .bind (returns_setBlock hready _ _) fun r => .ite (.pure 0) (.pure status)

end Fair

-- ---------------------------------------------------------------------------
-- Detecting the card
-- ---------------------------------------------------------------------------

theorem answered_sublist (rx : List UInt8) : (answered rx).Sublist rx :=
  (List.dropWhile_sublist _).trans
    ((List.drop_sublist _ _).trans ((List.tail_sublist _).trans (List.dropWhile_sublist _)))

theorem commandAnswered_sublist (cmd : UInt8) (rx : List UInt8) : (commandAnswered cmd rx).Sublist rx := by
  have hans := answered_sublist rx
  rw [commandAnswered]
  split
  · cases h : answered rx with
    | nil => exact List.nil_sublist rx
    | cons ret rx' =>
      rw [h] at hans
      dsimp only
      split
      · exact hans
      · exact (answered_sublist rx').trans ((List.sublist_cons_self ret rx').trans hans)
  · exact hans

theorem AnsweredAt.pos (h : AnsweredAt st cmd c k ret) : 0 < k := by
  have hlen := (commandAnswered_sublist cmd (window st c (k + 0))).length_le
  rw [h 0, List.length_cons, window_length, window_length] at hlen
  omega

theorem takes_leaveIdleLoop (h : LeavesIdle st cmd c) (harg : arg < 2 ^ 32) :
    ∃ k, ∀ fuel > k, ∀ ct, Takes st (leaveIdleLoop cmd arg fuel) ct c k ⟨⟩ ct := by
  induction h with
  | @ready c k h =>
    refine ⟨k, fun fuel hfuel ct => ?_⟩
    obtain ⟨fuel, rfl⟩ := Nat.exists_eq_add_one_of_ne_zero (Nat.ne_of_gt (Nat.zero_lt_of_lt hfuel))
    refine (takes_command h harg).bind (j := 0) ?_
    rw [if_neg (not_not.mpr rfl)]
    exact .pure _
  | @again c k ret h hret _ ih =>
    obtain ⟨k', ih⟩ := ih
    refine ⟨k + k', fun fuel hfuel ct => ?_⟩
    have hpos := h.pos
    obtain ⟨fuel, rfl⟩ := Nat.exists_eq_add_one_of_ne_zero (Nat.ne_of_gt (Nat.zero_lt_of_lt hfuel))
    refine (takes_command h harg).bind ?_
    rw [if_pos hret]
    exact ih fuel (by omega) ct

theorem takes_leaveIdle (h : LeavesIdle st cmd c) (harg : arg < 2 ^ 32) :
    ∃ k, ∀ ct, Takes st (leaveIdle cmd arg) ct c k ⟨⟩ ct := by
  obtain ⟨k, hloop⟩ := takes_leaveIdleLoop h harg
  refine ⟨k, fun ct n s hrx hct => ?_⟩
  rw [leaveIdle, get_bind]
  refine hloop _ ?_ ct n s hrx hct
  rw [hrx, window_length]
  omega

theorem takes_setStatus (v : Int) : Takes st (setStatus v) ct c 0 ⟨⟩ ct := .modify (fun _ => rfl) fun _ h => h

theorem takes_setType (v : Int) : Takes st (setType v) ct c 0 ⟨⟩ ct := .modify (fun _ => rfl) fun _ h => h

theorem takes_setCardType (v : UInt8) : Takes st (setCardType v) ct c 0 ⟨⟩ v :=
  .modify (fun _ => rfl) fun _ _ => rfl

section Fair
variable (hselect : Recurs st (· ≠ 0)) (hanswer : Recurs st (· < 0x80))
include hselect hanswer

theorem returnsAt_detectV2 (h : Echoed st c → LeavesIdle st SD_ACMD41 (c + 4)) (ct : UInt8) :
    ReturnsAt st detectV2 ct c := by
  refine (takes_setStatus 1).returnsAt ((takes_setType 1).returnsAt ((takes_readBuffer 4).returnsAt ?_))
  split
  next hecho =>
    obtain ⟨k, hleave⟩ := takes_leaveIdle (h hecho) (by decide : 2 ^ 30 < 2 ^ 32)
    refine (hleave ct).returnsAt
      (.bind (returns_command hselect hanswer SD_CMD58 (by decide) _ _) fun ret => ?_)
    refine .ite (.bind (returns_readBuffer 4) fun ocr => ?_) (.pure _)
    exact fun ct c => ⟨0, _, _, takes_setCardType _⟩
  next => exact ⟨0, _, ct, .pure _⟩

theorem returnsAt_detectV1 (ct : UInt8) (h : ∀ k ret,
      AnsweredAt st SD_ACMD41 c k ret → LeavesIdle st (if ret ≤ 1 then SD_ACMD41 else SD_CMD1) (c + k)) :
    ReturnsAt st detectV1 ct c := by
  obtain ⟨k, ret, hans⟩ := exists_answeredAt hselect hanswer SD_ACMD41 c
  refine (takes_command hans (by decide)).returnsAt ?_
  refine (takes_setStatus 1).returnsAt ((takes_setType _).returnsAt ((takes_setCardType _).returnsAt ?_))
  obtain ⟨k', hleave⟩ := takes_leaveIdle (h k ret hans) (by decide : 0 < 2 ^ 32)
  refine (hleave _).returnsAt (.bind (returns_command hselect hanswer SD_CMD16 (by decide) _ _) fun ret => ?_)
  exact .ite (fun ct c =>
    (takes_setStatus 0).returnsAt ((takes_setType 0).returnsAt ⟨0, _, _, takes_setCardType 0⟩)) (.pure _)

theorem returnsAt_init (h : IdleReleased st) (ct : UInt8) : ReturnsAt st sdDrvInit ct 0 := by
  refine (takes_setCardType 0).returnsAt ((takes_writeBuffer _).returnsAt ?_)
  obtain ⟨k0, ret0, hans0⟩ :=
    exists_answeredAt hselect hanswer SD_CMD0 (0 + 0 + (List.replicate 80 (0xFF : UInt8)).length)
  refine (takes_command hans0 (by decide)).returnsAt ?_
  by_cases hret0 : ret0 ≠ 1
  · rw [if_pos hret0]
    exact (takes_setStatus 0).returnsAt ⟨0, -1, 0, .pure _⟩
  · rw [if_neg hret0]
    obtain rfl : ret0 = 1 := not_not.mp hret0
    rw [List.length_replicate] at hans0 ⊢
    obtain ⟨k8, ret8, hans8⟩ := exists_answeredAt hselect hanswer SD_CMD8 (80 + k0)
    obtain ⟨h2, h1⟩ := h k0 k8 ret8 hans0 hans8
    refine (takes_command hans8 (by decide)).returnsAt (.bind ?_ fun _ => .bind returns_release fun _ => ?_)
    · by_cases hret8 : ret8 = 1
      · rw [if_pos hret8]
        exact returnsAt_detectV2 hselect hanswer (h2 hret8) 0
      · rw [if_neg hret8]
        exact returnsAt_detectV1 hselect hanswer 0 (h1 hret8)
    · exact .get (fun s s' hct => by rw [hct]) fun s => .pure _

end Fair

/-- Bytes that are not 0, bytes with bit 7 clear and, for a write, bytes 0xFF have to keep
occurring; the card has to leave its idle state when it is detected. -/
theorem driver_ends (hselect : Recurs st (· ≠ 0)) (hanswer : Recurs st (· < 0x80)) (s : Driver) :
    (IdleReleased st → Ends st sdDrvInit s) ∧
    (∀ sector count, sector < 2 ^ 32 → 1 ≤ count → count < 2 ^ 32 → Ends st (sdDrvReadSector sector count) s) ∧
    (Recurs st (· = 0xFF) → ∀ sector count buf, sector < 2 ^ 32 → 1 ≤ count → count < 2 ^ 32 →
      Ends st (sdDrvWriteSector sector count buf) s) := by
  refine ⟨fun h => (returnsAt_init hselect hanswer h _).ends, fun sector count hsector _ _ => ?_,
    fun hready sector count buf hsector _ hcount => ?_⟩
  · exact (returns_readSector hselect hanswer count hsector _ _).ends
  · exact (returns_writeSector hselect hanswer hready buf hsector hcount _ _).ends

theorem AnsweredAt.unique (h : AnsweredAt st cmd c k ret) (h' : AnsweredAt st cmd c k' ret') :
    k = k' ∧ ret = ret' := by
  have hboth : ret :: window st (c + k) k' = ret' :: window st (c + k') k := by
    rw [← h, ← h', Nat.add_comm k k']
  have hlen := congrArg List.length hboth
  rw [List.length_cons, List.length_cons, window_length, window_length] at hlen
  exact ⟨by omega, (List.cons.inj hboth).1⟩

theorem answeredAt_of_window (bs : List UInt8) (hpiece : window st c k = bs)
    (h : ∀ rx, commandAnswered cmd (bs ++ rx) = ret :: rx) : AnsweredAt st cmd c k ret := fun n => by
  rw [window_add, hpiece, h]

def answerBytes (ret : UInt8) : List UInt8 := List.replicate 7 0xFF ++ [ret]

/-- A card that echoes CMD8, and is not ready when ACMD41 comes for the first time. -/
def wakingBytes : List UInt8 :=
  List.replicate 80 0xFF ++ answerBytes 1 ++ answerBytes 1 ++ [0, 0, 1, 0xAA] ++ answerBytes 1 ++
    answerBytes 1 ++
    answerBytes 1 ++ answerBytes 0

def wakingLine (i : Nat) : UInt8 := wakingBytes.getD i (if i % 2 = 0 then 0xFF else 0x00)

theorem wakingLine_recurs {P : UInt8 → Prop} (h : P 0xFF ∨ P 0x00) : Recurs wakingLine P := by
  have hlater : ∀ i, 132 ≤ i → wakingLine i = if i % 2 = 0 then 0xFF else 0x00 := fun i hi =>
    List.getD_eq_default _ _ hi
  intro c
  rcases h with h | h
  · refine ⟨c + 132, ?_⟩
    rw [hlater _ (by omega), if_pos (by omega)]
    exact h
  · refine ⟨c + 133, ?_⟩
    rw [hlater _ (by omega), if_neg (by omega)]
    exact h

theorem wakingLine_released : IdleReleased wakingLine := by
  have h0 : AnsweredAt wakingLine SD_CMD0 80 8 1 :=
    answeredAt_of_window (answerBytes 1) (by decide) fun _ => rfl
  have h8 : AnsweredAt wakingLine SD_CMD8 88 8 1 :=
    answeredAt_of_window (answerBytes 1) (by decide) fun _ => rfl
  have h41 : AnsweredAt wakingLine SD_ACMD41 100 16 1 :=
    answeredAt_of_window (answerBytes 1 ++ answerBytes 1) (by decide) fun _ => rfl
  have h41' : AnsweredAt wakingLine SD_ACMD41 116 16 0 :=
    answeredAt_of_window (answerBytes 1 ++ answerBytes 0) (by decide) fun _ => rfl
  intro k0 k8 ret hk0 hk8
  obtain ⟨rfl, -⟩ := h0.unique hk0
  obtain ⟨rfl, rfl⟩ := h8.unique hk8
  exact ⟨fun _ _ => .again h41 (by decide) (.ready h41'), fun hret => absurd rfl hret⟩

theorem driver_ends_wakingLine :
    Ends wakingLine sdDrvInit { rx := [] } ∧ Ends wakingLine (sdDrvReadSector 0 1) { rx := [] } ∧
      Ends wakingLine (sdDrvWriteSector 0 1 fun _ => 0) { rx := [] } := by
  obtain ⟨hinit, hread, hwrite⟩ := driver_ends (wakingLine_recurs (.inl (by decide)))
    (wakingLine_recurs (.inr (by decide))) { rx := [] }
  exact ⟨hinit wakingLine_released, hread 0 1 (by decide) (by decide) (by decide),
    hwrite (wakingLine_recurs (.inl rfl)) 0 1 _ (by decide) (by decide) (by decide)⟩

-- ---------------------------------------------------------------------------
-- Lines that stay as they are
-- ---------------------------------------------------------------------------

def Dead (b : UInt8) (s : Driver) : Prop := ∀ x ∈ s.rx, x = b

variable {s : Driver} {b : UInt8}

section Dead
variable (hb : b = 0x00 ∨ b = 0xFF) (h : Dead b s)
include hb h

theorem Dead.answered : answered s.rx = [] := by
  rw [Sd.answered]
  rcases hb with rfl | rfl
  · have hnone : (s.rx.dropWhile fun b => b = 0) = [] :=
      List.dropWhile_eq_nil_iff.mpr fun x hx => decide_eq_true (h x hx)
    rw [hnone]
    rfl
  · refine List.dropWhile_eq_nil_iff.mpr fun x hx => ?_
    rw [h x ((List.dropWhile_sublist _).mem (List.mem_of_mem_tail (List.mem_of_mem_drop hx)))]
    rfl

theorem Dead.command (cmd : UInt8) (arg : Nat) (k : UInt8 → SpiM α) :
    ¬ ∃ r t, (sdDrvCommand cmd arg >>= k) s = .ok r t := by
  rintro ⟨r, t, hrun⟩
  have hnone : commandAnswered cmd s.rx = [] := by
    rw [commandAnswered, h.answered hb]
    exact ite_self _
  obtain ⟨u, hu⟩ := sdDrvCommand_stuck arg hnone
  rw [bind_error hu] at hrun
  cases hrun

end Dead

theorem Dead.select {k : Unit → SpiM α} (h : Dead b s) (hk : ∀ t, Dead b t → ¬ ∃ r u, k ⟨⟩ t = .ok r u) :
    ¬ ∃ r t, (sdSPISelect >>= k) s = .ok r t := by
  rintro ⟨r, t, hrun⟩
  obtain ⟨x, u, hsel, hrest⟩ := bind_eq_ok.mp hrun
  obtain ⟨-, ⟨c, hrx⟩, -⟩ := sdSPISelect_ok hsel
  refine hk u (fun y hy => h y ?_) ⟨r, t, hrest⟩
  exact (List.dropWhile_sublist _).mem (hrx ▸ List.mem_cons_of_mem c hy)

theorem dead_init (hb : b = 0x00 ∨ b = 0xFF) (h : Dead b s) : ¬ ∃ r t, sdDrvInit s = .ok r t := by
  rintro ⟨r, t, hrun⟩
  rw [sdDrvInit, setCardType, modify_bind] at hrun
  obtain ⟨x, u, hwrite, hrest⟩ := bind_eq_ok.mp hrun
  obtain ⟨got, -, hrx, -⟩ := sdSPIWriteBuffer_ok hwrite
  have hu : Dead b u := fun y hy => h y (hrx ▸ List.mem_append_right got hy)
  exact hu.command hb _ _ _ ⟨r, t, hrest⟩

theorem dead_read (hb : b = 0x00 ∨ b = 0xFF) (h : Dead b s) (sector count : Nat) :
    ¬ ∃ r t, sdDrvReadSector sector count s = .ok r t := by
  refine h.select fun t ht => ?_
  rintro ⟨r, u, hrun⟩
  rw [get_bind] at hrun
  obtain ⟨k, v, hread, -⟩ := bind_eq_ok.mp hrun
  by_cases hc : count = 1
  · rw [if_pos hc] at hread
    exact ht.command hb _ _ _ ⟨k, v, hread⟩
  · rw [if_neg hc] at hread
    exact ht.command hb _ _ _ ⟨k, v, hread⟩

theorem dead_write (hb : b = 0x00 ∨ b = 0xFF) (h : Dead b s) (sector count : Nat) (buf : Nat → UInt8) :
    ¬ ∃ r t, sdDrvWriteSector sector count buf s = .ok r t := by
  refine h.select fun t ht => ?_
  rintro ⟨r, u, hrun⟩
  rw [get_bind] at hrun
  obtain ⟨k, v, hwrite, -⟩ := bind_eq_ok.mp hrun
  by_cases hc : count = 1
  · rw [if_pos hc] at hwrite
    exact ht.command hb _ _ _ ⟨k, v, hwrite⟩
  · rw [if_neg hc, writeMulti, preErase] at hwrite
    obtain ⟨x, w, herase, hrest⟩ := bind_eq_ok.mp hwrite
    by_cases hsdc : t.cardType &&& CT_SDC ≠ 0
    · rw [if_pos hsdc] at herase
      exact ht.command hb _ _ _ ⟨x, w, herase⟩
    · rw [if_neg hsdc] at herase
      obtain ⟨-, rfl⟩ := pure_eq_ok.mp herase
      exact ht.command hb _ _ _ ⟨k, v, hrest⟩

theorem window_dead (s : Driver) (n : Nat) : Dead b { s with rx := window (fun _ => b) 0 n } := by
  intro x hx
  obtain ⟨i, -, rfl⟩ := List.mem_map.mp hx
  rfl

/-- With no card, and with a line stuck low, no call of the driver ends. -/
theorem stuckLine_never_ends :
    ¬ Ends (fun _ => 0xFF) sdDrvInit { rx := [] } ∧ ¬ Ends (fun _ => 0x00) sdDrvInit { rx := [] } ∧
    ¬ Ends (fun _ => 0xFF) (sdDrvReadSector 0 1) { rx := [] } ∧
    ¬ Ends (fun _ => 0x00) (sdDrvReadSector 0 1) { rx := [] } ∧
    ¬ Ends (fun _ => 0xFF) (sdDrvWriteSector 0 1 fun _ => 0) { rx := [] } ∧
    ¬ Ends (fun _ => 0x00) (sdDrvWriteSector 0 1 fun _ => 0) { rx := [] } := by
  refine ⟨?_, ?_, ?_, ?_, ?_, ?_⟩
  · exact fun ⟨n, h⟩ => dead_init (.inr rfl) (window_dead _ n) h
  · exact fun ⟨n, h⟩ => dead_init (.inl rfl) (window_dead _ n) h
  · exact fun ⟨n, h⟩ => dead_read (.inr rfl) (window_dead _ n) 0 1 h
  · exact fun ⟨n, h⟩ => dead_read (.inl rfl) (window_dead _ n) 0 1 h
  · exact fun ⟨n, h⟩ => dead_write (.inr rfl) (window_dead _ n) 0 1 _ h
  · exact fun ⟨n, h⟩ => dead_write (.inl rfl) (window_dead _ n) 0 1 _ h

end Stm32Logger.Sd
