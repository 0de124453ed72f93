import Stm32Logger.Sd.Conversation
import Stm32Logger.Sd.Partition

/-!
# A block device

What the driver is for: with a card on the bus, its calls on one sector are
reads and writes of a block device. The programs over it are arbitrary, and
may choose each access by what the ones before gave.
-/

namespace Stm32Logger.Sd

open Dialogue

inductive Client (α : Type) where
  | done (a : α)
  | read (n : Nat) (go : Option (List UInt8) → Client α)
  | write (n : Nat) (buf : Sector) (go : Bool → Client α)

def Client.run {m : Type → Type} [Monad m] (read : Nat → m (Option (List UInt8)))
    (write : Nat → Sector → m Bool) :
    Client α → m α
  | .done a => pure a
  | .read n go => do (go (← read n)).run read write
  | .write n buf go => do (go (← write n buf)).run read write

/-- The program keeps to the sectors below the limit. -/
def Client.Within (limit : Nat) : Client α → Prop
  | .done _ => True
  | .read n go => n < limit ∧ ∀ b, (go b).Within limit
  | .write n _ go => n < limit ∧ ∀ b, (go b).Within limit

/-- A run on a block device that may refuse an access to these sectors. One that is not `sound` may also fail
in an access and report success. -/
inductive DeviceRun (sound : Bool) (refuses : Nat → Prop) :
    Client α → (Nat → List UInt8) → α → (Nat → List UInt8) → Prop where
  | done : DeviceRun sound refuses (.done a) mem a mem
  | read (h : DeviceRun sound refuses (go (some (mem n))) mem a mem') :
      DeviceRun sound refuses (.read n go) mem a mem'
  | noRead (hr : refuses n) (h : DeviceRun sound refuses (go none) mem a mem') :
      DeviceRun sound refuses (.read n go) mem a mem'
  | badRead (hs : sound = false) (h : DeviceRun sound refuses (go (some bs)) mem a mem') :
      DeviceRun sound refuses (.read n go) mem a mem'
  | write (h : DeviceRun sound refuses (go true) (Function.update mem n (block buf 0)) a mem') :
      DeviceRun sound refuses (.write n buf go) mem a mem'
  | noWrite (hr : refuses n) (h : DeviceRun sound refuses (go false) mem a mem') :
      DeviceRun sound refuses (.write n buf go) mem a mem'
  | badWrite (hs : sound = false) (h : DeviceRun sound refuses (go true) mem a mem') :
      DeviceRun sound refuses (.write n buf go) mem a mem'

/-- `block_read_sectors(dev, n, 1, buf) == 1`, and then what is in `buf`. -/
def readBlock (n : Nat) : SpiM (Option (List UInt8)) := do
  let r ← sdDrvReadSector n 1
  let s ← get
  pure (if r = 1 then some (block s.dest 0) else none)

/-- `block_write_sectors(dev, n, 1, buf) == 1`. -/
def writeBlock (n : Nat) (buf : Sector) : SpiM Bool := do
  let r ← sdDrvWriteSector n 1 buf
  pure (decide (r = 1))

/-- The driver takes the card for what it is. -/
def Matches (cardType : UInt8) (c : SpiCard) : Prop := cardType &&& CT_BLOCK = 0 ↔ c.kind ≠ .sdhc

def SpiCard.limit (c : SpiCard) : Nat := if c.kind = .sdhc then 2 ^ 32 else 2 ^ 23

/-- The sectors that a card which is awake may refuse. -/
def SpiCard.mayRefuse (c : SpiCard) (n : Nat) : Prop := c.willing = false ∨ c.sectors ≤ n

def SpiCard.blocks (st : Store) (n : Nat) : List UInt8 := block (st.mem n) 0

/-- Between two accesses. -/
structure Between (c : SpiCard) (mem : Nat → List UInt8) (v : Kept) (k : SpiCard.State) : Prop where
  known : Matches v.cardType c
  rests : Rests k.store k
  awake : k.store.idle = false
  blocks : SpiCard.blocks k.store = mem

variable {c : SpiCard} {mem : Nat → List UInt8} {n : Nat} {st st' : Store} {v : Kept} {k : SpiCard.State}

theorem sectorAt_cardAddress (hm : Matches cardType c) (hn : n < c.limit) :
    c.sectorAt (u32 (cardAddress cardType n)) = if n < c.sectors then some n else none := by
  rw [SpiCard.sectorAt, cardAddress]
  rw [SpiCard.limit] at hn
  by_cases hk : c.kind = .sdhc
  · rw [if_pos hk] at hn
    rw [if_pos hk, if_neg (fun h0 => hm.mp h0 hk), u32, Nat.mod_eq_of_lt hn]
  · rw [if_neg hk] at hn
    have hlt : n * 512 < 2 ^ 32 := by omega
    rw [if_neg hk, if_pos (hm.mpr hk), u32, u32, Nat.mod_eq_of_lt hlt, Nat.mod_eq_of_lt hlt,
      Nat.mul_div_cancel n (by decide), Nat.mul_mod_left]
    simp only [true_and]

theorem SpiCard.Refuses.mayRefuse (h : c.Refuses st (u32 (cardAddress cardType n))) (hidle : st.idle = false)
    (hm : Matches cardType c) (hn : n < c.limit) : c.mayRefuse n := by
  rcases h with hw | hi | hnone
  · exact .inl hw
  · rw [hidle] at hi
    cases hi
  · rw [sectorAt_cardAddress hm hn] at hnone
    split at hnone
    · cases hnone
    · exact .inr (Nat.le_of_not_lt ‹_›)

theorem sectorAt_eq (h : c.sectorAt (u32 (cardAddress cardType n)) = some m) (hm : Matches cardType c)
    (hn : n < c.limit) : m = n := by
  rw [sectorAt_cardAddress hm hn] at h
  split at h
  · exact (Option.some.inj h).symm
  · cases h

theorem block_eq {b : Sector} (hlen : data.length = 512) (h : ∀ i, i < 512 → b i = data.getD i 0) :
    block b 0 = data := by
  refine List.ext_getElem (by rw [block_length, hlen]) fun i hi hi' => ?_
  simp only [block, List.getElem_map, List.getElem_range, Nat.mul_zero, Nat.zero_add]
  rw [h i (hlen ▸ hi'), List.getD_eq_getElem _ _ hi']

theorem block_memcpy (hlen : data.length = 512) (d : Nat → UInt8) : block (memcpy 0 data d) 0 = data := by
  refine block_eq hlen fun i hi => ?_
  rw [memcpy_getD, if_pos ⟨Nat.zero_le i, by rwa [Nat.zero_add, hlen]⟩, Nat.sub_zero]

theorem blocks_put (st : Store) (n : Nat) (hlen : data.length = 512) :
    SpiCard.blocks (st.put n data) = Function.update (SpiCard.blocks st) n data := by
  funext m
  rw [SpiCard.blocks, Store.put]
  dsimp only
  by_cases hm : m = n
  · rw [hm, Function.update_self, Function.update_self, block_eq hlen fun _ _ => rfl]
  · rw [Function.update_of_ne hm, Function.update_of_ne hm, SpiCard.blocks]

-- ---------------------------------------------------------------------------
-- One access
-- ---------------------------------------------------------------------------

def ReadGives (sound : Bool) (refuses : Prop) (data : List UInt8) (o : Option (List UInt8)) : Prop :=
  o = some data ∨ (refuses ∧ o = none) ∨ sound = false ∧ ∃ bs, o = some bs

def WriteGives (sound : Bool) (refuses : Prop) (mem : Nat → List UInt8) (n : Nat) (data : List UInt8) (b : Bool)
    (mem' : Nat → List UInt8) : Prop :=
  (b = true ∧ mem' = Function.update mem n data) ∨ (refuses ∧ b = false ∧ mem' = mem) ∨
    sound = false ∧ b = true ∧ mem' = mem

theorem ReadFrom.gives (h : ReadFrom c st (u32 (cardAddress cardType n)) r d d') (hidle : st.idle = false)
    (hm : Matches cardType c) (hn : n < c.limit) :
    ReadGives c.sound (c.mayRefuse n) (SpiCard.blocks st n) (if r = 1 then some (block d' 0) else none) := by
  rcases h with ⟨hr, rfl, -⟩ | ⟨rfl, m, hsector, hcame⟩
  · exact .inr (.inl ⟨hr.mayRefuse hidle hm hn, rfl⟩)
  · rw [if_pos rfl]
    rw [sectorAt_eq hsector hm hn] at hcame
    rcases hcame with rfl | ⟨hs, token, rfl⟩
    · exact .inl (congrArg some (block_memcpy (block_length _ 0) _))
    · exact .inr (.inr ⟨hs, _, rfl⟩)

theorem WrittenTo.gives (h : WrittenTo c st (u32 (cardAddress cardType n)) data r st') (hidle : st.idle = false)
    (hm : Matches cardType c) (hn : n < c.limit) (hlen : data.length = 512) :
    WriteGives c.sound (c.mayRefuse n) (SpiCard.blocks st) n data (decide (r = 1)) (SpiCard.blocks st') := by
  rcases h with ⟨hr, rfl, rfl⟩ | ⟨rfl, m, hsector, hwent⟩
  · exact .inr (.inl ⟨hr.mayRefuse hidle hm hn, rfl, rfl⟩)
  · rw [sectorAt_eq hsector hm hn] at hwent
    rcases hwent with rfl | ⟨hs, rfl⟩
    · exact .inl ⟨rfl, blocks_put st n hlen⟩
    · exact .inr (.inr ⟨hs, rfl, rfl⟩)

theorem WrittenTo.idle (h : WrittenTo c st address data r st') : st'.idle = st.idle := by
  rcases h with ⟨-, -, rfl⟩ | ⟨-, n, -, rfl | ⟨-, rfl⟩⟩ <;> rfl

theorem Between.meets {α : Type} {m : SpiM α} {Q : α → Kept → SpiCard.State → Prop}
    (h : ∀ v st, Meets c.link (Sees v (Rests st)) m fun a v' k => Matches v.cardType c → st.idle = false →
      SpiCard.blocks st = mem → Q a v' k) :
    Meets c.link (Between c mem) m Q := by
  have hx : ∀ x : Kept × Store, Meets c.link
      (fun v' k => (Matches x.1.cardType c ∧ x.2.idle = false ∧ SpiCard.blocks x.2 = mem) ∧
        Sees x.1 (Rests x.2) v' k) m Q :=
    fun x => .mono (.keep (h x.1 x.2)) (fun _ _ h => h) fun _ _ _ h => h.2 h.1.1 h.1.2.1 h.1.2.2
  refine .mono (.of_exists hx) (fun v k hk => ?_) fun _ _ _ h => h
  exact ⟨(v, k.store), ⟨hk.known, hk.awake, hk.blocks⟩, rfl, hk.rests⟩

theorem readBlock_meets (hn : n < c.limit) : Meets c.link (Between c mem) (readBlock n) fun o v k =>
    ReadGives c.sound (c.mayRefuse n) (mem n) o ∧ Between c mem v k := by
  refine Between.meets fun v st => .bind (readSector_meets n) fun r => ?_
  refine .gets (p := Driver.dest) (g := fun d => pure (if r = 1 then some (block d 0) else none)) Kept.dest
    (fun _ => rfl)
    fun v0 => .pure _ ?_
  rintro v' k ⟨rfl, d, hread, rfl, hk⟩ hm hidle rfl
  exact ⟨hread.gives hidle hm hn, hm, hk.1.symm ▸ hk, by rw [hk.1]; exact hidle, by rw [hk.1]; rfl⟩

theorem writeBlock_meets (buf : Sector) (hn : n < c.limit) :
    Meets c.link (Between c mem) (writeBlock n buf) fun b v k =>
      ∃ mem', WriteGives c.sound (c.mayRefuse n) mem n (block buf 0) b mem' ∧ Between c mem' v k := by
  refine Between.meets fun v st => .bind (writeSector_meets n buf) fun r => .pure _ ?_
  rintro v' k ⟨hwrite, rfl, hk⟩ hm hidle rfl
  exact ⟨_, hwrite.gives hidle hm hn (block_length buf 0), hm, hk, hwrite.idle.trans hidle, rfl⟩

-- ---------------------------------------------------------------------------
-- Programs
-- ---------------------------------------------------------------------------

theorem ReadGives.run {go : Option (List UInt8) → Client α} (h : ReadGives sound (refuses n) (mem n) o)
    (hgo : DeviceRun sound refuses (go o) mem a mem') : DeviceRun sound refuses (.read n go) mem a mem' := by
  rcases h with rfl | ⟨hr, rfl⟩ | ⟨hs, bs, rfl⟩
  · exact .read hgo
  · exact .noRead hr hgo
  · exact .badRead hs hgo

theorem WriteGives.run {go : Bool → Client α} (h : WriteGives sound (refuses n) mem n (block buf 0) b mem')
    (hgo : DeviceRun sound refuses (go b) mem' a mem'') :
    DeviceRun sound refuses (.write n buf go) mem a mem'' := by
  rcases h with ⟨rfl, rfl⟩ | ⟨hr, rfl, rfl⟩ | ⟨hs, rfl, rfl⟩
  · exact .write hgo
  · exact .noWrite hr hgo
  · exact .badWrite hs hgo

theorem client_meets {α : Type} (client : Client α) (hin : client.Within c.limit) :
    Meets c.link (Between c mem) (client.run readBlock writeBlock) fun a v k =>
      DeviceRun c.sound c.mayRefuse client mem a (SpiCard.blocks k.store) ∧
        Between c (SpiCard.blocks k.store) v k := by
  induction client generalizing mem with
  | done a => exact .pure a fun v k hk => ⟨hk.blocks ▸ .done, hk.known, hk.rests, hk.awake, rfl⟩
  | read n go ih =>
    refine .bind (readBlock_meets hin.1) fun o => ?_
    exact .mono (.keep (ih o (hin.2 o))) (fun _ _ h => h) fun _ _ _ h => ⟨h.1.run h.2.1, h.2.2⟩
  | write n buf go ih =>
    refine .bind (writeBlock_meets buf hin.1) fun b => .of_exists fun mem' => ?_
    exact .mono (.keep (ih b (hin.2 b))) (fun _ _ h => h) fun _ _ _ h => ⟨h.1.run h.2.1, h.2.2⟩

-- ---------------------------------------------------------------------------
-- An array of blocks
-- ---------------------------------------------------------------------------

def arrayRead (n : Nat) : StateM (Nat → List UInt8) (Option (List UInt8)) := do
  return some ((← get) n)

def arrayWrite (n : Nat) (buf : Sector) : StateM (Nat → List UInt8) Bool := do
  modify fun mem => Function.update mem n (block buf 0)
  return true

theorem DeviceRun.onArray {client : Client α} (h : DeviceRun true refuses client mem a mem')
    (hin : client.Within limit) (hr : ∀ n < limit, ¬ refuses n) :
    (client.run arrayRead arrayWrite).run mem = (a, mem') := by
  induction h with
  | done => rfl
  | read _ ih => exact ih (hin.2 _)
  | noRead hn => exact absurd hn (hr _ hin.1)
  | badRead hs => cases hs
  | write _ ih => exact ih (hin.2 _)
  | noWrite hn => exact absurd hn (hr _ hin.1)
  | badWrite hs => cases hs

-- ---------------------------------------------------------------------------
-- The card of the file system
-- ---------------------------------------------------------------------------

def cardRead (n : Nat) : FatM (Option (List UInt8)) := do
  return (← Stm32Logger.sdDrvReadSector n).map fun b => block b 0

def cardWrite (n : Nat) (buf : Sector) : FatM Bool := Stm32Logger.sdDrvWriteSector n buf

theorem DeviceRun.onCard {client : Client α} (h : DeviceRun true refuses client mem a mem') (s : FatState)
    (hmem : ∀ n, block (s.card.image n) 0 = mem n) :
    ∃ readFaults writeFaults u, client.run cardRead cardWrite
        { s with card := { s.card with readFaults, writeFaults } } = .ok a u ∧
      ∀ n, block (u.card.image n) 0 = mem' n := by
  induction h generalizing s with
  | done => exact ⟨[], [], _, rfl, hmem⟩
  | read h ih =>
    obtain ⟨rs, ws, u, hu, hmem'⟩ := ih s hmem
    refine ⟨false :: rs, ws, u, ?_, hmem'⟩
    rw [← hmem] at hu
    exact hu
  | noRead hr h ih =>
    obtain ⟨rs, ws, u, hu, hmem'⟩ := ih s hmem
    exact ⟨true :: rs, ws, u, hu, hmem'⟩
  | badRead hs => cases hs
  | @write _ go mem n buf a mem' h ih =>
    have hput :
        ∀ m, block (Function.update s.card.image n buf m) 0 = Function.update mem n (block buf 0) m := by
      intro m
      by_cases hm : m = n
      · rw [hm, Function.update_self, Function.update_self]
      · rw [Function.update_of_ne hm, Function.update_of_ne hm, hmem]
    obtain ⟨rs, ws, u, hu, hmem'⟩ := ih { s with card := { s.card with
      image := Function.update s.card.image n buf, writes := s.card.writes ++ [(n, buf)] } } hput
    exact ⟨rs, false :: ws, u, hu, hmem'⟩
  | noWrite hr h ih =>
    obtain ⟨rs, ws, u, hu, hmem'⟩ := ih s hmem
    exact ⟨rs, true :: ws, u, hu, hmem'⟩
  | badWrite hs => cases hs

end Stm32Logger.Sd
