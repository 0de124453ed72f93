import Mathlib.Data.Nat.Bitwise
import Stm32Logger.Dialogue
import Stm32Logger.Sd.Decode
import Stm32Logger.Sd.Transfer

/-!
# The card's side

A card on the SPI bus, as a transition system whose labels are the driver's
events. It covers the commands of the detection and of transfers of one
sector. What the protocol leaves to the card is left open here: how long it
is busy, how long it takes to answer and to find a block, whether it refuses
a command, and what it puts on the line where nobody looks.
-/

namespace Stm32Logger.Sd

inductive CardKind where
  | mmc
  | sdV1
  | sdV2
  | sdhc
  deriving DecidableEq

/-- The card in the slot. A `sound` one carries out every transfer whose command it has taken, a `willing` one
takes the command of every transfer that it has the sector for. -/
structure SpiCard where
  kind : CardKind
  sectors : Nat
  sound : Bool
  willing : Bool

/-- What a card keeps. `app`: the last command was CMD55. `warmUp`: how often it will still answer that it
is not ready. -/
structure Store where
  mem : Nat → Sector
  idle : Bool
  app : Bool
  warmUp : Nat
  deriving Inhabited

def Store.r1 (st : Store) : UInt8 := if st.idle then 1 else 0

def Store.noApp (st : Store) : Store := { st with app := false }

def Store.put (st : Store) (n : Nat) (bs : List UInt8) : Store :=
  { st with mem := Function.update st.mem n fun i => bs.getD i 0 }

inductive Phase where
  | busy
  | ready
  /-- Bytes of a frame heard. -/
  | frame (heard : List UInt8)
  | asked (heard : List UInt8)
  /-- The start token of the block is still to come, from the card. -/
  | reading (n : Nat)
  /-- Bytes still to be sent. -/
  | giving (b : UInt8) (bs : List UInt8)
  /-- The start token of the block is still to come, from the driver. -/
  | expecting (n : Nat)
  | taking (n : Nat) (bs : List UInt8)
  | taken (n : Nat) (bs : List UInt8)
  deriving DecidableEq

def Phase.after : List UInt8 → Phase
  | [] => .ready
  | b :: bs => .giving b bs

namespace SpiCard

/-- `low`: the chip select is. -/
structure State where
  phase : Phase
  store : Store
  low : Bool

def sectorAt (c : SpiCard) (arg : Nat) : Option Nat :=
  if c.kind = .sdhc then if arg < c.sectors then some arg else none
  else if arg % 512 = 0 ∧ arg / 512 < c.sectors then some (arg / 512) else none

def OpCond (c : SpiCard) (st : Store) (index : Nat) : Prop :=
  if c.kind = .mmc then index = 1 else index = 41 ∧ st.app = true

def Knows (c : SpiCard) (index : Nat) : Prop :=
  if index = 8 then c.kind = .sdV2 ∨ c.kind = .sdhc else c.kind ≠ .mmc

def Refuses (c : SpiCard) (st : Store) (arg : Nat) : Prop :=
  c.willing = false ∨ st.idle = true ∨ c.sectorAt arg = none

/-- How the card may answer a command: the first byte, and what comes of it. -/
inductive Answers (c : SpiCard) (st : Store) : (index arg : Nat) → UInt8 → Phase → Store → Prop where
  | goIdle : Answers c st 0 arg 1 .ready { st with idle := true, app := false, warmUp }
  | ifCond (h : c.Knows 8) :
      Answers c st 8 arg st.r1 (.after [0, 0, UInt8.ofNat (arg / 256 % 16), UInt8.ofNat arg]) st.noApp
  | app (h : c.Knows 55) : Answers c st 55 arg st.r1 .ready { st with app := true }
  | working (h : c.OpCond st index) (hidle : st.idle = true) (hw : st.warmUp = w + 1) :
      Answers c st index arg 1 .ready { st with app := false, warmUp := w }
  | awake (h : c.OpCond st index) (hw : st.warmUp = 0) (hhcs : c.kind = .sdhc → arg.testBit 30 = true) :
      Answers c st index arg 0 .ready { st with idle := false, app := false }
  | ocr (hccs : st.idle = false → (ccs &&& 0x40 ≠ 0 ↔ c.kind = .sdhc)) :
      Answers c st 58 arg st.r1 (.after [ccs, o2, o1, o0]) st.noApp
  | blockLength (hidle : st.idle = false) : Answers c st 16 512 0 .ready st.noApp
  | read (hidle : st.idle = false) (hn : c.sectorAt arg = some n) : Answers c st 17 arg 0 (.reading n) st.noApp
  | write (hidle : st.idle = false) (hn : c.sectorAt arg = some n) :
      Answers c st 24 arg 0 (.expecting n) st.noApp
  | refused (hi : index = 17 ∨ index = 24) (h : c.Refuses st arg) (hret : ret ≠ 0)
      (hret' : noAnswer ret = false) :
      Answers c st index arg ret .ready st.noApp
  | illegal (hi : index = 8 ∨ index = 41 ∨ index = 55) (h : ¬ c.Knows index) (hret : ret &&& 0x84 = 0x04) :
      Answers c st index arg ret .ready st.noApp

/-- What the selected card does during a byte. -/
inductive Reacts (c : SpiCard) : Phase → Store → (sent got : UInt8) → Phase → Store → Prop where
  | busy : Reacts c .busy st sent 0 .busy st
  | done (h : got ≠ 0) : Reacts c .busy st sent got .ready st
  | listen (h : sent / 64 ≠ 1) : Reacts c .ready st sent 0xFF .ready st
  | start (h : sent / 64 = 1) : Reacts c .ready st sent got (.frame [sent]) st
  | frame (h : heard.length < 5) : Reacts c (.frame heard) st sent got (.frame (heard ++ [sent])) st
  | asked (h : heard.length = 5) : Reacts c (.frame heard) st sent got (.asked (heard ++ [sent])) st
  | noAnswer (h : noAnswer got = true) : Reacts c (.asked heard) st sent got (.asked heard) st
  | answer (h : c.Answers st ((heard.headD 0).toNat % 64) (frameArg heard.tail) got ph st') :
      Reacts c (.asked heard) st sent got ph st'
  | noToken : Reacts c (.reading n) st sent 0xFF (.reading n) st
  | token : Reacts c (.reading n) st sent TOKEN_SINGLE_READ (.after (block (st.mem n) 0 ++ [crc1, crc0])) st
  | errorToken (hs : c.sound = false) (hff : got ≠ 0xFF) (hfe : got ≠ TOKEN_SINGLE_READ) :
      Reacts c (.reading n) st sent got .ready st
  | give : Reacts c (.giving b bs) st sent b (.after bs) st
  | noData (h : sent = 0xFF) : Reacts c (.expecting n) st sent got (.expecting n) st
  | data (h : sent = TOKEN_SINGLE_WRITE) : Reacts c (.expecting n) st sent got (.taking n []) st
  | take (h : bs.length < 513) : Reacts c (.taking n bs) st sent got (.taking n (bs ++ [sent])) st
  | taken (h : bs.length = 513) : Reacts c (.taking n bs) st sent got (.taken n (bs.take 512)) st
  | accept (h : Accepted got) : Reacts c (.taken n bs) st sent got .busy (st.put n bs)
  | reject (hs : c.sound = false) (h : Rejected got) : Reacts c (.taken n bs) st sent got .busy st

inductive Step (c : SpiCard) : State → Event → State → Prop where
  | select : Step c ⟨ph, st, low⟩ .select ⟨ph, st, true⟩
  | release : Step c ⟨ph, st, low⟩ .release ⟨if ph = .busy then .busy else .ready, st, false⟩
  | byte (h : c.Reacts ph st sent got ph' st') : Step c ⟨ph, st, true⟩ (.byte sent got) ⟨ph', st', true⟩
  | apart : Step c ⟨ph, st, false⟩ (.byte sent got) ⟨ph, st, false⟩
  | done : Step c ⟨.busy, st, false⟩ (.byte sent got) ⟨.ready, st, false⟩

end SpiCard

end Stm32Logger.Sd
