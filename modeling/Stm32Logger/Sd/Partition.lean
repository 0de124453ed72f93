import Stm32Logger.Fat.Card
import Stm32Logger.Sd.Transfer

/-!
# Sectors of the partition

`mbr_read_sectors` and `mbr_write_sectors` add the first sector of the
partition to a sector of the volume, and the driver makes an address of the
sum. Both count in 32 bits, and neither looks at the end of the partition.
-/

namespace Stm32Logger.Sd

/-- `mbr_read_sectors`, down to the bus. -/
def mbrReadSectors (part : MbrPartition) (sector count : Nat) : SpiM Nat :=
  sdDrvReadSector (u32 (part.firstLba + sector)) count

/-- `mbr_write_sectors`, down to the bus. -/
def mbrWriteSectors (part : MbrPartition) (sector count : Nat) (buf : Nat → UInt8) : SpiM Nat :=
  sdDrvWriteSector (u32 (part.firstLba + sector)) count buf

/-- The address is the one of the sector on a card of the type, which counts blocks or bytes. -/
def Denotes (cardType : UInt8) (address sector : Nat) : Prop :=
  if cardType &&& CT_BLOCK = 0 then address = sector * 512 else address = sector

/-- The address in the first command of a transfer that has one. -/
def transferAddress : List Packet → Option Nat
  | [] => none
  | .command index address _ :: ps =>
    if index ∈ [17, 18, 24, 25] then some address else transferAddress ps
  | .data _ _ _ :: ps => transferAddress ps
  | .stop :: ps => transferAddress ps

/-- An access that failed, or whose address is that of the sector, which is one of the partition. -/
def AccessRight (part : MbrPartition) (cardType : UInt8) (sector k : Nat) (ps : List Packet) : Prop :=
  k ≠ 1 ∨ (∃ address, transferAddress ps = some address ∧ Denotes cardType address (part.firstLba + sector)) ∧
    part.firstLba + sector < part.firstLba + part.sectorCount

/-- Every read and every write of the sector is right, whatever the card answers. -/
structure Confined (part : MbrPartition) (cardType : UInt8) (sector : Nat) : Prop where
  read : ∀ s k t, s.cardType = cardType → mbrReadSectors part sector 1 s = .ok k t →
    ∃ ps, Transcript s t ps ∧ AccessRight part cardType sector k ps
  write : ∀ buf s k t, s.cardType = cardType → mbrWriteSectors part sector 1 buf s = .ok k t →
    ∃ ps, Transcript s t ps ∧ AccessRight part cardType sector k ps

variable {s t : Driver} {part : MbrPartition} {cardType : UInt8} {sector k address : Nat} {ps : List Packet}

theorem ReadTransfer.transferAddress_eq (h : ReadTransfer address 1 ps) :
    transferAddress ps = some address := by
  cases h with
  | refused => rfl
  | single => rfl
  | multi h => exact absurd rfl h

theorem EraseTransfer.skip (h : EraseTransfer cardType count ps) (ps' : List Packet) :
    transferAddress (ps ++ ps') = transferAddress ps' := by
  cases h with
  | none => rfl
  | refused => rfl
  | erase => rfl

theorem WriteTransfer.transferAddress_eq (h : WriteTransfer cardType address 1 buf ps) :
    transferAddress ps = some address := by
  cases h with
  | refused he => exact he.skip _
  | single => rfl
  | multi _ h => exact absurd rfl h

theorem mbrReadSectors_ok (h : mbrReadSectors part sector 1 s = .ok k t) :
    ∃ ps, Transcript s t ps ∧
      transferAddress ps = some (cardAddress s.cardType (u32 (part.firstLba + sector))) := by
  obtain ⟨t0, t1, hspoke0, -, hdid, hrel⟩ := sdDrvReadSector_ok h (Nat.mod_lt _ (by decide)) (Nat.le_refl 1)
  obtain ⟨ps, hspoke, htransfer⟩ := hdid.spoke
  have hwhole := (hspoke0.trans hspoke).trans hrel.spoke
  rw [List.nil_append, List.append_nil] at hwhole
  exact ⟨ps, hwhole.transcript, htransfer.transferAddress_eq⟩

theorem mbrWriteSectors_ok (h : mbrWriteSectors part sector 1 buf s = .ok k t) :
    ∃ ps, Transcript s t ps ∧
      transferAddress ps = some (cardAddress s.cardType (u32 (part.firstLba + sector))) := by
  obtain ⟨t0, t1, hspoke0, hdid, hrel⟩ :=
    sdDrvWriteSector_ok h (Nat.mod_lt _ (by decide)) (Nat.le_refl 1) (by decide)
  obtain ⟨ps, hspoke, htransfer⟩ := hdid.spoke
  have hwhole := (hspoke0.trans hspoke).trans hrel.spoke
  rw [List.nil_append, List.append_nil] at hwhole
  exact ⟨ps, hwhole.transcript, htransfer.transferAddress_eq⟩

def Addressable (cardType : UInt8) (sector : Nat) : Prop :=
  sector < 2 ^ 32 ∧ (cardType &&& CT_BLOCK = 0 → sector * 512 < 2 ^ 32)

theorem denotes_iff (cardType : UInt8) (sector : Nat) :
    Denotes cardType (cardAddress cardType (u32 sector)) sector ↔ Addressable cardType sector := by
  rw [Denotes, cardAddress, Addressable]
  by_cases hb : cardType &&& CT_BLOCK = 0
  · rw [if_pos hb, if_pos hb, u32, u32]
    constructor
    · intro h
      exact ⟨by omega, fun _ => by omega⟩
    · rintro ⟨h, h'⟩
      have := h' hb
      rw [Nat.mod_eq_of_lt h, Nat.mod_eq_of_lt this]
  · rw [if_neg hb, if_neg hb, u32]
    constructor
    · intro h
      exact ⟨by omega, fun h' => absurd h' hb⟩
    · rintro ⟨h, -⟩
      exact Nat.mod_eq_of_lt h

def blockBytes (data : List UInt8) : List UInt8 :=
  List.replicate 8 0xFF ++ 0x00 :: 0xFE :: (data ++ [0x00, 0x00, 0xFF])

theorem mbrReadSectors_run (part : MbrPartition) (cardType : UInt8) (sector : Nat) (h : data.length = 512) :
    ∃ t, mbrReadSectors part sector 1 { rx := blockBytes data, cardType } = .ok 1 t := by
  have haddr : cardAddress cardType (u32 (part.firstLba + sector)) < 2 ^ 32 :=
    cardAddress_lt cardType (Nat.mod_lt _ (by decide))
  let s : Driver := { rx := blockBytes data, cardType }
  have hready : (s.rx.dropWhile fun b => b = 0) =
      0xFF :: (List.replicate 7 0xFF ++ 0x00 :: 0xFE :: (data ++ [0x00, 0x00, 0xFF])) := rfl
  obtain ⟨t0, h0, hspoke, hrx0, -⟩ := sdSPISelect_run hready
  have hans : commandAnswered SD_CMD17 t0.rx = 0x00 :: 0xFE :: (data ++ [0x00, 0x00, 0xFF]) := by
    rw [hrx0]
    rfl
  obtain ⟨t1, ps, h1, -, -, hrx1, -⟩ := sdDrvCommand_run hans haddr
  have hstart : (t1.rx.dropWhile fun b => b = 0xFF) = 0xFE :: (data ++ [0x00, 0x00, 0xFF]) := by
    rw [hrx1]
    rfl
  obtain ⟨t2, h2, -, hrx2, -⟩ := poll_spoke hstart
  have hbuffer := sdSPIReadBuffer_run (s := { t2 with dest := memcpy 0 [0xFE] t2.dest }) _ hrx2 h
  obtain ⟨t3, h3, hrx3⟩ : ∃ t3, sdDrvGetBlock 0 512 t1 = .ok 0 t3 ∧ t3.rx = [0xFF] := by
    rw [sdDrvGetBlock, bind_ok h2, modify_bind, if_neg (by decide), bind_ok hbuffer, modify_bind,
      bind_ok (sdSPIreadwrite_run rfl), bind_ok (sdSPIreadwrite_run rfl), pure_run]
    exact ⟨_, rfl, rfl⟩
  have hsingle : readSingle (cardAddress cardType (u32 (part.firstLba + sector))) t0 = .ok 1 t3 := by
    rw [readSingle, bind_ok h1, if_pos rfl, bind_ok h3, pure_run]
  let t4 : Driver := { t3 with csHigh := true, trace := t3.trace ++ [Event.release] }
  have hrelease : sdSPIreadwrite 0xFF t4 = .ok 0xFF (t4.after [.byte 0xFF 0xFF] []) := sdSPIreadwrite_run hrx3
  refine ⟨t4.after [.byte 0xFF 0xFF] [], ?_⟩
  rw [mbrReadSectors, sdDrvReadSector, bind_ok h0, get_bind, hspoke.cardType, if_pos rfl, bind_ok hsingle,
    sdSPIRelease,
    bind_assoc, modify_bind, bind_assoc, bind_ok hrelease]
  rfl

theorem Confined.numbers (h : Confined part cardType sector) :
    Denotes cardType (cardAddress cardType (u32 (part.firstLba + sector))) (part.firstLba + sector) ∧
      sector < part.sectorCount := by
  obtain ⟨t, ht⟩ := mbrReadSectors_run part cardType sector (List.length_replicate (n := 512) (a := 0))
  obtain ⟨ps, ⟨es, htrace, -, hunique⟩, hright⟩ := h.read _ 1 t rfl ht
  obtain ⟨ps', ⟨es', htrace', hes', -⟩, haddr⟩ := mbrReadSectors_ok ht
  obtain rfl : es' = es := List.append_cancel_left (htrace'.symm.trans htrace)
  obtain rfl : ps' = ps := hunique ps' hes'
  obtain ⟨⟨address, hsome, hden⟩, hin⟩ := hright.resolve_left fun h => h rfl
  rw [haddr] at hsome
  cases hsome
  exact ⟨hden, by omega⟩

theorem confined_iff (part : MbrPartition) (cardType : UInt8) (sector : Nat) :
    Confined part cardType sector ↔
      sector < part.sectorCount ∧ Addressable cardType (part.firstLba + sector) := by
  constructor
  · intro h
    obtain ⟨hden, hin⟩ := h.numbers
    exact ⟨hin, (denotes_iff ..).mp hden⟩
  · rintro ⟨hin, haddr⟩
    have hden := (denotes_iff cardType (part.firstLba + sector)).mpr haddr
    constructor
    · rintro s k t rfl h
      obtain ⟨ps, htr, hps⟩ := mbrReadSectors_ok h
      exact ⟨ps, htr, .inr ⟨⟨_, hps, hden⟩, by omega⟩⟩
    · rintro buf s k t rfl h
      obtain ⟨ps, htr, hps⟩ := mbrWriteSectors_ok h
      exact ⟨ps, htr, .inr ⟨⟨_, hps, hden⟩, by omega⟩⟩

/-- The sector of a wild cluster: the sum wraps to sector 0, where the partition table is. -/
theorem partition_table_hit : ¬ Confined ⟨2048, 30000000, true⟩ (CT_SD2 ||| CT_BLOCK) (2 ^ 32 - 2048) := by
  intro h
  have haddr := ((denotes_iff ..).mp h.numbers.1).1
  exact absurd haddr (by decide)

end Stm32Logger.Sd
