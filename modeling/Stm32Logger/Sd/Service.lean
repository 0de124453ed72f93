import Stm32Logger.Sd.Start

/-!
# The card in service

The firmware initialises the card, whatever comes of that, and then reads and
writes its sectors. Whatever the card does that a card may do, this is a
program on a block device, and it is never left waiting for good.
-/

namespace Stm32Logger.Sd

open Dialogue

def service (client : Client α) : SpiM α := do
  let _ ← sdDrvInit
  client.run readBlock writeBlock

variable {c : SpiCard} {s t : Driver} {k k' : SpiCard.State} {es : List Event}

theorem cardType_matches (c : SpiCard) : Matches c.kind.cardType c := by
  rw [Matches]
  cases c.kind <;> decide

/-- However long it takes, the initialisation of a card succeeds, finds out what kind of card it is and
how it is addressed, and leaves its memory alone. -/
theorem card_identified (hk : Rests k.store k) (hrun : sdDrvInit s = .ok r t) (htrace : t.trace = s.trace ++ es)
    (hcard : Steps c.Step k es k') :
    r = 1 ∧ t.cardType = c.kind.cardType ∧ t.sdStatus = 1 ∧ t.sdType = c.kind.sdType ∧ t.dest = s.dest ∧
      k'.store.mem = k.store.mem ∧ k'.store.idle = false ∧ Rests k'.store k' := by
  have hmeets : Meets c.link (Sees s.kept (Rests k.store)) sdDrvInit fun r v k' =>
      r = 1 ∧ Sees (s.kept.found c.kind) (Awake k.store.mem) v k' := init_meets
  obtain ⟨rest, es', ht, hret, hpost⟩ := hmeets.safe s s.rx r t hrun
  rw [List.append_cancel_left (hret.record.symm.trans htrace)] at hpost
  obtain ⟨hr, hkept, hawake⟩ := hpost k k' ⟨rfl, hk⟩ hcard
  have hfound : t.kept = s.kept.found c.kind := hkept
  exact ⟨hr, congrArg Kept.cardType hfound, congrArg Kept.sdStatus hfound, congrArg Kept.sdType hfound,
    congrArg Kept.dest hfound, hawake.mem, hawake.idle, hawake.rests⟩

def freshCard : SpiCard.State := ⟨.ready, ⟨fun _ _ => 0, false, false, 0⟩, false⟩

theorem freshCard_rests : Rests freshCard.store freshCard := ⟨rfl, .inr rfl⟩

/-- There is a conversation in which a card that counts blocks is identified. -/
theorem card_identified_sdhc : ∃ input t es k', sdDrvInit { rx := input } = .ok 1 t ∧ t.trace = es ∧
    Steps (SpiCard.Step ⟨.sdhc, 64, true, true⟩) freshCard es k' ∧ t.cardType = CT_SD2 ||| CT_BLOCK := by
  obtain ⟨input, es, r, t, k', hret, hsteps, rfl, -⟩ := (init_meets (c := ⟨.sdhc, 64, true, true⟩)
    (v := Driver.kept { rx := [] })).served { rx := [] } freshCard ⟨rfl, freshCard_rests⟩
  have hrun := hret.run []
  rw [List.append_nil, List.append_nil] at hrun
  exact ⟨input, { t with rx := [] }, es, k', hrun, hret.record, hsteps,
    (card_identified freshCard_rests hrun hret.record hsteps).2.1⟩

theorem service_meets (client : Client α) (hin : client.Within c.limit) (v : Kept) (st : Store) :
    Meets c.link (Sees v (Rests st)) (service client) fun a v k =>
      DeviceRun c.sound c.mayRefuse client (SpiCard.blocks st) a (SpiCard.blocks k.store) ∧
        Between c (SpiCard.blocks k.store) v k := by
  refine .bind init_meets fun r => .mono (client_meets client hin) ?_ fun _ _ _ h => h
  rintro v' k ⟨-, rfl, hk⟩
  exact ⟨cardType_matches c, hk.rests, hk.idle, by funext n; rw [SpiCard.blocks, SpiCard.blocks, hk.mem]⟩

/-- The programs run on a block device: every access is one to the sector it is meant for, and only a card that
is not willing refuses one to a sector that it has. A sound card is the one that the file system is modelled
on; if it is also willing, it is an array of blocks. -/
theorem serves_blocks {client : Client α} (hin : client.Within c.limit) (hk : Rests k.store k)
    (hrun : service client s = .ok a t) (htrace : t.trace = s.trace ++ es) (hcard : Steps c.Step k es k') :
    DeviceRun c.sound c.mayRefuse client (SpiCard.blocks k.store) a (SpiCard.blocks k'.store) ∧
      (c.sound = true → ∀ fs : FatState, (∀ n, block (fs.card.image n) 0 = SpiCard.blocks k.store n) →
        ∃ readFaults writeFaults u,
          client.run cardRead cardWrite { fs with card := { fs.card with readFaults, writeFaults } } = .ok a u ∧
            ∀ n, block (u.card.image n) 0 = SpiCard.blocks k'.store n) ∧
      (c.sound = true → c.willing = true → client.Within c.sectors →
        (client.run arrayRead arrayWrite).run (SpiCard.blocks k.store) = (a, SpiCard.blocks k'.store)) := by
  obtain ⟨rest, es', ht, hret, hpost⟩ := (service_meets client hin s.kept k.store).safe s s.rx a t hrun
  rw [List.append_cancel_left (hret.record.symm.trans htrace)] at hpost
  have hdevice := (hpost k k' ⟨rfl, hk⟩ hcard).1
  refine ⟨hdevice, fun hsound fs hfs => ?_, fun hsound hwilling hwithin => ?_⟩
  · rw [hsound] at hdevice
    exact hdevice.onCard fs hfs
  · rw [hsound] at hdevice
    refine hdevice.onArray hwithin fun n hn hr => ?_
    rcases hr with hw | hle
    · rw [hwilling] at hw
      cases hw
    · exact absurd hn (Nat.not_lt.mpr hle)

theorem block_const (b : UInt8) : block (fun _ => b) 0 = List.replicate 512 b := by
  rw [block, List.map_const', List.length_range]

def writeThenRead : Client (Option (List UInt8)) := .write 5 (fun _ => 7) fun _ => .read 5 .done

theorem writeThenRead_within (h : 5 < limit) : writeThenRead.Within limit := ⟨h, fun _ => ⟨h, fun _ => trivial⟩⟩

/-- There is a conversation with a card that counts bytes, in which what was written is read. -/
theorem serves_blocks_bytes : ∃ input t k', service writeThenRead { rx := input } =
    .ok (some (List.replicate 512 7)) t ∧ Steps (SpiCard.Step ⟨.sdV1, 64, true, true⟩) freshCard t.trace k' ∧
      SpiCard.blocks k'.store 5 = List.replicate 512 7 := by
  have hin : writeThenRead.Within (SpiCard.limit ⟨.sdV1, 64, true, true⟩) := writeThenRead_within (by decide)
  obtain ⟨input, es, a, t, k', hret, hsteps, -⟩ := (service_meets writeThenRead hin (Driver.kept { rx := [] })
    freshCard.store).served { rx := [] } freshCard ⟨rfl, freshCard_rests⟩
  have hrun := hret.run []
  rw [List.append_nil, List.append_nil] at hrun
  have htrace : t.trace = es := hret.record
  have harray :=
    (serves_blocks hin freshCard_rests hrun htrace hsteps).2.2 rfl rfl (writeThenRead_within (by decide))
  have hresult : (a, SpiCard.blocks k'.store) = (some (List.replicate 512 7),
      Function.update (SpiCard.blocks freshCard.store) 5 (List.replicate 512 7)) := by
    rw [← harray, ← block_const]
    rfl
  obtain ⟨rfl, hmem⟩ := Prod.mk.inj hresult
  refine ⟨input, { t with rx := [] }, k', hrun, ?_, ?_⟩
  · rw [← htrace] at hsteps
    exact hsteps
  · rw [hmem, Function.update_self]

/-- Wherever the driver waits for a byte, the card can go on so that the whole program returns. -/
theorem never_stuck {client : Client α} (hin : client.Within c.limit) (hk : Rests k.store k)
    (hrun : service client s = .error x t) (htrace : t.trace = s.trace ++ es) (hcard : Steps c.Step k es k') :
    ∃ more a u es' k'', service client { s with rx := s.rx ++ more } = .ok a u ∧ u.rx = [] ∧
      u.trace = t.trace ++ es' ∧ Steps c.Step k' es' k'' ∧
        DeviceRun c.sound c.mayRefuse client (SpiCard.blocks k.store) a (SpiCard.blocks k''.store) := by
  obtain ⟨es1, hrec, hgo⟩ := (service_meets client hin s.kept k.store).live s s.rx x t hrun
  rw [List.append_cancel_left (hrec.symm.trans htrace)] at hgo
  obtain ⟨more, es', a, u, k'', hret, hsteps, hdevice, -⟩ := hgo k k' ⟨rfl, hk⟩ hcard
  have hreturns := hret.run []
  rw [List.append_nil, List.append_nil] at hreturns
  refine ⟨more, a, { u with rx := [] }, es', k'', hreturns, rfl, ?_, hsteps, hdevice⟩
  rw [htrace, List.append_assoc]
  exact hret.record

def askForSector (n : Nat) : SpiM UInt8 := do
  let _ ← sdDrvInit
  sdSPISelect
  sdDrvCommand SD_CMD17 (cardAddress (← get).cardType n)

def takeSector (go : Option (List UInt8) → Client α) (ret : UInt8) : SpiM α := do
  let status ← (if ret = 0 then sdDrvGetBlock 0 512 >>= fun _ => pure 1 else pure 0)
  sdSPIRelease
  let s ← get
  (go (if status = 1 then some (block s.dest 0) else none)).run readBlock writeBlock

theorem service_read (n : Nat) (go : Option (List UInt8) → Client α) :
    service (.read n go) = askForSector n >>= takeSector go := by
  simp only [service, askForSector, Client.run, readBlock, sdDrvReadSector, readSingle, if_pos,
    bind_assoc, pure_bind]
  rfl

theorem askForSector_meets (hw : c.willing = true) (hn : n < c.limit) (hn' : n < c.sectors) :
    Meets c.link (Sees v (Rests st)) (askForSector n) fun ret _ k => ret = 0 ∧ k.phase = .reading n := by
  refine .bind init_meets fun r => ?_
  refine .mono (P := Sees (v.found c.kind) (Awake st.mem)) ?_ (fun _ _ h => h.2) fun _ _ _ h => h
  refine awake_meets fun st' _ hidle => .bind select_meets fun _ => ?_
  refine .gets (p := Driver.cardType) (g := fun ct => sdDrvCommand SD_CMD17 (cardAddress ct n)) Kept.cardType
    (fun _ => rfl) fun v0 => ?_
  refine .mono (P := fun v' k => v0 = v.found c.kind ∧ Sees v0 (Rests st') v' k)
    (.keep (command_meets SD_CMD17 (by decide) _ (read_can c st' _)))
    (fun v' k hk => ⟨hk.1.symm.trans hk.2.1, hk.1, hk.2.2.rests⟩) ?_
  rintro ret v' k ⟨rfl, -, hans⟩
  have hm : Matches (v.found c.kind).cardType c := cardType_matches c
  have hread := hans.read
  by_cases hret : ret = 0
  · rw [if_pos hret] at hread
    obtain ⟨m, hm', hk⟩ := hread
    rw [sectorAt_eq hm' hm hn] at hk
    exact ⟨hret, congrArg SpiCard.State.phase hk⟩
  · rw [if_neg hret] at hread
    rcases hread.1.mayRefuse hidle hm hn with h | h
    · rw [hw] at h
      cases h
    · exact absurd hn' (Nat.not_lt.mpr h)

/-- Once the card has taken the command of a read, and the driver waits for the block. -/
theorem never_stuck_reading : ∃ input t k', service (.read 5 .done) { rx := input } = .error .waiting t ∧
    Steps (SpiCard.Step ⟨.mmc, 64, true, true⟩) freshCard t.trace k' ∧ k'.phase = .reading 5 ∧
      ∃ more u es k'', service (.read 5 .done) { rx := input ++ more } = .ok (some (List.replicate 512 0)) u ∧
        u.trace = t.trace ++ es ∧ Steps (SpiCard.Step ⟨.mmc, 64, true, true⟩) k' es k'' := by
  obtain ⟨input, es, ret, t, k', hret, hsteps, rfl, hphase⟩ := (askForSector_meets (c := ⟨.mmc, 64, true, true⟩)
    (v := Driver.kept { rx := [] }) (n := 5) rfl (by decide) (by decide)).served { rx := [] } freshCard
    ⟨rfl, freshCard_rests⟩
  have hask : askForSector 5 { rx := input ++ [] } = .ok 0 { t with rx := [] } := hret.run []
  rw [List.append_nil] at hask
  have hwait : service (.read 5 .done) { rx := input } = .error .waiting { t with rx := [] } := by
    rw [service_read, bind_ok hask]
    rfl
  have hin : Client.Within (SpiCard.limit ⟨.mmc, 64, true, true⟩) (.read 5 .done) :=
    ⟨by decide, fun _ => trivial⟩
  have htrace : t.trace = es := hret.record
  obtain ⟨more, a, u, es', k'', hrun, -, hmore, hgo, hdevice⟩ :=
    never_stuck hin freshCard_rests hwait htrace hsteps
  have hwilling (n : ℕ) (hn : n < 64) : ¬ SpiCard.mayRefuse ⟨.mmc, 64, true, true⟩ n := by
    rintro (h | h)
    · cases h
    · exact absurd hn (Nat.not_lt.mpr h)
  have hwithin : Client.Within 64 (.read 5 .done) := ⟨by decide, fun _ => trivial⟩
  have harray := hdevice.onArray hwithin hwilling
  obtain ⟨rfl, -⟩ := Prod.mk.inj harray
  refine ⟨input, _, k', hwait, htrace ▸ hsteps, hphase, more, u, es', k'', ?_, hmore, hgo⟩
  have hzeros : SpiCard.blocks freshCard.store 5 = List.replicate 512 0 := block_const 0
  rw [← hzeros]
  exact hrun

end Stm32Logger.Sd
