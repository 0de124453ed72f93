import Stm32Logger.Fat.CardFull

/-!
# Faults of the card

Calls of `WriteToFile` during which the card refuses some of its writes. The
handle may run ahead of the directory entry, and the entry of the card, but the
bytes the entry has stay.
-/

namespace Stm32Logger

/-- A log whose slot has the first `n` of its bytes. -/
structure Lagging (s : FatState) (e : Slot) (cs : List Nat) (log : List UInt8) (n : Nat) : Prop
    extends LogStream s .file e cs log where
  coherent : s.Coherent
  entry : Entry s.disk e cs n
  le : n ≤ log.length
  below : log.length < 2 ^ 32

variable {s t : FatState} {e : Slot} {cs : List Nat} {log b : List UInt8}

theorem Lagging.reads (h : Lagging s e cs log n) : Reads s.vol e (log.take n) s.disk :=
  h.holds.readFile h.shape h.entry h.le

theorem Holds.reads_sync {v : FatVolHandle} (hv : v.Shape) (h : Holds v d cs log) (hp : SlotApart v d e cs)
    (h32 : log.length < 2 ^ 32) :
    Reads v e log (d.edit e.sector (syncDirent e.offset (cs.headD 0) log.length)) := by
  have hread := (h.sync (f := syncDirent e.offset (cs.headD 0) log.length) hv hp).readFile hv
    ⟨slotSize_sync h32, fun _ => slotCluster_sync (h.headD_lt hv)⟩ (Nat.le_refl _)
  rwa [List.take_length] at hread

theorem Lagging.grow (h : Lagging s e cs log n) :
    ∃ t n', growSize .file s = .ok ⟨⟩ t ∧ Lagging t e cs log n' ∧ n ≤ n' ∧ t.vol = s.vol ∧
      RanThen (Reads s.vol e (log.take n)) (Reads s.vol e (log.take n')) s t := by
  by_cases hlt : (s.handle .file).size < log.length
  · obtain ⟨t, hrun, hran, hvol, -, hst, hcase⟩ := h.toStream.grow (P := Reads s.vol e (log.take n))
      (Q := Reads s.vol e log) (h.coherent _) hlt h.below h.reads
      (h.holds.reads_sync h.shape h.place h.below)
    have hst : LogStream t .file e cs log := ⟨hst, hvol ▸ h.layout⟩
    rcases hcase with ⟨-, hentry, hco, -⟩ | ⟨-, hran', hdisk, hcache, hbuf⟩
    · refine ⟨t, log.length, hrun, ⟨hst, hco, hentry, Nat.le_refl _, h.below⟩, h.le, hvol, ?_⟩
      rwa [List.take_length]
    · refine ⟨t, n, hrun, ⟨hst, fun m hd hm => ?_, hdisk ▸ h.entry, h.le, h.below⟩,
        Nat.le_refl n, hvol, ⟨t, hran', .refl hran'.mounted⟩⟩
      rw [hbuf, hdisk]
      exact h.coherent m (hcache ▸ hd) (hcache ▸ hm)
  · refine ⟨s, n, growSize_skip ?_, h, Nat.le_refl n, rfl, ⟨s, .refl h.mounted, .refl h.mounted⟩⟩
    rw [h.stands.position]
    exact Nat.le_of_not_lt hlt

theorem take_prefix_take (log : List UInt8) (h : n ≤ m) : log.take n <+: log.take m :=
  (List.take_prefix_take_left h)

theorem Lagging.partly (h : Lagging s e cs log n) (hne : cs ≠ []) (hm : m ≤ b.length)
    (hin : log.length + b.length < cs.length * s.vol.clusterBytes) (h32 : log.length + b.length < 2 ^ 32)
    (hp : Partly P .file cs log.length m b s t) : Lagging t e cs (log ++ b.take m) n := by
  have hv := h.shape
  have hc := h.holds.chain hne
  have hlen : (log ++ b.take m).length = log.length + m := by
    rw [List.length_append, List.length_take, Nat.min_eq_left hm]
  have hhandle : t.handle .file = { s.handle .file with position := log.length + m } := by
    rw [hp.handle, Function.update_self, u32, Nat.mod_eq_of_lt (by omega)]
  have hslot : ∀ i < 32, slotBytes t.disk e i = slotBytes s.disk e i := fun i _ => by
    refine hp.area.rest _ _ h.place.fat ?_
    rintro ⟨k, hk⟩
    exact h.place.not_chainArea hv h.holds.isCluster hk
  have hholds : Holds s.vol t.disk cs (log ++ b.take m) := by
    refine ⟨fun _ => hc.congr fun c hm => fatEntry_congr hv hv.numFats (hc.cluster c hm).2 hp.fat, ?_, ?_, ?_,
      fun q hq => ?_⟩
    · have hlog : log ≠ [] := fun h0 => hne (h.holds.empty.mpr h0)
      exact ⟨fun h0 => absurd h0 hne, fun h0 => absurd (List.append_eq_nil_iff.mp h0).1 hlog⟩
    · rw [hlen]
      omega
    · have := h.holds.eager
      rw [hlen]
      omega
    · rw [hlen] at hq
      rw [hp.data q (div_lt_of_lt hv (by omega)), getD_append_bytes, List.length_take, Nat.min_eq_left hm]
      split
      next hq' =>
        have hlt : q - log.length < m := by omega
        rw [List.getD_eq_getElem?_getD, List.getD_eq_getElem?_getD, List.getElem?_take_of_lt hlt]
      next hq' => exact h.holds.data q (by omega)
  refine ⟨⟨⟨hp.mounted, hp.vol ▸ hv, hp.vol ▸ h.hint, hp.vol ▸ hholds, ?_, ?_, ?_, ?_, ?_,
    hp.vol ▸ h.place.congr hv hp.fat⟩, hp.vol ▸ h.layout⟩, hp.coherent, h.entry.congr hslot, ?_, ?_⟩
  · rw [hhandle]
    exact ⟨h.stands.fat, h.stands.root, hlen.symm, h.stands.first, h.stands.cluster⟩
  · rw [hhandle, hlen]
    exact Nat.le_trans h.size_le (Nat.le_add_right _ _)
  · rw [hhandle]
    exact h.sector
  · rw [hhandle]
    exact h.offset
  · rw [hhandle]
    exact h.flags
  · rw [hlen]
    exact Nat.le_trans h.le (Nat.le_add_right _ _)
  · omega

def Continues (e : Slot) (log : List UInt8) (n : Nat) (s t : FatState) : Prop :=
  ∃ cs' log' n', Lagging t e cs' log' n' ∧ log.take n <+: log'.take n' ∧ Rehinted s.vol t.vol ∧
    RanThen (Reads s.vol e (log.take n)) (Reads s.vol e (log'.take n')) s t

theorem Lagging.write_inside (h : Lagging s e cs log n) (hb : 0 < b.length) (hb' : b.length < 512)
    (h32 : log.length + b.length < 2 ^ 32) (hne : cs ≠ [])
    (hlt : log.length < cs.length * s.vol.clusterBytes)
    (hmod : log.length % s.vol.clusterBytes + b.length < s.vol.clusterBytes) :
    ∃ a t, fatWrite .file b s = .ok a t ∧ Continues e log n s t := by
  have hv := h.shape
  have hc := h.holds.chain hne
  have hon := h.holds.onChain h.stands h.below hlt
  have hin := h.holds.within hlt hmod
  have hidx : (log.length + b.length) / s.vol.clusterBytes = log.length / s.vol.clusterBytes := by
    have hdm := Nat.div_add_mod log.length s.vol.clusterBytes
    rw [Nat.mul_comm] at hdm
    refine Nat.div_eq_of_lt_le (by omega) ?_
    rw [Nat.succ_mul]
    omega
  have hcur : (s.handle .file).curCluster ≠ 0 := fun h0 => hne (h.curCluster.mp h0)
  have hfst := allocFirst_skip (s := s) (r := .file) (n := b.length) (.inl hcur)
  have hsec := hon.sectorOffset hv hc
  have hP : ∀ d, Agree s.vol (fun _ => False) (fun m i => ∃ n, ChainArea s.vol cs log.length n m i) s.disk d →
      Reads s.vol e (log.take n) d := fun d hd =>
    AheadArea.readFile hv h.hint h.holds h.place h.entry h.le
      (hd.mono (fun _ h => h.elim) fun _ _ h => .inl h)
  obtain ⟨u, m, hm, hp, hcase⟩ :=
    writeLoop_inside h.mounted hv hc hon hb hb' (h.layout.tests _) hidx h.coherent hP
  have hu := h.partly hne hm hin h32 hp
  have htake : log.take n = (log ++ b.take m).take n := by
    rw [List.take_append_of_le_length h.le]
  rcases hcase with ⟨hrun, hend⟩ | ⟨-, hrun⟩
  · obtain ⟨t, n', hgrow, ht, hn, hvol, w, hw, hw'⟩ := hu.grow
    rw [hp.vol] at hw hw'
    have hvol' := hvol.trans hp.vol
    refine ⟨_, t, fatWrite_of hfst h.stands.fat h.stands.root hsec hrun hgrow, cs, _, n', ht, ?_,
      hvol' ▸ .refl _, w, ?_, hw'⟩
    · rw [htake]
      exact take_prefix_take _ hn
    · exact hp.toRan.trans (htake ▸ hw)
  · refine ⟨_, u, fatWrite_fault hfst h.stands.fat h.stands.root hsec hrun, cs, _, n, hu, ?_,
      hp.vol ▸ .refl _, u, hp.toRan, .refl hp.mounted⟩
    rw [htake]

theorem Lagging.write_alloc (h : Lagging s e cs log n) (hq : s.Quiet)
    (hroom : Room s.vol s.disk cs log b) (hb : 0 < b.length) (hb' : b.length < 512)
    (h32 : log.length + b.length < 2 ^ 32) :
    ∃ a t, fatWrite .file b s = .ok a t ∧ Continues e log n s t := by
  have hv := h.shape
  have hlen : (log ++ b).length = log.length + b.length := List.length_append
  obtain ⟨t, cs', hrun, hw⟩ := logWrite_run (P := Reads s.vol e (log.take n))
    (Q := Reads s.vol e (log ++ b)) h.toStream h.coherent hq hroom hb hb' (h.layout.tests _) h32
    (fun d hd => AheadArea.readFile hv h.hint h.holds h.place h.entry h.le hd)
    fun d cs' hd => hd.holds.reads_sync hv (h.place.step h.hint hd.table hd.fresh) (by omega)
  refine ⟨_, t, hrun, cs', log ++ b, (log ++ b).length, ⟨⟨hw.opened.toStream, hw.vol.layout h.layout⟩,
    hw.opened.coherent, hw.opened.entry, Nat.le_refl _, by omega⟩, ?_, hw.vol, ?_⟩
  · rw [List.take_length]
    exact (List.take_prefix n log).trans (List.prefix_append log b)
  · rw [List.take_length]
    exact hw.ran

theorem Lagging.write_nil (h : Lagging s e cs log n) :
    ∃ a t, fatWrite .file [] s = .ok a t ∧ Continues e log n s t := by
  obtain ⟨t, n', hgrow, ht, hn, hvol, hran⟩ := h.grow
  exact ⟨_, t, fatWrite_of (allocFirst_skip (.inr rfl)) h.stands.fat h.stands.root rfl
    (writeLoop_done (Nat.le_refl 0)) hgrow, cs, log, n', ht, take_prefix_take _ hn, hvol ▸ .refl _, hran⟩

-- ---------------------------------------------------------------------------
-- Runs
-- ---------------------------------------------------------------------------

/-- A call of `WriteToFile` and which of the card's reads and writes fail during it. -/
structure FaultyCall where
  line : List UInt8
  reads : List Bool := []
  writes : List Bool := []

def SdStore.withFaults (s : SdStore) (readFaults writeFaults : List Bool) : SdStore :=
  { s with fs := { s.fs with card := { s.fs.card with readFaults, writeFaults } } }

def FaultyCall.run (c : FaultyCall) : StoreM Unit := do
  modify fun s => s.withFaults c.reads c.writes
  writeToFile c.line

/-- No read of the call fails, no write of it does if it comes to an
allocation, and the line fits. -/
def SdStore.Spared (s : SdStore) (c : FaultyCall) : Prop :=
  (∀ f ∈ c.reads, f = false) ∧ (s.Allocates c.line → ∀ f ∈ c.writes, f = false) ∧ s.Fits c.line

theorem Lagging.withFaults {s : SdStore} (h : Lagging s.fs e cs log n) (reads writes : List Bool)
    (hr : ∀ f ∈ reads, f = false) : Lagging (s.withFaults reads writes).fs e cs log n :=
  ⟨⟨⟨⟨h.mounted.ready, h.mounted.dev, h.mounted.label, h.mounted.bldev, hr⟩, h.shape, h.hint, h.holds,
    h.stands, h.size_le, h.sector, h.offset, h.flags, h.place⟩, h.layout⟩, h.coherent, h.entry, h.le, h.below⟩

theorem FaultyCall.run_of {c : FaultyCall} {s : SdStore}
    (h : fatWrite .file c.line (s.withFaults c.reads c.writes).fs = .ok a t) :
    c.run s = .ok ⟨⟩ { s with fs := t } := by
  rw [FaultyCall.run, modify_bind]
  exact writeToFile_of h

theorem Lagging.call {c : FaultyCall} {s : SdStore} (h : Lagging s.fs e cs log n)
    (hlen : c.line.length ≤ 255) (hok : s.Spared c) :
    ∃ t, c.run s = .ok ⟨⟩ t ∧ Continues e log n (s.withFaults c.reads c.writes).fs t.fs := by
  obtain ⟨hr, hal, hfits⟩ := hok
  have hs := h.withFaults c.reads c.writes hr
  have hgoal : ∃ a t, fatWrite .file c.line (s.withFaults c.reads c.writes).fs = .ok a t ∧
      Continues e log n (s.withFaults c.reads c.writes).fs t := by
    by_cases hb : c.line = []
    · rw [hb]
      exact hs.write_nil
    · have hpos := List.length_pos_of_ne_nil hb
      rcases hfits.cases h.toLogStream hb with hcs | ⟨hne, hin, henough, h32⟩
      · have hq := hal ⟨hb, .inl (h.curCluster.mpr hcs)⟩
        by_cases hf : freeCluster s.fs.vol s.fs.disk = 0
        · obtain ⟨t, hrun, hk, hco⟩ := fatWrite_noCluster (b := c.line) (P := Reads _ e (log.take n))
            hs.toLogStream hs.coherent hq hcs hb hf hs.reads
          exact ⟨_, t, hrun, cs, log, n, ⟨hs.toLogStream.kept hk, hco, hk.disk ▸ h.entry, h.le, h.below⟩,
            List.prefix_rfl, hk.vol ▸ .refl _, t, hk.toRan, .refl hk.mounted⟩
        · refine hs.write_alloc hq ⟨fun _ => hf, fun hne => absurd hcs hne, fun hne => absurd hcs hne⟩ hpos
            (by omega) ?_
          rw [h.holds.empty.mp hcs, List.length_nil]
          omega
      · by_cases ha : s.Allocates c.line
        · exact hs.write_alloc (hal ha) ⟨fun hnil => absurd hnil hne, fun _ => hin, fun _ => henough⟩ hpos
            (by omega) h32
        · refine hs.write_inside hpos (by omega) h32 hne hin ?_
          have hge := fun hge => ha ⟨hb, .inr hge⟩
          rw [h.stands.position] at hge
          exact Nat.lt_of_not_le hge
  obtain ⟨a, t, hrun, hc⟩ := hgoal
  exact ⟨{ s with fs := t }, FaultyCall.run_of hrun, hc⟩

theorem Lagging.runAll {s : SdStore} {v : FatVolHandle} (h : Lagging s.fs e cs log n)
    (hvol : Rehinted v s.fs.vol) (hb : s.fs.Behind v e (log.take n))
    (hlen : ∀ c ∈ calls, c.line.length ≤ 255) (hok : Along FaultyCall.run SdStore.Spared calls s) :
    ∃ t, runAll FaultyCall.run calls s = .ok ⟨⟩ t ∧ KeptOn v e s.fs t.fs := by
  induction calls generalizing s cs log n with
  | nil => exact ⟨s, rfl, .refl ..⟩
  | cons c calls ih =>
    obtain ⟨t, hrun, cs', log', n', ht, hp, hvol', hran⟩ := h.call (hlen c List.mem_cons_self) hok.1
    have hreads : ∀ l, Reads (s.withFaults c.reads c.writes).fs.vol e l = Reads v e l := fun l => by
      funext d
      rw [Reads, Reads, readFile_rehinted (s.withFaults c.reads c.writes).fs.vol hvol]
    rw [hreads, hreads] at hran
    obtain ⟨hk, hb'⟩ := hran.keptOn (s := (s.withFaults c.reads c.writes).fs) hb hp
    obtain ⟨u, hrun', hk'⟩ := ih ht (hvol.trans hvol') hb' (fun c' hc' => hlen c' (List.mem_cons_of_mem c hc'))
      (hok.2 t hrun)
    exact ⟨u, runAll_cons hrun hrun', KeptOn.trans (s := s.fs) hk hran.part hk'⟩

end Stm32Logger
