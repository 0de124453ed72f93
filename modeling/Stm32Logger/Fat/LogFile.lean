import Stm32Logger.Fat.Slot
import Stm32Logger.Fat.TableStep

/-!
# The log file

The bytes a chain holds, where the logger's handle stands after them, and what
one `fat_write` of a line does to both.
-/

namespace Stm32Logger

/-- The clusters `cs` hold the bytes `log`, and the last of them is begun or just taken. -/
structure Holds (v : FatVolHandle) (d : Disk) (cs : List Nat) (log : List UInt8) : Prop where
  chain : cs ≠ [] → ChainOk v d cs
  empty : cs = [] ↔ log = []
  fits : log.length ≤ cs.length * v.clusterBytes
  eager : cs.length * v.clusterBytes ≤ log.length + v.clusterBytes
  data : ∀ q < log.length, chainByte v d cs q = log.getD q 0

structure Stands (h : FatFileHandle) (cs : List Nat) (log : List UInt8) : Prop where
  fat : h.fat = true
  root : h.rootFlag = false
  position : h.position = log.length
  first : h.firstCluster = cs.headD 0
  cluster : h.curCluster = lastOf cs

/-- The next bytes `b` have a place. -/
structure Room (v : FatVolHandle) (d : Disk) (cs : List Nat) (log b : List UInt8) : Prop where
  start : cs = [] → freeCluster v d ≠ 0
  inside : cs ≠ [] → log.length < cs.length * v.clusterBytes
  enough : cs ≠ [] → log.length + b.length ≤ cs.length * v.clusterBytes ∨ freeCluster v d ≠ 0

/-- The bytes `b` appended to `log` on the volume. -/
structure Wrote (v : FatVolHandle) (cs cs' : List Nat) (log b : List UInt8) (d d' : Disk) : Prop where
  area : AheadArea v cs log.length d d'
  holds : Holds v d' cs' (log ++ b)
  grown : cs <+: cs'
  fresh : ∀ c ∈ cs', c ∈ cs ∨ v.Next d c
  table : TableStep v d d'
  after : TableAfter v cs d cs' d'
  room : log.length + b.length < cs.length * v.clusterBytes ∨ freeCluster v d ≠ 0 →
    (log ++ b).length < cs'.length * v.clusterBytes

/-- The handle after `n` bytes, on the chain as it then is. -/
def FatFileHandle.advanced (h : FatFileHandle) (cs : List Nat) (n : Nat) : FatFileHandle :=
  { h with position := n, firstCluster := cs.headD 0, curCluster := lastOf cs }

section
variable {v : FatVolHandle} {d d' : Disk} {cs cs' : List Nat} {log b : List UInt8}

theorem Holds.nil (v : FatVolHandle) (d : Disk) : Holds v d [] [] :=
  ⟨fun h => absurd rfl h, by simp, Nat.zero_le _, by simp, fun _ h => absurd h (Nat.not_lt_zero _)⟩

theorem Holds.index (h : Holds v d cs log) (hlt : log.length < cs.length * v.clusterBytes) :
    log.length / v.clusterBytes = cs.length - 1 := by
  have he := h.eager
  have hpos : 0 < cs.length := by
    by_contra h0
    have : cs.length = 0 := by omega
    rw [this, Nat.zero_mul] at hlt
    omega
  obtain ⟨n, hn⟩ : ∃ n, cs.length = n + 1 := ⟨cs.length - 1, by omega⟩
  rw [hn] at he hlt ⊢
  rw [Nat.succ_mul] at he
  exact Nat.div_eq_of_lt_le (by rw [Nat.add_sub_cancel]; omega) hlt

theorem Holds.within (h : Holds v d cs log) (hlt : log.length < cs.length * v.clusterBytes)
    (hmod : log.length % v.clusterBytes + n < v.clusterBytes) :
    log.length + n < cs.length * v.clusterBytes := by
  have hidx := h.index hlt
  have hdm := Nat.div_add_mod log.length v.clusterBytes
  have hpos : 0 < cs.length := by
    by_contra h0
    have : cs.length = 0 := by omega
    rw [this, Nat.zero_mul] at hlt
    omega
  obtain ⟨k, hk⟩ : ∃ k, cs.length = k + 1 := ⟨cs.length - 1, by omega⟩
  rw [hidx, hk, Nat.add_sub_cancel, Nat.mul_comm] at hdm
  rw [hk, Nat.succ_mul]
  omega

theorem Holds.onChain (h : Holds v d cs log) (hst : Stands hd cs log) (h32 : log.length < 2 ^ 32)
    (hlt : log.length < cs.length * v.clusterBytes) : OnChain v hd cs log.length := by
  have hidx := h.index hlt
  have hpos : 0 < cs.length := by
    by_contra h0
    have : cs.length = 0 := by omega
    rw [this, Nat.zero_mul] at hlt
    omega
  refine ⟨hst.fat, hst.root, ?_, by omega, ?_⟩
  · rw [hst.position, u32, Nat.mod_eq_of_lt h32]
  · rw [hst.cluster, hidx, lastOf]

theorem Holds.congr (h : Holds v d cs log) (he : ∀ c ∈ cs, fatEntry v d' 0 c = fatEntry v d 0 c)
    (hb : ∀ q < log.length, chainByte v d' cs q = chainByte v d cs q) : Holds v d' cs log :=
  ⟨fun hne => (h.chain hne).congr he, h.empty, h.fits, h.eager,
    fun q hq => (hb q hq).trans (h.data q hq)⟩

theorem div_lt_of_lt (hv : v.Shape) (h : q < n * v.clusterBytes) : q / v.clusterBytes < n := by
  rwa [Nat.div_lt_iff_lt_mul (clusterBytes_pos hv)]

theorem Stands.advanced (hst : Stands h cs log) (cs' : List Nat) (b : List UInt8) :
    Stands (h.advanced cs' (log.length + b.length)) cs' (log ++ b) :=
  ⟨hst.fat, hst.root, List.length_append.symm, rfl, rfl⟩

end

variable {P Q : Disk → Prop} {s : FatState} {r : HandleRef} {cs cs' : List Nat} {log b : List UInt8}

-- ---------------------------------------------------------------------------
-- The first cluster
-- ---------------------------------------------------------------------------

theorem allocFirst_skip (h : (s.handle r).curCluster ≠ 0 ∨ n = 0) : allocFirst r n s = .ok true s := by
  have h' : ¬ ((s.handle r).curCluster = 0 ∧ n ≠ 0) := by
    rintro ⟨h1, h2⟩
    exact h.elim (fun h => h h1) fun h => h2 h
  rw [allocFirst, getHandle_bind, if_neg h', pure_run]

theorem allocFirst_none (hs : s.Mounted) (hq : s.Quiet) (hv : s.vol.Shape) (hh : s.vol.HintOk)
    (hfat : (s.handle r).fat = true) (hcur : (s.handle r).curCluster = 0) (hn : n ≠ 0)
    (hP : P s.disk) (hco : s.Coherent) (hf : freeCluster s.vol s.disk = 0) :
    ∃ t, allocFirst r n s = .ok false (t.withHandle r { s.handle r with firstCluster := 0 }) ∧
      Kept P s t ∧ t.Coherent := by
  obtain ⟨t, hrun, hfd, -, hco'⟩ := fatFindFreeCluster_run (P := P) hs hq hv hh hP hco.tableOk
  rw [hf] at hrun hfd
  refine ⟨t, ?_, ⟨hfd.toRan, hfd.disk, ?_, hfd.handle⟩, hco' (.inl hco)⟩
  · rw [allocFirst, getHandle_bind, if_pos ⟨hcur, hn⟩, fatOf_bind hfat, bind_ok hrun,
      modifyHandle_bind, if_pos rfl, pure_run, hfd.handle]
  · rw [hfd.vol, if_pos rfl]

theorem allocFirst_run (hs : s.Mounted) (hq : s.Quiet) (hv : s.vol.Shape) (hh : s.vol.HintOk)
    (hfat : (s.handle r).fat = true) (hcur : (s.handle r).curCluster = 0) (hn : n ≠ 0)
    (hco : s.Coherent) (hf : freeCluster s.vol s.disk ≠ 0)
    (hP : ∀ d, Agree s.vol (s.vol.Next s.disk) (fun _ _ => False) s.disk d → P d) :
    ∃ t, allocFirst r n s = .ok true t ∧ Ran P s t ∧
      t.vol = { s.vol with lastClusterAlloc := freeCluster s.vol s.disk } ∧
      t.handle = Function.update s.handle r
        ((s.handle r).advanced [freeCluster s.vol s.disk] (s.handle r).position) ∧
      EntrySet s.vol (fun _ => True) (freeCluster s.vol s.disk) (fatEoc s.vol) s.disk t.disk ∧
      t.Coherent := by
  obtain ⟨hc, hfree⟩ := freeCluster_spec hh hf
  obtain ⟨t, hrun, hfd, -, hco'⟩ := fatFindFreeCluster_run (P := P) hs hq hv hh (hP _ (.refl ..))
    hco.tableOk
  have hvol : t.vol = { s.vol with lastClusterAlloc := freeCluster s.vol s.disk } := by
    rw [hfd.vol, if_neg hf]
  have hP' : ∀ d, Agree s.vol (· = freeCluster s.vol s.disk) (fun _ _ => False) s.disk d → P d :=
    fun d hd => hP d (hd.mono (fun _ h => ⟨h ▸ hf, h⟩) fun _ _ h => h)
  generalize freeCluster s.vol s.disk = c at *
  let u := t.withHandle r ((s.handle r).advanced [c] (s.handle r).position)
  have hran : Ran P s u := hfd.toRan.withHandle
  obtain ⟨w, hrun', hw⟩ := fatSetNextCluster_run (P := P) (s := u) (c := c) hran.mounted (hran.quiet hq)
    (hvol ▸ hv.hint c) (hvol ▸ hc.2) (x := fatEoc s.vol) (by
      show _ < 16 ^ t.vol.type.width
      rw [hvol]
      exact fatEoc_lt _ hv) (fun d hd => hP' d (by
      rw [withHandle_vol, withHandle_disk, hvol, hfd.disk] at hd
      exact hd.of_hint)) (hco' (.inr hf) _)
  have hset := hw.set
  rw [withHandle_vol, withHandle_disk, hvol, hfd.disk] at hset
  refine ⟨w, ?_, hran.trans hw.became.toRan, hw.became.vol.trans hvol, ?_, hset.of_hint, hw.coherent⟩
  · rw [allocFirst, getHandle_bind, if_pos ⟨hcur, hn⟩, fatOf_bind hfat, bind_ok hrun,
      modifyHandle_bind, if_neg hf, modifyHandle_bind]
    have hu : (t.withHandle r { t.handle r with firstCluster := c }).withHandle r
        { (t.withHandle r { t.handle r with firstCluster := c }).handle r with curCluster := c } = u := by
      simp only [u, FatState.withHandle, Function.update_self, Function.update_idem, hfd.handle]
      rfl
    rw [hu, bind_ok hrun', pure_run]
  · rw [hw.became.handle]
    show Function.update t.handle r _ = _
    rw [hfd.handle]

-- ---------------------------------------------------------------------------
-- The bytes
-- ---------------------------------------------------------------------------

/-- The outcome of storing `b`, short of the directory entry. -/
structure Stored (P : Disk → Prop) (r : HandleRef) (cs cs' : List Nat) (log b : List UInt8)
    (s t : FatState) : Prop extends Ran P s t where
  vol : Rehinted s.vol t.vol
  hint : cs' = cs → t.vol = s.vol
  wrote : Wrote s.vol cs cs' log b s.disk t.disk
  handle : t.handle = Function.update s.handle r
    ((s.handle r).advanced cs' (log.length + b.length))
  usable : t.Usable

theorem getD_append_bytes : (log ++ b).getD q 0 =
    if log.length ≤ q ∧ q < log.length + b.length then b.getD (q - log.length) 0 else log.getD q 0 := by
  by_cases h : q < log.length
  · rw [if_neg (by omega), List.getD_append _ _ _ _ h]
  · rw [List.getD_append_right _ _ _ _ (by omega)]
    split
    next => rfl
    next h' =>
      rw [List.getD_eq_default _ _ (by omega), List.getD_eq_default _ _ (by omega)]

theorem TableGrown.length (h : TableGrown v cs d cs' d') :
    cs'.length = cs.length ∧ cs' = cs ∨ cs'.length = cs.length + 1 ∧ cs' ≠ cs := by
  cases h with
  | same => exact .inl ⟨rfl, rfl⟩
  | snoc => exact .inr ⟨by simp, by simp⟩

theorem Appended.wrote (hv : s.vol.Shape) (hh : s.vol.HintOk) (hold : Holds s.vol s.disk cs log)
    (hne : cs ≠ []) (hb : 0 < b.length) (h : Appended P r cs cs' log.length b s t) :
    Wrote s.vol cs cs' log b s.disk t.disk := by
  have hc := hold.chain hne
  have hc' := h.table.chainOk hv hh hc
  have hcb := clusterBytes_pos hv
  have hin : log.length + b.length < cs'.length * s.vol.clusterBytes := by
    rw [← Nat.div_lt_iff_lt_mul hcb]
    exact h.inside
  have heager : cs'.length * s.vol.clusterBytes ≤ log.length + b.length + s.vol.clusterBytes := by
    rcases h.table.length with ⟨hl, -⟩ | ⟨hl, hne'⟩
    · have := hold.eager
      rw [hl]
      omega
    · have hg := h.grew hne'
      rw [Nat.le_div_iff_mul_le hcb] at hg
      rw [hl, Nat.succ_mul]
      omega
  refine ⟨h.area, ⟨fun _ => hc', ?_, ?_, ?_, fun q hq => ?_⟩, h.table.prefix,
    (h.table.tableAfter hv hh hc).fresh, h.table.tableStep hv hh hc, h.table.tableAfter hv hh hc, fun _ => ?_⟩
  · have h1 : cs' ≠ [] := hc'.chain.ne_nil
    have h2 : log ++ b ≠ [] := fun he => by
      have := congrArg List.length he
      rw [List.length_append, List.length_nil] at this
      omega
    exact ⟨fun h => absurd h h1, fun h => absurd h h2⟩
  · rw [List.length_append]
    omega
  · rw [List.length_append]
    omega
  · rw [List.length_append] at hq
    rw [h.data q (.inr hq), getD_append_bytes]
    split
    next => rfl
    next hn => exact hold.data q (by omega)
  · rw [List.length_append]
    exact hin

theorem headD_prefix (h : cs <+: cs') (hne : cs ≠ []) : cs'.headD 0 = cs.headD 0 := by
  obtain ⟨e, rfl⟩ := h
  cases cs with
  | nil => exact absurd rfl hne
  | cons c cs => rfl

theorem append_more (hs : s.Mounted) (hq : s.Quiet) (hv : s.vol.Shape) (hh : s.vol.HintOk)
    (hold : Holds s.vol s.disk cs log) (hst : Stands (s.handle r) cs log) (hco : s.Coherent)
    (hne : cs ≠ []) (hlt : log.length < cs.length * s.vol.clusterBytes) (hb : 0 < b.length)
    (hb' : b.length < 512) (ht : s.vol.Tests (log.length + b.length)) (h32 : log.length + b.length < 2 ^ 32)
    (hfree : log.length + b.length < cs.length * s.vol.clusterBytes ∨ freeCluster s.vol s.disk ≠ 0)
    (hP : ∀ d, AheadArea s.vol cs log.length s.disk d → P d) :
    ∃ t cs', writeLoop r b b.length b.length 0 (chainSector s.vol cs log.length)
        (log.length % 512) s = .ok b.length t ∧ Stored P r cs cs' log b s t := by
  have hon := hold.onChain hst (by omega) hlt
  obtain ⟨t, cs', hrun, ha⟩ := writeLoop_run (P := P) hs hq hv hh (hold.chain hne) hon hb hb' ht (hco _) hP
    (hfree.imp_left (div_lt_of_lt hv))
  have hw := ha.wrote hv hh hold hne hb
  have hin : (log ++ b).length < cs'.length * s.vol.clusterBytes := hw.room hfree
  refine ⟨t, cs', hrun, ha.toRan, ha.vol, ha.hint, hw, ?_, ha.usable⟩
  rw [ha.handle, FatFileHandle.advanced, headD_prefix hw.grown hne, ← hst.first, u32,
    Nat.mod_eq_of_lt h32, lastOf, ← hw.holds.index hin, List.length_append]

theorem append_full (hs : s.Mounted) (hq : s.Quiet) (hv : s.vol.Shape) (hh : s.vol.HintOk)
    (hold : Holds s.vol s.disk cs log) (hst : Stands (s.handle r) cs log) (hco : s.Coherent)
    (hne : cs ≠ []) (hb : 0 < b.length) (hb' : b.length < 512) (ht : s.vol.Tests (log.length + b.length))
    (h32 : log.length + b.length < 2 ^ 32)
    (hfull : log.length + b.length = cs.length * s.vol.clusterBytes)
    (hf : freeCluster s.vol s.disk = 0)
    (hP : ∀ d, AheadArea s.vol cs log.length s.disk d → P d) :
    ∃ t, writeLoop r b b.length b.length 0 (chainSector s.vol cs log.length)
        (log.length % 512) s = .ok b.length t ∧ Stored P r cs cs log b s t := by
  have hlt : log.length < cs.length * s.vol.clusterBytes := by omega
  have hon := hold.onChain hst (by omega) hlt
  have hc := hold.chain hne
  obtain ⟨t, hrun, hran, hvol, hdisk, hhandle, hco'⟩ := writeLoop_full (P := P) hs hq hv hh hc hon hb
    hb' ht (hco _) hP hfull hf
  have hsame := chainEdit_inFat (d := s.disk) cs (p := log.length)
    (f := memcpy (log.length % 512) b) hv
  have hlen : log.length % 512 + b.length ≤ 512 := by
    have : (log.length + b.length) % 512 = 0 := by
      rw [hfull, FatVolHandle.clusterBytes, Nat.mul_left_comm, Nat.mul_mod_right]
    omega
  refine ⟨t, hrun, hran, hvol ▸ .refl _, fun _ => hvol, ⟨?_, ⟨fun _ => ?_, ?_, ?_, ?_, fun q hq => ?_⟩,
    List.prefix_rfl, fun c hc => .inl hc, ?_, .same ?_, fun h => ?_⟩, ?_, hco'.usable⟩
  · exact hdisk ▸ chainEdit_ahead _ hv hon.inside hlen
  · exact hdisk ▸ hc.congr fun c hm => fatEntry_congr hv hv.numFats (hc.cluster c hm).2 hsame
  · have h2 : log ++ b ≠ [] := fun he => by
      have := congrArg List.length he
      rw [List.length_append, List.length_nil] at this
      omega
    exact ⟨fun h => absurd h hne, fun h => absurd h h2⟩
  · rw [List.length_append]
    omega
  · rw [List.length_append]
    omega
  · rw [List.length_append] at hq
    rw [hdisk, chainByte_edit _ hv hc hon.inside (div_lt_of_lt hv (by omega)) hlen, getD_append_bytes]
    split
    next => rfl
    next hn => exact hold.data q (by omega)
  · exact hdisk ▸ .of_inFat hv hsame
  · exact hdisk ▸ hsame
  · rcases h with h | h
    · omega
    · exact absurd hf h
  · rw [hhandle, FatFileHandle.forward, FatFileHandle.advanced, hst.position, u32,
      Nat.mod_eq_of_lt h32, ← hst.first, ← hst.cluster]

theorem append_first (hs : s.Mounted) (hq : s.Quiet) (hv : s.vol.Shape) (hh : s.vol.HintOk)
    (hst : Stands (s.handle r) [] []) (hco : s.Coherent) (hb : 0 < b.length) (hb' : b.length < 512)
    (hf : freeCluster s.vol s.disk ≠ 0) (hP : ∀ d, AheadArea s.vol [] 0 s.disk d → P d) :
    ∃ u t, allocFirst r b.length s = .ok true u ∧
      OnChain u.vol (u.handle r) [freeCluster s.vol s.disk] 0 ∧
      ChainOk u.vol u.disk [freeCluster s.vol s.disk] ∧ u.vol.Shape ∧
      writeLoop r b b.length b.length 0 (chainSector u.vol [freeCluster s.vol s.disk] 0) (0 % 512) u =
        .ok b.length t ∧
      Stored P r [] [freeCluster s.vol s.disk] [] b s t := by
  obtain ⟨hc, hfree⟩ := freeCluster_spec hh hf
  obtain ⟨u, hrun, hran, hvol, hhandle, hset, hco'⟩ := allocFirst_run (P := P) (n := b.length) hs hq hv hh
    hst.fat (hst.cluster.trans rfl) (by omega) hco hf fun d hd =>
      hP d (hd.mono (fun _ h => .inl h) fun _ _ h => h.elim)
  have hnext : s.vol.Next s.disk (freeCluster s.vol s.disk) := ⟨hf, rfl⟩
  have hafter := hset.tableAfter hv hf
  generalize freeCluster s.vol s.disk = c at *
  have hu : u.handle r = (s.handle r).advanced [c] (s.handle r).position := by
    rw [hhandle, Function.update_self]
  have hlay : u.vol.Shape := hvol ▸ hv.hint c
  have hchain : ChainOk u.vol u.disk [c] := by
    rw [hvol]
    refine ⟨hset.fatEntry_self hv.numFats trivial (fatEoc_lt _ hv), fun c' hc' => ?_⟩
    rwa [List.mem_singleton.mp hc']
  have hcb : u.vol.clusterBytes = s.vol.clusterBytes := by rw [hvol]; rfl
  have hle := le_clusterBytes hv
  have hon : OnChain u.vol (u.handle r) [c] 0 := by
    rw [hu]
    exact ⟨hst.fat, hst.root, hst.position, by rw [Nat.zero_div]; exact Nat.one_pos,
      by rw [Nat.zero_div]; rfl⟩
  obtain ⟨fuel, hfuel⟩ : ∃ fuel, b.length = fuel + 1 := ⟨b.length - 1, by omega⟩
  have hahead : AheadArea s.vol [] 0 s.disk u.disk := hset.agree (.inl hnext)
  obtain ⟨w, hrun', hw, hl⟩ := writeLoop_short (P := P) fuel b 0 hran.mounted (hran.quiet hq)
    hlay hchain hon List.drop_zero.symm hb (by omega) (hco' _) (hP _ hahead)
  have hsame := chainEdit_inFat (d := u.disk) [c] (p := 0) (f := memcpy (0 % 512) b) hlay
  have hsame' : ∀ n, s.vol.InFat n → w.disk n = u.disk n := fun n hn => by
    rw [hw.disk]
    refine hsame n ?_
    rw [hvol]
    exact hn
  have hchain' : ChainOk s.vol w.disk [c] := by
    have h := hchain.congr fun c' hm =>
      fatEntry_congr hlay hlay.numFats (hchain.cluster c' hm).2 hsame
    rw [hw.disk]
    rw [hvol] at h ⊢
    exact ⟨h.chain, h.cluster⟩
  refine ⟨u, w.withHandle r ((u.handle r).forward b.length), hrun, hon, hchain, hlay, ?_,
    hran.trans hw.toRan.withHandle, ?_, fun h => absurd h (List.cons_ne_nil _ _),
    ⟨?_, ⟨fun _ => hchain', ?_, ?_, ?_, fun q hq' => ?_⟩, List.nil_prefix,
      fun c' hc' => .inr (List.mem_singleton.mp hc' ▸ hnext), ?_, ?_, fun _ => ?_⟩, ?_,
    FatState.Coherent.usable hl.withHandle.coherent⟩
  · exact (congrArg (fun k => writeLoop r b b.length k 0 (chainSector u.vol [c] 0) (0 % 512) u)
      hfuel).trans hrun'
  · exact ⟨c, hw.vol.trans hvol, fun _ => ⟨hc.1, Nat.le_of_lt hc.2⟩⟩
  · refine hahead.trans ?_
    rw [withHandle_disk, hw.disk]
    have hag := chainEdit_agree (C := s.vol.Ends [] s.disk) (d := u.disk) b hlay hon.inside
      (by omega)
    rw [hvol] at hag ⊢
    refine hag.of_hint.mono (fun _ h => h) fun m i hm => .inr ⟨c, hnext, ?_⟩
    obtain ⟨q, -, -, h3, rfl, -⟩ := hm
    have hin := chainSector_inCluster hv [c] q
    have h3 : q / s.vol.clusterBytes < 1 := h3
    rwa [Nat.lt_one_iff.mp h3] at hin
  · have h2 : b ≠ [] := fun he => by
      rw [he] at hb
      exact absurd hb (Nat.lt_irrefl 0)
    exact ⟨fun h => absurd h (List.cons_ne_nil _ _), fun h => absurd h h2⟩
  · rw [List.nil_append, List.length_singleton, Nat.one_mul]
    omega
  · rw [List.nil_append, List.length_singleton, Nat.one_mul]
    omega
  · rw [List.nil_append] at hq' ⊢
    have hq1 : q / u.vol.clusterBytes < [c].length :=
      div_lt_of_lt hlay (by rw [hcb, List.length_singleton, Nat.one_mul]; omega)
    have hd := chainByte_edit (e := u.disk) b hlay hchain hon.inside hq1 (by omega)
    rw [if_pos (by omega), Nat.sub_zero] at hd
    rw [withHandle_disk, hw.disk, ← hd, hvol]
    rfl
  · exact (hset.tableStep hv hc hfree).trans hv (.of_inFat hv hsame')
  · exact hafter.congr hv hh (fun _ h => absurd h List.not_mem_nil) hsame'
  · rw [List.nil_append, List.length_singleton, Nat.one_mul]
    omega
  · have hpos : (u.handle r).position = 0 := by rw [hu]; exact hst.position
    show Function.update w.handle r ((u.handle r).forward b.length) = _
    rw [hw.handle, FatFileHandle.forward, hpos, u32, Nat.mod_eq_of_lt (by omega), hu, hhandle,
      Function.update_idem]
    rfl

-- ---------------------------------------------------------------------------
-- The call
-- ---------------------------------------------------------------------------

theorem fatWrite_of {s1 s2 t : FatState} (h1 : allocFirst r b.length s = .ok true s1)
    (hfat : (s1.handle r).fat = true) (hroot : (s1.handle r).rootFlag = false)
    (hsec : fatFileSectorOffset s1.vol (s1.handle r) = (n, o))
    (h2 : writeLoop r b b.length b.length 0 n o s1 = .ok i s2) (h3 : growSize r s2 = .ok ⟨⟩ t) :
    fatWrite r b s = .ok i t := by
  refine returning_ok ?_
  rw [bind_ok h1, if_pos rfl, getHandle_bind, fatOf_bind hfat, hsec]
  simp only [hroot, Bool.false_eq_true, false_and, if_false]
  rw [bind_ok h2, bind_ok h3, pure_run]

theorem fatWrite_fault {s1 t : FatState} (h1 : allocFirst r b.length s = .ok true s1)
    (hfat : (s1.handle r).fat = true) (hroot : (s1.handle r).rootFlag = false)
    (hsec : fatFileSectorOffset s1.vol (s1.handle r) = (n, o))
    (h2 : writeLoop r b b.length b.length 0 n o s1 = .error .eio t) :
    fatWrite r b s = .ok minusEIO t := by
  refine returning_eio ?_
  rw [bind_ok h1, if_pos rfl, getHandle_bind, fatOf_bind hfat, hsec]
  simp only [hroot, Bool.false_eq_true, false_and, if_false]
  rw [bind_error h2]

theorem append_run (hs : s.Mounted) (hq : s.Quiet) (hv : s.vol.Shape) (hh : s.vol.HintOk)
    (hold : Holds s.vol s.disk cs log) (hst : Stands (s.handle r) cs log) (hco : s.Coherent)
    (hroom : Room s.vol s.disk cs log b) (hb : 0 < b.length) (hb' : b.length < 512)
    (ht : s.vol.Tests (log.length + b.length)) (h32 : log.length + b.length < 2 ^ 32)
    (hP : ∀ d, AheadArea s.vol cs log.length s.disk d → P d) :
    ∃ t cs', Stored P r cs cs' log b s t ∧
      ∀ u, growSize r t = .ok ⟨⟩ u → fatWrite r b s = .ok b.length u := by
  by_cases hne : cs = []
  · have hlog := hold.empty.mp hne
    subst hne
    subst hlog
    obtain ⟨u, t, h1, hon, hchain, hlay, h2, hstored⟩ := append_first (P := P) hs hq hv hh hst hco hb hb'
      (hroom.start rfl) hP
    exact ⟨t, _, hstored, fun w h3 =>
      fatWrite_of h1 hon.fat hon.root (hon.sectorOffset hlay hchain) h2 h3⟩
  · have hlt := hroom.inside hne
    have hc := hold.chain hne
    have hon := hold.onChain hst (by omega) hlt
    have hcur : (s.handle r).curCluster ≠ 0 := by
      have := (hc.cluster _ hc.lastOf_mem).1
      rw [hst.cluster]
      omega
    have hsec := hon.sectorOffset hv hc
    by_cases hfull : log.length + b.length < cs.length * s.vol.clusterBytes ∨
        freeCluster s.vol s.disk ≠ 0
    · obtain ⟨t, cs', h2, hstored⟩ := append_more (P := P) hs hq hv hh hold hst hco hne hlt hb hb' ht h32
        hfull hP
      exact ⟨t, cs', hstored, fun w h3 => fatWrite_of (allocFirst_skip (.inl hcur)) hst.fat hst.root hsec h2 h3⟩
    · have henough := hroom.enough hne
      obtain ⟨t, h2, hstored⟩ := append_full (P := P) hs hq hv hh hold hst hco hne hb hb' ht h32 (by omega)
        (by omega) hP
      exact ⟨t, cs, hstored, fun w h3 => fatWrite_of (allocFirst_skip (.inl hcur)) hst.fat hst.root hsec h2 h3⟩

theorem growSize_cases (hs : s.Mounted) (hfat : (s.handle r).fat = true) (he : 0 < (s.handle r).direntSector)
    (hn : (s.handle r).direntSector < 2 ^ 32) (hflags : (s.handle r).flags / oAsync % 2 = 0)
    (hpos : (s.handle r).size < (s.handle r).position) (hc : s.CacheOk (s.handle r).direntSector)
    (hP : P s.disk)
    (hP' : Q (s.disk.edit (s.handle r).direntSector
      (syncDirent (s.handle r).direntOffset (s.handle r).firstCluster (s.handle r).position))) :
    ∃ t, growSize r s = .ok ⟨⟩ t ∧ RanThen P Q s t ∧ t.vol = s.vol ∧
      t.handle = Function.update s.handle r { s.handle r with size := (s.handle r).position } ∧
      (t.disk = s.disk.edit (s.handle r).direntSector (syncDirent (s.handle r).direntOffset
          (s.handle r).firstCluster (s.handle r).position) ∧ t.Coherent ∧
          (s.Quiet → t.cache.dirty = false) ∨
        ¬ s.Quiet ∧ Ran P s t ∧ t.disk = s.disk ∧ t.cache = s.cache ∧ t.buf = s.buf) := by
  let u := s.withHandle r { s.handle r with size := (s.handle r).position }
  have hu : u.handle r = { s.handle r with size := (s.handle r).position } := withHandle_handle
  have hran : Ran P s u := (Ran.refl hs).withHandle
  obtain ⟨a, t, hrun, ⟨w, h1, h2⟩, h⟩ := fatFileSync_cases (P := P) (Q := Q) (s := u) (r := r)
    hran.mounted (by rw [hu]; exact hfat) (by rw [hu]; exact hn) (by rw [hu]; exact hc) hP
    (by rw [hu]; exact hP')
  rw [hu] at h
  refine ⟨t, ?_, ⟨w, hran.trans h1, h2⟩, h.1, h.2.1, ?_⟩
  · rw [growSize, getHandle_bind, if_pos ⟨Nat.ne_of_gt he, hpos⟩, modifyHandle_bind, if_pos hflags]
    exact bind_ok hrun
  · exact h.2.2.imp id fun ⟨hq, hr, hrest⟩ => ⟨hq, hran.trans hr, hrest⟩

theorem growSize_skip (h : (s.handle r).position ≤ (s.handle r).size) :
    growSize r s = .ok ⟨⟩ s := by
  rw [growSize, getHandle_bind, if_neg fun h' => Nat.not_lt_of_le h h'.2, pure_run]

theorem fatWrite_nil (hfat : (s.handle r).fat = true) (hroot : (s.handle r).rootFlag = false)
    (h : (s.handle r).position ≤ (s.handle r).size) : fatWrite r [] s = .ok 0 s :=
  fatWrite_of (allocFirst_skip (.inr rfl)) hfat hroot rfl (writeLoop_done (Nat.le_refl 0)) (growSize_skip h)

/-- The slot of the file lies outside the FATs and in no cluster that is free or the file's own. -/
structure SlotApart (v : FatVolHandle) (d : Disk) (e : Slot) (cs : List Nat) : Prop where
  pos : 0 < e.sector
  sector : e.sector < 2 ^ 32
  offset : e.offset + 32 ≤ 512
  fat : ¬ v.InFat e.sector
  apart : ∀ c, v.IsCluster c → v.InCluster c e.sector → fatEntry v d 0 c ≠ 0 ∧ c ∉ cs

/-- The handle `r` appends to the file in the slot `e` and has written `log`;
the slot may lag behind. -/
structure Stream (s : FatState) (r : HandleRef) (e : Slot) (cs : List Nat) (log : List UInt8) :
    Prop where
  mounted : s.Mounted
  shape : s.vol.Shape
  hint : s.vol.HintOk
  holds : Holds s.vol s.disk cs log
  stands : Stands (s.handle r) cs log
  size_le : (s.handle r).size ≤ log.length
  sector : (s.handle r).direntSector = e.sector
  offset : (s.handle r).direntOffset = e.offset
  flags : (s.handle r).flags / oAsync % 2 = 0
  place : SlotApart s.vol s.disk e cs

/-- The same on a volume whose data area is aligned. -/
structure LogStream (s : FatState) (r : HandleRef) (e : Slot) (cs : List Nat) (log : List UInt8) :
    Prop extends Stream s r e cs log where
  layout : s.vol.Layout

/-- The slot has the first cluster of `cs` and a size of `n` bytes. -/
structure Entry (d : Disk) (e : Slot) (cs : List Nat) (n : Nat) : Prop where
  size : slotSize d e = n
  cluster : 0 < n → slotCluster d e = cs.headD 0

structure LogOpen (s : FatState) (r : HandleRef) (e : Slot) (cs : List Nat) (log : List UInt8) : Prop
    extends LogStream s r e cs log where
  coherent : s.Coherent
  size : (s.handle r).size = log.length
  entry : Entry s.disk e cs log.length

structure Opened (s : FatState) (r : HandleRef) (e : Slot) (cs : List Nat) (log : List UInt8) : Prop
    extends Stream s r e cs log where
  coherent : s.Coherent
  size : (s.handle r).size = log.length
  entry : Entry s.disk e cs log.length

theorem LogOpen.opened (h : LogOpen s r e cs log) : Opened s r e cs log :=
  ⟨h.toStream, h.coherent, h.size, h.entry⟩

theorem Opened.logOpen (h : Opened s r e cs log) (hv : s.vol.Layout) : LogOpen s r e cs log :=
  ⟨⟨h.toStream, hv⟩, h.coherent, h.size, h.entry⟩

theorem Stream.curCluster (h : Stream s r e cs log) :
    (s.handle r).curCluster = 0 ↔ cs = [] := by
  rw [h.stands.cluster]
  constructor
  · intro h0
    by_contra hne
    have hc := h.holds.chain hne
    have := (hc.cluster _ hc.lastOf_mem).1
    omega
  · rintro rfl
    rfl

theorem SlotApart.step (hh : v.HintOk) (h : SlotApart v d e cs) (ht : TableStep v d d')
    (hfresh : ∀ c ∈ cs', c ∈ cs ∨ v.Next d c) : SlotApart v d' e cs' := by
  refine ⟨h.pos, h.sector, h.offset, h.fat, fun c hc hin => ?_⟩
  obtain ⟨h1, h2⟩ := h.apart c hc hin
  refine ⟨(ht.entry c hc.2).ne_zero h1, fun hm => ?_⟩
  rcases hfresh c hm with hm | ⟨hne, hm⟩
  · exact h2 hm
  · subst hm
    exact h1 (freeCluster_spec hh hne).2

theorem SlotApart.chainSector (hv : v.Shape) (h : SlotApart v d e cs) (hc : ChainOk v d' cs)
    (hp : p / v.clusterBytes < cs.length) : chainSector v cs p ≠ e.sector := fun he =>
  (h.apart _ (hc.cluster _ (getD_mem hp)) (he ▸ chainSector_inCluster hv cs p)).2 (getD_mem hp)

theorem Holds.sync (hv : v.Shape) (h : Holds v d cs log) (hp : SlotApart v d0 e cs) :
    Holds v (d.edit e.sector f) cs log := by
  have hfat : ∀ n, v.InFat n → d.edit e.sector f n = d n := fun n hn =>
    Disk.edit_of_ne _ fun he => hp.fat (he ▸ hn)
  refine ⟨fun hne => (h.chain hne).congr fun c hc => ?_, h.empty, h.fits, h.eager, fun q hq => ?_⟩
  · exact fatEntry_congr hv hv.numFats ((h.chain hne).cluster c hc).2 hfat
  · have hne : cs ≠ [] := fun he => by
      have := h.empty.mp he
      rw [this] at hq
      exact absurd hq (Nat.not_lt_zero _)
    have hq' := div_lt_of_lt hv (Nat.lt_of_lt_of_le hq h.fits)
    rw [chainByte, Disk.edit_of_ne _ (hp.chainSector hv (h.chain hne) hq')]
    exact h.data q hq

theorem SlotApart.congr (hv : v.Shape) (h : SlotApart v d e cs) (he : ∀ n, v.InFat n → d' n = d n) :
    SlotApart v d' e cs := by
  refine ⟨h.pos, h.sector, h.offset, h.fat, fun c hc hin => ?_⟩
  rw [fatEntry_congr hv hv.numFats hc.2 he]
  exact h.apart c hc hin

theorem Rehinted.holds {v' : FatVolHandle} (h : Rehinted v v') (hh : Holds v d cs log) :
    Holds v' d cs log := by
  obtain ⟨i, rfl, -⟩ := h
  exact ⟨fun hne => ⟨(hh.chain hne).chain, (hh.chain hne).cluster⟩, hh.empty, hh.fits, hh.eager, hh.data⟩

theorem Rehinted.slotApart {v' : FatVolHandle} (h : Rehinted v v') (hp : SlotApart v d e cs) :
    SlotApart v' d e cs := by
  obtain ⟨i, rfl, -⟩ := h
  exact ⟨hp.pos, hp.sector, hp.offset, hp.fat, hp.apart⟩

theorem Holds.headD_lt (hv : v.Shape) (h : Holds v d cs log) : cs.headD 0 < 2 ^ 32 := by
  cases cs with
  | nil => exact Nat.two_pow_pos 32
  | cons c cs =>
    have hc := ((h.chain (List.cons_ne_nil _ _)).cluster c List.mem_cons_self).2
    have hm := maxClusters_le v.type
    have hn := hv.count
    show c < 2 ^ 32
    omega

theorem Stream.grow (h : Stream s r e cs log) (hc : s.CacheOk e.sector) (hlt : (s.handle r).size < log.length)
    (h32 : log.length < 2 ^ 32) (hP : P s.disk)
    (hP' : Q (s.disk.edit e.sector (syncDirent e.offset (cs.headD 0) log.length))) :
    ∃ t, growSize r s = .ok ⟨⟩ t ∧ RanThen P Q s t ∧ t.vol = s.vol ∧
      t.handle = Function.update s.handle r { s.handle r with size := log.length } ∧ Stream t r e cs log ∧
      (t.disk = s.disk.edit e.sector (syncDirent e.offset (cs.headD 0) log.length) ∧
          Entry t.disk e cs log.length ∧ t.Coherent ∧ (s.Quiet → t.cache.dirty = false) ∨
        ¬ s.Quiet ∧ Ran P s t ∧ t.disk = s.disk ∧ t.cache = s.cache ∧ t.buf = s.buf) := by
  have hv := h.shape
  have hpos := h.stands.position
  have hfst := h.stands.first
  obtain ⟨t, hgrow, hran, hvol, hhandle, hcase⟩ := growSize_cases (P := P) (Q := Q) (s := s) (r := r)
    h.mounted h.stands.fat (h.sector ▸ h.place.pos) (h.sector ▸ h.place.sector) h.flags
    (hpos ▸ hlt) (h.sector ▸ hc) hP (by rw [h.sector, h.offset, hfst, hpos]; exact hP')
  rw [h.sector, h.offset, hfst, hpos] at hcase
  rw [hpos] at hhandle
  have ht : t.handle r = { s.handle r with size := log.length } := by
    rw [hhandle, Function.update_self]
  have hdisk : ∀ n, s.vol.InFat n → t.disk n = s.disk n := by
    intro n hn
    rcases hcase with ⟨hd, -, -⟩ | ⟨-, -, hd, -, -⟩
    · rw [hd]
      exact Disk.edit_of_ne _ fun he => h.place.fat (he ▸ hn)
    · rw [hd]
  have hholds : Holds s.vol t.disk cs log := by
    rcases hcase with ⟨hd, -, -⟩ | ⟨-, -, hd, -, -⟩
    · rw [hd]
      exact h.holds.sync hv h.place
    · rw [hd]
      exact h.holds
  refine ⟨t, hgrow, hran, hvol, hhandle, ⟨hran.mounted, hvol ▸ hv, hvol ▸ h.hint, hvol ▸ hholds,
    ?_, ?_, ?_, ?_, ?_, hvol ▸ h.place.congr hv hdisk⟩, ?_⟩
  · rw [ht]
    exact ⟨h.stands.fat, h.stands.root, hpos, hfst, h.stands.cluster⟩
  · rw [ht]
  · rw [ht]
    exact h.sector
  · rw [ht]
    exact h.offset
  · rw [ht]
    exact h.flags
  · rcases hcase with ⟨hd, hco, hclean⟩ | hfail
    · refine .inl ⟨hd, ⟨?_, fun _ => ?_⟩, hco, hclean⟩
      · rw [hd]
        exact slotSize_sync h32
      · rw [hd]
        exact slotCluster_sync (h.holds.headD_lt hv)
    · exact .inr hfail

structure LogWritten (P Q : Disk → Prop) (r : HandleRef) (e : Slot) (cs cs' : List Nat)
    (log b : List UInt8) (s t : FatState) : Prop where
  ran : RanThen P Q s t
  vol : Rehinted s.vol t.vol
  hint : cs' = cs → t.vol = s.vol
  disk : ∃ d, Wrote s.vol cs cs' log b s.disk d ∧
    t.disk = d.edit e.sector (syncDirent e.offset (cs'.headD 0) (log ++ b).length)
  handle : t.handle = Function.update s.handle r
    { (s.handle r).advanced cs' (log ++ b).length with size := (log ++ b).length }
  opened : Opened t r e cs' (log ++ b)
  clean : t.cache.dirty = false

theorem logWrite_run (h : Stream s r e cs log) (hco : s.Coherent) (hq : s.Quiet)
    (hroom : Room s.vol s.disk cs log b) (hb : 0 < b.length) (hb' : b.length < 512)
    (ht : s.vol.Tests (log.length + b.length)) (h32 : log.length + b.length < 2 ^ 32)
    (hP : ∀ d, AheadArea s.vol cs log.length s.disk d → P d)
    (hP' : ∀ d cs', Wrote s.vol cs cs' log b s.disk d →
      Q (d.edit e.sector (syncDirent e.offset (cs'.headD 0) (log ++ b).length))) :
    ∃ t cs', fatWrite r b s = .ok b.length t ∧ LogWritten P Q r e cs cs' log b s t := by
  have hv := h.shape
  obtain ⟨u, cs', hst, hrun⟩ := append_run (P := P) h.mounted hq hv h.hint h.holds h.stands hco hroom
    hb hb' ht h32 hP
  have hu : u.handle r = (s.handle r).advanced cs' (log.length + b.length) := by
    rw [hst.handle, Function.update_self]
  have hw := hst.wrote
  have hlen : (log ++ b).length = log.length + b.length := List.length_append
  have hsize : (u.handle r).size < (log ++ b).length := by
    rw [hu, hlen]
    exact Nat.lt_of_le_of_lt h.size_le (Nat.lt_add_of_pos_right hb)
  have hstream : Stream u r e cs' (log ++ b) := by
    refine ⟨hst.mounted, hst.vol.shape hv, hst.vol.hintOk h.hint, hst.vol.holds hw.holds, ?_,
      Nat.le_of_lt hsize, ?_, ?_, ?_, hst.vol.slotApart (h.place.step h.hint hw.table hw.fresh)⟩
    · rw [hu]
      exact h.stands.advanced cs' b
    · rw [hu]
      exact h.sector
    · rw [hu]
      exact h.offset
    · rw [hu]
      exact h.flags
  obtain ⟨t, hgrow, ⟨w, hran, hran'⟩, hvol, hhandle, ht, hcase⟩ := hstream.grow (P := P) (Q := Q)
    (hst.usable.data _ hstream.place.fat) hsize (by omega) (hP _ hw.area) (hP' _ _ hw)
  rcases hcase with ⟨hdisk, hentry, hco', hclean⟩ | ⟨hnq, -⟩
  · refine ⟨t, cs', hrun t hgrow, ⟨w, hst.toRan.trans hran, hran'⟩, hvol ▸ hst.vol,
      fun he => hvol.trans (hst.hint he), ⟨u.disk, hw, hdisk⟩, ?_, ⟨ht, hco', ?_, hentry⟩,
        hclean (hst.quiet hq)⟩
    · rw [hhandle, hu, hst.handle, Function.update_idem, hlen]
    · rw [hhandle, Function.update_self]
  · exact absurd (hst.quiet hq) hnq

theorem Holds.readFile (hv : v.Shape) (h : Holds v d cs log) (he : Entry d e cs n) (hn : n ≤ log.length) :
    readFile v d e = some (log.take n) := by
  have hchain : ∀ i, i + 1 < cs.length → ChainOk v d cs := fun i hi => h.chain fun hn => by
    rw [hn] at hi
    exact absurd hi (Nat.not_lt_zero _)
  rw [readFile_eq cs hv (fun c hc => (h.chain (List.ne_nil_of_mem hc)).cluster c hc)
    (fun i hi => (hchain i hi).entry_getD hi) (he.size ▸ Nat.le_trans hn h.fits), he.size]
  · congr 1
    refine List.ext_getElem (by simp [hn]) fun q hq hq' => ?_
    rw [List.length_take] at hq'
    rw [List.getElem_map, List.getElem_range, h.data q (by omega), List.getElem_take,
      List.getD_eq_getElem _ _ (by omega)]
  · intro h0
    rw [he.cluster (he.size ▸ h0)]
    cases cs <;> rfl

theorem Opened.readFile (h : Opened s r e cs log) : readFile s.vol s.disk e = some log := by
  rw [h.holds.readFile h.shape h.entry (Nat.le_refl _), List.take_length]

theorem Entry.congr (h : Entry d e cs n) (hs : ∀ i < 32, slotBytes d' e i = slotBytes d e i) :
    Entry d' e cs n := by
  refine ⟨(slotSize_congr hs).trans h.size, fun hn => ?_⟩
  rw [slotCluster_congr hs]
  exact h.cluster hn

theorem SlotApart.not_chainArea (hv : v.Shape) (h : SlotApart v d e cs) (hc : ∀ c ∈ cs, v.IsCluster c) :
    ¬ ChainArea v cs p n e.sector i := by
  rintro ⟨q, -, -, hq, he, -⟩
  have hmem := getD_mem hq
  exact (h.apart _ (hc _ hmem) (he ▸ chainSector_inCluster hv cs q)).2 hmem

theorem Holds.isCluster (h : Holds v d cs log) : ∀ c ∈ cs, v.IsCluster c := fun c hc =>
  (h.chain (List.ne_nil_of_mem hc)).cluster c hc

theorem Next.free (hh : v.HintOk) (h : v.Next d c) : v.IsCluster c ∧ fatEntry v d 0 c = 0 := by
  obtain ⟨hc, rfl⟩ := h
  exact freeCluster_spec hh hc

theorem AheadArea.slotBytes (hv : v.Shape) (hh : v.HintOk) (hold : Holds v d cs log)
    (hplace : SlotApart v d e cs) (ha : AheadArea v cs p d d') (i : Nat) :
    slotBytes d' e i = slotBytes d e i := by
  refine ha.rest _ _ hplace.fat ?_
  rintro (⟨m, hm⟩ | ⟨c, hc, hin⟩)
  · exact hplace.not_chainArea hv hold.isCluster hm
  · exact (hplace.apart c (Next.free hh hc).1 hin).1 (Next.free hh hc).2

theorem AheadArea.readFile (hv : v.Shape) (hh : v.HintOk) (hold : Holds v d cs log)
    (hplace : SlotApart v d e cs) (he : Entry d e cs n) (hn : n ≤ log.length)
    (ha : AheadArea v cs log.length d d') : readFile v d' e = some (log.take n) := by
  have hnext : ∀ c, v.Next d c → v.IsCluster c ∧ fatEntry v d 0 c = 0 := fun _ => Next.free hh
  have hchain : ∀ i, i < cs.length → ChainOk v d cs := fun i hi => hold.chain fun hnil => by
    rw [hnil] at hi
    exact absurd hi (Nat.not_lt_zero _)
  have he' := he.congr fun i _ => ha.slotBytes hv hh hold hplace i
  rw [readFile_eq cs hv hold.isCluster (fun i hi => ?_) (he'.size ▸ Nat.le_trans hn hold.fits)
    (fun h0 => ?_), he'.size]
  · congr 1
    refine List.ext_getElem (by simp [hn]) fun q hq hq' => ?_
    rw [List.length_take] at hq'
    have hin := div_lt_of_lt hv (Nat.lt_of_lt_of_le (by omega : q < log.length) hold.fits)
    have hc := hchain _ hin
    rw [List.getElem_map, List.getElem_range, List.getElem_take, ← List.getD_eq_getElem _ 0 (by omega),
      ← hold.data q (by omega)]
    refine ha.rest _ _ (chainSector_not_inFat hv) ?_
    rintro (⟨m, q', h1, -, h2, h3, h4⟩ | ⟨c, hc', hin'⟩)
    · have := chainSector_inj hv hc.cluster (hc.nodup hv) hin h2 h3
      omega
    · have := cluster_unique (hc.cluster _ (getD_mem hin)).1 (hnext c hc').1.1
        (chainSector_inCluster hv cs q) hin'
      exact hc.entry_ne_zero hv (getD_mem hin) (this ▸ (hnext c hc').2)
  · have hc := hchain i (by omega)
    have hi' : i < cs.length := by omega
    rw [Agree.fatEntry hv ha hv.numFats (hc.cluster _ (getD_mem hi')).2, hc.entry_getD hi]
    rintro (hj | ⟨-, hj⟩)
    · exact hc.entry_ne_zero hv (getD_mem hi') (hnext _ hj).2
    · rw [lastOf, List.getD_eq_getElem _ _ hi', List.getD_eq_getElem _ _ (by omega)] at hj
      have := (hc.nodup hv).getElem_inj_iff.mp hj
      omega
  · rw [he'.cluster (he'.size ▸ h0)]
    cases cs <;> rfl

end Stm32Logger
