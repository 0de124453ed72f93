import Stm32Logger.Fat.Append

/-!
# Files by the rules of the file system

A directory slot names a first cluster and a size; the file's bytes are those
of its cluster chain, up to the size. This is what a reader of the card sees,
whatever OpenFAT's handles say.
-/

namespace Stm32Logger

structure Slot where
  sector : Nat
  offset : Nat
  deriving DecidableEq

def slotBytes (d : Disk) (e : Slot) : Sector := fun i => d e.sector (e.offset + i)

def slotCluster (d : Disk) (e : Slot) : Nat := 65536 * le16 (slotBytes d e) 20 + le16 (slotBytes d e) 26

def slotSize (d : Disk) (e : Slot) : Nat := le32 (slotBytes d e) 28

/-- The first `n` clusters of the chain that starts in `c`; `none` when it is
shorter or leaves the data area. -/
def chainFrom (v : FatVolHandle) (d : Disk) : (n : Nat) → (c : Nat) → Option (List Nat)
  | 0, _ => some []
  | n + 1, c =>
    if 2 ≤ c ∧ c < v.clusterCount + 2 then
      (chainFrom v d n (fatEntry v d 0 c)).map (c :: ·)
    else none

/-- The content of the file in a slot, as the file system's rules read it. -/
def readFile (v : FatVolHandle) (d : Disk) (e : Slot) : Option (List UInt8) :=
  (chainFrom v d ((slotSize d e + v.clusterBytes - 1) / v.clusterBytes) (slotCluster d e)).map
    fun cs => (List.range (slotSize d e)).map (chainByte v d cs)

variable {v : FatVolHandle} {d d' : Disk} {e : Slot} {cs : List Nat}

theorem chainFrom_eq (cs : List Nat) (hc : ∀ c ∈ cs, v.IsCluster c)
    (hnext : ∀ i, i + 1 < cs.length → fatEntry v d 0 (cs.getD i 0) = cs.getD (i + 1) 0)
    (hn : n ≤ cs.length) (hn0 : 0 < n → c = cs.getD 0 0) : chainFrom v d n c = some (cs.take n) := by
  induction n generalizing cs c with
  | zero => rfl
  | succ n ih =>
    cases cs with
    | nil => simp at hn
    | cons c' cs =>
      have hcc : c = c' := hn0 (Nat.succ_pos n)
      subst hcc
      have hin : 2 ≤ c ∧ c < v.clusterCount + 2 := hc c List.mem_cons_self
      rw [chainFrom, if_pos hin, ih cs (fun a ha => hc a (List.mem_cons_of_mem c ha))
        (fun i hi => ?_) (Nat.le_of_succ_le_succ hn) (fun h => ?_)]
      · rfl
      · have := hnext (i + 1) (Nat.succ_lt_succ hi)
        simpa using this
      · have hlen := Nat.le_of_succ_le_succ hn
        have := hnext 0 (by simp only [List.length_cons]; omega)
        simpa using this

theorem readFile_eq (cs : List Nat) (hv : v.Shape) (hc : ∀ c ∈ cs, v.IsCluster c)
    (hnext : ∀ i, i + 1 < cs.length → fatEntry v d 0 (cs.getD i 0) = cs.getD (i + 1) 0)
    (hsize : slotSize d e ≤ cs.length * v.clusterBytes)
    (hfirst : 0 < slotSize d e → slotCluster d e = cs.getD 0 0) :
    readFile v d e = some ((List.range (slotSize d e)).map (chainByte v d cs)) := by
  have hpos := clusterBytes_pos hv
  have hn : (slotSize d e + v.clusterBytes - 1) / v.clusterBytes ≤ cs.length := by
    rw [Nat.div_le_iff_le_mul_add_pred hpos]
    rw [Nat.mul_comm] at hsize
    omega
  have hn0 : 0 < (slotSize d e + v.clusterBytes - 1) / v.clusterBytes → 0 < slotSize d e := by
    intro h
    by_contra h0
    have : (slotSize d e + v.clusterBytes - 1) / v.clusterBytes = 0 :=
      Nat.div_eq_of_lt (by omega)
    omega
  rw [readFile, chainFrom_eq cs hc hnext hn fun h => hfirst (hn0 h), Option.map_some]
  congr 1
  refine List.map_congr_left fun q hq => ?_
  have hq := List.mem_range.mp hq
  have hqn : q / v.clusterBytes < (slotSize d e + v.clusterBytes - 1) / v.clusterBytes := by
    rw [Nat.div_lt_iff_lt_mul hpos]
    have h1 := Nat.div_add_mod (slotSize d e + v.clusterBytes - 1) v.clusterBytes
    have h2 := Nat.mod_lt (slotSize d e + v.clusterBytes - 1) hpos
    rw [Nat.mul_comm] at h1
    omega
  have hsec : chainSector v (cs.take ((slotSize d e + v.clusterBytes - 1) / v.clusterBytes)) q =
      chainSector v cs q := by
    rw [chainSector, chainSector, List.getD_eq_getElem?_getD, List.getD_eq_getElem?_getD,
      List.getElem?_take_of_lt hqn]
  rw [chainByte, chainByte, hsec]

theorem slotSize_congr (h : ∀ i < 32, slotBytes d' e i = slotBytes d e i) :
    slotSize d' e = slotSize d e := by
  simp only [slotSize, le32, le16, h 28 (by omega), h 29 (by omega), h 30 (by omega), h 31 (by omega),
    Nat.reduceAdd]

theorem slotCluster_congr (h : ∀ i < 32, slotBytes d' e i = slotBytes d e i) :
    slotCluster d' e = slotCluster d e := by
  simp only [slotCluster, le16, h 20 (by omega), h 21 (by omega), h 26 (by omega), h 27 (by omega),
    Nat.reduceAdd]

theorem chainFrom_rehinted {v' : FatVolHandle} (h : Rehinted v v') :
    chainFrom v' d n c = chainFrom v d n c := by
  obtain ⟨i, rfl, -⟩ := h
  induction n generalizing c with
  | zero => rfl
  | succ n ih =>
    rw [chainFrom, chainFrom, ih]
    rfl

theorem readFile_rehinted (v' : FatVolHandle) (h : Rehinted v v') : readFile v' d e = readFile v d e := by
  rw [readFile, chainFrom_rehinted h]
  obtain ⟨i, rfl, -⟩ := h
  rfl

-- ---------------------------------------------------------------------------
-- Storing a cluster and a size in a slot
-- ---------------------------------------------------------------------------

/-- The stores of `fat_file_sync` into the sector of its directory entry. -/
def syncDirent (o first size : Nat) (b : Sector) : Sector :=
  put16 (o + 26) (first % 65536) (put16 (o + 20) (first / 65536) (put32 (o + 28) size b))

/-- The bytes of a slot that hold its cluster and its size. -/
def Slot.Field (e : Slot) (n i : Nat) : Prop :=
  n = e.sector ∧ (i = e.offset + 20 ∨ i = e.offset + 21 ∨ e.offset + 26 ≤ i ∧ i < e.offset + 32)

theorem put8_self : put8 o x b o = UInt8.ofNat x := Function.update_self ..

theorem put8_of_ne (h : i ≠ o) : put8 o x b i = b i := Function.update_of_ne h ..

theorem le16_put16 : le16 (put16 o x b) o = x % 65536 := by
  have h : (x % 256 + 256 * (x / 256 % 256)) = x % 65536 := by omega
  rw [le16, put16, put8_of_ne (Nat.ne_of_lt (Nat.lt_succ_self o)), put8_self, put8_self,
    UInt8.toNat_ofNat', UInt8.toNat_ofNat']
  exact h

theorem put16_of_ne (h : i ≠ o) (h' : i ≠ o + 1) : put16 o x b i = b i := by
  rw [put16, put8_of_ne h', put8_of_ne h]

theorem le16_put16_of_ne (h : i + 2 ≤ o ∨ o + 2 ≤ i) : le16 (put16 o x b) i = le16 b i := by
  rw [le16, put16_of_ne (by omega) (by omega), put16_of_ne (by omega) (by omega), le16]

theorem le32_put32 : le32 (put32 o x b) o = x % 2 ^ 32 := by
  have h : x % 65536 + 65536 * (x / 65536 % 65536) = x % 2 ^ 32 := by omega
  rw [le32, put32, le16_put16_of_ne (.inl (Nat.le_refl _)), le16_put16, le16_put16]
  exact h

theorem le16_slotBytes : le16 (slotBytes d e) i = le16 (d e.sector) (e.offset + i) := rfl

theorem slotCluster_sync (hf : first < 2 ^ 32) :
    slotCluster (d.edit e.sector (syncDirent e.offset first size)) e = first := by
  rw [slotCluster, le16_slotBytes, le16_slotBytes, Disk.edit_self, syncDirent,
    le16_put16_of_ne (.inl (by omega)), le16_put16, le16_put16]
  omega

theorem slotSize_sync (hs : size < 2 ^ 32) :
    slotSize (d.edit e.sector (syncDirent e.offset first size)) e = size := by
  have h : le32 (d.edit e.sector (syncDirent e.offset first size) e.sector) (e.offset + 28) = size := by
    rw [Disk.edit_self, syncDirent, le32, le16_put16_of_ne (.inr (by omega)),
      le16_put16_of_ne (.inr (by omega)), le16_put16_of_ne (.inr (by omega)),
      le16_put16_of_ne (.inr (by omega))]
    exact le32_put32.trans (Nat.mod_eq_of_lt hs)
  exact h

theorem syncDirent_of_ne (h : ¬ (i = o + 20 ∨ i = o + 21 ∨ o + 26 ≤ i ∧ i < o + 32)) :
    syncDirent o first size b i = b i := by
  rw [syncDirent, put16_of_ne (by omega) (by omega), put16_of_ne (by omega) (by omega), put32,
    put16_of_ne (by omega) (by omega), put16_of_ne (by omega) (by omega)]

theorem syncDirent_rest (h : ¬ e.Field n i) :
    d.edit e.sector (syncDirent e.offset first size) n i = d n i := by
  by_cases hn : n = e.sector
  · subst hn
    rw [Disk.edit_self, syncDirent_of_ne fun hi => h ⟨rfl, hi⟩]
  · rw [Disk.edit_of_ne _ hn]

theorem syncDirent_congr {b b' : Sector} (h : b j = b' j ∨ j = o + 20 ∨ j = o + 21 ∨ o + 26 ≤ j ∧ j < o + 32) :
    syncDirent o first size b j = syncDirent o first size b' j := by
  simp only [syncDirent, put16, put32, put8, Function.update_apply]
  rcases h with h | h
  · rw [h]
  · obtain ⟨i, rfl⟩ : ∃ i, j = o + i := Nat.exists_eq_add_of_le (by omega)
    have hi : i = 20 ∨ i = 21 ∨ i = 26 ∨ i = 27 ∨ i = 28 ∨ i = 29 ∨ i = 30 ∨ i = 31 := by omega
    simp only [Nat.add_assoc, Nat.add_left_cancel_iff, Nat.reduceAdd]
    rcases hi with rfl | rfl | rfl | rfl | rfl | rfl | rfl | rfl <;> rfl

theorem syncDirent_agree (hn : ¬ v.InFat e.sector) (hB : ∀ n i, e.Field n i → B n i) :
    Agree v C B d (d.edit e.sector (syncDirent e.offset first size)) :=
  ⟨fun _ hk _ hj _ => fatNibble_congr hk hj fun _ hm => Disk.edit_of_ne _ fun h => hn (h ▸ hm),
    fun n i _ hi => syncDirent_rest fun h => hi (hB n i h)⟩

variable {P Q : Disk → Prop} {s : FatState} {r : HandleRef}

/-- A call in two parts, after which the card's writes satisfy `P` and `Q`. -/
def RanThen (P Q : Disk → Prop) (s t : FatState) : Prop := ∃ u, Ran P s u ∧ Ran Q u t

theorem RanThen.mounted (h : RanThen P Q s t) : t.Mounted := by
  obtain ⟨u, -, h⟩ := h
  exact h.mounted

theorem RanThen.quiet (h : RanThen P Q s t) (hq : s.Quiet) : t.Quiet := by
  obtain ⟨u, h, h'⟩ := h
  exact h'.quiet (h.quiet hq)

theorem RanThen.part (h : RanThen P Q s t) : t.part = s.part := by
  obtain ⟨u, h, h'⟩ := h
  exact h'.part.trans h.part

/-- `fat_file_sync` stores the entry and flushes it; a failed write stops it on
the way, with the entry stored or not. -/
theorem fatFileSync_cases (hs : s.Mounted) (hfat : (s.handle r).fat = true)
    (hn : (s.handle r).direntSector < 2 ^ 32) (hc : s.CacheOk (s.handle r).direntSector) (hP : P s.disk)
    (hP' : Q (s.disk.edit (s.handle r).direntSector
      (syncDirent (s.handle r).direntOffset (s.handle r).firstCluster (s.handle r).size))) :
    ∃ a t, fatFileSync r s = .ok a t ∧ RanThen P Q s t ∧ t.vol = s.vol ∧ t.handle = s.handle ∧
      (t.disk = s.disk.edit (s.handle r).direntSector (syncDirent (s.handle r).direntOffset
          (s.handle r).firstCluster (s.handle r).size) ∧ t.Coherent ∧
          (s.Quiet → t.cache.dirty = false) ∨
        ¬ s.Quiet ∧ Ran P s t ∧ t.disk = s.disk ∧ t.cache = s.cache ∧ t.buf = s.buf) := by
  generalize hh : s.handle r = h at *
  rcases edit_cases (P := P) (syncDirent h.direntOffset h.firstCluster h.size) hs hP hn hc with
    ⟨t, hok, hb, hl⟩ | ⟨hq, t, herr, hk, hcache, hbuf⟩
  · have hrun : ∀ k : PUnit → FatM Int, (getHandle r >>= fun h => fatOf h >>= fun _ =>
        getSector h.direntSector >>= fun _ =>
        modifyBuf (syncDirent h.direntOffset h.firstCluster h.size) >>= fun _ =>
        putSector h.direntSector >>= k) s = k ⟨⟩ t := fun k => by
      rw [getHandle_bind, hh, fatOf_bind hfat, hok]
    rcases flush_cases (P := Q) hb.mounted (hb.disk ▸ hP') with
      ⟨u, hrun', hk, hcache, hbuf⟩ | ⟨hq, u, herr, hk, hcache, hbuf⟩
    · refine ⟨0, u, returning_ok ((hrun _).trans (bind_ok hrun')), ⟨t, hb.toRan, hk.toRan⟩,
        hk.vol.trans hb.vol, hk.handle.trans hb.handle, .inl ⟨hk.disk.trans hb.disk, fun n => ?_, fun _ => ?_⟩⟩
      · exact hk.cacheOk (by rw [hcache]) (by rw [hcache]) hbuf (hl.cacheOk n)
      · rw [hcache]
    · refine ⟨_, u, returning_eio ((hrun _).trans (bind_error herr)), ⟨t, hb.toRan, hk.toRan⟩,
        hk.vol.trans hb.vol, hk.handle.trans hb.handle, .inl ⟨hk.disk.trans hb.disk, fun n => ?_, fun h => ?_⟩⟩
      · exact hk.cacheOk (by rw [hcache]) (by rw [hcache]) hbuf (hl.cacheOk n)
      · exact absurd (hb.quiet h) hq
  · refine ⟨_, t, returning_eio ?_, ⟨t, hk.toRan, .refl hk.mounted⟩, hk.vol, hk.handle,
      .inr ⟨hq, hk.toRan, hk.disk, hcache, hbuf⟩⟩
    rw [getHandle_bind, hh, fatOf_bind hfat]
    exact herr _ _

end Stm32Logger
