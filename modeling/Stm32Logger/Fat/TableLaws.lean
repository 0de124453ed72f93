import Stm32Logger.Fat.Table

/-!
# Reading and setting entries

`fatGetNextCluster` gives the entry of copy 0 and leaves the volume alone;
`fatSetNextCluster` sets the entry in every copy and changes nothing else.
-/

namespace Stm32Logger

variable {P : Disk → Prop} {s s' : FatState}

/-- A hit on any sector finds its bytes in the buffer. -/
def FatState.Coherent (s : FatState) : Prop := ∀ n, s.CacheOk n

theorem FatState.Loaded.coherent (h : s.Loaded n) : s.Coherent := h.cacheOk

-- ---------------------------------------------------------------------------
-- Where an entry is
-- ---------------------------------------------------------------------------

section
variable {v : FatVolHandle}

def FatVolHandle.entryByte (v : FatVolHandle) (c : Nat) : Nat := v.type.stride * c / 2

theorem maxClusters_le (t : FatType) : t.maxClusters ≤ 0x0FFFFFF5 := by cases t <;> decide

theorem fatOffset_eq (hv : v.Shape) (hc : v.HasEntry c) : fatOffset v.type c = v.entryByte c := by
  have hm := maxClusters_le v.type
  have hn := hv.count
  have hc : c < v.clusterCount + 2 := hc
  have h3 : 3 * c / 2 = c + c / 2 := by omega
  cases ht : v.type with
  | none => exact absurd ht hv.type
  | _ =>
    simp only [fatOffset, FatVolHandle.entryByte, ht, FatType.stride, u32, h3]
    omega

theorem entryByte_lt (hv : v.Shape) (hc : v.HasEntry c) : v.entryByte c + 1 < 512 * v.fatSize := by
  have he := hv.entries
  have hc : c + 1 ≤ v.clusterCount + 2 := hc
  have hm : v.type.stride * (c + 1) ≤ v.type.stride * (v.clusterCount + 2) :=
    Nat.mul_le_mul_left _ hc
  cases ht : v.type with
  | none => exact absurd ht hv.type
  | _ =>
    simp only [ht, FatType.stride, FatVolHandle.entryByte] at *
    omega

theorem fatEntrySector_eq (hv : v.Shape) (hc : v.HasEntry c) (hk : k < v.numFats) :
    fatEntrySector v k c = (v.fatSector k (v.entryByte c / 512), v.entryByte c % 512) := by
  have he := entryByte_lt hv hc
  have hlt := fatSector_lt hv hk (m := v.entryByte c / 512) (by omega)
  rw [fatEntrySector, fatOffset_eq hv hc, hv.bytes]
  exact congrArg (·, _) (Nat.mod_eq_of_lt hlt)

theorem fatByte_succ (h : o % 512 + i < 512) :
    fatByte v d k (o + i) = d (v.fatSector k (o / 512)) (o % 512 + i) := by
  have h1 : (o + i) / 512 = o / 512 := by omega
  have h2 : (o + i) % 512 = o % 512 + i := by omega
  rw [fatByte, h1, h2]

theorem le16_fat (h : o % 512 + 1 < 512) :
    le16 (d (v.fatSector k (o / 512))) (o % 512) =
      (fatByte v d k o).toNat + 256 * (fatByte v d k (o + 1)).toNat := by
  rw [le16, fatByte_succ h, fatByte]

theorem le32_fat (h : o % 512 + 3 < 512) :
    le32 (d (v.fatSector k (o / 512))) (o % 512) =
      (fatByte v d k o).toNat + 256 * (fatByte v d k (o + 1)).toNat +
        65536 * ((fatByte v d k (o + 2)).toNat + 256 * (fatByte v d k (o + 3)).toNat) := by
  rw [le32, le16_fat (by omega), le16, fatByte_succ (i := 2) (by omega), fatByte_succ (i := 3) h]

end

-- ---------------------------------------------------------------------------
-- Reading
-- ---------------------------------------------------------------------------

/-- The sector `_fat_get_next_cluster` looks at first, for any number there is:
behind the FAT, and from 0 again after 2^32. -/
def fatNextSector (v : FatVolHandle) (c : Nat) : Nat := u32 (v.reservedSectorCount + fatOffset v.type c / 512)

theorem fatNextSector_eq (hv : v.Shape) (hc : v.HasEntry c) :
    fatNextSector v c = v.fatSector 0 (v.entryByte c / 512) := by
  have he := entryByte_lt hv hc
  have hlt := fatSector_lt hv hv.numFats (m := v.entryByte c / 512) (by omega)
  rw [fatNextSector, fatOffset_eq hv hc]
  rw [FatVolHandle.fatSector] at hlt ⊢
  rw [u32, Nat.mod_eq_of_lt (by omega)]
  omega

def fatNext (v : FatVolHandle) (d : Disk) (c : Nat) : Nat :=
  let offset := fatOffset v.type c
  let sector := fatNextSector v c
  match v.type with
  | .none => 0
  | .fat12 =>
    let word :=
      if offset % 512 = 511 then (d sector 511).toNat + 256 * (d (u32 (sector + 1)) 0).toNat
      else le16 (d sector) (offset % 512)
    if c % 2 = 1 then word / 16 else word % 4096
  | .fat16 => le16 (d sector) (offset % 512)
  | .fat32 => le32 (d sector) (offset % 512) % 2 ^ 28

theorem fatNext_lt (v : FatVolHandle) (d : Disk) (c : Nat) : fatNext v d c < 2 ^ 28 := by
  rw [fatNext]
  cases v.type with
  | none => exact Nat.two_pow_pos 28
  | fat12 =>
    have hword : (if fatOffset .fat12 c % 512 = 511 then
        (d (fatNextSector v c) 511).toNat + 256 * (d (u32 (fatNextSector v c + 1)) 0).toNat
        else le16 (d (fatNextSector v c)) (fatOffset .fat12 c % 512)) < 65536 := by
      split
      · have h1 := (d (fatNextSector v c) 511).toNat_lt
        have h2 := (d (u32 (fatNextSector v c + 1)) 0).toNat_lt
        omega
      · exact le16_lt ..
    dsimp only
    split
    · omega
    · omega
  | fat16 => exact Nat.lt_trans (le16_lt ..) (by decide)
  | fat32 => exact Nat.mod_lt _ (by decide)

theorem fatNext_eq (hv : v.Shape) (hc : v.HasEntry c) : fatNext v d c = fatEntry v d 0 c := by
  have he := entryByte_lt hv hc
  rw [fatNext, fatNextSector_eq hv hc, fatOffset_eq hv hc]
  cases ht : v.type with
  | none => exact absurd ht hv.type
  | fat12 =>
    have ho : v.entryByte c = c + c / 2 := by
      simp only [FatVolHandle.entryByte, ht, FatType.stride]
      omega
    by_cases hstr : v.entryByte c % 512 = 511
    · have hnext : v.fatSector 0 (v.entryByte c / 512) + 1 = v.fatSector 0 ((v.entryByte c + 1) / 512) := by
        simp only [FatVolHandle.fatSector]
        omega
      have hlt' := fatSector_lt hv hv.numFats (m := (v.entryByte c + 1) / 512) (by omega)
      have hfst : d (v.fatSector 0 (v.entryByte c / 512)) 511 = fatByte v d 0 (v.entryByte c) := by
        rw [fatByte, hstr]
      have hsnd : d (v.fatSector 0 ((v.entryByte c + 1) / 512)) 0 = fatByte v d 0 (v.entryByte c + 1) := by
        have h0 : (v.entryByte c + 1) % 512 = 0 := by omega
        rw [fatByte, h0]
      simp only [hstr, if_true, hnext, u32, Nat.mod_eq_of_lt hlt', hfst, hsnd, fatEntry, ht, ← ho]
    · simp only [hstr, if_false]
      rw [le16_fat (by omega)]
      simp only [fatEntry, ht, ho]
  | fat16 =>
    have ho : v.entryByte c = 2 * c := by
      simp only [FatVolHandle.entryByte, ht, FatType.stride]
      omega
    dsimp only
    rw [le16_fat (by omega)]
    simp only [fatEntry, ht, ho]
  | fat32 =>
    have ho : v.entryByte c = 4 * c := by
      simp only [FatVolHandle.entryByte, ht, FatType.stride]
      omega
    dsimp only
    rw [le32_fat (by omega)]
    simp only [fatEntry, ht, ho]

theorem fatGetNextCluster_next (hs : s.Mounted) (hq : s.Quiet) (hb : s.vol.bytesPerSector = 512) (hP : P s.disk)
    (hok : s.CacheOk (fatNextSector s.vol c)) :
    ∃ s', fatGetNextCluster c s = .ok (fatNext s.vol s.disk c) s' ∧ Kept P s s' ∧ s'.Coherent := by
  have hlt : ∀ n, u32 n < 2 ^ 32 := fun n => Nat.mod_lt n (by decide)
  obtain ⟨t, hget, hk, hl⟩ := get_run (P := P) (n := fatNextSector s.vol c) hs hq hP (hlt _) hok
  have hbuf : t.buf = s.disk (fatNextSector s.vol c) := by
    rw [hl.buf, hk.disk]
  have hsec : u32 (s.vol.reservedSectorCount + fatOffset s.vol.type c / 512) = fatNextSector s.vol c := rfl
  cases ht : s.vol.type with
  | fat12 =>
    rw [ht] at hsec
    by_cases hstr : fatOffset .fat12 c % 512 = 511
    · obtain ⟨u, hget', hk', hl'⟩ := get_run hk.mounted (hk.quiet hq) (hk.disk ▸ hP)
        (hlt (fatNextSector s.vol c + 1)) (hl.cacheOk _)
      refine ⟨u, returning_ok ?_, hk.trans hk', hl'.coherent⟩
      rw [getVol_bind, hb, ht, hsec, bind_ok hget, get_bind]
      simp only [hstr, if_true]
      rw [bind_ok hget', get_bind, pure_run]
      simp only [fatNext, ht, hstr, if_true, hbuf, hl'.buf, hk'.disk, hk.disk]
    · refine ⟨t, returning_ok ?_, hk, hl.coherent⟩
      rw [getVol_bind, hb, ht, hsec, bind_ok hget, get_bind]
      simp only [hstr, if_false, pure_run, hbuf, fatNext, ht]
  | _ =>
    rw [ht] at hsec
    refine ⟨t, returning_ok ?_, hk, hl.coherent⟩
    rw [getVol_bind, hb, ht, hsec, bind_ok hget, get_bind]
    simp only [pure_run, hbuf, fatNext, ht]

theorem fatGetNextCluster_run (hs : s.Mounted) (hq : s.Quiet) (hv : s.vol.Shape)
    (hc : s.vol.HasEntry c) (hP : P s.disk)
    (hok : s.CacheOk (s.vol.fatSector 0 (s.vol.entryByte c / 512))) :
    ∃ s', fatGetNextCluster c s = .ok (fatEntry s.vol s.disk 0 c) s' ∧ Kept P s s' ∧ s'.Coherent := by
  rw [← fatNext_eq hv hc]
  rw [← fatNextSector_eq hv hc] at hok
  exact fatGetNextCluster_next hs hq hv.bytes hP hok

-- ---------------------------------------------------------------------------
-- Setting
-- ---------------------------------------------------------------------------

theorem Disk.edit_congr {d : Disk} (h : f (d n) = g (d n)) : d.edit n f = d.edit n g := by
  rw [Disk.edit, Disk.edit, h]

theorem Disk.edit_edit (d : Disk) : (d.edit n f).edit n g = d.edit n fun b => g (f b) := by
  rw [Disk.edit, Disk.edit_self, Disk.edit, Function.update_idem, Disk.edit]

section
variable {v : FatVolHandle} {d : Disk}

theorem edit_put16 (h : o % 512 + 1 < 512) :
    d.edit (v.fatSector k (o / 512)) (put16 (o % 512) w) = v.poke k o [w, w / 256] d := by
  have h1 : (o + 1) / 512 = o / 512 := by omega
  have h2 : (o + 1) % 512 = o % 512 + 1 := by omega
  simp only [FatVolHandle.poke, h1, h2, Disk.edit_edit]
  rfl

theorem edit_put32 (h : o % 512 + 3 < 512) :
    d.edit (v.fatSector k (o / 512)) (put32 (o % 512) w) =
      v.poke k o [w, w / 256, w / 65536, w / 65536 / 256] d := by
  have h1 : (o + 1) / 512 = o / 512 := by omega
  have h2 : (o + 1) % 512 = o % 512 + 1 := by omega
  have h3 : (o + 1 + 1) / 512 = o / 512 := by omega
  have h4 : (o + 1 + 1) % 512 = o % 512 + 2 := by omega
  have h5 : (o + 1 + 1 + 1) / 512 = o / 512 := by omega
  have h6 : (o + 1 + 1 + 1) % 512 = o % 512 + 2 + 1 := by omega
  simp only [FatVolHandle.poke, h1, h2, h3, h4, h5, h6, Disk.edit_edit]
  rfl

end

/-- What setting an entry leads to; copy `k` was the last to be written. -/
structure EntryWritten (P : Disk → Prop) (K : Nat → Prop) (k c x : Nat) (s s' : FatState) : Prop where
  became : Became P s'.disk s s'
  set : EntrySet s.vol K c x s.disk s'.disk
  coherent : s'.Coherent
  label : ∃ m < s.vol.fatSize, s'.cache.sector = s.vol.fatSector k m

theorem fat16SetNextCluster_run (hs : s.Mounted) (hq : s.Quiet) (hv : s.vol.Shape)
    (ht : s.vol.type = .fat16) (hc : s.vol.HasEntry c) (hk : k < s.vol.numFats) (hx : x < 65536)
    (hP : P s.disk) (hok : s.CacheOk (s.vol.fatSector k (s.vol.entryByte c / 512))) :
    ∃ s', fat16SetNextCluster k c x s = .ok 0 s' ∧ EntryWritten P (· = k) k c x s s' := by
  have he := entryByte_lt hv hc
  have hlt := fatSector_lt hv hk (m := s.vol.entryByte c / 512) (by omega)
  have hcount := hv.count
  have hc' : c < s.vol.clusterCount + 2 := hc
  simp only [ht, FatType.maxClusters] at hcount
  have ho : s.vol.entryByte c = 2 * c := by
    simp only [FatVolHandle.entryByte, ht, FatType.stride]
    omega
  have hu : u16 c = c := Nat.mod_eq_of_lt (by omega)
  have hux : u16 x = x := Nat.mod_eq_of_lt hx
  obtain ⟨t, hrun, hb, hl⟩ := edit_run (P := P) (put16 (s.vol.entryByte c % 512) x) hs hq hP hlt hok
  rw [edit_put16 (by omega)] at hb
  refine ⟨t, returning_ok ?_, hb.disk ▸ hb, ?_, hl.coherent, _, by omega, hl.label⟩
  · rw [getVol_bind, hu, hux, fatEntrySector_eq hv hc hk]
    exact hrun _ _
  · rw [hb.disk]
    refine poke_set hv hc hk (by simp only [List.length_cons, List.length_nil]; omega) ?_ ?_
    · rintro j ⟨hj, hj'⟩
      simp only [ht, FatType.stride, FatType.width, ho, List.length_cons, List.length_nil] at hj hj' ⊢
      obtain ⟨i, rfl⟩ := Nat.exists_eq_add_of_le hj
      have hi : i < 4 := by omega
      have e1 : (4 * c + i) / 2 - 2 * c = i / 2 := by omega
      have e2 : (4 * c + i) % 2 = i % 2 := by omega
      refine ⟨by omega, by omega, ?_⟩
      rw [e1, e2, Nat.add_sub_cancel_left]
      interval_cases i <;> simp <;> omega
    · intro j hj hj' hn
      simp only [FatVolHandle.InEntry, ht, FatType.stride, FatType.width, ho, List.length_cons,
        List.length_nil] at hj hj' hn
      omega

theorem fat32SetNextCluster_run (hs : s.Mounted) (hq : s.Quiet) (hv : s.vol.Shape)
    (ht : s.vol.type = .fat32) (hc : s.vol.HasEntry c) (hk : k < s.vol.numFats) (hx : x < 2 ^ 28)
    (hP : P s.disk) (hok : s.CacheOk (s.vol.fatSector k (s.vol.entryByte c / 512))) :
    ∃ s', fat32SetNextCluster k c x s = .ok 0 s' ∧ EntryWritten P (· = k) k c x s s' := by
  have he := entryByte_lt hv hc
  have hlt := fatSector_lt hv hk (m := s.vol.entryByte c / 512) (by omega)
  have hlen := hv.entries
  have hc' : c < s.vol.clusterCount + 2 := hc
  simp only [ht, FatType.stride] at hlen
  have ho : s.vol.entryByte c = 4 * c := by
    simp only [FatVolHandle.entryByte, ht, FatType.stride]
    omega
  let n := s.vol.fatSector k (s.vol.entryByte c / 512)
  let f (b : Sector) : Sector := put32 (s.vol.entryByte c % 512)
    (x % 2 ^ 28 + le32 b (s.vol.entryByte c % 512) / 2 ^ 28 * 2 ^ 28) b
  obtain ⟨w, hw⟩ : ∃ w, w = x % 2 ^ 28 +
    le32 (s.disk n) (s.vol.entryByte c % 512) / 2 ^ 28 * 2 ^ 28 := ⟨_, rfl⟩
  obtain ⟨t, hrun, hb, hl⟩ := edit_run (P := P) f hs hq hP hlt hok
  have hedit : s.disk.edit n f =
      s.vol.poke k (s.vol.entryByte c) [w, w / 256, w / 65536, w / 65536 / 256] s.disk := by
    rw [← edit_put32 (by omega)]
    exact Disk.edit_congr (by simp only [f, hw])
  rw [hedit] at hb
  refine ⟨t, returning_ok ?_, hb.disk ▸ hb, ?_, hl.coherent, _, by omega, hl.label⟩
  · rw [getVol_bind, fatEntrySector_eq hv hc hk]
    exact hrun _ _
  · have hold : le32 (s.disk n) (s.vol.entryByte c % 512) / 2 ^ 28 =
        (fatByte s.vol s.disk k (s.vol.entryByte c + 3)).toNat / 16 := by
      have hb (i : Nat) := (fatByte s.vol s.disk k i).toNat_lt
      have h0 := hb (s.vol.entryByte c)
      have h1 := hb (s.vol.entryByte c + 1)
      have h2 := hb (s.vol.entryByte c + 2)
      rw [le32_fat (by omega)]
      omega
    rw [hold, Nat.mod_eq_of_lt hx] at hw
    rw [hb.disk]
    refine poke_set hv hc hk (by simp only [List.length_cons, List.length_nil]; omega) ?_ ?_
    · rintro j ⟨hj, hj'⟩
      simp only [ht, FatType.stride, FatType.width, ho, List.length_cons, List.length_nil] at hj hj' ⊢
      obtain ⟨i, rfl⟩ := Nat.exists_eq_add_of_le hj
      have hi : i < 7 := by omega
      have e1 : (8 * c + i) / 2 - 4 * c = i / 2 := by omega
      have e2 : (8 * c + i) % 2 = i % 2 := by omega
      refine ⟨by omega, by omega, ?_⟩
      rw [e1, e2, Nat.add_sub_cancel_left, hw]
      generalize (fatByte s.vol s.disk k (s.vol.entryByte c + 3)).toNat / 16 = high
      interval_cases i <;>
        simp only [Nat.reduceDiv, Nat.reduceMod, Nat.reducePow, List.getD_cons_succ,
          List.getD_cons_zero, pow_zero, pow_one, Nat.div_one] <;>
        omega
    · intro j hj hj' hn
      simp only [FatVolHandle.InEntry, ht, FatType.stride, FatType.width, ho, List.length_cons,
        List.length_nil] at hj hj' hn
      have e : j = 2 * (4 * c + 3) + 1 := by omega
      have hlt := (fatByte s.vol s.disk k (4 * c + 3)).toNat_lt
      subst e
      rw [fatNibble_odd, hw, ho]
      have e1 : (2 * (4 * c + 3) + 1) / 2 - 4 * c = 3 := by omega
      have e2 : (2 * (4 * c + 3) + 1) % 2 = 1 := by omega
      rw [e1, e2]
      simp only [List.getD_cons_succ, List.getD_cons_zero, pow_one]
      generalize (fatByte s.vol s.disk k (4 * c + 3)).toNat = byte at hlt ⊢
      omega

/-- The two bytes `fat12_set_next_cluster` leaves in place of the entry's. -/
def fat12Bytes (v : FatVolHandle) (d : Disk) (k c x : Nat) : Nat × Nat :=
  let o := v.entryByte c
  if c % 2 = 1 then ((fatByte v d k o).toNat % 16 + x % 16 * 16, x / 16)
  else (x % 256, (fatByte v d k (o + 1)).toNat / 16 * 16 + x / 256)

theorem fat12_poke_set {v : FatVolHandle} {d : Disk} (hv : v.Shape) (ht : v.type = .fat12)
    (hc : v.HasEntry c) (hk : k < v.numFats) (hx : x < 4096) :
    EntrySet v (· = k) c x d
      (v.poke k (v.entryByte c) [(fat12Bytes v d k c x).1, (fat12Bytes v d k c x).2] d) ∧
    Agree v (· = c) (fun _ _ => False) d
      (v.poke k (v.entryByte c) [(fat12Bytes v d k c x).1] d) := by
  have he := entryByte_lt hv hc
  have ho : v.entryByte c = 3 * c / 2 := by simp only [FatVolHandle.entryByte, ht, FatType.stride]
  have h0 := (fatByte v d k (v.entryByte c)).toNat_lt
  have h1 := (fatByte v d k (v.entryByte c + 1)).toNat_lt
  refine ⟨poke_set hv hc hk (by simp only [List.length_cons, List.length_nil]; omega) ?_ ?_,
    poke_agree hk (by simp only [List.length_cons, List.length_nil]; omega) (c := c) rfl ?_⟩
  · rintro j ⟨hj, hj'⟩
    simp only [ht, FatType.stride, FatType.width, List.length_cons, List.length_nil] at hj hj' ⊢
    obtain ⟨i, rfl⟩ := Nat.exists_eq_add_of_le hj
    have hi : i < 3 := by omega
    refine ⟨by omega, by omega, ?_⟩
    rw [Nat.add_sub_cancel_left]
    rcases Nat.even_or_odd' c with ⟨m, rfl | rfl⟩
    · have e0 : v.entryByte (2 * m) = 3 * m := by omega
      have e1 : (3 * (2 * m) + i) / 2 - 3 * m = i / 2 := by omega
      have e2 : (3 * (2 * m) + i) % 2 = i % 2 := by omega
      have e3 : ¬ 2 * m % 2 = 1 := by omega
      simp only [fat12Bytes, e0, e1, e2, e3, if_false]
      interval_cases i <;> simp
      omega
    · have e0 : v.entryByte (2 * m + 1) = 3 * m + 1 := by omega
      have e1 : (3 * (2 * m + 1) + i) / 2 - (3 * m + 1) = (i + 1) / 2 := by omega
      have e2 : (3 * (2 * m + 1) + i) % 2 = (i + 1) % 2 := by omega
      have e3 : (2 * m + 1) % 2 = 1 := by omega
      simp only [fat12Bytes, e0, e1, e2, e3, if_true]
      interval_cases i <;> simp <;> omega
  · intro j hj hj' hn
    simp only [FatVolHandle.InEntry, ht, FatType.stride, FatType.width, List.length_cons,
      List.length_nil] at hj hj' hn
    rcases Nat.even_or_odd' c with ⟨m, rfl | rfl⟩
    · have e0 : v.entryByte (2 * m) = 3 * m := by omega
      have e1 : j = 2 * (3 * m + 1) + 1 := by omega
      have e2 : j / 2 - 3 * m = 1 := by omega
      have e3 : ¬ 2 * m % 2 = 1 := by omega
      have e4 : j % 2 = 1 := by omega
      rw [e0] at h1
      rw [e0, e2, e4, e1, fatNibble_odd]
      simp only [fat12Bytes, e0, e3, if_false, List.getD_cons_succ, List.getD_cons_zero]
      omega
    · have e0 : v.entryByte (2 * m + 1) = 3 * m + 1 := by omega
      have e1 : j = 2 * (3 * m + 1) := by omega
      have e2 : j / 2 - (3 * m + 1) = 0 := by omega
      have e3 : (2 * m + 1) % 2 = 1 := by omega
      have e4 : j % 2 = 0 := by omega
      rw [e0] at h0
      rw [e0, e2, e4, e1, fatNibble_even]
      simp only [fat12Bytes, e0, e3, if_true, List.getD_cons_zero]
      omega
  · intro j hj hj' hn
    simp only [FatVolHandle.InEntry, ht, FatType.stride, FatType.width, List.length_cons,
      List.length_nil] at hj hj' hn
    rcases Nat.even_or_odd' c with ⟨m, rfl | rfl⟩
    · omega
    · have e0 : v.entryByte (2 * m + 1) = 3 * m + 1 := by omega
      have e1 : j = 2 * (3 * m + 1) := by omega
      have e2 : j / 2 - (3 * m + 1) = 0 := by omega
      have e3 : (2 * m + 1) % 2 = 1 := by omega
      have e4 : j % 2 = 0 := by omega
      rw [e0] at h0
      rw [e0, e2, e4, e1, fatNibble_even]
      simp only [fat12Bytes, e0, e3, if_true, List.getD_cons_zero]
      omega

theorem put8_congr (h : a % 256 = b % 256) : put8 o a = put8 o b := by
  funext s
  have : UInt8.ofNat a = UInt8.ofNat b := by
    rw [← UInt8.toNat_inj, UInt8.toNat_ofNat', UInt8.toNat_ofNat', h]
  simp only [put8, this]

theorem poke_congr {v : FatVolHandle} (h : a % 256 = a' % 256) (h' : b % 256 = b' % 256) :
    v.poke k o [a, b] = v.poke k o [a', b'] := by
  funext d
  simp only [FatVolHandle.poke, put8_congr h, put8_congr h']

theorem fat12_word {v : FatVolHandle} {d : Disk} (hx : x < 4096) (h : v.entryByte c % 512 + 1 < 512) :
    let old := le16 (d (v.fatSector k (v.entryByte c / 512))) (v.entryByte c % 512)
    let w := if c % 2 = 1 then u16 (x * 16) + old % 16 else x % 4096 + old / 4096 * 4096
    w % 256 = (fat12Bytes v d k c x).1 % 256 ∧ w / 256 % 256 = (fat12Bytes v d k c x).2 % 256 := by
  have h0 := (fatByte v d k (v.entryByte c)).toNat_lt
  have h1 := (fatByte v d k (v.entryByte c + 1)).toNat_lt
  rw [le16_fat h]
  simp only [fat12Bytes, u16]
  split
  · constructor <;> omega
  · constructor <;> omega

theorem fat12_straddle (f g : Sector → Sector) (hs : s.Mounted) (hq : s.Quiet) (hv : s.vol.Shape)
    (ht : s.vol.type = .fat12) (hc : s.vol.HasEntry c) (hk : k < s.vol.numFats) (hx : x < 4096)
    (hP : ∀ d, Agree s.vol (· = c) (fun _ _ => False) s.disk d → P d)
    (hok : s.CacheOk (s.vol.fatSector k (s.vol.entryByte c / 512))) (hstr : s.vol.entryByte c % 512 = 511)
    (hf : f (s.disk (s.vol.fatSector k (s.vol.entryByte c / 512))) =
    put8 511 (fat12Bytes s.vol s.disk k c x).1 (s.disk (s.vol.fatSector k (s.vol.entryByte c / 512))))
    (hg : g (s.disk (s.vol.fatSector k (s.vol.entryByte c / 512) + 1)) =
    put8 0 (fat12Bytes s.vol s.disk k c x).2 (s.disk (s.vol.fatSector k (s.vol.entryByte c / 512) + 1))) :
    ∃ s', (∀ (β : Type) (m : PUnit → FatM β),
        (getSector (s.vol.fatSector k (s.vol.entryByte c / 512)) >>= fun _ => modifyBuf f >>= fun _ =>
          putSector (s.vol.fatSector k (s.vol.entryByte c / 512)) >>= fun _ =>
          getSector (u32 (s.vol.fatSector k (s.vol.entryByte c / 512) + 1)) >>= fun _ =>
          modifyBuf g >>= fun _ =>
          putSector (u32 (s.vol.fatSector k (s.vol.entryByte c / 512) + 1)) >>= m) s = m ⟨⟩ s') ∧
      EntryWritten P (· = k) k c x s s' := by
  have he := entryByte_lt hv hc
  have hlt := fatSector_lt hv hk (m := s.vol.entryByte c / 512) (by omega)
  have hlt' := fatSector_lt hv hk (m := (s.vol.entryByte c + 1) / 512) (by omega)
  have hmod : (s.vol.entryByte c + 1) % 512 = 0 := by omega
  have hnext : s.vol.fatSector k (s.vol.entryByte c / 512) + 1 =
      s.vol.fatSector k ((s.vol.entryByte c + 1) / 512) := by
    simp only [FatVolHandle.fatSector]
    omega
  obtain ⟨hset, hag⟩ := fat12_poke_set (d := s.disk) hv ht hc hk hx
  obtain ⟨t, hrun, hb, hl⟩ := edit_run (P := P) f hs hq (hP _ (.refl ..)) hlt hok
  have hedit : s.disk.edit (s.vol.fatSector k (s.vol.entryByte c / 512)) f =
      s.vol.poke k (s.vol.entryByte c) [(fat12Bytes s.vol s.disk k c x).1] s.disk := by
    rw [Disk.edit_congr hf, ← hstr]
    rfl
  have hkeep : t.disk (s.vol.fatSector k ((s.vol.entryByte c + 1) / 512)) =
      s.disk (s.vol.fatSector k ((s.vol.entryByte c + 1) / 512)) := by
    rw [hb.disk, Disk.edit_of_ne _ (by omega)]
  rw [hedit] at hb
  obtain ⟨u, hrun', hb', hl'⟩ := edit_run (P := P) g hb.mounted (hb.quiet hq)
    (hb.disk ▸ hP _ hag) hlt' (hl.cacheOk _)
  have hedit' : t.disk.edit (s.vol.fatSector k ((s.vol.entryByte c + 1) / 512)) g =
      s.vol.poke k (s.vol.entryByte c)
        [(fat12Bytes s.vol s.disk k c x).1, (fat12Bytes s.vol s.disk k c x).2] s.disk := by
    rw [hnext] at hg
    rw [Disk.edit_congr (g := put8 ((s.vol.entryByte c + 1) % 512) (fat12Bytes s.vol s.disk k c x).2)
      (by rw [hkeep, hg, hmod]), hb.disk]
    rfl
  rw [hedit'] at hb'
  refine ⟨u, fun β m => ?_, hb'.disk ▸ hb.trans hb', hb'.disk ▸ hset, hl'.coherent, _, by omega,
    hl'.label⟩
  rw [hrun, hnext, u32, Nat.mod_eq_of_lt hlt', hrun']

theorem fat12SetNextCluster_run (hs : s.Mounted) (hq : s.Quiet) (hv : s.vol.Shape)
    (ht : s.vol.type = .fat12) (hc : s.vol.HasEntry c) (hk : k < s.vol.numFats) (hx : x < 4096)
    (hP : ∀ d, Agree s.vol (· = c) (fun _ _ => False) s.disk d → P d)
    (hok : s.CacheOk (s.vol.fatSector k (s.vol.entryByte c / 512))) :
    ∃ s', fat12SetNextCluster k c x s = .ok 0 s' ∧ EntryWritten P (· = k) k c x s s' := by
  have he := entryByte_lt hv hc
  have hlt := fatSector_lt hv hk (m := s.vol.entryByte c / 512) (by omega)
  have hcount := hv.count
  have hc' : c < s.vol.clusterCount + 2 := hc
  simp only [ht, FatType.maxClusters] at hcount
  have hu : u16 c = c := Nat.mod_eq_of_lt (by omega)
  have hux : u16 x = x := Nat.mod_eq_of_lt (by omega)
  obtain ⟨hset, hag⟩ := fat12_poke_set (d := s.disk) hv ht hc hk hx
  by_cases hstr : s.vol.entryByte c % 512 = 511
  · have hold : (s.disk (s.vol.fatSector k (s.vol.entryByte c / 512)) 511).toNat =
        (fatByte s.vol s.disk k (s.vol.entryByte c)).toNat := by rw [fatByte, hstr]
    have hold' : (s.disk (s.vol.fatSector k (s.vol.entryByte c / 512) + 1) 0).toNat =
        (fatByte s.vol s.disk k (s.vol.entryByte c + 1)).toNat := by
      have h1 : (s.vol.entryByte c + 1) / 512 = s.vol.entryByte c / 512 + 1 := by omega
      have h2 : (s.vol.entryByte c + 1) % 512 = 0 := by omega
      rw [fatByte, h1, h2]
      rfl
    have hu16 : u16 (x * 16) = x * 16 := Nat.mod_eq_of_lt (by omega)
    by_cases hodd : c % 2 = 1
    · have hb : fat12Bytes s.vol s.disk k c x =
          ((s.disk (s.vol.fatSector k (s.vol.entryByte c / 512)) 511).toNat % 16 +
            u16 (x * 16) / 16 % 16 * 16, u16 (x * 16) / 256) := by
        rw [fat12Bytes, if_pos hodd, hold, hu16, Prod.mk.injEq]
        constructor <;> omega
      obtain ⟨t, hrun, hw⟩ := fat12_straddle (P := P) (x := x)
        (fun b => put8 511 ((b 511).toNat % 16 + u16 (x * 16) / 16 % 16 * 16) b)
        (put8 0 (u16 (x * 16) / 256)) hs hq hv ht hc hk hx hP hok hstr (by rw [hb]) (by rw [hb])
      refine ⟨t, returning_ok ?_, hw⟩
      rw [getVol_bind, hu, hux, fatEntrySector_eq hv hc hk, hv.bytes]
      simp only [hstr, hodd, if_true]
      exact hrun _ _
    · have hb : fat12Bytes s.vol s.disk k c x =
          (x % 256, (s.disk (s.vol.fatSector k (s.vol.entryByte c / 512) + 1) 0).toNat / 16 * 16 +
            x / 256 % 16) := by
        rw [fat12Bytes, if_neg hodd, hold', Prod.mk.injEq]
        exact ⟨rfl, by omega⟩
      obtain ⟨t, hrun, hw⟩ := fat12_straddle (P := P) (x := x) (put8 511 (x % 256))
        (fun b => put8 0 ((b 0).toNat / 16 * 16 + x / 256 % 16) b) hs hq hv ht hc hk hx hP hok hstr
        (by rw [hb]) (by rw [hb])
      refine ⟨t, returning_ok ?_, hw⟩
      rw [getVol_bind, hu, hux, fatEntrySector_eq hv hc hk, hv.bytes]
      simp only [hstr, hodd, if_true, if_false]
      exact hrun _ _
  · let f (b : Sector) : Sector :=
      let next :=
        if c % 2 = 1 then u16 (x * 16) + le16 b (s.vol.entryByte c % 512) % 16
        else x % 4096 + le16 b (s.vol.entryByte c % 512) / 4096 * 4096
      put16 (s.vol.entryByte c % 512) next b
    obtain ⟨t, hrun, hb, hl⟩ := edit_run (P := P) f hs hq (hP _ (.refl ..)) hlt hok
    obtain ⟨h1, h2⟩ := fat12_word (k := k) (d := s.disk) hx
      (show s.vol.entryByte c % 512 + 1 < 512 by omega)
    have hedit : s.disk.edit (s.vol.fatSector k (s.vol.entryByte c / 512)) f =
        s.vol.poke k (s.vol.entryByte c)
          [(fat12Bytes s.vol s.disk k c x).1, (fat12Bytes s.vol s.disk k c x).2] s.disk := by
      rw [← poke_congr h1 h2, ← edit_put16 (by omega)]
      exact Disk.edit_congr rfl
    rw [hedit] at hb
    refine ⟨t, returning_ok ?_, hb.disk ▸ hb, hb.disk ▸ hset, hl.coherent, _, by omega, hl.label⟩
    rw [getVol_bind, hu, hux, fatEntrySector_eq hv hc hk, hv.bytes]
    simp only [hstr, if_false]
    exact hrun _ _

theorem fatSetNextOne_run (hs : s.Mounted) (hq : s.Quiet) (hv : s.vol.Shape)
    (hc : s.vol.HasEntry c) (hk : k < s.vol.numFats) (hx : x < 16 ^ s.vol.type.width)
    (hP : ∀ d, Agree s.vol (· = c) (fun _ _ => False) s.disk d → P d)
    (hok : s.CacheOk (s.vol.fatSector k (s.vol.entryByte c / 512))) :
    ∃ s', fatSetNextOne k c x s = .ok 0 s' ∧ EntryWritten P (· = k) k c x s s' := by
  simp only [fatSetNextOne, getVol_bind]
  cases ht : s.vol.type with
  | none => exact absurd ht hv.type
  | fat12 => exact fat12SetNextCluster_run hs hq hv ht hc hk (by simpa [ht, FatType.width] using hx) hP hok
  | fat16 =>
    exact fat16SetNextCluster_run hs hq hv ht hc hk (by simpa [ht, FatType.width] using hx)
      (hP _ (.refl ..)) hok
  | fat32 =>
    exact fat32SetNextCluster_run hs hq hv ht hc hk (by simpa [ht, FatType.width] using hx)
      (hP _ (.refl ..)) hok

theorem setNextLoop_run (n k : Nat) (hs : s.Mounted) (hq : s.Quiet) (hv : s.vol.Shape)
    (hc : s.vol.HasEntry c) (hk : k + n = s.vol.numFats) (hx : x < 16 ^ s.vol.type.width)
    (hP : ∀ d, Agree s.vol (· = c) (fun _ _ => False) s.disk d → P d)
    (hok : 0 < n → s.CacheOk (s.vol.fatSector k (s.vol.entryByte c / 512))) :
    ∃ s', setNextLoop c x n k 0 s = .ok 0 s' ∧ Became P s'.disk s s' ∧
      EntrySet s.vol (k ≤ ·) c x s.disk s'.disk ∧ (0 < n ∨ s.Coherent → s'.Coherent) ∧
      ((0 < n ∨ ∃ m < s.vol.fatSize, s.cache.sector = s.vol.fatSector (s.vol.numFats - 1) m) →
        ∃ m < s.vol.fatSize, s'.cache.sector = s.vol.fatSector (s.vol.numFats - 1) m) := by
  induction n generalizing s k with
  | zero =>
    refine ⟨s, rfl, Kept.refl hs,
      ⟨fun k' hk' h => by omega, fun _ _ _ _ _ => rfl, fun _ _ => rfl, fun _ _ _ => rfl⟩,
      fun h => h.resolve_left (Nat.lt_irrefl 0), fun h => h.resolve_left (Nat.lt_irrefl 0)⟩
  | succ n ih =>
    obtain ⟨t, hrun, hw⟩ := fatSetNextOne_run (P := P) hs hq hv hc (by omega) hx hP (hok (by omega))
    have hvol := hw.became.vol
    have hag : Agree s.vol (· = c) (fun _ _ => False) s.disk t.disk := hw.set.agree rfl
    obtain ⟨u, hrun', hb, hset, hco, hlab⟩ := ih (k + 1) hw.became.mounted (hw.became.quiet hq)
      (hvol ▸ hv) (hvol ▸ hc) (by rw [hvol]; omega) (hvol ▸ hx)
      (fun d hd => hP d (hag.trans (hvol ▸ hd))) (fun _ => hw.coherent _)
    refine ⟨u, ?_, hw.became.trans hb, ?_, fun _ => hco (.inr hw.coherent), fun _ => ?_⟩
    · rw [setNextLoop, bind_ok hrun]
      exact hrun'
    · rw [hvol] at hset
      have := hw.set.trans hv hc hset
      refine ⟨fun k' hk' h => this.set k' hk' (by omega), fun k' hk' j hj h => this.keep k' hk' j hj ?_,
        this.rest, this.tail⟩
      rintro ⟨hk'', hj'⟩
      exact h ⟨by omega, hj'⟩
    · rw [hvol] at hlab
      refine hlab ?_
      cases n with
      | zero =>
        have hk' : k = s.vol.numFats - 1 := by omega
        exact .inr (hk' ▸ hw.label)
      | succ n => exact .inl (Nat.succ_pos n)

theorem fatSetNextCluster_run (hs : s.Mounted) (hq : s.Quiet) (hv : s.vol.Shape)
    (hc : s.vol.HasEntry c) (hx : x < 16 ^ s.vol.type.width)
    (hP : ∀ d, Agree s.vol (· = c) (fun _ _ => False) s.disk d → P d)
    (hok : s.CacheOk (s.vol.fatSector 0 (s.vol.entryByte c / 512))) :
    ∃ s', fatSetNextCluster c x s = .ok 0 s' ∧ EntryWritten P (fun _ => True) (s.vol.numFats - 1) c x s s' := by
  obtain ⟨t, hrun, hb, hset, hco, hlab⟩ := setNextLoop_run (P := P) s.vol.numFats 0 hs hq hv hc
    (Nat.zero_add _) hx hP fun _ => hok
  refine ⟨t, ?_, hb, ⟨fun k hk _ => hset.set k hk (Nat.zero_le k), fun k hk j hj h =>
    hset.keep k hk j hj fun h' => h ⟨trivial, h'.2⟩, hset.rest, hset.tail⟩, hco (.inl hv.numFats),
    hlab (.inl hv.numFats)⟩
  rw [fatSetNextCluster, getVol_bind]
  exact hrun

end Stm32Logger
