import Mathlib.Tactic.IntervalCases
import Stm32Logger.Fat.CacheLaws

/-!
# The allocation table

The entries of a FAT as the file system's rules read them. An entry is a run of
four-bit digits, three, four or seven of them by type, so an entry that shares
a byte with its neighbour, or lies over a sector boundary, is no special case
above this file.
-/

namespace Stm32Logger

-- ---------------------------------------------------------------------------
-- The layout of a volume
-- ---------------------------------------------------------------------------

def FatType.stride : FatType → Nat
  | .none => 0
  | .fat12 => 3
  | .fat16 => 4
  | .fat32 => 8

/-- The digits of an entry; FAT32 leaves the eighth alone. -/
def FatType.width : FatType → Nat
  | .none => 0
  | .fat12 => 3
  | .fat16 => 4
  | .fat32 => 7

def FatType.maxClusters : FatType → Nat
  | .none => 0
  | .fat12 => 4084
  | .fat16 => 65524
  | .fat32 => 0x0FFFFFF5

/-- A volume whose parts lie one after the other and within 32 bits. -/
structure FatVolHandle.Shape (v : FatVolHandle) : Prop where
  bytes : v.bytesPerSector = 512
  type : v.type ≠ .none
  spc : ∃ e ≤ 7, v.sectorsPerCluster = 2 ^ e
  numFats : 1 ≤ v.numFats
  reserved : 1 ≤ v.reservedSectorCount
  data : v.reservedSectorCount + v.numFats * v.fatSize ≤ v.firstDataSector
  fits : v.firstDataSector + v.clusterCount * v.sectorsPerCluster ≤ 2 ^ 32
  entries : v.type.stride * (v.clusterCount + 2) ≤ 1024 * v.fatSize
  count : v.clusterCount ≤ v.type.maxClusters

/-- Such a volume whose data area starts on a multiple of the cluster size. -/
structure FatVolHandle.Layout (v : FatVolHandle) : Prop extends v.Shape where
  aligned : v.firstDataSector % v.sectorsPerCluster = 0

def FatVolHandle.HasEntry (v : FatVolHandle) (c : Nat) : Prop := c < v.clusterCount + 2

def FatVolHandle.IsCluster (v : FatVolHandle) (c : Nat) : Prop := 2 ≤ c ∧ c < v.clusterCount + 2

def FatVolHandle.InFat (v : FatVolHandle) (n : Nat) : Prop :=
  v.reservedSectorCount ≤ n ∧ n < v.reservedSectorCount + v.numFats * v.fatSize

def FatVolHandle.fatSector (v : FatVolHandle) (k m : Nat) : Nat :=
  v.reservedSectorCount + k * v.fatSize + m

def fatByte (v : FatVolHandle) (d : Disk) (k i : Nat) : UInt8 := d (v.fatSector k (i / 512)) (i % 512)

def fatNibble (v : FatVolHandle) (d : Disk) (k j : Nat) : Nat :=
  (fatByte v d k (j / 2)).toNat / 16 ^ (j % 2) % 16

def fatEntry (v : FatVolHandle) (d : Disk) (k c : Nat) : Nat :=
  let b (i : Nat) : Nat := (fatByte v d k i).toNat
  match v.type with
  | .none => 0
  | .fat12 =>
    let word := b (c + c / 2) + 256 * b (c + c / 2 + 1)
    if c % 2 = 1 then word / 16 else word % 4096
  | .fat16 => b (2 * c) + 256 * b (2 * c + 1)
  | .fat32 =>
    (b (4 * c) + 256 * b (4 * c + 1) + 65536 * (b (4 * c + 2) + 256 * b (4 * c + 3))) % 2 ^ 28

def ofNibbles (f : Nat → Nat) : Nat → Nat
  | 0 => 0
  | n + 1 => f 0 + 16 * ofNibbles (fun i => f (i + 1)) n

theorem ofNibbles_congr (h : ∀ i < n, f i = g i) : ofNibbles f n = ofNibbles g n := by
  induction n generalizing f g with
  | zero => rfl
  | succ n ih =>
    simp only [ofNibbles, h 0 (Nat.succ_pos n)]
    rw [ih fun i hi => h (i + 1) (Nat.succ_lt_succ hi)]

theorem ofNibbles_digits (x n : Nat) (hx : x < 16 ^ n) :
    ofNibbles (fun i => x / 16 ^ i % 16) n = x := by
  induction n generalizing x with
  | zero => simp only [pow_zero] at hx; simp only [ofNibbles]; omega
  | succ n ih =>
    have hx' : x / 16 < 16 ^ n := Nat.div_lt_of_lt_mul (by rw [pow_succ] at hx; omega)
    have hd : (fun i => x / 16 ^ (i + 1) % 16) = fun i => x / 16 / 16 ^ i % 16 := by
      funext i
      rw [Nat.div_div_eq_div_mul, pow_succ, Nat.mul_comm]
    simp only [ofNibbles, pow_zero, Nat.div_one, hd, ih _ hx']
    omega

theorem ofNibbles_digit (hf : ∀ i, f i < 16) (hi : i < n) : ofNibbles f n / 16 ^ i % 16 = f i := by
  induction n generalizing f i with
  | zero => exact absurd hi (Nat.not_lt_zero i)
  | succ n ih =>
    have h0 := hf 0
    cases i with
    | zero =>
      rw [ofNibbles, pow_zero, Nat.div_one]
      omega
    | succ i =>
      have hdiv : ofNibbles f (n + 1) / 16 = ofNibbles (fun i => f (i + 1)) n := by
        rw [ofNibbles]
        omega
      rw [pow_succ', ← Nat.div_div_eq_div_mul, hdiv]
      exact ih (fun i => hf (i + 1)) (Nat.lt_of_succ_lt_succ hi)

/-- The digits of the entry of `c`. -/
def FatVolHandle.InEntry (v : FatVolHandle) (c j : Nat) : Prop :=
  v.type.stride * c ≤ j ∧ j < v.type.stride * c + v.type.width

theorem fatNibble_even : fatNibble v d k (2 * i) = (fatByte v d k i).toNat % 16 := by
  have h : 2 * i % 2 = 0 := by omega
  simp only [fatNibble, Nat.mul_div_cancel_left i Nat.two_pos, h, pow_zero, Nat.div_one]

theorem fatNibble_odd : fatNibble v d k (2 * i + 1) = (fatByte v d k i).toNat / 16 := by
  have hb := (fatByte v d k i).toNat_lt
  have h : (2 * i + 1) / 2 = i := by omega
  have h' : (2 * i + 1) % 2 = 1 := by omega
  simp only [fatNibble, h, h', pow_one]
  omega

theorem fatEntry_eq (v : FatVolHandle) (d : Disk) (k c : Nat) :
    fatEntry v d k c = ofNibbles (fun i => fatNibble v d k (v.type.stride * c + i)) v.type.width := by
  have hb (i : Nat) := (fatByte v d k i).toNat_lt
  cases ht : v.type with
  | none => simp only [fatEntry, ht, FatType.width, ofNibbles]
  | fat12 =>
    rcases Nat.even_or_odd' c with ⟨m, rfl | rfl⟩
    · have e0 : 3 * (2 * m) = 2 * (3 * m) := by omega
      have e1 : 2 * m + 2 * m / 2 = 3 * m := by omega
      have e2 : 2 * (3 * m) + 2 = 2 * (3 * m + 1) := by omega
      have ho : ¬ 2 * m % 2 = 1 := by omega
      simp only [fatEntry, ht, ofNibbles, FatType.stride, FatType.width, Nat.add_zero,
        Nat.zero_add, Nat.reduceAdd, e0, e1, e2, ho, if_false, fatNibble_even, fatNibble_odd]
      have h0 := hb (3 * m)
      have h1 := hb (3 * m + 1)
      omega
    · have e0 : 3 * (2 * m + 1) = 2 * (3 * m + 1) + 1 := by omega
      have e1 : 2 * m + 1 + (2 * m + 1) / 2 = 3 * m + 1 := by omega
      have e2 : 2 * (3 * m + 1) + 1 + 1 = 2 * (3 * m + 1 + 1) := by omega
      have e3 : 2 * (3 * m + 1) + 1 + 2 = 2 * (3 * m + 1 + 1) + 1 := by omega
      have ho : (2 * m + 1) % 2 = 1 := by omega
      simp only [fatEntry, ht, ofNibbles, FatType.stride, FatType.width, Nat.add_zero,
        Nat.zero_add, Nat.reduceAdd, e0, e1, e2, e3, ho, if_true, fatNibble_even, fatNibble_odd]
      have h0 := hb (3 * m + 1)
      have h1 := hb (3 * m + 1 + 1)
      omega
  | fat16 =>
    have e0 : 4 * c = 2 * (2 * c) := by omega
    have e1 : 2 * (2 * c) + 2 = 2 * (2 * c + 1) := by omega
    have e2 : 2 * (2 * c) + 3 = 2 * (2 * c + 1) + 1 := by omega
    simp only [fatEntry, ht, ofNibbles, FatType.stride, FatType.width, Nat.add_zero, Nat.zero_add,
      Nat.reduceAdd, e0, e1, e2, fatNibble_even, fatNibble_odd]
    have h0 := hb (2 * c)
    have h1 := hb (2 * c + 1)
    omega
  | fat32 =>
    have e0 : 8 * c = 2 * (4 * c) := by omega
    have e1 : 2 * (4 * c) + 2 = 2 * (4 * c + 1) := by omega
    have e2 : 2 * (4 * c) + 3 = 2 * (4 * c + 1) + 1 := by omega
    have e3 : 2 * (4 * c) + 4 = 2 * (4 * c + 2) := by omega
    have e4 : 2 * (4 * c) + 5 = 2 * (4 * c + 2) + 1 := by omega
    have e5 : 2 * (4 * c) + 6 = 2 * (4 * c + 3) := by omega
    simp only [fatEntry, ht, ofNibbles, FatType.stride, FatType.width, Nat.add_zero, Nat.zero_add,
      Nat.reduceAdd, e0, e1, e2, e3, e4, e5, fatNibble_even, fatNibble_odd]
    have h0 := hb (4 * c)
    have h1 := hb (4 * c + 1)
    have h2 := hb (4 * c + 2)
    have h3 := hb (4 * c + 3)
    omega

theorem fatNibble_of_entry {v : FatVolHandle} {d : Disk} (hj : v.InEntry c j) :
    fatNibble v d k j = fatEntry v d k c / 16 ^ (j - v.type.stride * c) % 16 := by
  obtain ⟨i, rfl⟩ := Nat.exists_eq_add_of_le hj.1
  have hi : i < v.type.width := Nat.lt_of_add_lt_add_left hj.2
  have hlt : ∀ i, fatNibble v d k (v.type.stride * c + i) < 16 := fun _ => Nat.mod_lt _ (by decide)
  rw [fatEntry_eq, Nat.add_sub_cancel_left, ofNibbles_digit hlt hi]

-- ---------------------------------------------------------------------------
-- What a change of the volume leaves alone
-- ---------------------------------------------------------------------------

/-- Two volumes that may differ in the entries of the clusters `C`, in any copy,
and in the bytes `B` outside the FATs. -/
structure Agree (v : FatVolHandle) (C : Nat → Prop) (B : Nat → Nat → Prop) (d d' : Disk) : Prop where
  fat : ∀ k < v.numFats, ∀ j < 1024 * v.fatSize, (∀ c, C c → ¬ v.InEntry c j) →
    fatNibble v d' k j = fatNibble v d k j
  rest : ∀ n i, ¬ v.InFat n → ¬ B n i → d' n i = d n i

/-- Entry `c` becomes `x` in the copies `K`, and nothing else changes. -/
structure EntrySet (v : FatVolHandle) (K : Nat → Prop) (c x : Nat) (d d' : Disk) : Prop where
  set : ∀ k < v.numFats, K k → ∀ i < v.type.width,
    fatNibble v d' k (v.type.stride * c + i) = x / 16 ^ i % 16
  keep : ∀ k < v.numFats, ∀ j < 1024 * v.fatSize, ¬ (K k ∧ v.InEntry c j) →
    fatNibble v d' k j = fatNibble v d k j
  rest : ∀ n, ¬ v.InFat n → d' n = d n
  tail : ∀ n i, 512 ≤ i → d' n i = d n i

variable {v : FatVolHandle} {d d' d'' : Disk}

theorem Agree.refl (v : FatVolHandle) (C : Nat → Prop) (B : Nat → Nat → Prop) (d : Disk) :
    Agree v C B d d := ⟨fun _ _ _ _ _ => rfl, fun _ _ _ _ => rfl⟩

theorem Agree.trans (h : Agree v C B d d') (h' : Agree v C B d' d'') : Agree v C B d d'' :=
  ⟨fun k hk j hj hc => (h'.fat k hk j hj hc).trans (h.fat k hk j hj hc),
    fun n i hn hi => (h'.rest n i hn hi).trans (h.rest n i hn hi)⟩

theorem Agree.mono (h : Agree v C B d d') (hC : ∀ c, C c → C' c) (hB : ∀ n i, B n i → B' n i) :
    Agree v C' B' d d' :=
  ⟨fun k hk j hj hc => h.fat k hk j hj fun c hc' => hc c (hC c hc'),
    fun n i hn hi => h.rest n i hn fun hi' => hi (hB n i hi')⟩

theorem EntrySet.agree (h : EntrySet v K c x d d') (hc : C c) : Agree v C B d d' :=
  ⟨fun k hk j hj hC => h.keep k hk j hj fun hj' => hC c hc hj'.2,
    fun n i hn _ => congrFun (h.rest n hn) i⟩

theorem FatType.width_le_stride (t : FatType) : t.width ≤ t.stride := by
  cases t <;> decide

theorem inEntry_lt (hv : v.Shape) (hc : v.HasEntry c) (hj : v.InEntry c j) :
    j < 1024 * v.fatSize := by
  have hw := v.type.width_le_stride
  have hm : v.type.stride * (c + 1) ≤ v.type.stride * (v.clusterCount + 2) :=
    Nat.mul_le_mul_left _ hc
  have he := hv.entries
  have := hj.2
  rw [Nat.mul_succ] at hm
  omega

theorem EntrySet.trans (hv : v.Shape) (hc : v.HasEntry c) (h : EntrySet v K c x d d')
    (h' : EntrySet v K' c x d' d'') :
    EntrySet v (fun k => K k ∨ K' k) c x d d'' := by
  refine ⟨fun k hk hK i hi => ?_, fun k hk j hj hj' => ?_, fun n hn => ?_, fun n i hi => ?_⟩
  · by_cases hK' : K' k
    · exact h'.set k hk hK' i hi
    · rw [h'.keep k hk _ ?_ fun hj => hK' hj.1]
      · exact h.set k hk (hK.resolve_right hK') i hi
      · exact inEntry_lt hv hc ⟨Nat.le_add_right .., by omega⟩
  · rw [h'.keep k hk j hj fun hj'' => hj' ⟨.inr hj''.1, hj''.2⟩,
      h.keep k hk j hj fun hj'' => hj' ⟨.inl hj''.1, hj''.2⟩]
  · rw [h'.rest n hn, h.rest n hn]
  · rw [h'.tail n i hi, h.tail n i hi]

theorem Agree.fatEntry (hv : v.Shape) (h : Agree v C B d d') (hk : k < v.numFats)
    (hc : v.HasEntry c) (hC : ¬ C c) : fatEntry v d' k c = fatEntry v d k c := by
  have hw := v.type.width_le_stride
  rw [fatEntry_eq, fatEntry_eq]
  refine ofNibbles_congr fun i hi => h.fat k hk _ (inEntry_lt hv hc ⟨Nat.le_add_right .., by omega⟩) ?_
  intro c' hc' hj
  refine hC ?_
  have : c' = c := by
    obtain ⟨h1, h2⟩ := hj
    by_contra hne
    rcases Nat.lt_or_gt_of_ne hne with hlt | hlt
    · have hm : v.type.stride * (c' + 1) ≤ v.type.stride * c := Nat.mul_le_mul_left _ hlt
      rw [Nat.mul_succ] at hm
      omega
    · have hm : v.type.stride * (c + 1) ≤ v.type.stride * c' := Nat.mul_le_mul_left _ hlt
      rw [Nat.mul_succ] at hm
      omega
  exact this ▸ hc'

theorem EntrySet.fatEntry_self (h : EntrySet v K c x d d') (hk : k < v.numFats) (hK : K k)
    (hx : x < 16 ^ v.type.width) : fatEntry v d' k c = x := by
  rw [fatEntry_eq, ofNibbles_congr (h.set k hk hK), ofNibbles_digits x _ hx]

theorem EntrySet.fatEntry_of_ne (hv : v.Shape) (h : EntrySet v K c x d d') (hk : k < v.numFats)
    (hc : v.HasEntry c') (hne : c' ≠ c) : fatEntry v d' k c' = fatEntry v d k c' :=
  (h.agree (C := (· = c)) (B := fun _ _ => False) rfl).fatEntry hv hk hc hne

-- ---------------------------------------------------------------------------
-- Storing a byte of a FAT
-- ---------------------------------------------------------------------------

def FatVolHandle.poke (v : FatVolHandle) (k : Nat) : (o : Nat) → (bs : List Nat) → Disk → Disk
  | _, [], d => d
  | o, b :: bs, d => v.poke k (o + 1) bs (d.edit (v.fatSector k (o / 512)) (put8 (o % 512) b))

theorem fatSector_inFat (hk : k < v.numFats) (hm : m < v.fatSize) : v.InFat (v.fatSector k m) := by
  have h : (k + 1) * v.fatSize ≤ v.numFats * v.fatSize := Nat.mul_le_mul_right _ hk
  rw [Nat.succ_mul] at h
  unfold FatVolHandle.InFat FatVolHandle.fatSector
  omega

theorem fatSector_lt (hv : v.Shape) (hk : k < v.numFats) (hm : m < v.fatSize) :
    v.fatSector k m < 2 ^ 32 := by
  have h := (fatSector_inFat hk hm).2
  have hd := hv.data
  have hf := hv.fits
  omega

theorem fatSector_inj (hm : m < v.fatSize) (hm' : m' < v.fatSize)
    (h : v.fatSector k m = v.fatSector k' m') : k = k' ∧ m = m' := by
  have h : k * v.fatSize + m = k' * v.fatSize + m' := by
    unfold FatVolHandle.fatSector at h
    omega
  have hk := congrArg (· / v.fatSize) h
  have hpos : 0 < v.fatSize := by omega
  simp only [Nat.add_comm _ m, Nat.add_comm _ m', Nat.add_mul_div_right _ _ hpos,
    Nat.div_eq_of_lt hm, Nat.div_eq_of_lt hm', Nat.zero_add] at hk
  subst hk
  exact ⟨rfl, by omega⟩

theorem fatByte_edit (ho : o < 512 * v.fatSize) (hi : i < 512 * v.fatSize) :
    fatByte v (d.edit (v.fatSector k (o / 512)) (put8 (o % 512) b)) k' i =
      if k' = k ∧ i = o then UInt8.ofNat b else fatByte v d k' i := by
  have hmo : o / 512 < v.fatSize := by omega
  have hmi : i / 512 < v.fatSize := by omega
  by_cases hs : v.fatSector k' (i / 512) = v.fatSector k (o / 512)
  · obtain ⟨rfl, hm⟩ := fatSector_inj hmi hmo hs
    rw [fatByte, hs, Disk.edit_self, put8, Function.update_apply]
    by_cases hio : i = o
    · simp [hio]
    · have : ¬ i % 512 = o % 512 := by omega
      simp only [this, if_false, hio, and_false, fatByte, hm]
  · have hne : ¬ (k' = k ∧ i = o) := by
      rintro ⟨rfl, rfl⟩
      exact hs rfl
    rw [fatByte, Disk.edit_of_ne _ hs, if_neg hne, fatByte]

theorem fatByte_poke (ho : o + bs.length ≤ 512 * v.fatSize) (hi : i < 512 * v.fatSize) :
    fatByte v (v.poke k o bs d) k' i =
      if k' = k ∧ o ≤ i ∧ i < o + bs.length then UInt8.ofNat (bs.getD (i - o) 0)
      else fatByte v d k' i := by
  induction bs generalizing o d with
  | nil =>
    have : ¬ (o ≤ i ∧ i < o + 0) := by omega
    simp only [FatVolHandle.poke, List.length_nil, this, and_false, if_false]
  | cons b bs ih =>
    simp only [List.length_cons] at ho ⊢
    rw [FatVolHandle.poke, ih (by omega), fatByte_edit (by omega) hi]
    rcases Nat.lt_trichotomy i o with hlt | rfl | hgt
    · have h1 : ¬ (o + 1 ≤ i) := by omega
      have h2 : ¬ i = o := by omega
      have h3 : ¬ o ≤ i := by omega
      simp only [h1, h2, h3, false_and, and_false, if_false]
    · have h1 : ¬ (i + 1 ≤ i) := by omega
      have h2 : i < i + (bs.length + 1) := by omega
      simp only [h1, h2, false_and, and_false, if_false, Nat.le_refl, and_true,
        Nat.sub_self, List.getD_cons_zero]
    · have h1 : ¬ i = o := by omega
      have h2 : i - o = i - (o + 1) + 1 := by omega
      have h3 : (o + 1 ≤ i ∧ i < o + 1 + bs.length) ↔ (o ≤ i ∧ i < o + (bs.length + 1)) := by omega
      simp only [h1, and_false, if_false, h2, List.getD_cons_succ, h3]

theorem poke_rest (hk : k < v.numFats) (ho : o + bs.length ≤ 512 * v.fatSize) (hn : ¬ v.InFat n) :
    v.poke k o bs d n = d n := by
  induction bs generalizing o d with
  | nil => rfl
  | cons b bs ih =>
    simp only [List.length_cons] at ho
    rw [FatVolHandle.poke, ih (by omega)]
    exact Disk.edit_of_ne _ fun h => hn (h ▸ fatSector_inFat hk (by omega))

theorem poke_tail (hi : 512 ≤ i) : v.poke k o bs d n i = d n i := by
  induction bs generalizing o d with
  | nil => rfl
  | cons b bs ih =>
    rw [FatVolHandle.poke, ih]
    by_cases hn : n = v.fatSector k (o / 512)
    · have hne : i ≠ o % 512 := by omega
      rw [hn, Disk.edit_self, put8, Function.update_of_ne hne]
    · rw [Disk.edit_of_ne _ hn]

theorem fatNibble_poke (ho : o + bs.length ≤ 512 * v.fatSize) (hj : j < 1024 * v.fatSize) :
    fatNibble v (v.poke k o bs d) k' j =
      if k' = k ∧ o ≤ j / 2 ∧ j / 2 < o + bs.length then
        bs.getD (j / 2 - o) 0 % 256 / 16 ^ (j % 2) % 16
      else fatNibble v d k' j := by
  rw [fatNibble, fatByte_poke ho (by omega)]
  split
  · rw [UInt8.toNat_ofNat']
  · rfl

theorem poke_agree (hk : k < v.numFats) (ho : o + bs.length ≤ 512 * v.fatSize) (hC : C c)
    (h : ∀ j, o ≤ j / 2 → j / 2 < o + bs.length → ¬ v.InEntry c j →
      bs.getD (j / 2 - o) 0 % 256 / 16 ^ (j % 2) % 16 = fatNibble v d k j) :
    Agree v C B d (v.poke k o bs d) := by
  refine ⟨fun k' _ j hj hC' => ?_, fun n i hn _ => congrFun (poke_rest hk ho hn) i⟩
  rw [fatNibble_poke ho hj]
  split
  next hj' => rw [hj'.1]; exact h j hj'.2.1 hj'.2.2 (hC' c hC)
  next => rfl

theorem poke_set (hv : v.Shape) (hc : v.HasEntry c) (hk : k < v.numFats) (ho : o + bs.length ≤ 512 * v.fatSize)
    (hset : ∀ j, v.InEntry c j → o ≤ j / 2 ∧ j / 2 < o + bs.length ∧ bs.getD (j / 2 - o) 0 % 256 / 16 ^
      (j % 2) % 16 = x / 16 ^ (j - v.type.stride * c) % 16) (hkeep : ∀ j, o ≤ j / 2 → j / 2 < o + bs.length →
      ¬ v.InEntry c j → bs.getD (j / 2 - o) 0 % 256 / 16 ^ (j % 2) % 16 = fatNibble v d k j) :
    EntrySet v (· = k) c x d (v.poke k o bs d) := by
  refine ⟨?_, fun k' _ j hj hn => ?_, fun n hn => poke_rest hk ho hn, fun n i hi => poke_tail hi⟩
  · rintro k' - rfl i hi
    have hj : v.InEntry c (v.type.stride * c + i) := ⟨Nat.le_add_right .., by omega⟩
    obtain ⟨h1, h2, h3⟩ := hset _ hj
    rw [Nat.add_sub_cancel_left] at h3
    rw [fatNibble_poke ho (inEntry_lt hv hc hj), if_pos ⟨rfl, h1, h2⟩, h3]
  · rw [fatNibble_poke ho hj]
    split
    next h => rw [h.1]; exact hkeep j h.2.1 h.2.2 fun hj' => hn ⟨h.1, hj'⟩
    next => rfl

end Stm32Logger
