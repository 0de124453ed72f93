import Mathlib.Data.Finset.Card
import Stm32Logger.Fat.Lookup

/-!
# Directories by their links alone

Nothing keeps a directory scan within a chain: it goes wherever the table
leads, over clusters that do not exist and round a cycle again and again. What
it meets on the way is still decided by the table and the clusters, and a scan
that ends at all has met no more entries than there are places for one.
-/

namespace Stm32Logger

variable {v : FatVolHandle} {d : Disk} {h h' : FatFileHandle} {es es' : List Sector} {name : List UInt8}
    {n n' : LongName}

/-- A handle at a multiple of 32 bytes and within its size. -/
structure FatFileHandle.OnEntry (h : FatFileHandle) : Prop where
  fat : h.fat = true
  slot : h.position % 32 = 0
  word : h.position < 2 ^ 32
  size : h.size < 2 ^ 32
  inside : h.size = 0 ∨ h.position ≤ h.size
  root : h.rootFlag = true → h.size ≠ 0 ∧ h.size < 2 ^ 32 - 32

def FatFileHandle.More (h : FatFileHandle) : Prop := h.size = 0 ∨ u32 (h.position + 32) ≤ h.size

def FatFileHandle.entry (v : FatVolHandle) (d : Disk) (h : FatFileHandle) : Sector :=
  structOf (bytesAt (d (fatFileSectorOffset v h).1) (h.position % 512) 32)

def FatFileHandle.start (h : FatFileHandle) : FatFileHandle :=
  { h with position := 0, curCluster := h.firstCluster }

/-- Where a look-up stops: at the end, at the entry it looks for, or at a long
one that stores outside `d_name`. -/
inductive ScanEnd where
  | missing
  | found
  | outside
  deriving DecidableEq

/-- What `fat_open` returns then. -/
def ScanEnd.answer : ScanEnd → Option Int
  | missing => some (-2)
  | found => some 0
  | outside => none

/-- A look-up that passes over `es` and stops. -/
inductive Stops (name : List UInt8) (v : FatVolHandle) (d : Disk) :
    FatFileHandle → LongName → List Sector → ScanEnd → Prop where
  | missing {h : FatFileHandle} {n : LongName} (hend : h.More → h.entry v d 0 = 0) :
      Stops name v d h n [] .missing
  | found {h : FatFileHandle} {n : LongName} (hm : h.More) (h0 : h.entry v d 0 ≠ 0)
      (hs : scanEntry name (h.entry v d) n = none) : Stops name v d h n [] .found
  | outside {h : FatFileHandle} {n : LongName} (hm : h.More) (h0 : h.entry v d 0 ≠ 0)
      (hout : ¬ StoresInside (h.entry v d)) : Stops name v d h n [] .outside
  | next {h : FatFileHandle} {n n' : LongName} {es : List Sector} {b : ScanEnd} (hm : h.More)
      (h0 : h.entry v d 0 ≠ 0) (hin : StoresInside (h.entry v d))
      (hs : scanEntry name (h.entry v d) n = some n') (hrest : Stops name v d (h.step v d) n' es b) :
      Stops name v d h n (h.entry v d :: es) b

/-- An entry that ends a `fat_readdir`: it returns it, or stores outside `d_name`. -/
def Halts (e : Sector) : Prop := Named e ∨ ¬ StoresInside e

/-- The entries one `fat_readdir` passes over, and that it ends behind them. -/
inductive Skips (v : FatVolHandle) (d : Disk) : FatFileHandle → Nat → Prop where
  | done {h : FatFileHandle} (hdone : h.More → h.entry v d 0 ≠ 0 → Halts (h.entry v d)) : Skips v d h 0
  | skip {h : FatFileHandle} {m : Nat} (hm : h.More) (h0 : h.entry v d 0 ≠ 0) (he : ¬ Halts (h.entry v d))
      (hrest : Skips v d (h.step v d) m) : Skips v d h (m + 1)

instance (e : Sector) : Decidable (Named e) :=
  decidable_of_iff (deleted e = false ∧ volumeId e = false ∧ longName e = false)
    ⟨fun h => ⟨h.1, h.2.1, h.2.2⟩, fun h => ⟨h.live, h.file, h.short⟩⟩

-- ---------------------------------------------------------------------------
-- From entry to entry
-- ---------------------------------------------------------------------------

theorem FatFileHandle.OnEntry.step (ho : h.OnEntry) (hm : h.More) : (h.step v d).OnEntry where
  fat := ho.fat
  slot := by
    have := ho.slot
    simp only [FatFileHandle.step, u32]
    omega
  word := Nat.mod_lt _ (by decide)
  size := ho.size
  inside := hm
  root := ho.root

theorem scanEntry_none (hs : scanEntry name e n = none) : Named e ∧ Matches name e n := by
  rw [scanEntry] at hs
  split at hs
  · exact absurd hs (by simp)
  next hskip =>
    obtain ⟨hd, hv⟩ := not_or.mp hskip
    split at hs
    · exact absurd hs (by simp)
    next hl =>
      refine ⟨⟨Bool.eq_false_iff.mpr hd, Bool.eq_false_iff.mpr hv, Bool.eq_false_iff.mpr hl⟩, ?_⟩
      by_contra hm
      rw [if_neg hm] at hs
      exact absurd hs (by simp)

theorem Stops.skips (hs : Stops name v d h n es b) : ∃ m, Skips v d h m := by
  induction hs with
  | missing hend => exact ⟨0, .done fun hm h0 => absurd (hend hm) h0⟩
  | found hm h0 hs => exact ⟨0, .done fun _ _ => .inl (scanEntry_none hs).1⟩
  | outside hm h0 hout => exact ⟨0, .done fun _ _ => .inr hout⟩
  | @next h n n' es b hm h0 hin hs hrest ih =>
    by_cases he : Named (h.entry v d)
    · exact ⟨0, .done fun _ _ => .inl he⟩
    · obtain ⟨m, hm'⟩ := ih
      exact ⟨m + 1, .skip hm h0 (fun h => h.elim he fun h => h hin) hm'⟩

-- ---------------------------------------------------------------------------
-- The same place again
-- ---------------------------------------------------------------------------

/-- Two handles without a size that counts, at the same place of the same cluster. -/
structure Alike (v : FatVolHandle) (h h' : FatFileHandle) : Prop where
  root : h.rootFlag = false
  root' : h'.rootFlag = false
  more : h.More
  more' : h'.More
  cluster : h'.curCluster = h.curCluster
  offset : h'.position % v.clusterBytes = h.position % v.clusterBytes

/-- A handle whose size ends nothing, on its way from cluster `c`. -/
structure Adrift (c : Nat) (h : FatFileHandle) : Prop extends h.OnEntry where
  endless : h.size = 0 ∨ 2 ^ 32 - 32 ≤ h.size
  cluster : h.curCluster = c ∨ h.curCluster < 2 ^ 28

/-- The place of a handle, as a number. -/
def FatFileHandle.place (v : FatVolHandle) (c : Nat) (h : FatFileHandle) : Nat :=
  h.position % v.clusterBytes / 32 + 2 ^ 11 * if h.curCluster = c then 2 ^ 28 else h.curCluster

def places : Nat := 2 ^ 11 * (2 ^ 28 + 1)

theorem Adrift.rootFlag (ha : Adrift c h) : h.rootFlag = false :=
  Bool.eq_false_iff.mpr fun hr => by
    have := ha.root hr
    have := ha.endless
    omega

theorem Adrift.more (ha : Adrift c h) : h.More := by
  have hslot := ha.slot
  have hword := ha.word
  refine ha.endless.imp id fun hle => ?_
  rw [u32]
  omega

theorem Adrift.step (ha : Adrift c h) : Adrift c (h.step v d) where
  toOnEntry := ha.toOnEntry.step ha.more
  endless := ha.endless
  cluster := by
    rw [FatFileHandle.step]
    dsimp only
    split
    · exact .inr (fatNext_lt v d _)
    · exact ha.cluster

theorem Adrift.place_lt (hv : v.Shape) (ha : Adrift c h) : h.place v c < places := by
  have hle := (clusterBytes_le hv).2
  have hlt := Nat.mod_lt h.position (clusterBytes_pos hv)
  have hcluster := ha.cluster
  rw [FatFileHandle.place, places]
  split
  · omega
  · omega

theorem Adrift.alike (hv : v.Shape) (ha : Adrift c h) (ha' : Adrift c h') (hp : h'.place v c = h.place v c) :
    Alike v h h' := by
  obtain ⟨h32, hle⟩ := clusterBytes_le hv
  have hlt := Nat.mod_lt h.position (clusterBytes_pos hv)
  have hlt' := Nat.mod_lt h'.position (clusterBytes_pos hv)
  have hslot : h.position % v.clusterBytes % 32 = 0 := (Nat.mod_mod_of_dvd _ h32).trans ha.slot
  have hslot' : h'.position % v.clusterBytes % 32 = 0 := (Nat.mod_mod_of_dvd _ h32).trans ha'.slot
  have hcluster := ha.cluster
  have hcluster' := ha'.cluster
  rw [FatFileHandle.place, FatFileHandle.place] at hp
  refine ⟨ha.rootFlag, ha'.rootFlag, ha.more, ha'.more, ?_, ?_⟩
  · split at hp
    · split at hp
      · omega
      · omega
    · split at hp
      · omega
      · omega
  · omega

theorem Alike.sector (ha : Alike v h h') : h'.position % 512 = h.position % 512 ∧
    h'.position / 512 % v.sectorsPerCluster = h.position / 512 % v.sectorsPerCluster := by
  have hoff := ha.offset
  rw [FatVolHandle.clusterBytes] at hoff
  refine ⟨?_, ?_⟩
  · rw [← Nat.mod_mul_right_mod h'.position 512 v.sectorsPerCluster, hoff, Nat.mod_mul_right_mod]
  · rw [← Nat.mod_mul_right_div_self, hoff, Nat.mod_mul_right_div_self]

theorem Alike.entry (hv : v.Shape) (ha : Alike v h h') : h'.entry v d = h.entry v d := by
  obtain ⟨hoff, hsec⟩ := ha.sector
  simp only [FatFileHandle.entry, fatFileSectorOffset, ha.root, ha.root', ha.cluster, hv.bytes, hoff, hsec,
    Bool.false_eq_true,
    if_false]

theorem Adrift.alike_step (hv : v.Shape) (ha : Adrift c h) (ha' : Adrift c h') (hh : Alike v h h') :
    Alike v (h.step v d) (h'.step v d) := by
  have hmod : u32 (h'.position + 32) % v.clusterBytes = u32 (h.position + 32) % v.clusterBytes := by
    rw [u32, u32, Nat.mod_mod_of_dvd _ (clusterBytes_dvd hv), Nat.mod_mod_of_dvd _ (clusterBytes_dvd hv),
      Nat.add_mod,
      hh.offset, ← Nat.add_mod]
  refine ⟨hh.root, hh.root', ha.step.more, ha'.step.more, ?_, hmod⟩
  simp only [FatFileHandle.step, hmod, hh.root, hh.root', hh.cluster]

-- ---------------------------------------------------------------------------
-- What stops, stops early
-- ---------------------------------------------------------------------------

theorem Skips.alike (hv : v.Shape) (hs : Skips v d h m) (hs' : Skips v d h' m') (ha : Adrift c h)
    (ha' : Adrift c h') (hh : Alike v h h') : m' = m := by
  induction hs generalizing h' m' with
  | done hdone =>
    cases hs' with
    | done => rfl
    | skip hm h0 he hrest =>
      rw [hh.entry hv] at h0 he
      exact absurd (hdone hh.more h0) he
  | skip hm h0 he hrest ih =>
    cases hs' with
    | done hdone =>
      rw [hh.entry hv] at hdone
      exact absurd (hdone hh.more' h0) he
    | skip hm' h0' he' hrest' => rw [ih hrest' ha.step ha'.step (ha.alike_step hv ha' hh)]

theorem Stops.alike (hv : v.Shape) (hs : Stops name v d h n es b) (hs' : Stops name v d h' n es' b')
    (ha : Adrift c h) (ha' : Adrift c h') (hh : Alike v h h') : es' = es := by
  induction hs generalizing h' es' b' with
  | missing hend =>
    cases hs' with
    | missing => rfl
    | found => rfl
    | outside => rfl
    | next hm h0 hin hs hrest =>
      rw [hh.entry hv] at h0
      exact absurd (hend hh.more) h0
  | found hm h0 hs =>
    cases hs' with
    | missing => rfl
    | found => rfl
    | outside => rfl
    | next hm' h0' hin' hs' hrest' =>
      rw [hh.entry hv, hs] at hs'
      exact absurd hs' (by simp)
  | outside hm h0 hout =>
    cases hs' with
    | missing => rfl
    | found => rfl
    | outside => rfl
    | next hm' h0' hin' hs' hrest' =>
      rw [hh.entry hv] at hin'
      exact absurd hin' hout
  | @next h n n1 es b hm h0 hin hs hrest ih =>
    have hentry := hh.entry (d := d) hv
    cases hs' with
    | missing hend =>
      rw [hentry] at hend
      exact absurd (hend hh.more') h0
    | found hm' h0' hs' =>
      rw [hentry, hs] at hs'
      exact absurd hs' (by simp)
    | outside hm' h0' hout =>
      rw [hentry] at hout
      exact absurd hin hout
    | next hm' h0' hin' hs' hrest' =>
      rw [hentry, hs] at hs'
      rw [← Option.some.inj hs'] at hrest'
      rw [hentry, ih hrest' ha.step ha'.step (ha.alike_step hv ha' hh)]

theorem le_of_keys {P : Nat → Nat → Prop} (hkey : ∀ i < m, ∃ k < K, P i k)
    (hone : ∀ i j k, P i k → P j k → i = j) :
    m ≤ K := by
  choose! f hf hP using hkey
  by_contra hlt
  obtain ⟨i, hi, j, hj, hne, heq⟩ := Finset.exists_ne_map_eq_of_card_lt_of_maps_to (s := Finset.range m)
    (t := Finset.range K) (by rw [Finset.card_range, Finset.card_range]; omega) (f := f) fun i hi => by
      rw [Finset.coe_range] at hi ⊢
      exact hf i hi
  have hj' := hP j (Finset.mem_range.mp hj)
  rw [← heq] at hj'
  exact hne (hone i j _ (hP i (Finset.mem_range.mp hi)) hj')

theorem Skips.later (hs : Skips v d h m) (ha : Adrift c h) (hi : i ≤ m) :
    ∃ h', Adrift c h' ∧ Skips v d h' i := by
  induction hs with
  | @done h hdone =>
    obtain rfl : i = 0 := Nat.le_zero.mp hi
    exact ⟨h, ha, .done hdone⟩
  | @skip h m hm h0 he hrest ih =>
    rcases Nat.lt_or_eq_of_le hi with hlt | rfl
    · exact ih ha.step (Nat.lt_succ_iff.mp hlt)
    · exact ⟨h, ha, .skip hm h0 he hrest⟩

def namedCount (es : List Sector) : Nat := es.countP fun e => decide (Named e)

theorem Stops.later (hs : Stops name v d h n es b) (ha : Adrift c h) (hi : i < namedCount es) :
    ∃ h' es', Adrift c h' ∧ Stops name v d h' {} es' b ∧ namedCount es' = i := by
  induction hs with
  | missing => exact absurd hi (Nat.not_lt_zero i)
  | found => exact absurd hi (Nat.not_lt_zero i)
  | outside => exact absurd hi (Nat.not_lt_zero i)
  | @next h n n1 es b hm h0 hin hs hrest ih =>
    rw [namedCount, List.countP_cons] at hi
    by_cases he : Named (h.entry v d)
    · have hn1 : n1 = {} := by
        rw [scanEntry_named he] at hs
        split at hs
        · exact absurd hs (by simp)
        · exact (Option.some.inj hs).symm
      subst hn1
      rw [if_pos (decide_eq_true he)] at hi
      rcases Nat.lt_or_eq_of_le (Nat.lt_succ_iff.mp hi) with hlt | rfl
      · exact ih ha.step hlt
      · exact ⟨_, es, ha.step, hrest, rfl⟩
    · rw [if_neg (by simp [he])] at hi
      exact ih ha.step hi

theorem Skips.sized (hs : Skips v d h m) (ho : h.OnEntry) (h0 : h.size ≠ 0) (hsize : h.size < 2 ^ 32 - 32) :
    32 * m + h.position ≤ h.size := by
  induction hs with
  | done => exact (Nat.zero_add _).symm ▸ ho.inside.resolve_left h0
  | @skip h m hm hne he hrest ih =>
    have hstep := ih (ho.step hm) h0 hsize
    have hin := ho.inside.resolve_left h0
    simp only [FatFileHandle.step, u32] at hstep
    omega

theorem Stops.sized (hs : Stops name v d h n es b) (ho : h.OnEntry) (h0 : h.size ≠ 0)
    (hsize : h.size < 2 ^ 32 - 32) :
    32 * es.length + h.position ≤ h.size := by
  induction hs with
  | missing => exact (Nat.zero_add _).symm ▸ ho.inside.resolve_left h0
  | found => exact (Nat.zero_add _).symm ▸ ho.inside.resolve_left h0
  | outside => exact (Nat.zero_add _).symm ▸ ho.inside.resolve_left h0
  | @next h n n1 es b hm hne hin hs hrest ih =>
    have hstep := ih (ho.step hm) h0 hsize
    have hle := ho.inside.resolve_left h0
    simp only [FatFileHandle.step, u32] at hstep
    rw [List.length_cons]
    omega

theorem FatFileHandle.OnEntry.adrift (ho : h.OnEntry) (hs : ¬ (h.size ≠ 0 ∧ h.size < 2 ^ 32 - 32)) :
    Adrift h.curCluster h :=
  ⟨ho, by omega, .inl rfl⟩

/-- A `fat_readdir` that returns passes over fewer entries than it has fuel for. -/
theorem Skips.lt (hv : v.Shape) (hs : Skips v d h m) (ho : h.OnEntry) : m < scanLimit := by
  rw [scanLimit]
  by_cases hsize : h.size ≠ 0 ∧ h.size < 2 ^ 32 - 32
  · have := hs.sized ho hsize.1 hsize.2
    omega
  · have ha := ho.adrift hsize
    have hle : m ≤ places := le_of_keys
      (P := fun i k => ∃ h', Adrift h.curCluster h' ∧ Skips v d h' i ∧ h'.place v h.curCluster = k)
      (fun i hi => by
        obtain ⟨h', ha', hs'⟩ := hs.later ha (Nat.le_of_lt hi)
        exact ⟨_, ha'.place_lt hv, h', ha', hs', rfl⟩)
      (fun i j k hi hj => by
        obtain ⟨h1, ha1, hs1, hk1⟩ := hi
        obtain ⟨h2, ha2, hs2, hk2⟩ := hj
        exact (hs1.alike hv hs2 ha1 ha2 (ha1.alike hv ha2 (hk2.trans hk1.symm))).symm)
    rw [places] at hle
    omega

/-- A `fat_open` that returns goes fewer rounds than it has fuel for. -/
theorem Stops.rounds (hv : v.Shape) (hs : Stops name v d h n es b) (ho : h.OnEntry) :
    namedCount es < scanLimit := by
  rw [scanLimit]
  by_cases hsize : h.size ≠ 0 ∧ h.size < 2 ^ 32 - 32
  · have := hs.sized ho hsize.1 hsize.2
    have hle : namedCount es ≤ es.length := List.countP_le_length
    omega
  · have ha := ho.adrift hsize
    have hle : namedCount es ≤ places := le_of_keys
      (P := fun i k => ∃ h' es', Adrift h.curCluster h' ∧ Stops name v d h' {} es' b ∧ namedCount es' = i ∧
        h'.place v h.curCluster = k)
      (fun i hi => by
        obtain ⟨h', es', ha', hs', hi'⟩ := hs.later ha hi
        exact ⟨_, ha'.place_lt hv, h', es', ha', hs', hi', rfl⟩)
      (fun i j k hi hj => by
        obtain ⟨h1, es1, ha1, hs1, hi1, hk1⟩ := hi
        obtain ⟨h2, es2, ha2, hs2, hi2, hk2⟩ := hj
        have hsame := hs1.alike hv hs2 ha1 ha2 (ha1.alike hv ha2 (hk2.trans hk1.symm))
        rw [← hi1, ← hi2, hsame])
    rw [places] at hle
    omega

end Stm32Logger
