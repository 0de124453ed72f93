import Stm32Logger.Fat.File

/-!
# How the table may change

Allocation turns free entries into end marks or links to clusters just taken,
and end marks into such links. Changes of this kind compose, and they keep a
chain that holds no end mark they use.
-/

namespace Stm32Logger

variable {v : FatVolHandle} {d d' d'' : Disk}

/-- `c` is free in the first table and taken in the second. -/
def Taken (v : FatVolHandle) (d d' : Disk) (c : Nat) : Prop :=
  v.IsCluster c ∧ fatEntry v d 0 c = 0 ∧ fatEntry v d' 0 c ≠ 0

/-- What becomes of the entry of `j`. -/
inductive EntryStep (v : FatVolHandle) (d d' : Disk) (j : Nat) : Prop where
  | kept (h : fatEntry v d' 0 j = fatEntry v d 0 j)
  | ended (hj : v.IsCluster j) (h : fatEntry v d 0 j = 0) (h' : fatEntry v d' 0 j = fatEoc v)
  | linked (hj : v.IsCluster j) (h : fatEntry v d 0 j = 0 ∨ fatEntry v d 0 j = fatEoc v)
    (h' : Taken v d d' (fatEntry v d' 0 j))

structure TableStep (v : FatVolHandle) (d d' : Disk) : Prop where
  copies : CopiesEqual v d → CopiesEqual v d'
  entry : ∀ j, v.HasEntry j → EntryStep v d d' j
  rest : ∀ k < v.numFats, ∀ j < 1024 * v.fatSize, (∀ c, v.IsCluster c → ¬ v.InEntry c j) →
    fatNibble v d' k j = fatNibble v d k j

theorem fatEoc_ne_zero (hv : v.Shape) : fatEoc v ≠ 0 := by
  have := hasEntry_lt_eoc hv (c := 0) (Nat.succ_pos _)
  omega

theorem EntryStep.ne_zero (h : EntryStep v d d' j) (hj : fatEntry v d 0 j ≠ 0) :
    fatEntry v d' 0 j ≠ 0 := by
  cases h with
  | kept h => rwa [h]
  | ended _ h => exact absurd h hj
  | linked _ _ h' => have := h'.1.1; omega

theorem Taken.trans_left (h : TableStep v d' d'') (ht : Taken v d d' c) :
    Taken v d d'' c := ⟨ht.1, ht.2.1, (h.entry c ht.1.2).ne_zero ht.2.2⟩

theorem Taken.trans_right (h : TableStep v d d') (ht : Taken v d' d'' c) :
    Taken v d d'' c := by
  refine ⟨ht.1, ?_, ht.2.2⟩
  by_contra h0
  exact (h.entry c ht.1.2).ne_zero h0 ht.2.1

theorem TableStep.of_inFat (hv : v.Shape) (h : ∀ n, v.InFat n → d' n = d n) : TableStep v d d' :=
  ⟨CopiesEqual.congr hv h, fun _ hj => .kept (fatEntry_congr hv hv.numFats hj h),
    fun _ hk _ hj _ => fatNibble_congr hk hj h⟩

theorem TableStep.trans (hv : v.Shape) (h : TableStep v d d') (h' : TableStep v d' d'') :
    TableStep v d d'' := by
  refine ⟨fun hd => h'.copies (h.copies hd), fun j hj => ?_, fun k hk j hj hc =>
    (h'.rest k hk j hj hc).trans (h.rest k hk j hj hc)⟩
  cases h.entry j hj with
  | kept e =>
    cases h'.entry j hj with
    | kept e' => exact .kept (e'.trans e)
    | ended hjc e' e'' => exact .ended hjc (e ▸ e') e''
    | linked hjc e' ht => exact .linked hjc (e ▸ e') (ht.trans_right h)
  | ended hjc e e2 =>
    cases h'.entry j hj with
    | kept e' => exact .ended hjc e (e'.trans e2)
    | ended _ e' e'' => exact .ended hjc e e''
    | linked _ _ ht => exact .linked hjc (.inl e) (ht.trans_right h)
  | linked hjc e ht =>
    have hlt := hasEntry_lt_eoc hv ht.1.2
    have hge := ht.1.1
    cases h'.entry j hj with
    | kept e' => exact .linked hjc e (e' ▸ ht.trans_left h')
    | ended _ e' _ => omega
    | linked _ e' _ => omega

theorem TableGrown.tableStep (hv : v.Shape) (hh : v.HintOk) (hc : ChainOk v d cs)
    (h : TableGrown v cs d cs' d') : TableStep v d d' := by
  cases h with
  | same h => exact .of_inFat hv h
  | snoc hf entry copies agree =>
    obtain ⟨hfc, hfree⟩ := freeCluster_spec hh hf
    have hl := hc.cluster _ hc.lastOf_mem
    have hne : freeCluster v d ≠ lastOf cs := fun h => hc.free_not_mem hv hh hf (h ▸ hc.lastOf_mem)
    have he := entry 0 hv.numFats
    have htaken : Taken v d d' (freeCluster v d) := by
      refine ⟨hfc, hfree, ?_⟩
      rw [he _ hfc.2, if_neg hne, if_pos rfl]
      exact fatEoc_ne_zero hv
    refine ⟨copies, fun j hj => ?_, fun k hk j hj hC => agree.fat k hk j hj ?_⟩
    · by_cases h1 : j = lastOf cs
      · subst h1
        have h2 := he _ hj
        rw [if_pos rfl] at h2
        exact .linked hl (.inr hc.entry_last) (h2 ▸ htaken)
      · by_cases h2 : j = freeCluster v d
        · subst h2
          refine .ended hfc hfree ?_
          rw [he _ hj, if_neg h1, if_pos rfl]
        · exact .kept (by rw [he _ hj, if_neg h1, if_neg h2])
    · rintro c (rfl | rfl)
      · exact hC _ hfc
      · exact hC _ hl

theorem EntrySet.tableStep (hv : v.Shape) (hc : v.IsCluster c) (hfree : fatEntry v d 0 c = 0)
    (h : EntrySet v (fun _ => True) c (fatEoc v) d d') : TableStep v d d' := by
  refine ⟨h.copiesEqual hv, fun j hj => ?_, fun k hk j hj hC => h.keep k hk j hj fun h' => hC c hc h'.2⟩
  by_cases hjc : j = c
  · subst hjc
    exact .ended hc hfree (h.fatEntry_self hv.numFats trivial (fatEoc_lt v hv))
  · exact .kept (h.fatEntry_of_ne hv hv.numFats hj hjc)

-- ---------------------------------------------------------------------------
-- The table an append leaves
-- ---------------------------------------------------------------------------

/-- What appending to a chain, or beginning one, makes of the table: nothing, or
the cluster the search finds has the end mark, the last one before it refers to
it, and every other digit is as it was. -/
inductive TableAfter (v : FatVolHandle) (cs : List Nat) (d : Disk) : List Nat → Disk → Prop where
  | same {d' : Disk} (h : ∀ n, v.InFat n → d' n = d n) : TableAfter v cs d cs d'
  | snoc {d' : Disk} (hf : freeCluster v d ≠ 0)
      (new : ∀ k < v.numFats, fatEntry v d' k (freeCluster v d) = fatEoc v)
      (link : cs ≠ [] → ∀ k < v.numFats, fatEntry v d' k (lastOf cs) = freeCluster v d)
      (agree : Agree v (v.Ends cs d) (fun _ _ => True) d d') :
      TableAfter v cs d (cs ++ [freeCluster v d]) d'

theorem TableGrown.tableAfter (hv : v.Shape) (hh : v.HintOk) (hc : ChainOk v d cs)
    (h : TableGrown v cs d cs' d') : TableAfter v cs d cs' d' := by
  cases h with
  | same h => exact .same h
  | snoc hf entry _ agree =>
    have hfree := (freeCluster_spec hh hf).1
    have hne : freeCluster v d ≠ lastOf cs := fun h => hc.free_not_mem hv hh hf (h ▸ hc.lastOf_mem)
    refine .snoc hf (fun k hk => ?_) (fun _ k hk => ?_) (agree.mono (ends_of hf hc.lastOf_mem) fun _ _ h => h)
    · rw [entry k hk _ hfree.2, if_neg hne, if_pos rfl]
    · rw [entry k hk _ (hc.cluster _ hc.lastOf_mem).2, if_pos rfl]

theorem EntrySet.tableAfter (hv : v.Shape) (hf : freeCluster v d ≠ 0)
    (h : EntrySet v (fun _ => True) (freeCluster v d) (fatEoc v) d d') :
    TableAfter v [] d [freeCluster v d] d' :=
  .snoc hf (fun _ hk => h.fatEntry_self hk trivial (fatEoc_lt v hv)) (fun hne => absurd rfl hne)
    (h.agree (.inl ⟨hf, rfl⟩))

theorem TableAfter.congr (hv : v.Shape) (hh : v.HintOk) (hcs : ∀ c ∈ cs, v.IsCluster c)
    (h : TableAfter v cs d cs' d') (he : ∀ n, v.InFat n → d'' n = d' n) : TableAfter v cs d cs' d'' := by
  cases h with
  | same h => exact .same fun n hn => (he n hn).trans (h n hn)
  | snoc hf new link agree =>
    refine .snoc hf (fun k hk => ?_) (fun hne k hk => ?_)
      ⟨fun k hk j hj hC => ?_, fun n i _ hn => absurd trivial hn⟩
    · rw [fatEntry_congr hv hk (freeCluster_spec hh hf).1.2 he, new k hk]
    · have hmem : lastOf cs ∈ cs := getD_mem (by have := List.length_pos_of_ne_nil hne; omega)
      rw [fatEntry_congr hv hk (hcs _ hmem).2 he, link hne k hk]
    · rw [fatNibble_congr hk hj he, agree.fat k hk j hj hC]

theorem TableAfter.fatNibble (h : TableAfter v cs d cs₁ d') (h' : TableAfter v cs d cs₂ d'') (he : cs₁ = cs₂)
    (hk : k < v.numFats) (hj : j < 1024 * v.fatSize) : fatNibble v d'' k j = fatNibble v d' k j := by
  cases h with
  | same h =>
    cases h' with
    | same h' => rw [fatNibble_congr hk hj h, fatNibble_congr hk hj h']
    | snoc => exact absurd he (by simp)
  | snoc _ new link agree =>
    cases h' with
    | same h' => exact absurd he (by simp)
    | snoc _ new' link' agree' =>
      by_cases hc : v.InEntry (freeCluster v d) j
      · rw [fatNibble_of_entry hc, fatNibble_of_entry hc, new k hk, new' k hk]
      · by_cases hl : cs ≠ [] ∧ v.InEntry (lastOf cs) j
        · rw [fatNibble_of_entry hl.2, fatNibble_of_entry hl.2, link hl.1 k hk, link' hl.1 k hk]
        · have hout : ∀ c, v.Ends cs d c → ¬ v.InEntry c j := by
            rintro c (⟨-, rfl⟩ | ⟨hm, rfl⟩)
            · exact hc
            · exact fun hin => hl ⟨List.ne_nil_of_mem hm, hin⟩
          rw [agree.fat k hk j hj hout, agree'.fat k hk j hj hout]

theorem TableAfter.fresh (h : TableAfter v cs d cs' d') : ∀ c ∈ cs', c ∈ cs ∨ v.Next d c := by
  cases h with
  | same h => exact fun c hc => .inl hc
  | snoc hf =>
    intro c hc
    rcases List.mem_append.mp hc with hc | hc
    · exact .inl hc
    · exact .inr ⟨List.mem_singleton.mp hc ▸ hf, List.mem_singleton.mp hc⟩

theorem TableAfter.trans (hv : v.Shape) (hh : v.HintOk) (hcs : ∀ c ∈ cs, v.IsCluster c)
    (h : TableAfter v cs d cs₁ d') (h' : TableAfter v cs₁ d' cs' d'') (hone : cs₁ = cs ∨ cs' = cs₁) :
    TableAfter v cs d cs' d'' := by
  cases h' with
  | same h' => exact h.congr hv hh hcs h'
  | snoc hf new link agree =>
    have he : cs₁ = cs := hone.resolve_right (by simp)
    cases h with
    | snoc => exact absurd he (by simp)
    | same h =>
      have hfc := freeCluster_congr hv hh h
      unfold FatVolHandle.Ends FatVolHandle.Next at agree
      rw [hfc] at hf new link agree ⊢
      refine .snoc hf new link ⟨fun k hk j hj hC => ?_, fun n i _ hn => absurd trivial hn⟩
      rw [agree.fat k hk j hj hC, fatNibble_congr hk hj h]

theorem byte_ext {b b' : UInt8} (h : b.toNat % 16 = b'.toNat % 16) (h' : b.toNat / 16 = b'.toNat / 16) :
    b = b' := by
  refine UInt8.toNat_inj.mp ?_
  omega

theorem fat_ext (h : ∀ k < v.numFats, ∀ j < 1024 * v.fatSize, fatNibble v d' k j = fatNibble v d k j)
    (hn : v.InFat n) (hi : i < 512) : d' n i = d n i := by
  obtain ⟨hl, hr⟩ := hn
  have hpos : 0 < v.fatSize := by
    by_contra h0
    rw [Nat.eq_zero_of_not_pos h0, Nat.mul_zero] at hr
    omega
  obtain ⟨m, rfl⟩ := Nat.exists_eq_add_of_le hl
  have hm := Nat.mod_lt m hpos
  have hk : m / v.fatSize < v.numFats := by
    rw [Nat.div_lt_iff_lt_mul hpos]
    omega
  have hsector : v.fatSector (m / v.fatSize) (m % v.fatSize) = v.reservedSectorCount + m := by
    rw [FatVolHandle.fatSector, Nat.add_assoc, Nat.mul_comm, Nat.div_add_mod]
  have hbyte : ∀ e : Disk, fatByte v e (m / v.fatSize) (512 * (m % v.fatSize) + i) =
      e (v.reservedSectorCount + m) i := fun e => by
    have h1 : (512 * (m % v.fatSize) + i) / 512 = m % v.fatSize := by omega
    have h2 : (512 * (m % v.fatSize) + i) % 512 = i := by omega
    rw [fatByte, h1, h2, hsector]
  rw [← hbyte d', ← hbyte d]
  refine byte_ext ?_ ?_
  · rw [← fatNibble_even, ← fatNibble_even]
    exact h _ hk _ (by omega)
  · rw [← fatNibble_odd, ← fatNibble_odd]
    exact h _ hk _ (by omega)

/-- Setting an entry in every copy can lead to one volume only. -/
theorem EntrySet.unique (h : EntrySet v (fun _ => True) c x d d') (h' : EntrySet v (fun _ => True) c x d d'') :
    d' = d'' := by
  funext n i
  by_cases hn : v.InFat n
  · rcases Nat.lt_or_ge i 512 with hi | hi
    · refine fat_ext (fun k hk j hj => ?_) hn hi
      by_cases hin : v.InEntry c j
      · obtain ⟨i, rfl⟩ := Nat.exists_eq_add_of_le hin.1
        have hi : i < v.type.width := Nat.lt_of_add_lt_add_left hin.2
        rw [h.set k hk trivial i hi, h'.set k hk trivial i hi]
      · rw [h.keep k hk j hj fun hj => hin hj.2, h'.keep k hk j hj fun hj => hin hj.2]
    · rw [h.tail n i hi, h'.tail n i hi]
  · rw [h.rest n hn, h'.rest n hn]

end Stm32Logger
