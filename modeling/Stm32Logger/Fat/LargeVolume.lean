import Stm32Logger.Fat.Concatenation

/-!
# A volume with room for four gigabytes

As long as a file takes less than all the clusters, the search finds one for
its next line. On a large volume that is so up to the last byte a directory
entry can tell of.
-/

namespace Stm32Logger

variable {s : SdStore} {d : Disk} {e : Slot} {cs us : List Nat} {log b : List UInt8} {bs : List (List UInt8)}

theorem Writing.length_eq (h : Writing s e cs log) (hne : log ≠ []) :
    cs.length = log.length / s.fs.vol.clusterBytes + 1 := by
  have hcs : cs ≠ [] := fun hcs => hne (h.holds.empty.mp hcs)
  have hidx := h.holds.index (h.inside hcs)
  have := List.length_pos_of_ne_nil hcs
  omega

theorem Writing.length_lt (h : Writing s e cs log) : log.length < 2 ^ 32 := by
  rw [← h.entry.size]
  exact le32_lt ..

/-- The clusters in use are those of the file and some others. -/
def UsedBy (us cs : List Nat) (s : FatState) : Prop :=
  ∀ j, s.vol.IsCluster j → fatEntry s.vol s.disk 0 j ≠ 0 → j ∈ us ∨ j ∈ cs

theorem TableAfter.kept {v : FatVolHandle} (hv : v.Shape) (h : TableAfter v cs d cs' d') (hj : v.HasEntry j)
    (hne : j ∉ cs') : fatEntry v d' 0 j = fatEntry v d 0 j := by
  cases h with
  | same h => exact fatEntry_congr hv hv.numFats hj h
  | snoc hf new link agree =>
    refine agree.fatEntry hv hv.numFats hj ?_
    rintro (⟨-, rfl⟩ | ⟨hm, -⟩)
    · exact hne (List.mem_append_right _ (List.mem_singleton_self _))
    · exact hne (List.mem_append_left _ hm)

theorem UsedBy.freeCluster_ne_zero (h : UsedBy us cs s.fs) (hh : s.fs.vol.HintOk)
    (hlen : us.length + cs.length + 2 < s.fs.vol.clusterCount) : freeCluster s.fs.vol s.fs.disk ≠ 0 := by
  intro h0
  have hsub : Finset.Ico 2 s.fs.vol.clusterCount ⊆ (us ++ cs).toFinset := fun j hj => by
    rw [Finset.mem_Ico] at hj
    rw [List.mem_toFinset, List.mem_append]
    exact h j ⟨hj.1, by omega⟩ (freeCluster_none hh h0 hj.1 (lt_max_of_lt_right hj.2))
  have hcard := (Finset.card_le_card hsub).trans (List.toFinset_card_le _)
  rw [Nat.card_Ico, List.length_append] at hcard
  omega

theorem Writing.usedBy (h : Writing s e cs log) (hu : UsedBy us cs s.fs)
    (hw : LogWritten P Q .file e cs cs' log b s.fs t) : UsedBy us cs' t := by
  obtain ⟨d', hwrote, hdisk⟩ := hw.disk
  obtain ⟨i, hvol, -⟩ := hw.vol
  intro j hj hne
  rw [hvol] at hj hne
  by_cases hmem : j ∈ cs'
  · exact .inr hmem
  · have hsync : fatEntry s.fs.vol t.disk 0 j = fatEntry s.fs.vol d' 0 j := by
      rw [hdisk]
      exact fatEntry_congr h.shape h.shape.numFats hj.2 fun n hn =>
        Disk.edit_of_ne _ fun he => h.place.fat (he ▸ hn)
    have hkept := hsync.trans (hwrote.after.kept h.shape hj.2 hmem)
    refine (hu j hj fun h0 => hne (hkept.trans h0)).imp_right fun hc => ?_
    exact absurd (hwrote.grown.subset hc) hmem

theorem Writing.freeCluster_ne_zero (h : Writing s e cs log) (hu : UsedBy us cs s.fs)
    (hcount : us.length + 2 ^ 32 / s.fs.vol.clusterBytes + 3 < s.fs.vol.clusterCount) :
    freeCluster s.fs.vol s.fs.disk ≠ 0 := by
  refine hu.freeCluster_ne_zero h.hint ?_
  by_cases hlog : log = []
  · rw [h.holds.empty.mpr hlog, List.length_nil]
    generalize 2 ^ 32 / s.fs.vol.clusterBytes = q at hcount
    omega
  · have hlen := h.length_eq hlog
    have hle := Nat.div_le_div_right (c := s.fs.vol.clusterBytes) (Nat.le_of_lt h.length_lt)
    omega

theorem Writing.usedBy_write (h : Writing s e cs log) (hv : s.fs.vol.Layout) (hu : UsedBy us cs s.fs)
    (hlen : b.length ≤ 255) (h32 : log.length + b.length < 2 ^ 32) (hal : s.AllocOk b)
    (hrun : writeToFile b s = .ok ⟨⟩ t) :
    ∃ cs', Writing t e cs' (log ++ b) ∧ UsedBy us cs' t.fs ∧ Rehinted s.fs.vol t.fs.vol := by
  by_cases hb : b = []
  · subst hb
    rw [h.write_nil] at hrun
    cases hrun
    exact ⟨cs, by rwa [List.append_nil], hu, .refl _⟩
  · obtain ⟨u, cs', hrun', hw, hu'⟩ := h.append (List.length_pos_of_ne_nil hb) hlen (hv.tests _) h32 hal
    rw [hrun] at hrun'
    cases hrun'
    exact ⟨cs', hu', h.usedBy hu hw, hw.vol⟩

theorem Writing.allocOk (h : Writing s e cs log) (hv : s.fs.vol.Layout) (hu : UsedBy us cs s.fs)
    (hcount : us.length + 2 ^ 32 / s.fs.vol.clusterBytes + 3 < s.fs.vol.clusterCount)
    (hlen : ∀ b ∈ bs, b.length ≤ 255)
    (h32 : ∀ k < bs.length, log.length + (bs.take k).flatten.length < 2 ^ 32) :
    Along writeToFile SdStore.AllocOk bs s := by
  induction bs generalizing s cs log with
  | nil => trivial
  | cons b bs ih =>
    have hal : s.AllocOk b := fun _ => h.freeCluster_ne_zero hu hcount
    refine ⟨hal, fun t hrun => ?_⟩
    cases bs with
    | nil => trivial
    | cons b' bs =>
      have hstep := hlen b List.mem_cons_self
      have hlt := h32 1 (Nat.succ_lt_succ (Nat.succ_pos _))
      rw [List.take_succ_cons, List.take_zero, List.flatten_cons, List.flatten_nil, List.append_nil] at hlt
      obtain ⟨cs', ht, hu', hvol⟩ := h.usedBy_write hv hu hstep hlt hal hrun
      refine ih ht (hvol.layout hv) hu' ?_ (fun a ha => hlen a (List.mem_cons_of_mem b ha)) fun k hk => ?_
      · rw [hvol.clusterBytes, hvol.clusterCount]
        exact hcount
      · have hlt' := h32 (k + 1) (Nat.succ_lt_succ hk)
        rw [List.take_succ_cons, List.flatten_cons, List.length_append] at hlt'
        rw [List.length_append]
        omega

def largeFat : List UInt8 := [0xF8, 0xFF, 0xFF, 0x0F, 0xFF, 0xFF, 0xFF, 0x0F, 0xF8, 0xFF, 0xFF, 0x0F]

/-- A FAT32 volume of 70000 clusters of 64 KiB with a new file in the first slot of its root directory. -/
def largeFs : FatState where
  card := { image := fun n i => if n = 128 then largeFat.getD i 0 else 0 }
  part := { ready := true }
  vol :=
    { dev := .part, type := .fat32, bytesPerSector := 512, sectorsPerCluster := 128
      reservedSectorCount := 128, numFats := 1, firstDataSector := 768, clusterCount := 70000, fatSize := 640
      rootWord := 2, lastClusterAlloc := 2 }
  handle r := if r = .file then { fat := true, flags := oWronly, direntSector := 768 } else { fat := true }

def largeStore : SdStore := { fs := largeFs }

theorem largeStore_layout : largeStore.fs.vol.Layout where
  bytes := rfl
  type h := FatType.noConfusion h
  spc := ⟨7, Nat.le_refl 7, rfl⟩
  numFats := Nat.le_refl 1
  reserved := (by decide : 1 ≤ 128)
  data := (by decide : 128 + 1 * 640 ≤ 768)
  aligned := (by decide : 768 % 128 = 0)
  fits := (by decide : 768 + 70000 * 128 ≤ 2 ^ 32)
  entries := (by decide : 8 * (70000 + 2) ≤ 1024 * 640)
  count := (by decide : 70000 ≤ 0x0FFFFFF5)

theorem largeFat_getD (h : 12 ≤ i) : largeFat.getD i 0 = 0 :=
  List.getD_eq_default _ _ h

theorem largeFs_fatByte (h : 12 ≤ i) : fatByte largeFs.vol largeFs.disk 0 i = 0 := by
  have hsec : largeFs.vol.fatSector 0 (i / 512) = 128 + i / 512 := by
    show 128 + 0 * 640 + i / 512 = 128 + i / 512
    omega
  have hdisk : ∀ n, largeFs.disk n = largeFs.stored n := fun n => if_neg fun h => Bool.noConfusion h.1
  rw [fatByte, hsec, hdisk, FatState.stored, MbrPartition.view]
  split
  next hlt =>
    show (if u32 (0 + (128 + i / 512)) = 128 then largeFat.getD (i % 512) 0 else 0) = 0
    rw [Nat.zero_add, u32, Nat.mod_eq_of_lt hlt]
    split
    · exact largeFat_getD (by omega)
    · rfl
  next => rfl

theorem largeStore_usedBy : UsedBy [2] [] largeStore.fs := by
  intro j hj hne
  refine .inl (List.mem_singleton.mpr ?_)
  by_contra h2
  have hj : 2 ≤ j := hj.1
  refine hne ?_
  show ((fatByte largeFs.vol largeFs.disk 0 (4 * j)).toNat +
    256 * (fatByte largeFs.vol largeFs.disk 0 (4 * j + 1)).toNat +
    65536 * ((fatByte largeFs.vol largeFs.disk 0 (4 * j + 2)).toNat +
      256 * (fatByte largeFs.vol largeFs.disk 0 (4 * j + 3)).toNat)) % 2 ^ 28 = 0
  rw [largeFs_fatByte (by omega), largeFs_fatByte (by omega), largeFs_fatByte (by omega),
    largeFs_fatByte (by omega)]
  rfl

theorem largeStore_logOpen : LogOpen largeStore.fs .file ⟨768, 0⟩ [] [] where
  mounted := ⟨rfl, rfl, Nat.two_pow_pos 32, fun h => Bool.noConfusion h, fun _ h => absurd h List.not_mem_nil⟩
  shape := largeStore_layout.toShape
  layout := largeStore_layout
  hint := ⟨Nat.le_refl 2, (by decide : 2 ≤ 70000 + 2)⟩
  holds := .nil ..
  stands := ⟨rfl, rfl, rfl, rfl, rfl⟩
  size_le := Nat.le_refl 0
  sector := rfl
  offset := rfl
  flags := (by decide : oWronly / oAsync % 2 = 0)
  place := by
    refine ⟨(by decide : 0 < 768), (by decide : 768 < 2 ^ 32), by decide, fun h => ?_, fun c hc h => ?_⟩
    · exact absurd h.2 (by decide : ¬ 768 < 128 + 1 * 640)
    · have hc : 2 ≤ c := hc.1
      have h : 768 + (c - 2) * 128 ≤ 768 := h.1
      obtain rfl : c = 2 := by omega
      exact ⟨by decide +kernel, List.not_mem_nil⟩
  coherent _ h := BlockDev.noConfusion h
  size := rfl
  entry := ⟨rfl, fun h => absurd h (Nat.lt_irrefl 0)⟩

def endlessLines : List (List UInt8) := List.replicate 16843009 (List.replicate 255 65) ++ [[66]]

theorem endlessLines_take (h : k < endlessLines.length) : (endlessLines.take k).flatten.length = 255 * k := by
  have hk : k ≤ 16843009 := by
    rw [endlessLines, List.length_append, List.length_replicate] at h
    exact Nat.le_of_lt_succ h
  rw [endlessLines, List.take_append_of_le_length (by rwa [List.length_replicate]), List.take_replicate,
    Nat.min_eq_left hk, List.length_flatten, List.map_replicate, List.sum_replicate_nat, List.length_replicate,
    Nat.mul_comm]

theorem endlessLines_length_le : ∀ b ∈ endlessLines, b.length ≤ 255 := by
  intro b hb
  rcases List.mem_append.mp hb with hb | hb
  · rw [List.eq_of_mem_replicate hb, List.length_replicate]
  · rw [List.mem_singleton.mp hb]
    decide

theorem largeStore_quiet : largeStore.fs.Quiet := fun _ h => absurd h List.not_mem_nil

theorem largeStore_logging : Logging largeStore.fs.disk ⟨768, 0⟩ largeStore [] [] :=
  largeStore_logOpen.logging largeStore_quiet

theorem largeStore_allocOk (hlen : ∀ b ∈ bs, b.length ≤ 255)
    (h32 : ∀ k < bs.length, (bs.take k).flatten.length < 2 ^ 32) :
    Along writeToFile SdStore.AllocOk bs largeStore := by
  refine largeStore_logging.writing.allocOk largeStore_layout largeStore_usedBy ?_ hlen fun k hk => ?_
  · show 1 + 2 ^ 32 / (512 * 128) + 3 < 70000
    decide
  · rw [List.length_nil, Nat.zero_add]
    exact h32 k hk

theorem endlessLines_allocOk : Along writeToFile SdStore.AllocOk endlessLines largeStore := by
  refine largeStore_allocOk endlessLines_length_le fun k hk => ?_
  have hk' : k < 16843010 := by
    rw [endlessLines, List.length_append, List.length_replicate] at hk
    exact hk
  rw [endlessLines_take hk]
  omega

/-- All the lines up to the limit read as they were written, from 65536 clusters. -/
theorem log_is_concatenation_large :
    ∃ t, runAll writeToFile (endlessLines.take 16843009) largeStore = .ok ⟨⟩ t ∧
      readFile t.fs.vol t.fs.disk ⟨768, 0⟩ = some (endlessLines.take 16843009).flatten ∧
      slotSize t.fs.disk ⟨768, 0⟩ = 2 ^ 32 - 1 ∧
      OthersKept largeStore.fs.vol ⟨768, 0⟩ largeStore.fs.disk t.fs.disk := by
  have hk : 16843009 < endlessLines.length := by
    rw [endlessLines, List.length_append, List.length_replicate]
    exact Nat.lt_succ_self _
  have hlen := endlessLines_take hk
  obtain ⟨t, hrun, hread, hsize, hkept⟩ := log_is_concatenation (endlessLines.take 16843009) largeStore_logOpen
    largeStore_quiet (fun b hb => endlessLines_length_le b (List.mem_of_mem_take hb)) (by rw [hlen]; decide)
    (endlessLines_allocOk.take _) 16843009
  rw [List.take_take, Nat.min_self] at hrun hread hsize
  rw [← List.length_flatten, hlen] at hsize
  exact ⟨t, hrun, hread, hsize, hkept⟩

end Stm32Logger
