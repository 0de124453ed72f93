import Stm32Logger.Fat.LogFile
import Stm32Logger.Fat.Runs

/-!
# The log is the concatenation of the lines

A run of `WriteToFile` calls on a freshly created log file, with no failure of
the card and a cluster for every call that needs one.
-/

namespace Stm32Logger

def SdStore.Allocates (s : SdStore) (b : List UInt8) : Prop :=
  b ≠ [] ∧ ((s.fs.handle .file).curCluster = 0 ∨
    s.fs.vol.clusterBytes ≤ (s.fs.handle .file).position % s.fs.vol.clusterBytes + b.length)

def SdStore.AllocOk (s : SdStore) (b : List UInt8) : Prop :=
  s.Allocates b → freeCluster s.fs.vol s.fs.disk ≠ 0

structure FileAt (v : FatVolHandle) (d : Disk) (e : Slot) (cs : List Nat) : Prop where
  used : ∀ c ∈ cs, v.IsCluster c ∧ fatEntry v d 0 c ≠ 0
  links : ∀ i, i + 1 < cs.length → fatEntry v d 0 (cs.getD i 0) = cs.getD (i + 1) 0
  size : slotSize d e ≤ cs.length * v.clusterBytes
  first : 0 < slotSize d e → slotCluster d e = cs.getD 0 0
  fat : ¬ v.InFat e.sector
  place : ∀ c, v.IsCluster c → v.InCluster c e.sector → fatEntry v d 0 c ≠ 0

def Slot.Disjoint (e e' : Slot) : Prop :=
  e.sector ≠ e'.sector ∨ e.offset + 32 ≤ e'.offset ∨ e'.offset + 32 ≤ e.offset

/-- Everything but the file in slot `e` is as it was: the slots and the
contents of all other files. -/
def OthersKept (v : FatVolHandle) (e : Slot) (d d' : Disk) : Prop :=
  ∀ e' cs, FileAt v d e' cs → e'.Disjoint e → (∀ c ∈ cs, ¬ v.InCluster c e.sector) →
    (∀ i < 32, slotBytes d' e' i = slotBytes d e' i) ∧ readFile v d' e' = readFile v d e'

/-- Only what was free, and the file's own slot, has changed since `d`. -/
def FreeArea (v : FatVolHandle) (e : Slot) (d : Disk) : Disk → Prop :=
  Agree v (fun j => v.IsCluster j ∧ fatEntry v d 0 j = 0)
    (fun n i => (∃ c, v.IsCluster c ∧ fatEntry v d 0 c = 0 ∧ v.InCluster c n) ∨ e.Field n i) d

section
variable {v : FatVolHandle} {d d' d'' : Disk} {e e' : Slot} {cs : List Nat}

theorem FreeArea.entry (hv : v.Shape) (h : FreeArea v e d d') (hc : v.IsCluster c)
    (hne : fatEntry v d 0 c ≠ 0) : fatEntry v d' 0 c = fatEntry v d 0 c :=
  Agree.fatEntry hv h hv.numFats hc.2 fun h' => hne h'.2

theorem FreeArea.othersKept (hv : v.Shape) (h : FreeArea v e d d') : OthersKept v e d d' := by
  intro e' cs hf hdis hcs
  have hslot : ∀ i < 32, slotBytes d' e' i = slotBytes d e' i := fun i hi => by
    refine h.rest _ _ hf.fat ?_
    rintro (⟨c, hc, hfree, hin⟩ | ⟨he, hi'⟩)
    · exact hf.place c hc hin hfree
    · rcases hdis with hne | hlt
      · exact hne he
      · omega
  have hsize := slotSize_congr hslot
  have hfirst := slotCluster_congr hslot
  have he : ∀ c ∈ cs, fatEntry v d' 0 c = fatEntry v d 0 c := fun c hc =>
    h.entry hv (hf.used c hc).1 (hf.used c hc).2
  refine ⟨hslot, ?_⟩
  rw [readFile_eq cs hv (fun c hc => (hf.used c hc).1) hf.links hf.size hf.first,
    readFile_eq cs hv (fun c hc => (hf.used c hc).1) (fun i hi => ?_) (hsize ▸ hf.size)
      (hsize ▸ hfirst ▸ hf.first), hsize]
  · congr 1
    refine List.map_congr_left fun q hq => ?_
    have hq := div_lt_of_lt hv (Nat.lt_of_lt_of_le (List.mem_range.mp hq) hf.size)
    have hmem := getD_mem hq
    have hin := chainSector_inCluster hv cs q
    refine h.rest _ _ (chainSector_not_inFat hv) ?_
    rintro (⟨c, hc, hfree, hin'⟩ | ⟨hn, -⟩)
    · have := cluster_unique (hf.used _ hmem).1.1 hc.1 hin hin'
      exact (hf.used _ hmem).2 (this ▸ hfree)
    · exact hcs _ hmem (hn ▸ hin)
  · rw [he _ (getD_mem (by omega))]
    exact hf.links i hi

theorem FreeArea.step (hv : v.Shape) (hh : v.HintOk) (h : FreeArea v e d d') (hne : ¬ v.InFat e.sector)
    (hcs : ∀ c ∈ cs, v.IsCluster c ∧ fatEntry v d 0 c = 0) (ha : AheadArea v cs p d' d'') :
    FreeArea v e d (d''.edit e.sector (syncDirent e.offset first size)) := by
  have hnext : ∀ c, v.Next d' c → v.IsCluster c ∧ fatEntry v d 0 c = 0 := by
    rintro c ⟨hc, rfl⟩
    obtain ⟨hcl, hfree⟩ := freeCluster_spec hh hc
    refine ⟨hcl, ?_⟩
    by_contra h0
    exact h0 ((h.entry hv hcl h0).symm.trans hfree)
  refine (h.trans (ha.mono ?_ ?_)).trans (syncDirent_agree hne fun n i hf => .inr hf)
  · rintro j (hj | ⟨hj, -⟩)
    · exact hnext j hj
    · exact hcs j hj
  · rintro n i (⟨m, hm⟩ | ⟨c, hc, hin⟩)
    · obtain ⟨q, -, -, hq, rfl, -⟩ := hm
      have hmem := getD_mem hq
      exact .inl ⟨_, (hcs _ hmem).1, (hcs _ hmem).2, chainSector_inCluster hv cs q⟩
    · exact .inl ⟨c, (hnext c hc).1, (hnext c hc).2, hin⟩

end

-- ---------------------------------------------------------------------------
-- One call, and a run of calls
-- ---------------------------------------------------------------------------

theorem writeToFile_of {s : SdStore} (h : fatWrite .file b s.fs = .ok i t) :
    writeToFile b s = .ok ⟨⟩ { s with fs := t } := by
  have hrun : onCard (fatWrite .file b) s = .ok i { s with fs := t } := by
    simp only [onCard, h]
  rw [writeToFile, bind_ok hrun, pure_run]

/-- A file open for writing on a card without errors, with a cluster begun or none yet. -/
structure Writing (s : SdStore) (e : Slot) (cs : List Nat) (log : List UInt8) : Prop
    extends Opened s.fs .file e cs log where
  quiet : s.fs.Quiet
  inside : cs ≠ [] → log.length < cs.length * s.fs.vol.clusterBytes

/-- A log file in the making: open, with a cluster begun or none yet, on a card
without errors; what was free in `d` is all that has changed since. -/
structure Logging (d : Disk) (e : Slot) (s : SdStore) (cs : List Nat) (log : List UInt8) : Prop
    extends LogOpen s.fs .file e cs log where
  quiet : s.fs.Quiet
  inside : cs ≠ [] → log.length < cs.length * s.fs.vol.clusterBytes
  area : FreeArea s.fs.vol e d s.fs.disk
  taken : ∀ c ∈ cs, s.fs.vol.IsCluster c ∧ fatEntry s.fs.vol d 0 c = 0

variable {s : SdStore} {d : Disk} {e : Slot} {cs : List Nat} {log b : List UInt8}

theorem Logging.writing (h : Logging d e s cs log) : Writing s e cs log :=
  ⟨h.opened, h.quiet, h.inside⟩

theorem Writing.room (h : Writing s e cs log) (hal : s.AllocOk b) (hb : 0 < b.length) :
    Room s.fs.vol s.fs.disk cs log b ∧
      (cs ≠ [] → log.length + b.length < cs.length * s.fs.vol.clusterBytes ∨
        freeCluster s.fs.vol s.fs.disk ≠ 0) := by
  have hbne : b ≠ [] := List.ne_nil_of_length_pos hb
  have hmore : cs ≠ [] → log.length + b.length < cs.length * s.fs.vol.clusterBytes ∨
      freeCluster s.fs.vol s.fs.disk ≠ 0 := by
    intro hne
    by_cases hf : freeCluster s.fs.vol s.fs.disk = 0
    · left
      refine h.holds.within (h.inside hne) ?_
      rw [← h.stands.position]
      by_contra hge
      exact hal ⟨hbne, .inr (Nat.le_of_not_lt hge)⟩ hf
    · exact .inr hf
  refine ⟨⟨fun hnil => hal ⟨hbne, .inl (h.curCluster.mpr hnil)⟩, h.inside, fun hne => ?_⟩, hmore⟩
  exact (hmore hne).imp_left Nat.le_of_lt

theorem Writing.write_nil (h : Writing s e cs log) : writeToFile [] s = .ok ⟨⟩ s := by
  refine writeToFile_of (fatWrite_nil h.stands.fat h.stands.root ?_)
  rw [h.stands.position, h.size]

/-- One call of `WriteToFile` with a line in it: what the card has while the line is
stored, and with its entry. -/
theorem Writing.appendThen {P Q : Disk → Prop} (h : Writing s e cs log) (hb : 0 < b.length)
    (hlen : b.length ≤ 255) (ht : s.fs.vol.Tests (log.length + b.length)) (h32 : log.length + b.length < 2 ^ 32)
    (hal : s.AllocOk b) (hP : ∀ d, AheadArea s.fs.vol cs log.length s.fs.disk d → P d)
    (hQ : ∀ d cs', Wrote s.fs.vol cs cs' log b s.fs.disk d →
      Q (d.edit e.sector (syncDirent e.offset (cs'.headD 0) (log ++ b).length))) :
    ∃ t cs', writeToFile b s = .ok ⟨⟩ { s with fs := t } ∧ LogWritten P Q .file e cs cs' log b s.fs t ∧
      Writing { s with fs := t } e cs' (log ++ b) := by
  obtain ⟨hroom, hmore⟩ := h.room hal hb
  obtain ⟨t, cs', hrun, hw⟩ := logWrite_run h.toStream h.coherent h.quiet hroom hb (by omega) ht h32 hP hQ
  obtain ⟨d', hwrote, -⟩ := hw.disk
  obtain ⟨i, hvol, -⟩ := hw.vol
  refine ⟨t, cs', writeToFile_of hrun, hw, hw.opened, hw.ran.quiet h.quiet, fun _ => ?_⟩
  have hcb : t.vol.clusterBytes = s.fs.vol.clusterBytes := by
    rw [hvol]
    rfl
  show (log ++ b).length < cs'.length * t.vol.clusterBytes
  rw [hcb]
  refine hwrote.room ?_
  by_cases hne : cs = []
  · exact .inr (hroom.start hne)
  · exact hmore hne

theorem Writing.append (h : Writing s e cs log) (hb : 0 < b.length) (hlen : b.length ≤ 255)
    (ht : s.fs.vol.Tests (log.length + b.length)) (h32 : log.length + b.length < 2 ^ 32) (hal : s.AllocOk b) :
    ∃ t cs', writeToFile b s = .ok ⟨⟩ { s with fs := t } ∧
      LogWritten (fun _ => True) (fun _ => True) .file e cs cs' log b s.fs t ∧
      Writing { s with fs := t } e cs' (log ++ b) :=
  h.appendThen hb hlen ht h32 hal (fun _ _ => trivial) fun _ _ _ => trivial

theorem Writing.write (h : Writing s e cs log) (hlen : b.length ≤ 255)
    (hb : s.fs.vol.Tests (log.length + b.length) ∧ log.length + b.length < 2 ^ 32) (hal : s.AllocOk b) :
    ∃ t cs', writeToFile b s = .ok ⟨⟩ t ∧ Writing t e cs' (log ++ b) := by
  by_cases hne : b = []
  · subst hne
    exact ⟨s, cs, h.write_nil, by rwa [List.append_nil]⟩
  · obtain ⟨t, cs', hrun, -, ht⟩ := h.append (List.length_pos_of_ne_nil hne) hlen hb.1 hb.2 hal
    exact ⟨_, cs', hrun, ht⟩

theorem Logging.write (h : Logging d e s cs log) (hlen : b.length ≤ 255)
    (h32 : log.length + b.length < 2 ^ 32) (hal : s.AllocOk b) :
    ∃ t cs', writeToFile b s = .ok ⟨⟩ t ∧ Logging d e t cs' (log ++ b) ∧
      Rehinted s.fs.vol t.fs.vol := by
  cases hb : b with
  | nil =>
    refine ⟨s, cs, h.writing.write_nil, ?_, .refl _⟩
    rwa [List.append_nil]
  | cons x xs =>
    rw [← hb]
    have hpos : 0 < b.length := by rw [hb]; exact Nat.succ_pos _
    obtain ⟨t, cs', hrun, hw, ht⟩ := h.writing.append hpos hlen (h.layout.tests _) h32 hal
    obtain ⟨d', hwrote, hdisk⟩ := hw.disk
    obtain ⟨i, hvol, -⟩ := hw.vol
    have harea : FreeArea s.fs.vol e d t.disk := by
      rw [hdisk]
      exact h.area.step h.shape h.hint h.place.fat h.taken hwrote.area
    refine ⟨{ s with fs := t }, cs', hrun,
      ⟨ht.toOpened.logOpen (hw.vol.layout h.layout), ht.quiet, ht.inside, ?_,
      fun c hc => ?_⟩, hw.vol⟩
    · show FreeArea t.vol e d t.disk
      rw [hvol]
      exact ⟨harea.fat, harea.rest⟩
    · show t.vol.IsCluster c ∧ fatEntry t.vol d 0 c = 0
      rw [hvol]
      rcases hwrote.fresh c hc with hc | ⟨hne, rfl⟩
      · exact h.taken c hc
      · obtain ⟨hcl, hfree⟩ := freeCluster_spec h.hint hne
        refine ⟨hcl, ?_⟩
        by_contra h0
        exact h0 ((h.area.entry h.shape hcl h0).symm.trans hfree)

theorem Logging.writeLines (h : Logging d e s cs log) (hlen : ∀ b ∈ bs, b.length ≤ 255)
    (h32 : log.length + bs.flatten.length < 2 ^ 32) (hal : Along writeToFile SdStore.AllocOk bs s) :
    ∃ t cs', runAll writeToFile bs s = .ok ⟨⟩ t ∧ Logging d e t cs' (log ++ bs.flatten) ∧
      Rehinted s.fs.vol t.fs.vol := by
  induction bs generalizing s cs log with
  | nil => exact ⟨s, cs, rfl, by rwa [List.flatten_nil, List.append_nil], .refl _⟩
  | cons b bs ih =>
    rw [List.flatten_cons, List.length_append] at h32
    obtain ⟨t, cs', hrun, ht, hvol⟩ := h.write (hlen b List.mem_cons_self) (by omega) hal.1
    obtain ⟨u, cs'', hrun', hu, hvol'⟩ := ih ht (fun b' hb' => hlen b' (List.mem_cons_of_mem b hb'))
      (by rw [List.length_append]; omega) (hal.2 t hrun)
    refine ⟨u, cs'', ?_, ?_, hvol.trans hvol'⟩
    · exact runAll_cons hrun hrun'
    · rwa [List.flatten_cons, ← List.append_assoc]

theorem length_flatten_take_le (bs : List (List UInt8)) (k : Nat) :
    (bs.take k).flatten.length ≤ bs.flatten.length := by
  have h := congrArg (fun bs => (List.flatten bs).length) (List.take_append_drop k bs)
  simp only [List.flatten_append, List.length_append] at h
  omega

theorem LogOpen.logging (h : LogOpen s.fs .file e [] []) (hq : s.fs.Quiet) :
    Logging s.fs.disk e s [] [] :=
  ⟨h, hq, fun hne => absurd rfl hne, .refl .., fun _ hc => absurd hc List.not_mem_nil⟩

/-- After every call, reading the log file gives the lines written so far, and
nothing else on the volume has changed. -/
theorem log_is_concatenation (bs : List (List UInt8)) (h : LogOpen s.fs .file e [] []) (hq : s.fs.Quiet)
    (hlen : ∀ b ∈ bs, b.length ≤ 255) (h32 : bs.flatten.length < 2 ^ 32)
    (hal : Along writeToFile SdStore.AllocOk bs s) (k : Nat) :
    ∃ t, runAll writeToFile (bs.take k) s = .ok ⟨⟩ t ∧
      readFile t.fs.vol t.fs.disk e = some (bs.take k).flatten ∧
      slotSize t.fs.disk e = ((bs.take k).map List.length).sum ∧
      OthersKept s.fs.vol e s.fs.disk t.fs.disk := by
  obtain ⟨t, cs, hrun, ht, hvol⟩ := (h.logging hq).writeLines
    (fun b hb => hlen b (List.mem_of_mem_take hb)) (by
      have := length_flatten_take_le bs k
      rw [List.length_nil]
      omega) (hal.take k)
  rw [List.nil_append] at ht
  refine ⟨t, hrun, ht.opened.readFile, ?_, ?_⟩
  · rw [ht.entry.size, List.length_flatten]
  · obtain ⟨i, hi, -⟩ := hvol
    have harea := ht.area
    rw [hi] at harea
    exact FreeArea.othersKept h.shape ⟨harea.fat, harea.rest⟩

/-- A small FAT12 volume of `n` clusters with a new file in the first slot of its root directory. -/
def smallFs (n : Nat) : FatState where
  card := { image := fun _ _ => 0 }
  part := { ready := true }
  vol :=
    { dev := .part, type := .fat12, bytesPerSector := 512, sectorsPerCluster := 1
      reservedSectorCount := 1, numFats := 1, firstDataSector := 3, clusterCount := n, fatSize := 1
      rootWord := 1 + 65536 * 2, lastClusterAlloc := 2 }
  handle r := if r = .file then { fat := true, flags := oWronly, direntSector := 2 } else { fat := true }

def smallStore (n : Nat) : SdStore := { fs := smallFs n }

theorem smallStore_layout (hn : n ≤ 300) : (smallStore n).fs.vol.Layout where
  bytes := rfl
  type h := FatType.noConfusion h
  spc := ⟨0, Nat.zero_le 7, rfl⟩
  numFats := Nat.le_refl 1
  reserved := Nat.le_refl 1
  data := (by decide : 1 + 1 * 1 ≤ 3)
  aligned := (by decide : 3 % 1 = 0)
  fits := by
    show 3 + n * 1 ≤ 2 ^ 32
    omega
  entries := by
    show 3 * (n + 2) ≤ 1024 * 1
    omega
  count := by
    show n ≤ 4084
    omega

theorem smallStore_logOpen (hn : n ≤ 300) : LogOpen (smallStore n).fs .file ⟨2, 0⟩ [] [] where
  mounted := ⟨rfl, rfl, Nat.two_pow_pos 32, fun h => Bool.noConfusion h, fun _ h => absurd h List.not_mem_nil⟩
  shape := (smallStore_layout hn).toShape
  layout := smallStore_layout hn
  hint := ⟨Nat.le_refl 2, Nat.le_add_left 2 n⟩
  holds := .nil ..
  stands := ⟨rfl, rfl, rfl, rfl, rfl⟩
  size_le := Nat.le_refl 0
  sector := rfl
  offset := rfl
  flags := (by decide : oWronly / oAsync % 2 = 0)
  place := by
    refine ⟨Nat.two_pos, (by decide : 2 < 2 ^ 32), by decide, fun h => ?_, fun c _ h => ?_⟩
    · exact absurd h.2 (by decide : ¬ 2 < 1 + 1 * 1)
    · have h : 3 + (c - 2) * 1 ≤ 2 := h.1
      omega
  coherent _ h := BlockDev.noConfusion h
  size := rfl
  entry := ⟨rfl, fun h => absurd h (Nat.lt_irrefl 0)⟩

end Stm32Logger
