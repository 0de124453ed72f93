import Stm32Logger.Fat.Concatenation

/-!
# A full card

What `WriteToFile` does to the log once the allocator fails. A line that ends
exactly where the last cluster does leaves the handle standing on that cluster,
and the next line overwrites it.
-/

namespace Stm32Logger

/-- The clusters of the file in a slot; none when it is empty. -/
def FileChain (v : FatVolHandle) (d : Disk) (e : Slot) (cs : List Nat) : Prop :=
  cs = [] ∧ slotSize d e = 0 ∨ ChainOk v d cs ∧ slotCluster d e = cs.headD 0

/-- A call that appends the whole line or nothing, to a file within its clusters. -/
def WholeOrNothing (e : Slot) (s t : SdStore) (b : List UInt8) : Prop :=
  (∃ log, readFile s.fs.vol s.fs.disk e = some log ∧
    (readFile t.fs.vol t.fs.disk e = some log ∨ readFile t.fs.vol t.fs.disk e = some (log ++ b))) ∧
  ∃ cs, FileChain t.fs.vol t.fs.disk e cs ∧
    slotSize t.fs.disk e ≤ cs.length * t.fs.vol.clusterBytes

def LogUndamaged (e : Slot) (s : SdStore) (bs : List (List UInt8)) : Prop :=
  ∀ (k : Nat) (hk : k < bs.length), ∃ t u, runAll writeToFile (bs.take k) s = .ok ⟨⟩ t ∧
    writeToFile bs[k] t = .ok ⟨⟩ u ∧ WholeOrNothing e t u bs[k]

/-- The line is empty, or the file is, or the line has room in the clusters of
the file or a further one; and the file stays below 4 GiB. -/
def SdStore.Fits (s : SdStore) (b : List UInt8) : Prop :=
  b = [] ∨ (s.fs.handle .file).curCluster = 0 ∨
    ∃ cs, ChainOk s.fs.vol s.fs.disk cs ∧ cs.headD 0 = (s.fs.handle .file).firstCluster ∧
      (s.fs.handle .file).position < cs.length * s.fs.vol.clusterBytes ∧
      ((s.fs.handle .file).position + b.length ≤ cs.length * s.fs.vol.clusterBytes ∨
        freeCluster s.fs.vol s.fs.disk ≠ 0) ∧
      (s.fs.handle .file).position + b.length < 2 ^ 32

variable {P : Disk → Prop} {s : SdStore} {e : Slot} {cs : List Nat} {log b : List UInt8}

theorem LogStream.kept {s t : FatState} (h : LogStream s r e cs log) (hk : Kept P s t) :
    LogStream t r e cs log := by
  have hd := hk.disk
  have hv := hk.vol
  have hh := hk.handle
  exact ⟨⟨hk.mounted, hv ▸ h.shape, hv ▸ h.hint, hv ▸ hd ▸ h.holds, hh ▸ h.stands, hh ▸ h.size_le,
    hh ▸ h.sector, hh ▸ h.offset, hh ▸ h.flags, hv ▸ hd ▸ h.place⟩, hv ▸ h.layout⟩

theorem LogOpen.fileChain {s : FatState} (h : LogOpen s r e cs log) :
    FileChain s.vol s.disk e cs ∧ slotSize s.disk e ≤ cs.length * s.vol.clusterBytes := by
  refine ⟨?_, h.entry.size ▸ h.holds.fits⟩
  by_cases hne : cs = []
  · refine .inl ⟨hne, ?_⟩
    rw [h.entry.size, h.holds.empty.mp hne]
    rfl
  · have hlog : log ≠ [] := fun hlog => hne (h.holds.empty.mpr hlog)
    exact .inr ⟨h.holds.chain hne, h.entry.cluster (List.length_pos_of_ne_nil hlog)⟩

theorem ChainOk.unique {v : FatVolHandle} (hv : v.Shape) (h : ChainOk v d cs) (h' : ChainOk v d cs')
    (hhead : cs.headD 0 = cs'.headD 0) : cs = cs' := by
  refine h.chain.unique (h.eoc_not_mem hv) h'.chain (h'.eoc_not_mem hv) ?_
  cases cs with
  | nil => exact h.chain.elim
  | cons c cs =>
    cases cs' with
    | nil => exact h'.chain.elim
    | cons c' cs' => exact congrArg some hhead

theorem noCluster_eq {h : FatFileHandle} (h0 : h.firstCluster = 0) : { h with firstCluster := 0 } = h := by
  cases h
  cases h0
  rfl

theorem fatWrite_noCluster {s : FatState} (h : LogStream s r e cs log) (hco : s.Coherent) (hq : s.Quiet)
    (hcs : cs = []) (hb : b ≠ []) (hf : freeCluster s.vol s.disk = 0) (hP : P s.disk) :
    ∃ t, fatWrite r b s = .ok 0 t ∧ Kept P s t ∧ t.Coherent := by
  have hpos := List.length_pos_of_ne_nil hb
  obtain ⟨t, hal, hk, hco'⟩ := allocFirst_none (P := P) (n := b.length) h.mounted hq h.shape h.hint
    h.stands.fat (h.curCluster.mpr hcs) (by omega) hP hco hf
  have hsame : t.withHandle r { s.handle r with firstCluster := 0 } = t := by
    have h1 : { s.handle r with firstCluster := 0 } = t.handle r := by
      rw [hk.handle]
      exact noCluster_eq (h.stands.first.trans (by rw [hcs]; rfl))
    rw [h1, FatState.withHandle, Function.update_eq_self]
  rw [hsame] at hal
  refine ⟨t, returning_ok ?_, hk, hco'⟩
  rw [bind_ok hal, if_neg Bool.false_ne_true, pure_run]

theorem SdStore.Fits.cases (h : LogStream s.fs .file e cs log) (hfits : s.Fits b) (hb : b ≠ []) :
    cs = [] ∨ cs ≠ [] ∧ log.length < cs.length * s.fs.vol.clusterBytes ∧
      (log.length + b.length ≤ cs.length * s.fs.vol.clusterBytes ∨
        freeCluster s.fs.vol s.fs.disk ≠ 0) ∧ log.length + b.length < 2 ^ 32 := by
  rcases hfits.resolve_left hb with h0 | ⟨cs2, hc, hhead, hrest⟩
  · exact .inl (h.curCluster.mp h0)
  · right
    have hne : cs ≠ [] := fun hcs => by
      rw [h.stands.first, hcs] at hhead
      have hpos := hc.pos
      have hfst := (hc.cluster _ (getD_mem hpos)).1
      cases cs2 with
      | nil => exact absurd hpos (Nat.lt_irrefl 0)
      | cons c cs2 =>
        have hhead : c = 0 := hhead
        have hfst : 2 ≤ c := hfst
        omega
    obtain rfl : cs2 = cs := hc.unique h.shape (h.holds.chain hne) (hhead.trans h.stands.first)
    rw [h.stands.position] at hrest
    exact ⟨hne, hrest⟩

theorem LogOpen.write (h : LogOpen s.fs .file e cs log) (hq : s.fs.Quiet) (hlen : b.length ≤ 255)
    (hfits : s.Fits b) :
    ∃ t cs' log', writeToFile b s = .ok ⟨⟩ t ∧ LogOpen t.fs .file e cs' log' ∧ t.fs.Quiet ∧
      Rehinted s.fs.vol t.fs.vol ∧ (log' = log ∨ log' = log ++ b) := by
  have hwrite : b ≠ [] → log.length + b.length < 2 ^ 32 → Room s.fs.vol s.fs.disk cs log b →
      ∃ t cs' log', writeToFile b s = .ok ⟨⟩ t ∧ LogOpen t.fs .file e cs' log' ∧ t.fs.Quiet ∧
        Rehinted s.fs.vol t.fs.vol ∧ (log' = log ∨ log' = log ++ b) := by
    intro hne h32 hroom
    obtain ⟨t, cs', hrun, hw⟩ := logWrite_run (P := fun _ => True) (Q := fun _ => True) h.toStream
      h.coherent hq hroom (List.length_pos_of_ne_nil hne) (by omega) (h.layout.tests _) h32
      (fun _ _ => trivial) fun _ _ _ => trivial
    exact ⟨{ s with fs := t }, cs', log ++ b, writeToFile_of hrun, hw.opened.logOpen (hw.vol.layout h.layout),
      hw.ran.quiet hq, hw.vol, .inr rfl⟩
  by_cases hb : b = []
  · subst hb
    refine ⟨s, cs, log, writeToFile_of (fatWrite_nil h.stands.fat h.stands.root ?_), h, hq, .refl _, .inl rfl⟩
    rw [h.stands.position, h.size]
  · rcases hfits.cases h.toLogStream hb with hcs | ⟨hne, hin, henough, h32⟩
    · by_cases hf : freeCluster s.fs.vol s.fs.disk = 0
      · obtain ⟨t, hrun, hk, hco⟩ := fatWrite_noCluster (P := fun _ => True) h.toLogStream h.coherent hq hcs
          hb hf trivial
        exact ⟨{ s with fs := t }, cs, log, writeToFile_of hrun, ⟨h.toLogStream.kept hk, hco,
          hk.handle ▸ h.size, hk.disk ▸ h.entry⟩, hk.quiet hq, hk.vol ▸ .refl _, .inl rfl⟩
      · refine hwrite hb ?_ ⟨fun _ => hf, fun hne => absurd hcs hne, fun hne => absurd hcs hne⟩
        rw [h.holds.empty.mp hcs, List.length_nil]
        omega
    · exact hwrite hb h32 ⟨fun hnil => absurd hnil hne, fun _ => hin, fun _ => henough⟩

theorem LogOpen.writeLines (h : LogOpen s.fs .file e cs log) (hq : s.fs.Quiet)
    (hlen : ∀ b ∈ bs, b.length ≤ 255) (hfits : Along writeToFile SdStore.Fits bs s) :
    ∃ t cs' log', runAll writeToFile bs s = .ok ⟨⟩ t ∧ LogOpen t.fs .file e cs' log' ∧ t.fs.Quiet := by
  induction bs generalizing s cs log with
  | nil => exact ⟨s, cs, log, rfl, h, hq⟩
  | cons b bs ih =>
    obtain ⟨t, cs1, log1, hrun, ht, hqt, -⟩ := h.write hq (hlen b List.mem_cons_self) hfits.1
    obtain ⟨u, cs2, log2, hrun', hu, hqu⟩ := ih ht hqt
      (fun b' hb' => hlen b' (List.mem_cons_of_mem b hb')) (hfits.2 t hrun)
    exact ⟨u, cs2, log2, runAll_cons hrun hrun', hu, hqu⟩

theorem full_card_keeps_log (h : LogOpen s.fs .file e cs log) (hq : s.fs.Quiet)
    (hlen : ∀ b ∈ bs, b.length ≤ 255) (hfits : Along writeToFile SdStore.Fits bs s) : LogUndamaged e s bs := by
  intro k hk
  obtain ⟨t, cs1, log1, hrun, ht, hqt⟩ := h.writeLines hq
    (fun b hb => hlen b (List.mem_of_mem_take hb)) (hfits.take k)
  obtain ⟨u, cs2, log2, hrun', hu, -, -, hlog⟩ := ht.write hqt (hlen _ (List.getElem_mem hk))
    (hfits.at hk hrun)
  refine ⟨t, u, hrun, hrun', ⟨log1, ht.opened.readFile, ?_⟩, cs2, hu.fileChain⟩
  rw [hu.opened.readFile]
  exact hlog.imp (congrArg some) (congrArg some)

def logAfter (e : Slot) (s : SdStore) (bs : List (List UInt8)) :
    Option (Nat × Option (List UInt8) × UInt8) :=
  match runAll writeToFile bs s with
  | .ok _ t =>
    some (slotSize t.fs.disk e, readFile t.fs.vol t.fs.disk e,
      chainByte t.fs.vol t.fs.disk [slotCluster t.fs.disk e] 0)
  | .error _ _ => none

/-- Three lines that fill a cluster, and one more. -/
def clusterfulLines : List (List UInt8) :=
  [List.replicate 255 65, List.replicate 255 65, List.replicate 2 65, [66]]

/-- On a volume with one cluster to take, the fourth line goes over the first,
and leaves a size the cluster cannot hold. -/
theorem full_card_overwrites_log :
    LogOpen (smallStore 3).fs .file ⟨2, 0⟩ [] [] ∧ (smallStore 3).fs.Quiet ∧
      ¬ LogUndamaged ⟨2, 0⟩ (smallStore 3) clusterfulLines ∧
      logAfter ⟨2, 0⟩ (smallStore 3) (clusterfulLines.take 3) =
        some (512, some (List.replicate 512 65), 65) ∧
      logAfter ⟨2, 0⟩ (smallStore 3) clusterfulLines = some (513, none, 66) := by
  have hafter : logAfter ⟨2, 0⟩ (smallStore 3) clusterfulLines = some (513, none, 66) := by decide +kernel
  refine ⟨smallStore_logOpen (by decide), fun _ h => absurd h List.not_mem_nil, fun h => ?_,
    by decide +kernel, hafter⟩
  obtain ⟨t, u, hrun, hrun', ⟨log, -, hread⟩, -⟩ := h 3 (by decide)
  have hlines : clusterfulLines.take 3 ++ [clusterfulLines[3]] = clusterfulLines := by
    simp only [clusterfulLines, List.take_succ_cons, List.take_zero, List.getElem_cons_succ,
      List.getElem_cons_zero, List.cons_append, List.nil_append]
  have hrun'' := runAll_concat hrun hrun'
  rw [hlines] at hrun''
  simp only [logAfter, hrun'', Option.some.injEq, Prod.mk.injEq] at hafter
  rw [hafter.2.1] at hread
  rcases hread with hread | hread <;> cases hread

theorem LogOpen.alongFits (h : LogOpen s.fs .file e cs log) (hq : s.fs.Quiet) (hlen : ∀ b ∈ bs, b.length ≤ 255)
    (hfit : log.length + bs.flatten.length ≤ s.fs.vol.clusterBytes) : Along writeToFile SdStore.Fits bs s := by
  induction bs generalizing s cs log with
  | nil => trivial
  | cons b bs ih =>
    rw [List.flatten_cons, List.length_append] at hfit
    have hb : s.Fits b := by
      by_cases hne : b = []
      · exact .inl hne
      · have hpos := List.length_pos_of_ne_nil hne
        have hcount : cs = [] ∨ 1 ≤ cs.length := (Nat.eq_zero_or_pos _).imp_left List.length_eq_zero_iff.mp
        have hbytes := (clusterBytes_le h.shape).2
        refine .inr (hcount.imp h.curCluster.mpr fun hcs => ?_)
        have hle := Nat.mul_le_mul_right s.fs.vol.clusterBytes hcs
        rw [Nat.one_mul] at hle
        refine ⟨cs, h.holds.chain (List.ne_nil_of_length_pos hcs), h.stands.first.symm, ?_, .inl ?_, ?_⟩
        · rw [h.stands.position]
          omega
        · rw [h.stands.position]
          omega
        · rw [h.stands.position]
          omega
    obtain ⟨t, cs', log', hrun, ht, hqt, hvol, hlog⟩ := h.write hq (hlen b List.mem_cons_self) hb
    refine ⟨hb, fun t' hrun' => ?_⟩
    rw [hrun] at hrun'
    cases hrun'
    refine ih ht hqt (fun b' hb' => hlen b' (List.mem_cons_of_mem b hb')) ?_
    rw [hvol.clusterBytes]
    rcases hlog with rfl | rfl
    · omega
    · rw [List.length_append]
      omega

/-- Up to the line that fills the cluster nothing is damaged, though behind that line no other is found. -/
theorem full_card_keeps_log_clusterful : LogUndamaged ⟨2, 0⟩ (smallStore 3) (clusterfulLines.take 3) ∧
    (stateAfter (runAll writeToFile (clusterfulLines.take 2)) (smallStore 3)
      fun t => freeCluster t.fs.vol t.fs.disk) = some 0 :=
  ⟨full_card_keeps_log (smallStore_logOpen (by decide)) (fun _ h => absurd h List.not_mem_nil)
    (by decide +kernel)
    ((smallStore_logOpen (by decide)).alongFits (fun _ h => absurd h List.not_mem_nil) (by decide +kernel)
      (by decide +kernel)),
    by decide +kernel⟩

end Stm32Logger
