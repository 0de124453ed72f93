import Stm32Logger.Fat.SplitCalls

/-!
# Four gigabytes

The position of a handle is a `uint32_t`, and `fat_write` adds to it without
looking. A log that is never closed comes to the end of it: the call that gets
there stores its bytes at the end of the file, reports them as written, and
leaves the handle at the start.
-/

namespace Stm32Logger

/-- The `n` bytes reported are in the file, no field has wrapped, and the size did not shrink. -/
structure GrewBy (e : Slot) (n : Int) (s t : FatState) : Prop where
  position : ((t.handle .file).position : Int) = (s.handle .file).position + n
  size : (s.handle .file).size ≤ (t.handle .file).size
  entry : slotSize s.disk e ≤ slotSize t.disk e
  inside : (s.handle .file).position + n ≤ slotSize t.disk e
  limit : (s.handle .file).position + n ≤ 2 ^ 32 - 1

def NeverWraps (e : Slot) (s : SdStore) (bs : List (List UInt8)) : Prop :=
  ∀ (k : Nat) (hk : k < bs.length), ∃ t n u, runAll writeToFile (bs.take k) s = .ok ⟨⟩ t ∧
    fatWrite .file bs[k] t.fs = .ok n u ∧ GrewBy e n t.fs u

/-- The file with the line is no longer than a directory entry can tell. -/
def SdStore.BelowLimit (s : SdStore) (b : List UInt8) : Prop :=
  (s.fs.handle .file).position + b.length ≤ 2 ^ 32 - 1

variable {s : SdStore} {d : Disk} {e : Slot} {cs us : List Nat} {log b : List UInt8} {bs : List (List UInt8)}

-- ---------------------------------------------------------------------------
-- One call
-- ---------------------------------------------------------------------------

theorem Writing.fatWrite_run (h : Writing s e cs log) (hv : s.fs.vol.Layout) (hlen : b.length ≤ 255)
    (hlim : s.BelowLimit b) (hal : s.AllocOk b) : ∃ t, fatWrite .file b s.fs = .ok b.length t := by
  rw [SdStore.BelowLimit, h.stands.position] at hlim
  by_cases hb : b = []
  · subst hb
    refine ⟨s.fs, fatWrite_nil h.stands.fat h.stands.root ?_⟩
    rw [h.stands.position, h.size]
  · have hpos := List.length_pos_of_ne_nil hb
    obtain ⟨t, -, hrun, -⟩ :=
      logWrite_run (P := fun _ => True) (Q := fun _ => True) h.toStream h.coherent h.quiet
      (h.room hal hpos).1 hpos (by omega) (hv.tests _) (by omega) (fun _ _ => trivial) fun _ _ _ => trivial
    exact ⟨t, hrun⟩

theorem Opened.grewBy {t : SdStore} (h : Opened s.fs .file e cs log) (ht : Opened t.fs .file e cs' (log ++ b))
    (hlim : s.BelowLimit b) : GrewBy e b.length s.fs t.fs := by
  rw [SdStore.BelowLimit, h.stands.position] at hlim
  have hp := ht.stands.position
  have hz := ht.size
  have he := ht.entry.size
  rw [List.length_append] at hp hz he
  constructor
  · rw [hp, h.stands.position]
    exact Int.natCast_add ..
  · rw [hz, h.size]
    exact Nat.le_add_right ..
  · rw [he, h.entry.size]
    exact Nat.le_add_right ..
  · rw [he, h.stands.position]
    exact le_of_eq (Int.natCast_add ..).symm
  · rw [h.stands.position]
    omega

theorem Logging.grew (h : Logging d e s cs log) (hlen : b.length ≤ 255) (hlim : s.BelowLimit b)
    (hal : s.AllocOk b) :
    ∃ t cs', fatWrite .file b s.fs = .ok b.length t.fs ∧ GrewBy e b.length s.fs t.fs ∧
      writeToFile b s = .ok ⟨⟩ t ∧ Logging d e t cs' (log ++ b) := by
  obtain ⟨t, hrun⟩ := h.writing.fatWrite_run h.layout hlen hlim hal
  have h32 : log.length + b.length < 2 ^ 32 := by
    rw [SdStore.BelowLimit, h.stands.position] at hlim
    omega
  obtain ⟨t', cs', hrun', ht, -⟩ := h.write hlen h32 hal
  have heq := (writeToFile_of hrun).symm.trans hrun'
  cases heq
  exact ⟨_, cs', hrun, h.opened.grewBy ht.opened hlim, hrun', ht⟩

theorem Writing.wraps (h : Writing s e cs log) (hv : s.fs.vol.Layout) (hlen : b.length ≤ 255)
    (hlim : ¬ s.BelowLimit b) (hal : s.AllocOk b) :
    ∃ t, fatWrite .file b s.fs = .ok b.length t ∧ (t.handle .file).position = u32 (log.length + b.length) := by
  rw [SdStore.BelowLimit, h.stands.position] at hlim
  have hlt := h.length_lt
  have hb : 0 < b.length := by omega
  have hne : cs ≠ [] := fun hcs => by
    rw [h.holds.empty.mp hcs, List.length_nil] at hlim
    omega
  have hc := h.holds.chain hne
  have hin := h.inside hne
  have hon := h.holds.onChain h.stands hlt hin
  have hcur : (s.fs.handle .file).curCluster ≠ 0 := fun h0 => hne (h.curCluster.mp h0)
  have hfree : (log.length + b.length) / s.fs.vol.clusterBytes < cs.length ∨
      freeCluster s.fs.vol s.fs.disk ≠ 0 :=
    ((h.room hal hb).2 hne).imp_left (div_lt_of_lt h.shape)
  obtain ⟨t, cs', hrun, ha⟩ :=
    writeLoop_run (P := fun _ => True) h.mounted h.quiet h.shape h.hint hc hon hb (by omega)
    (hv.tests _) (h.coherent _) (fun _ _ => trivial) hfree
  have hhandle : t.handle .file = _ := (congrFun ha.handle _).trans (Function.update_self ..)
  have hpos : (t.handle .file).position = u32 (log.length + b.length) := by rw [hhandle]
  refine ⟨t,
    fatWrite_of (allocFirst_skip (.inl hcur)) h.stands.fat h.stands.root (hon.sectorOffset h.shape hc) hrun
    (growSize_skip ?_), hpos⟩
  have hsize : (t.handle .file).size = log.length := by
    rw [hhandle]
    exact h.size
  rw [hpos, hsize, u32]
  omega

theorem Writing.not_grewBy (h : Writing s e cs log) (hv : s.fs.vol.Layout) (hlen : b.length ≤ 255)
    (hlim : ¬ s.BelowLimit b) (hal : s.AllocOk b) (hrun : fatWrite .file b s.fs = .ok n t) :
    ¬ GrewBy e n s.fs t := by
  intro hg
  obtain ⟨u, hrun', -⟩ := h.wraps hv hlen hlim hal
  rw [hrun'] at hrun
  cases hrun
  exact hlim (by
    have := hg.limit
    rw [SdStore.BelowLimit]
    omega)

-- ---------------------------------------------------------------------------
-- Runs
-- ---------------------------------------------------------------------------

theorem Logging.writesBelow (h : Logging d e s cs log) (hlen : ∀ b ∈ bs, b.length ≤ 255)
    (hal : Along writeToFile SdStore.AllocOk bs s) (hlim : Along writeToFile SdStore.BelowLimit bs s) :
    ∃ t cs' log', runAll writeToFile bs s = .ok ⟨⟩ t ∧ Logging d e t cs' log' := by
  induction bs generalizing s cs log with
  | nil => exact ⟨s, cs, log, rfl, h⟩
  | cons b bs ih =>
    obtain ⟨t, cs1, -, -, hrun, ht⟩ := h.grew (hlen b List.mem_cons_self) hlim.1 hal.1
    obtain ⟨u, cs2, log2, hrun', hu⟩ :=
      ih ht (fun b' hb' => hlen b' (List.mem_cons_of_mem b hb')) (hal.2 t hrun)
      (hlim.2 t hrun)
    exact ⟨u, cs2, log2, runAll_cons hrun hrun', hu⟩

theorem NeverWraps.tail (h : NeverWraps e s (b :: bs)) (hrun : writeToFile b s = .ok ⟨⟩ t) :
    NeverWraps e t bs := by
  intro k hk
  obtain ⟨t', n, u, hrun', hwrite, hg⟩ := h (k + 1) (Nat.succ_lt_succ hk)
  rw [List.take_succ_cons] at hrun'
  obtain ⟨t1, h1, h2⟩ := runAll_inv hrun'
  rw [hrun] at h1
  cases h1
  exact ⟨t', n, u, h2, hwrite, hg⟩

theorem NeverWraps.belowLimit (h : Logging d e s cs log) (hlen : ∀ b ∈ bs, b.length ≤ 255)
    (hal : Along writeToFile SdStore.AllocOk bs s) (hn : NeverWraps e s bs) :
    Along writeToFile SdStore.BelowLimit bs s := by
  induction bs generalizing s cs log with
  | nil => trivial
  | cons b bs ih =>
    have hb := hlen b List.mem_cons_self
    have hlim : s.BelowLimit b := by
      by_contra hlim
      obtain ⟨t, n, u, hrun, hwrite, hg⟩ := hn 0 (Nat.succ_pos _)
      cases hrun
      exact h.writing.not_grewBy h.layout hb hlim hal.1 hwrite hg
    obtain ⟨t, cs1, -, -, hrun, ht⟩ := h.grew hb hlim hal.1
    refine ⟨hlim, fun t' hrun' => ?_⟩
    rw [hrun] at hrun'
    cases hrun'
    exact ih ht (fun b' hb' => hlen b' (List.mem_cons_of_mem b hb')) (hal.2 t hrun) (hn.tail hrun)

/-- Nothing wraps in exactly the runs whose calls all keep below the limit. -/
theorem neverWraps_iff (h : LogOpen s.fs .file e [] []) (hq : s.fs.Quiet) (hlen : ∀ b ∈ bs, b.length ≤ 255)
    (hal : Along writeToFile SdStore.AllocOk bs s) :
    NeverWraps e s bs ↔ Along writeToFile SdStore.BelowLimit bs s := by
  refine ⟨NeverWraps.belowLimit (h.logging hq) hlen hal, fun hlim k hk => ?_⟩
  obtain ⟨t, cs, log, hrun, ht⟩ := (h.logging hq).writesBelow (fun b hb => hlen b (List.mem_of_mem_take hb))
    (hal.take k) (hlim.take k)
  obtain ⟨u, -, hwrite, hg, -⟩ := ht.grew (hlen _ (List.getElem_mem hk)) (hlim.at hk hrun) (hal.at hk hrun)
  exact ⟨t, _, u.fs, hrun, hwrite, hg⟩

/-- After 2^32 - 1 bytes the position is at the limit; one more is stored, reported, and the position is 0. -/
theorem endless_log_wraps :
    LogOpen largeStore.fs .file ⟨768, 0⟩ [] [] ∧ largeStore.fs.Quiet ∧ (∀ b ∈ endlessLines, b.length ≤ 255) ∧
      Along writeToFile SdStore.AllocOk endlessLines largeStore ∧
        ¬ NeverWraps ⟨768, 0⟩ largeStore endlessLines := by
  refine ⟨largeStore_logOpen, largeStore_quiet, endlessLines_length_le, endlessLines_allocOk, fun hn => ?_⟩
  have hk : 16843009 < endlessLines.length := by
    rw [endlessLines, List.length_append, List.length_replicate]
    exact Nat.lt_succ_self _
  obtain ⟨t, n, u, hrun, hwrite, hg⟩ := hn _ hk
  have hshort : ∀ b ∈ endlessLines.take 16843009, b.length ≤ 255 := fun b hb =>
    endlessLines_length_le b (List.mem_of_mem_take hb)
  obtain ⟨t', cs, hrun', ht, hvol⟩ := largeStore_logging.writeLines hshort (by
      rw [endlessLines_take hk]
      decide) (endlessLines_allocOk.take _)
  rw [hrun] at hrun'
  cases hrun'
  have hlast : endlessLines[16843009] = [66] := List.getElem_concat_length List.length_replicate.symm hk
  refine ht.writing.not_grewBy ht.layout ?_ ?_ (endlessLines_allocOk.at hk hrun) hwrite hg
  · rw [hlast]
    decide
  · rw [SdStore.BelowLimit, ht.stands.position, hlast, List.nil_append, endlessLines_take hk]
    decide

theorem neverWraps_iff_large :
    NeverWraps ⟨768, 0⟩ largeStore endlessLines ↔
      Along writeToFile SdStore.BelowLimit endlessLines largeStore :=
  neverWraps_iff largeStore_logOpen largeStore_quiet endlessLines_length_le endlessLines_allocOk

end Stm32Logger
