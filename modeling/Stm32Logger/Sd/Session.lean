import Stm32Logger.Sd.Detect

/-!
# Runs of calls

The calls of the driver, one after the other on one stream of bytes, and the
chip select between them.
-/

namespace Stm32Logger.Sd

inductive Call where
  | init
  | read (sector count : Nat)
  | write (sector count : Nat) (buf : Nat → UInt8)

def Call.perform : Call → SpiM Unit
  | .init => do let _ ← sdDrvInit
  | .read sector count => do let _ ← sdDrvReadSector sector count
  | .write sector count buf => do let _ ← sdDrvWriteSector sector count buf

structure Step where
  call : Call
  before : Driver
  after : Driver

inductive Run : Driver → List Step → Driver → Prop where
  | nil : Run s [] s
  | call (h : call.perform s = .ok x t) (hrest : Run t steps u) : Run s (⟨call, s, t⟩ :: steps) u

/-- The chip select is high, and a byte 0xFF has been clocked since. -/
def Deselected (s : Driver) : Prop := s.csHigh = true ∧ ∃ es b, s.trace = es ++ [.release, .byte 0xFF b]

/-- When the call is `sdDrvInit`, the card answers CMD0 with 1. -/
def Step.Reset (step : Step) : Prop :=
  step.call = .init → ∃ rx, commandAnswered SD_CMD0 (step.before.rx.drop 80) = 1 :: rx

variable {s t u : Driver} {steps : List Step}

theorem Released.deselected (h : Released s t) : Deselected t := by
  obtain ⟨b, htrace⟩ := h.trace
  exact ⟨h.csHigh, s.trace, b, htrace⟩

theorem sdDrvInit_deselected_iff (h : sdDrvInit s = .ok r t) :
    Deselected t ↔ ∃ rx, commandAnswered SD_CMD0 (s.rx.drop 80) = 1 :: rx := by
  obtain ⟨ret, rx, h0, ⟨hret, hno⟩ | ⟨rfl, hid⟩⟩ := sdDrvInit_ok h
  · refine iff_of_false (fun hd => ?_) ?_
    · rw [Deselected, hno.csHigh] at hd
      exact absurd hd.1 (by decide)
    · rintro ⟨rx', h0'⟩
      exact hret (List.cons.inj (h0.symm.trans h0')).1
  · obtain ⟨u, hrel⟩ := hid.released
    exact iff_of_true hrel.deselected ⟨rx, h0⟩

theorem sdDrvReadSector_deselected (h : sdDrvReadSector sector count s = .ok k t) : Deselected t := by
  obtain ⟨x, t1, -, h⟩ := bind_eq_ok.mp h
  rw [get_bind] at h
  obtain ⟨status, t2, -, h⟩ := bind_eq_ok.mp h
  obtain ⟨y, t3, h3, h⟩ := bind_eq_ok.mp h
  obtain ⟨-, rfl⟩ := pure_eq_ok.mp h
  exact (sdSPIRelease_ok h3).deselected

theorem sdDrvWriteSector_deselected (h : sdDrvWriteSector sector count buf s = .ok k t) : Deselected t := by
  obtain ⟨x, t1, -, h⟩ := bind_eq_ok.mp h
  rw [get_bind] at h
  obtain ⟨status, t2, -, h⟩ := bind_eq_ok.mp h
  obtain ⟨y, t3, h3, h⟩ := bind_eq_ok.mp h
  obtain ⟨-, rfl⟩ := pure_eq_ok.mp h
  exact (sdSPIRelease_ok h3).deselected

theorem perform_deselected_iff (h : call.perform s = .ok x t) : Deselected t ↔ (Step.mk call s t).Reset := by
  cases call with
  | init =>
    obtain ⟨r, t', hrun, h⟩ := bind_eq_ok.mp h
    obtain ⟨-, rfl⟩ := pure_eq_ok.mp h
    rw [sdDrvInit_deselected_iff hrun]
    exact ⟨fun hr _ => hr, fun hr => hr rfl⟩
  | read sector count =>
    obtain ⟨k, t', hrun, h⟩ := bind_eq_ok.mp h
    obtain ⟨-, rfl⟩ := pure_eq_ok.mp h
    exact iff_of_true (sdDrvReadSector_deselected hrun) fun hinit => nomatch hinit
  | write sector count buf =>
    obtain ⟨k, t', hrun, h⟩ := bind_eq_ok.mp h
    obtain ⟨-, rfl⟩ := pure_eq_ok.mp h
    exact iff_of_true (sdDrvWriteSector_deselected hrun) fun hinit => nomatch hinit

theorem run_deselected_iff (h : Run s steps u) :
    (∀ step ∈ steps, Deselected step.after) ↔ ∀ step ∈ steps, step.Reset := by
  induction h with
  | nil => exact iff_of_true (fun _ h => nomatch h) fun _ h => nomatch h
  | call h _ ih => rw [List.forall_mem_cons, List.forall_mem_cons, ih, perform_deselected_iff h]

def noResetBytes : List UInt8 := List.replicate 87 0xFF ++ [0x00]

/-- It stays selected when `sdDrvInit` has returned. -/
theorem noReset_selected : ∃ t, sdDrvInit { rx := noResetBytes } = .ok (-1) t ∧ ¬ Deselected t := by
  obtain ⟨t, ht, hcs⟩ := ok_of_report (s := { rx := noResetBytes }) (m := sdDrvInit) (f := fun t => t.csHigh)
    (a := -1) (b := false) (by decide +kernel)
  exact ⟨t, ht, fun hd => absurd (hd.1.symm.trans hcs) (by decide)⟩

theorem run_deselected_iff_noReset :
    ∃ t, Run { rx := noResetBytes } [⟨.init, { rx := noResetBytes }, t⟩] t ∧
      ((∀ step ∈ [Step.mk .init { rx := noResetBytes } t], Deselected step.after) ↔
        ∀ step ∈ [Step.mk .init { rx := noResetBytes } t], step.Reset) := by
  obtain ⟨t, ht⟩ := ok_of_outcome (s := { rx := noResetBytes }) (m := sdDrvInit) (a := -1) (by decide +kernel)
  have hperform :
    Call.init.perform { rx := noResetBytes } = .ok ⟨⟩ t := by rw [Call.perform, bind_ok ht, pure_run]
  have hrun : Run { rx := noResetBytes } [⟨.init, { rx := noResetBytes }, t⟩] t := .call hperform .nil
  have h := run_deselected_iff hrun
  exact ⟨t, hrun, h⟩

end Stm32Logger.Sd
