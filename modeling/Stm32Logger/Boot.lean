import Stm32Logger.IdleGap

/-!
# Start-up

`main` enables the interrupts and the scheduler, and then initialises the card,
mounts the volume and makes the log directory. The handlers of `main.cpp` may
run between any two of these steps. `StoreReady` says that they never use the
SD store too early; whether they do is decided by the events alone.
-/

namespace Stm32Logger

/-- The next SD step of `main`; past the last one it runs the terminal. -/
inductive BootPc where
  | sdDrvInit
  | openFatInit
  | createDir
  | running
  deriving DecidableEq, Repr

inductive BootEvent where
  | main
  | irq (e : Event)
  deriving DecidableEq, Repr

/-- The calls into the SD store and the USB port, by whoever makes them. -/
inductive StoreCall where
  | sdDrvInit
  | openFatInit
  | createDir
  | handler (c : Call)
  deriving DecidableEq, Repr

structure BootState where
  pc : BootPc := .sdDrvInit
  logger : Logger
  deriving Repr

def BootState.powerOn (logging : UInt8) : BootState := { logger := .powerOn logging }

/-- One SD step of `main`, run to its end. -/
def mainStep : BootPc → BootPc × List StoreCall
  | .sdDrvInit => (.openFatInit, [.sdDrvInit])
  | .openFatInit => (.createDir, [.openFatInit])
  | .createDir => (.running, [.createDir])
  | .running => (.running, [])

def boot : Transducer BootState BootEvent StoreCall where
  step
    | s, .main => ({ s with pc := (mainStep s.pc).1 }, (mainStep s.pc).2)
    | s, .irq e =>
      ({ s with logger := handlers.next s.logger e }, (handlers.emit s.logger e).map .handler)

@[simp] theorem boot_emit_main : boot.emit s .main = (mainStep s.pc).2 := rfl

@[simp] theorem boot_emit_irq :
    boot.emit s (.irq e) = (handlers.emit s.logger e).map .handler := rfl

@[simp] theorem boot_next_main : boot.next s .main = { s with pc := (mainStep s.pc).1 } := rfl

@[simp] theorem boot_next_irq :
    boot.next s (.irq e) = { s with logger := handlers.next s.logger e } := rfl

/-- A file is created only in a mounted volume with a log directory, and written
only after a file was created. -/
def StoreReady (calls : List StoreCall) : Prop :=
  ∀ a c b, calls = a ++ c :: b →
    (c = .handler .createFile → .openFatInit ∈ a ∧ .createDir ∈ a) ∧
    (∀ arr, c = .handler (.writeToFile arr) → .handler .createFile ∈ a)

-- ---------------------------------------------------------------------------
-- The condition on the events
-- ---------------------------------------------------------------------------

def irqs (es : List BootEvent) : List Event :=
  es.filterMap fun
    | .main => none
    | .irq e => some e

def loggingAfter (logging : UInt8) (es : List Event) : UInt8 :=
  es.foldl (fun l e => match e with | .setLogging mode => mode | _ => l) logging

/-- An eleventh tick without a frame has been among the events. -/
def TimedOut (es : List Event) : Prop :=
  ∃ pre suf, es = pre ++ .tick :: suf ∧ 10 ≤ idleTicks pre

/-- No eleventh tick without a frame comes before `CreateDir` is done, and no
frame for the card comes before such a tick. -/
def QuietStart (logging : UInt8) (es : List BootEvent) : Prop :=
  ∀ pre e suf, es = pre ++ .irq e :: suf →
    (e = .tick → 10 ≤ idleTicks (irqs pre) → 3 ≤ pre.count .main) ∧
    (e.frame?.isSome → toSd (loggingAfter logging (irqs pre)) → TimedOut (irqs pre))

-- ---------------------------------------------------------------------------
-- The handlers under start-up
-- ---------------------------------------------------------------------------

theorem irqs_append : irqs (es ++ es') = irqs es ++ irqs es' := List.filterMap_append

theorem logging_run (s : Logger) (es : List Event) :
    (handlers.run s es).logging = loggingAfter s.logging es := by
  induction es generalizing s with
  | nil => rfl
  | cons e es ih =>
    rw [handlers.run_cons, ih]
    cases e with
    | can1 f => rw [logging_frame (p := (f, 0)) rfl]; rfl
    | can2 f => rw [logging_frame (p := (f, 1)) rfl]; rfl
    | tick => rw [logging_tick]; rfl
    | setLogging mode => rfl

theorem boot_logger (s : BootState) (es : List BootEvent) :
    (boot.run s es).logger = handlers.run s.logger (irqs es) := by
  induction es generalizing s with
  | nil => rfl
  | cons e es ih =>
    rw [boot.run_cons, ih]
    cases e <;> rfl

theorem handler_mem_out (s : BootState) (es : List BootEvent) (c : Call) :
    .handler c ∈ boot.out s es ↔ c ∈ handlers.out s.logger (irqs es) := by
  induction es generalizing s with
  | nil => simp [irqs]
  | cons e es ih =>
    rw [boot.out_cons, List.mem_append, ih]
    cases e with
    | main =>
      have hmain : .handler c ∉ (mainStep s.pc).2 := by cases s.pc <;> simp [mainStep]
      rw [boot_emit_main, boot_next_main]
      simp only [hmain, false_or]
      rfl
    | irq e =>
      have hirq : .handler c ∈ (handlers.emit s.logger e).map StoreCall.handler ↔
          c ∈ handlers.emit s.logger e := by simp
      rw [boot_emit_irq, hirq, ← List.mem_append]
      rfl

def pcAfter : Nat → BootPc
  | 0 => .sdDrvInit
  | 1 => .openFatInit
  | 2 => .createDir
  | _ => .running

/-- How far `main` is after some events. -/
structure BootProgress (es : List BootEvent) (s : BootState) (calls : List StoreCall) : Prop where
  pc : s.pc = pcAfter (es.count .main)
  mounted : .openFatInit ∈ calls ↔ 2 ≤ es.count .main
  dir : .createDir ∈ calls ↔ 3 ≤ es.count .main

theorem boot_progress (logging : UInt8) (es : List BootEvent) :
    BootProgress es (boot.run (.powerOn logging) es) (boot.out (.powerOn logging) es) := by
  induction es using List.reverseRecOn with
  | nil => exact ⟨rfl, by simp, by simp⟩
  | append_singleton es e ih =>
    obtain ⟨hpc, hm, hd⟩ := ih
    rw [boot.run_snoc, boot.out_snoc]
    cases e with
    | irq e =>
      have hcount : (es ++ [BootEvent.irq e]).count .main = es.count .main := by simp
      refine ⟨by rw [hcount]; exact hpc, ?_, ?_⟩ <;> rw [hcount]
      · rw [← hm]; simp
      · rw [← hd]; simp
    | main =>
      have hcount : (es ++ [BootEvent.main]).count .main = es.count .main + 1 := by simp
      obtain ⟨n, hn⟩ : ∃ n, es.count BootEvent.main = n := ⟨_, rfl⟩
      rw [hn] at hpc hm hd hcount
      refine ⟨?_, ?_, ?_⟩ <;> rw [hcount]
      · rw [boot_next_main, hpc]
        match n with
        | 0 | 1 | 2 | n + 3 => rfl
      all_goals
        rw [boot_emit_main, hpc, List.mem_append]
        simp only [hm, hd]
        match n with
        | 0 | 1 | 2 | n + 3 => simp [mainStep, pcAfter]

-- ---------------------------------------------------------------------------
-- The first file
-- ---------------------------------------------------------------------------

/-- Until the first file is opened the timer counts the idle ticks exactly. -/
structure NoFileYet (es : List Event) (s : Logger) : Prop where
  new : s.newFile = false
  exact : idleTicks es + s.timer1Sec.toNat = 10
  quiet : ¬ TimedOut es

theorem not_timedOut_snoc (h : ¬ TimedOut es) (he : e = .tick → idleTicks es < 10) :
    ¬ TimedOut (es ++ [e]) := by
  rintro ⟨pre, suf, heq, hidle⟩
  rcases List.eq_nil_or_concat suf with rfl | ⟨suf, d, rfl⟩
  · obtain ⟨rfl, hd⟩ := List.append_inj' heq rfl
    have := he (List.cons.inj hd).1
    omega
  · have heq' : es ++ [e] = (pre ++ .tick :: suf) ++ [d] := by simpa using heq
    exact h ⟨pre, suf, (List.append_inj' heq' rfl).1, hidle⟩

theorem noFileYet_run (logging : UInt8) (es : List Event) :
    Call.createFile ∈ handlers.out (.powerOn logging) es ∨
      NoFileYet es (handlers.run (.powerOn logging) es) := by
  induction es using List.reverseRecOn with
  | nil => exact .inr ⟨rfl, rfl, fun ⟨pre, suf, h, _⟩ => by simp at h⟩
  | append_singleton es e ih =>
    rw [handlers.run_snoc, handlers.out_snoc]
    rcases ih with hc | ⟨hn, hx, hq⟩
    · exact .inl (List.mem_append_left _ hc)
    generalize handlers.run (.powerOn logging) es = s at *
    rcases e.cases_frame with ⟨f, busId, hf⟩ | rfl | ⟨mode, rfl⟩
    · have ht : (handlers.next s e).timer1Sec.toNat = 10 := by rw [timer1Sec_frame hf]; rfl
      refine .inr ⟨by simp [newFile_frame hf, hn], ?_, not_timedOut_snoc hq ?_⟩
      · rw [idleTicks_frame hf, ht]
      · rintro rfl
        simp [Event.frame?] at hf
    · by_cases h0 : s.timer1Sec = 0
      · exact .inl (List.mem_append_right _ (by simp [emit_tick, h0, hn]))
      · have ht := timer1Sec_tick_toNat s
        rw [timerBeforeDecrement, if_neg h0] at ht
        refine .inr ⟨by simp [hn, h0], ?_, not_timedOut_snoc hq fun _ => by omega⟩
        rw [idleTicks_tick]
        omega
    · refine .inr ⟨hn, ?_, not_timedOut_snoc hq (by simp)⟩
      rw [idleTicks_setLogging]
      exact hx

theorem createFile_iff_timedOut (logging : UInt8) (es : List Event) :
    Call.createFile ∈ handlers.out (.powerOn logging) es ↔ TimedOut es := by
  constructor
  · intro h
    obtain ⟨pre, e, suf, rfl, hemit⟩ := (handlers.mem_out _ _).mp h
    rcases e.cases_frame with ⟨f, busId, hf⟩ | rfl | ⟨mode, rfl⟩
    · have := List.count_eq_zero.mp (emit_frame_no_file (s := handlers.run (.powerOn logging) pre) hf)
      exact absurd hemit this
    · exact ⟨pre, suf, rfl, createFile_idle (idleTimer_run logging pre) hemit⟩
    · simp at hemit
  · intro h
    rcases noFileYet_run logging es with hc | hno
    · exact hc
    · exact absurd h hno.quiet

-- ---------------------------------------------------------------------------
-- Runs
-- ---------------------------------------------------------------------------

theorem storeReady_of_quietStart (logging : UInt8) (es : List BootEvent)
    (h : QuietStart logging es) : StoreReady (boot.out (.powerOn logging) es) := by
  intro a c b hout
  obtain ⟨pre, i, suf, a₁, b₁, rfl, hemit, rfl⟩ := boot.out_split _ _ hout
  have hmem : c ∈ boot.emit (boot.run (.powerOn logging) pre) i := by simp [hemit]
  have hlogger := boot_logger (.powerOn logging) pre
  have hprog := boot_progress logging pre
  refine ⟨?_, ?_⟩
  · rintro rfl
    cases i with
    | main =>
      rw [boot_emit_main] at hmem
      cases hpc : (boot.run (.powerOn logging) pre).pc <;> simp [hpc, mainStep] at hmem
    | irq e =>
      replace hmem : Call.createFile ∈ handlers.emit (boot.run (.powerOn logging) pre).logger e := by
        simpa using hmem
      rw [hlogger] at hmem
      have htick : e = .tick := by
        rcases e.cases_frame with ⟨f, busId, hf⟩ | rfl | ⟨mode, rfl⟩
        · exact absurd hmem (List.count_eq_zero.mp (emit_frame_no_file hf))
        · rfl
        · simp at hmem
      subst htick
      have hidle := createFile_idle (idleTimer_run logging _) hmem
      have hthree := (h pre .tick suf rfl).1 rfl hidle
      exact ⟨List.mem_append_left _ (hprog.mounted.mpr (by omega)),
        List.mem_append_left _ (hprog.dir.mpr hthree)⟩
  · rintro arr rfl
    cases i with
    | main =>
      rw [boot_emit_main] at hmem
      cases hpc : (boot.run (.powerOn logging) pre).pc <;> simp [hpc, mainStep] at hmem
    | irq e =>
      replace hmem :
          Call.writeToFile arr ∈ handlers.emit (boot.run (.powerOn logging) pre).logger e := by
        simpa using hmem
      rw [hlogger] at hmem
      apply List.mem_append_left
      rw [handler_mem_out]
      refine (createFile_iff_timedOut logging _).mpr ?_
      rcases e.cases_frame with ⟨f, busId, hf⟩ | rfl | ⟨mode, rfl⟩
      · refine (h pre e suf rfl).2 (by simp [hf]) ?_
        rw [emit_frame hf, lineCalls, logging_run] at hmem
        by_contra hsd
        rw [show (BootState.powerOn logging).logger.logging = logging from rfl] at hmem
        rw [Bool.not_eq_true] at hsd
        rw [hsd] at hmem
        split at hmem <;> simp at hmem
      · rw [emit_tick] at hmem
        split at hmem <;> simp at hmem
      · simp at hmem

theorem quietStart_of_storeReady (logging : UInt8) (es : List BootEvent)
    (h : StoreReady (boot.out (.powerOn logging) es)) : QuietStart logging es := by
  rintro pre e suf rfl
  rw [boot.out_append, boot.out_cons] at h
  have hlogger := boot_logger (.powerOn logging) pre
  refine ⟨?_, fun hframe hsd => ?_⟩
  · rintro rfl hidle
    -- the tick that finds the timer run out opens a file, unless one was opened before
    have hto : TimedOut (irqs (pre ++ [.irq .tick])) :=
      ⟨irqs pre, [], by rw [irqs_append]; rfl, hidle⟩
    have hfile := (createFile_iff_timedOut logging _).mpr hto
    rw [← show (BootState.powerOn logging).logger = .powerOn logging from rfl,
      ← handler_mem_out, boot.out_snoc] at hfile
    obtain ⟨a, b, hab⟩ := List.append_of_mem hfile
    rw [← List.append_assoc, hab, List.append_assoc, List.cons_append] at h
    have hdir := ((h a _ _ rfl).1 rfl).2
    have hdir' : StoreCall.createDir ∈ boot.out (.powerOn logging) pre ++
        boot.emit (boot.run (.powerOn logging) pre) (.irq .tick) := by
      rw [hab]
      exact List.mem_append_left _ hdir
    refine (boot_progress logging pre).dir.mp ?_
    simpa using hdir'
  · obtain ⟨⟨f, busId⟩, hf⟩ := Option.isSome_iff_exists.mp hframe
    have hmode : (boot.run (.powerOn logging) pre).logger.logging =
        loggingAfter logging (irqs pre) := by
      rw [hlogger, logging_run]
      rfl
    rw [boot_emit_irq, emit_frame hf, lineCalls, hmode, hsd, if_pos rfl, List.map_append,
      List.append_assoc, ← List.append_assoc] at h
    have hfile := (h _ _ _ rfl).2 _ rfl
    rw [List.mem_append, handler_mem_out] at hfile
    refine (createFile_iff_timedOut logging _).mp (hfile.resolve_right ?_)
    split <;> simp

/-- The SD store is used only when it is ready exactly in the runs with a quiet start. -/
theorem storeReady_iff (logging : UInt8) (es : List BootEvent) :
    StoreReady (boot.out (.powerOn logging) es) ↔ QuietStart logging es :=
  ⟨quietStart_of_storeReady logging es, storeReady_of_quietStart logging es⟩

/-- Eleven quiet ticks while the card is initialised create a file in no volume. -/
theorem created_before_mount :
    ¬ StoreReady (boot.out (.powerOn 2) (List.replicate 11 (.irq .tick) ++ [.main, .main, .main])) := by
  intro h
  have hout : boot.out (.powerOn 2) (List.replicate 11 (.irq .tick) ++ [.main, .main, .main]) =
      [] ++ .handler .createFile :: [.sdDrvInit, .openFatInit, .createDir] := by decide
  have hmounted := ((h _ _ _ hout).1 rfl).1
  simp at hmounted

end Stm32Logger
