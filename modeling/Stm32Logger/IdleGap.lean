import Stm32Logger.Csv

/-!
# Files are split at idle gaps

`timer1Sec` counts down the ticks since the last frame. The invariant
`IdleTimer` ties it to the number of those ticks, and from it follow when a
tick opens a file and which frames share one.
-/

namespace Stm32Logger

def idleTicks (es : List Event) : Nat :=
  es.foldl (fun n e => if e.frame?.isSome then 0 else if e = .tick then n + 1 else n) 0

def fileNumber (s : Logger) (es : List Event) : Nat := (handlers.out s es).count .createFile

/-- What `timer1Sec` holds when the tick handler reaches its decrement. -/
def timerBeforeDecrement (s : Logger) : Nat := if s.timer1Sec = 0 then 10 else s.timer1Sec.toNat

theorem idleTicks_frame (h : e.frame? = some p) : idleTicks (es ++ [e]) = 0 := by
  simp [idleTicks, h]

theorem idleTicks_tick : idleTicks (es ++ [.tick]) = idleTicks es + 1 := by
  simp [idleTicks, Event.frame?]

theorem idleTicks_setLogging : idleTicks (es ++ [.setLogging mode]) = idleTicks es := by
  simp [idleTicks, Event.frame?]

theorem timer1Sec_tick_toNat (s : Logger) :
    (handlers.next s .tick).timer1Sec.toNat + 1 = timerBeforeDecrement s := by
  rw [timer1Sec_tick]
  unfold timerBeforeDecrement
  split
  · rfl
  · rename_i h0
    have hpos : 1 ≤ s.timer1Sec.toNat := by
      by_contra hlt
      exact h0 (UInt8.toNat_inj.mp (by simpa using hlt))
    rw [UInt8.toNat_sub_of_le _ _ (by rw [UInt8.le_iff_toNat_le]; exact hpos)]
    exact Nat.sub_add_cancel hpos

theorem timer1Sec_eq_zero {s : Logger} : s.timer1Sec = 0 ↔ s.timer1Sec.toNat = 0 := by
  rw [← UInt8.toNat_inj]
  rfl

-- ---------------------------------------------------------------------------
-- The timer
-- ---------------------------------------------------------------------------

/-- The timer against the ticks since the last frame: it never runs ahead of
them, and the first period is counted exactly. -/
structure IdleTimer (es : List Event) (s : Logger) : Prop where
  le_ten : s.timer1Sec.toNat ≤ 10
  ten_le : 10 ≤ idleTicks es + s.timer1Sec.toNat

theorem idleTimer_run (logging : UInt8) (es : List Event) :
    IdleTimer es (handlers.run (.powerOn logging) es) := by
  have h0 : IdleTimer [] (Logger.powerOn logging) := ⟨Nat.le_refl 10, Nat.le_refl 10⟩
  refine handlers.run_history h0 ?_ es
  intro es e s ⟨hle, hge⟩
  rcases e.cases_frame with ⟨f, busId, hf⟩ | rfl | ⟨mode, rfl⟩
  · have ht : (handlers.next s e).timer1Sec.toNat = 10 := by rw [timer1Sec_frame hf]; rfl
    exact ⟨by omega, by omega⟩
  · have ht := timer1Sec_tick_toNat s
    have h0 := timer1Sec_eq_zero (s := s)
    unfold timerBeforeDecrement at ht
    refine ⟨?_, ?_⟩
    · split at ht <;> omega
    · rw [idleTicks_tick]
      split at ht
      · have := h0.mp ‹_›
        omega
      · omega
  · exact ⟨hle, by rw [idleTicks_setLogging]; exact hge⟩

theorem createFile_idle (h : IdleTimer es s) (hc : Call.createFile ∈ handlers.emit s .tick) :
    10 ≤ idleTicks es := by
  rw [emit_tick] at hc
  split at hc
  · rename_i h0
    have := timer1Sec_eq_zero.mp h0.1
    have := h.ten_le
    omega
  · simp at hc

-- ---------------------------------------------------------------------------
-- A gap without frames
-- ---------------------------------------------------------------------------

theorem gap {s : Logger} (h10 : s.timer1Sec.toNat ≤ 10) (hn : s.newFile = false)
    (hmid : ∀ e ∈ mid, e.frame? = none) :
    (mid.count .tick ≤ s.timer1Sec.toNat → handlers.out s mid = []) ∧
      (s.timer1Sec.toNat < mid.count .tick → Call.createFile ∈ handlers.out s mid) := by
  induction mid generalizing s with
  | nil => simp
  | cons e es ih =>
    have hes : ∀ e ∈ es, e.frame? = none := fun e he => hmid e (List.mem_cons_of_mem _ he)
    cases e with
    | can1 f | can2 f => exact absurd (hmid _ List.mem_cons_self) (by simp [Event.frame?])
    | setLogging mode =>
      have := ih (s := { s with logging := mode }) h10 hn hes
      simpa using this
    | tick =>
      rw [handlers.out_cons, List.count_cons_self]
      by_cases h0 : s.timer1Sec = 0
      · have hz := timer1Sec_eq_zero.mp h0
        refine ⟨fun h => by omega, fun _ => ?_⟩
        simp [emit_tick, h0, hn]
      · have ht := timer1Sec_tick_toNat s
        rw [timerBeforeDecrement, if_neg h0] at ht
        have hnext := ih (s := handlers.next s .tick) (by omega) (by simp [hn, h0]) hes
        have hemit : handlers.emit s .tick = [] := by simp [emit_tick, h0]
        rw [hemit, List.nil_append]
        exact ⟨fun h => hnext.1 (by omega), fun h => hnext.2 (by omega)⟩

theorem fileNumber_append (s : Logger) (es es' : List Event) :
    fileNumber s (es ++ es') = fileNumber s es + fileNumber (handlers.run s es) es' := by
  simp [fileNumber, handlers.out_append]

theorem emit_frame_no_file (hf : e.frame? = some (f, busId)) :
    (handlers.emit s e).count .createFile = 0 := by
  rw [emit_frame hf, lineCalls]
  split <;> split <;> simp

/-- After a frame that went to the card, the files a frame-free gap opens are
decided by its ticks alone. -/
theorem fileNumber_gap {s : Logger} (hf : e.frame? = some (f, busId)) (hsd : toSd s.logging = true)
    (hmid : ∀ e ∈ mid, e.frame? = none) :
    (mid.count .tick ≤ 10 → fileNumber s (e :: mid) = 0) ∧
      (11 ≤ mid.count .tick → 0 < fileNumber s (e :: mid)) := by
  have ht : (handlers.next s e).timer1Sec.toNat = 10 := by rw [timer1Sec_frame hf]; rfl
  have hn : (handlers.next s e).newFile = false := by simp [newFile_frame hf, hsd]
  obtain ⟨hshort, hlong⟩ := gap (by omega) hn hmid
  simp only [fileNumber, handlers.out_cons, List.count_append, emit_frame_no_file hf, Nat.zero_add]
  exact ⟨fun h => by rw [hshort (by omega)]; rfl,
    fun h => List.count_pos_iff.mpr (hlong (by omega))⟩

-- ---------------------------------------------------------------------------
-- No file is left empty
-- ---------------------------------------------------------------------------

/-- A file that is no longer marked new has had a line since it was opened. -/
def WrittenSinceOpen (s : Logger) (calls : List Call) : Prop :=
  s.newFile = false → ∀ a b, calls = a ++ .createFile :: b → ∃ arr, .writeToFile arr ∈ b

/-- Between any two calls of `CreateFile` there is one of `WriteToFile`. -/
def FilesWritten (calls : List Call) : Prop :=
  ∀ a b c, calls = a ++ .createFile :: (b ++ .createFile :: c) → ∃ arr, .writeToFile arr ∈ b

theorem split_createFile (hnew : Call.createFile ∉ new)
    (he : calls ++ new = a ++ .createFile :: b) :
    ∃ t, b = t ++ new ∧ calls = a ++ .createFile :: t := by
  rcases List.append_eq_append_iff.mp he with ⟨t, rfl, ht⟩ | ⟨t, rfl, ht⟩
  · exact absurd (by rw [ht]; simp) hnew
  · cases t with
    | nil => exact absurd (by simp at ht; simp [← ht]) hnew
    | cons c t =>
      obtain ⟨rfl, rfl⟩ := List.cons.inj ht
      exact ⟨t, rfl, rfl⟩

theorem filesWritten_append (h : FilesWritten calls) (hnew : Call.createFile ∉ new) :
    FilesWritten (calls ++ new) := by
  intro a b c he
  obtain ⟨t, ht, rfl⟩ := split_createFile hnew he
  obtain ⟨t', -, rfl⟩ := split_createFile hnew ht.symm
  exact h a b t' rfl

theorem writtenSinceOpen_append (h : WrittenSinceOpen s calls)
    (hn : s'.newFile = false → s.newFile = false) (hnew : Call.createFile ∉ new) :
    WrittenSinceOpen s' (calls ++ new) := by
  intro hs a b he
  obtain ⟨t, rfl, rfl⟩ := split_createFile hnew he
  obtain ⟨arr, harr⟩ := h (hn hs) a t rfl
  exact ⟨arr, List.mem_append_left _ harr⟩

theorem written_step (hw : WrittenSinceOpen s calls) (hf : FilesWritten calls) (e : Event) :
    WrittenSinceOpen (handlers.next s e) (calls ++ handlers.emit s e) ∧
      FilesWritten (calls ++ handlers.emit s e) := by
  rcases e.cases_frame with ⟨f, busId, hframe⟩ | rfl | ⟨mode, rfl⟩
  · have hnew : Call.createFile ∉ handlers.emit s e :=
      List.count_eq_zero.mp (emit_frame_no_file hframe)
    refine ⟨?_, filesWritten_append hf hnew⟩
    cases hsd : toSd s.logging with
    | false => exact writtenSinceOpen_append hw (by simp [newFile_frame hframe, hsd]) hnew
    | true =>
      intro _ a b he
      obtain ⟨t, rfl, -⟩ := split_createFile hnew he
      refine ⟨frameLine s f busId, List.mem_append_right _ ?_⟩
      simp [emit_frame hframe, lineCalls, hsd]
  · rw [emit_tick]
    split
    · rename_i hc
      refine ⟨fun hn => by simp [hc.1] at hn, fun a b c he => ?_⟩
      rcases List.eq_nil_or_concat c with rfl | ⟨c, d, rfl⟩
      · have he' : calls ++ [.createFile] = (a ++ .createFile :: b) ++ [.createFile] := by
          simpa using he
        exact hw hc.2 a b (List.append_cancel_right he')
      · have he' : calls ++ [.createFile] = (a ++ .createFile :: (b ++ .createFile :: c)) ++ [d] := by
          simpa using he
        exact hf a b c (List.append_inj' he' rfl).1
    · rename_i hc
      rw [List.append_nil]
      exact ⟨fun hn => hw (by simp_all), hf⟩
  · simpa using ⟨fun hn => hw hn, hf⟩

theorem written_run (hw : WrittenSinceOpen s calls) (hf : FilesWritten calls) (es : List Event) :
    FilesWritten (calls ++ handlers.out s es) := by
  induction es generalizing s calls with
  | nil => simpa using hf
  | cons e es ih =>
    rw [handlers.out_cons, ← List.append_assoc]
    obtain ⟨hw', hf'⟩ := written_step hw hf e
    exact ih hw' hf'

-- ---------------------------------------------------------------------------
-- Runs
-- ---------------------------------------------------------------------------

/-- Log files are split exactly at idle gaps, in every run from power-on: the
timer stays in range and never wraps, a file is opened only after ten ticks
without a frame, no two files are opened without a line between them, and two
lines on the card with no frame between them share a file up to ten ticks. -/
theorem split_at_idle_gaps (logging : UInt8) (es : List Event) :
    let s := handlers.run (.powerOn logging) es
    (s.timer1Sec.toNat ≤ 10 ∧
      (handlers.next s .tick).timer1Sec.toNat + 1 = timerBeforeDecrement s) ∧
    (.createFile ∈ handlers.emit s .tick → 10 ≤ idleTicks es) ∧
    FilesWritten (handlers.out (.powerOn logging) es) ∧
    ∀ pre e mid e' suf, es = pre ++ e :: (mid ++ e' :: suf) →
      e.frame?.isSome → toSd (handlers.run (.powerOn logging) pre).logging →
      e'.frame?.isSome → toSd (handlers.run (.powerOn logging) (pre ++ e :: mid)).logging →
      (∀ m ∈ mid, m.frame? = none) →
      (mid.count .tick ≤ 10 →
        fileNumber (.powerOn logging) (pre ++ e :: mid) = fileNumber (.powerOn logging) pre) ∧
      (11 ≤ mid.count .tick →
        fileNumber (.powerOn logging) (pre ++ e :: mid) ≠ fileNumber (.powerOn logging) pre) := by
  have htimer := idleTimer_run logging es
  refine ⟨⟨htimer.le_ten, timer1Sec_tick_toNat _⟩, createFile_idle htimer, ?_, ?_⟩
  · have hw : WrittenSinceOpen (.powerOn logging) [] := fun _ a b he => by simp at he
    have hf : FilesWritten [] := fun a b c he => by simp at he
    simpa using written_run hw hf es
  · intro pre e mid e' suf _ he hsd _ _ hmid
    obtain ⟨⟨f, busId⟩, hf⟩ := Option.isSome_iff_exists.mp he
    obtain ⟨hshort, hlong⟩ := fileNumber_gap hf hsd hmid
    rw [fileNumber_append]
    exact ⟨fun h => by rw [hshort h]; rfl, fun h => by have := hlong h; omega⟩

end Stm32Logger
