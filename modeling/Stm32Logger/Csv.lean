import Stm32Logger.Frames

/-!
# The log files as CSV files

The calls of `WriteToFile` between two `CreateFile` calls are the content of
one file. A file that received any bytes must begin with the SavvyCAN header
and contain it nowhere else. `headerSent` is shared with the other modes, so
this holds exactly when no line is written to a file that is still empty while
the flag is already set.
-/

namespace Stm32Logger

-- ---------------------------------------------------------------------------
-- The files of a list of calls
-- ---------------------------------------------------------------------------

/-- The contents of the log files so far, the newest first. Bytes written
before the first `CreateFile` belong to no file. -/
def fileStep (files : List (List UInt8)) : Call → List (List UInt8)
  | .createFile => [] :: files
  | .usbSend _ => files
  | .writeToFile arr =>
    match files with
    | [] => []
    | f :: rest => (f ++ arr) :: rest

def logFiles (calls : List Call) : List (List UInt8) := calls.foldl fileStep []

/-- The header is the first line, and occurs nowhere else. -/
structure WellFormedCsv (content : List UInt8) : Prop where
  first : savvyHeader <+: content
  once : ∀ a b, content = a ++ savvyHeader ++ b → a = []

/-- Every file that received any bytes is well formed. -/
def CsvFiles (files : List (List UInt8)) : Prop := ∀ f ∈ files, f ≠ [] → WellFormedCsv f

/-- No line goes to a file that is still empty while the header counts as sent. -/
def HeaderNotTaken (s : Logger) (e : Event) : Prop :=
  ¬ (e.frame?.isSome ∧ toSd s.logging ∧ s.headerSent ∧ s.newFile)

theorem fileStep_lineCalls (files : List (List UInt8)) :
    (lineCalls mode arr).foldl fileStep files =
      if toSd mode then fileStep files (.writeToFile arr) else files := by
  unfold lineCalls
  split <;> split <;> rfl

theorem foldl_out_cons (files : List (List UInt8)) :
    (handlers.out s (e :: es)).foldl fileStep files =
      (handlers.out (handlers.next s e) es).foldl fileStep
        ((handlers.emit s e).foldl fileStep files) := by
  rw [handlers.out_cons, List.foldl_append]

-- ---------------------------------------------------------------------------
-- Header first
-- ---------------------------------------------------------------------------

theorem headed_wellFormed (h : (83 : UInt8) ∉ rest) : WellFormedCsv (savvyHeader ++ rest) := by
  obtain ⟨h1, h2, hsplit, h1S, h2S⟩ : ∃ h1 h2, savvyHeader = h1 ++ 83 :: h2 ∧
      (83 : UInt8) ∉ h1 ∧ (83 : UInt8) ∉ h2 :=
    ⟨savvyHeader.take 5, savvyHeader.drop 6, by decide, by decide, by decide⟩
  refine ⟨List.prefix_append .., fun a b he => ?_⟩
  have hcount := congrArg (List.count 83) he
  have hone : savvyHeader.count 83 = 1 := by decide
  simp only [List.count_append, hone, List.count_eq_zero.mpr h] at hcount
  have haS : (83 : UInt8) ∉ a := List.count_eq_zero.mp (by omega)
  -- the header's own `S` stands in the same place on both sides
  rw [hsplit] at he
  have he' : h1 ++ 83 :: (h2 ++ rest) = (a ++ h1) ++ 83 :: (h2 ++ b) := by simpa using he
  have heq := (List.append_cons_inj_of_notMem h1S (by simp [h2S, h])).mp he'
  simpa using heq.1

def Headless (f : List UInt8) : Prop := ∃ b rest, f = b :: rest ∧ b ≠ 84

theorem Headless.not_wellFormed (h : Headless f) : ¬ WellFormedCsv f := by
  obtain ⟨b, rest, rfl, hb⟩ := h
  rintro ⟨⟨t, ht⟩, -⟩
  have : savvyHeader = 84 :: savvyHeader.tail := by decide
  rw [this, List.cons_append] at ht
  exact hb (List.cons.inj ht).1.symm

theorem fmtD_headless : Headless (fmtD 6 v) := by
  have hne : fmtD 6 v ≠ [] := by
    unfold fmtD
    split
    · simp
    · intro h
      have := congrArg List.length h
      rw [zeroPad_length] at this
      simp at this
  obtain ⟨b, rest, h⟩ := List.exists_cons_of_ne_nil hne
  refine ⟨b, rest, h, ?_⟩
  rintro rfl
  exact absurd (fmtD_numeral 84 (h ▸ List.mem_cons_self)) (by decide)

theorem Headless.append (h : Headless f) : Headless (f ++ g) := by
  obtain ⟨b, rest, rfl, hb⟩ := h
  exact ⟨b, rest ++ g, rfl, hb⟩

theorem dataLine_headless (f : CanFrame) (busId : UInt8) : Headless (dataLine f busId) := by
  unfold dataLine sprintfLine
  simp only [List.append_assoc]
  exact fmtD_headless.append

theorem fileStep_headless (h : ∃ f ∈ files, Headless f) (c : Call) :
    ∃ f ∈ fileStep files c, Headless f := by
  obtain ⟨f, hf, hb⟩ := h
  cases c with
  | createFile => exact ⟨f, List.mem_cons_of_mem _ hf, hb⟩
  | usbSend => exact ⟨f, hf, hb⟩
  | writeToFile arr =>
    cases files with
    | nil => simp at hf
    | cons g rest =>
      rcases List.mem_cons.mp hf with rfl | hf
      · exact ⟨f ++ arr, List.mem_cons_self, hb.append⟩
      · exact ⟨f, List.mem_cons_of_mem _ hf, hb⟩

theorem foldl_headless (h : ∃ f ∈ files, Headless f) (calls : List Call) :
    ∃ f ∈ calls.foldl fileStep files, Headless f := by
  induction calls generalizing files with
  | nil => exact h
  | cons c cs ih => exact ih (fileStep_headless h c)

-- ---------------------------------------------------------------------------
-- The invariants of a run
-- ---------------------------------------------------------------------------

/-- `newFile` says that the newest file is still empty. -/
def NewFileEmpty (s : Logger) (files : List (List UInt8)) : Prop :=
  s.newFile = true → ∃ rest, files = [] :: rest

theorem NewFileEmpty.step (h : NewFileEmpty s files) (e : Event) :
    NewFileEmpty (handlers.next s e) ((handlers.emit s e).foldl fileStep files) := by
  intro hn
  rcases e.cases_frame with ⟨f, busId, hf⟩ | rfl | ⟨mode, rfl⟩
  · rw [newFile_frame hf, Bool.and_eq_true, Bool.not_eq_true'] at hn
    rw [emit_frame hf, fileStep_lineCalls, hn.2]
    exact h hn.1
  · rw [emit_tick]
    rw [newFile_tick] at hn
    split
    · exact ⟨files, rfl⟩
    · rename_i hnot
      exact h (by cases hs : s.newFile <;> simp_all)
  · exact h hn

/-- The files are well formed, and the newest one has its header unless it is
the empty one that `newFile` announces. -/
structure FilesOk (s : Logger) (files : List (List UInt8)) : Prop where
  empty : NewFileEmpty s files
  csv : CsvFiles files
  newest : s.newFile = false → files ≠ [] → s.headerSent = true ∧
    ∃ body rest, files = (savvyHeader ++ body) :: rest ∧ (83 : UInt8) ∉ body

theorem FilesOk.line (h : FilesOk s (g :: rest)) (hsd : toSd s.logging = true)
    (hf : e.frame? = some (f, busId)) (hstep : HeaderNotTaken s e) :
    ∃ body, g ++ frameLine s f busId = savvyHeader ++ body ∧ (83 : UInt8) ∉ body := by
  cases hn : s.newFile with
  | true =>
    have hs : s.headerSent = false := by
      by_contra hs
      exact hstep ⟨by simp [hf], hsd, by simpa using hs, hn⟩
    obtain ⟨t, ht⟩ := h.empty hn
    obtain ⟨rfl, -⟩ := List.cons.inj ht
    exact ⟨[], by simp [frameLine, hs], by simp⟩
  | false =>
    obtain ⟨hs, body, t, ht, hbody⟩ := h.newest hn (by simp)
    obtain ⟨rfl, -⟩ := List.cons.inj ht
    refine ⟨body ++ dataLine f busId, by simp [frameLine, hs], ?_⟩
    simp [hbody, dataLine_no_S]

theorem FilesOk.frame (h : FilesOk s files) (hf : e.frame? = some (f, busId))
    (hstep : HeaderNotTaken s e) :
    FilesOk (handlers.next s e) ((handlers.emit s e).foldl fileStep files) := by
  have hempty := h.empty.step e
  rw [emit_frame hf, fileStep_lineCalls] at hempty ⊢
  cases hsd : toSd s.logging with
  | false =>
    simp only [hsd, Bool.false_eq_true, ↓reduceIte] at hempty ⊢
    refine ⟨hempty, h.csv, fun hn hne => ?_⟩
    rw [newFile_frame hf, hsd, Bool.not_false, Bool.and_true] at hn
    exact ⟨headerSent_frame hf, (h.newest hn hne).2⟩
  | true =>
    simp only [hsd, ↓reduceIte] at hempty ⊢
    cases files with
    | nil => exact ⟨hempty, h.csv, fun _ hne => absurd rfl hne⟩
    | cons g rest =>
      obtain ⟨body, hbody, hS⟩ := h.line hsd hf hstep
      refine ⟨hempty, ?_, fun _ _ => ⟨headerSent_frame hf, body, rest, ?_, hS⟩⟩
      · intro x hx hne
        rcases List.mem_cons.mp hx with rfl | hx
        · rw [hbody]
          exact headed_wellFormed hS
        · exact h.csv x (List.mem_cons_of_mem _ hx) hne
      · rw [← hbody]
        rfl

theorem FilesOk.tick (h : FilesOk s files) :
    FilesOk (handlers.next s .tick) ((handlers.emit s .tick).foldl fileStep files) := by
  have hempty := h.empty.step .tick
  rw [emit_tick] at hempty ⊢
  split
  · rename_i hc
    rw [if_pos hc] at hempty
    refine ⟨hempty, ?_, fun hn => ?_⟩
    · intro x hx hne
      rcases List.mem_cons.mp hx with rfl | hx
      · exact absurd rfl hne
      · exact h.csv x hx hne
    · simp_all
  · rename_i hc
    rw [if_neg hc] at hempty
    refine ⟨hempty, h.csv, fun hn hne => ?_⟩
    rw [newFile_tick, Bool.or_eq_false_iff, decide_eq_false_iff_not] at hn
    rw [headerSent_tick, decide_eq_false hn.2, Bool.not_false, Bool.and_true]
    exact h.newest hn.1 hne

theorem FilesOk.step (h : FilesOk s files) (hstep : HeaderNotTaken s e) :
    FilesOk (handlers.next s e) ((handlers.emit s e).foldl fileStep files) := by
  rcases e.cases_frame with ⟨f, busId, hf⟩ | rfl | ⟨mode, rfl⟩
  · exact h.frame hf hstep
  · exact h.tick
  · exact ⟨h.empty, h.csv, h.newest⟩

theorem filesOk_run (h : FilesOk s files) (hsteps : handlers.Always HeaderNotTaken s es) :
    FilesOk (handlers.run s es) ((handlers.out s es).foldl fileStep files) := by
  induction es generalizing s files with
  | nil => exact h
  | cons e es ih =>
    rw [foldl_out_cons]
    exact ih (h.step hsteps.1) hsteps.2

theorem newFileEmpty_run (h : NewFileEmpty s files) (es : List Event) :
    NewFileEmpty (handlers.run s es) ((handlers.out s es).foldl fileStep files) := by
  induction es generalizing s files with
  | nil => exact h
  | cons e es ih =>
    rw [foldl_out_cons]
    exact ih (h.step e)

theorem headless_of_taken (h : NewFileEmpty s files) (htaken : ¬ HeaderNotTaken s e)
    (es : List Event) :
    ∃ f ∈ (handlers.out s (e :: es)).foldl fileStep files, Headless f := by
  obtain ⟨hframe, hsd, hs, hn⟩ := not_not.mp htaken
  obtain ⟨⟨f, busId⟩, hf⟩ := Option.isSome_iff_exists.mp hframe
  obtain ⟨rest, rfl⟩ := h hn
  rw [foldl_out_cons]
  apply foldl_headless
  rw [emit_frame hf, fileStep_lineCalls, if_pos hsd]
  exact ⟨dataLine f busId, by simp [fileStep, frameLine, hs], dataLine_headless f busId⟩

-- ---------------------------------------------------------------------------
-- Runs
-- ---------------------------------------------------------------------------

theorem filesOk_powerOn (logging : UInt8) : FilesOk (.powerOn logging) [] :=
  ⟨fun h => by simp [Logger.powerOn] at h, fun _ hf => by simp at hf, fun _ h => absurd rfl h⟩

/-- The files of a run from power-on are all well formed exactly when no line
is written to an empty file while the header counts as sent. -/
theorem csvFiles_iff (logging : UInt8) (es : List Event) :
    CsvFiles (logFiles (handlers.out (.powerOn logging) es)) ↔
      handlers.Always HeaderNotTaken (.powerOn logging) es := by
  constructor
  · intro h
    rw [handlers.always_iff]
    rintro pre e suf rfl
    by_contra htaken
    have hn := newFileEmpty_run (filesOk_powerOn logging).empty pre
    obtain ⟨f, hf, hbad⟩ := headless_of_taken hn htaken suf
    rw [← List.foldl_append, ← handlers.out_append] at hf
    obtain ⟨b, rest, rfl, -⟩ := id hbad
    exact hbad.not_wellFormed (h _ hf (by simp))
  · intro h
    exact (filesOk_run (filesOk_powerOn logging) h).csv

/-- One frame on USB after the file was opened takes the header; the card then
gets a file that begins with a data line. -/
theorem headless_file :
    ¬ CsvFiles (logFiles (handlers.out (.powerOn 2)
      (List.replicate 11 .tick ++
        [.can1 ⟨0x123, 1, 2, 8, 7⟩, .setLogging 1, .can1 ⟨0x123, 1, 2, 8, 8⟩]))) := by
  intro h
  obtain ⟨⟨t, ht⟩, -⟩ := h (dataLine ⟨0x123, 1, 2, 8, 8⟩ 0) (by decide) (by decide)
  have hlen := congrArg (·.take 2) ht
  revert hlen
  rw [List.take_append_of_le_length (by decide)]
  decide

end Stm32Logger
