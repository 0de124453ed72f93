import Stm32Logger.Fat.Entering

/-!
# The buffers of a look-up and of a name

`fat_readdir` stores the characters of a long entry where the ordinal in it
says, and `_fat_dir_create_file` reads the new name thirteen characters at a
time. Neither index is tested: which entries of the card and which numbers of
files keep the two inside their buffers is worked out here.
-/

namespace Stm32Logger

-- ---------------------------------------------------------------------------
-- Names with an end
-- ---------------------------------------------------------------------------

/-- The name as the thirteen reads of long entry `i` find it; a read behind the terminator is a fault. -/
def nameBlock (name : List UInt8) (i : Nat) : FatM (Nat → UInt8) :=
  if (List.range 13).all fun j => i * 13 + j ≤ name.length then pure fun k => (name ++ [0]).getD k 0
  else throw .outOfBounds

def checkedLongEntries (name sname : List UInt8) : (i : Nat) → (last : Bool) → FatM Bool
  | i, last => do
    let mem ← nameBlock name i
    if (← fatWrite .cwd (longDirent mem sname i last)) ≠ 32 then pure false
    else
      match i with
      | 0 => pure true
      | i + 1 => checkedLongEntries name sname i false

def checkedEnterFile (name : List UInt8) (attr : Nat) (dst : HandleRef) (sname : List UInt8) : FatM Int := do
  fatDirSeekEmpty .cwd (name.length / 13 + 2)
  if !(← checkedLongEntries name sname (name.length / 13) true) then pure (-1)
  else
    match ← allocDirCluster attr with
    | none => pure (-1)
    | some cluster =>
      if (← fatWrite .cwd (shortDirent sname attr cluster)) ≠ 32 then pure (-1)
      else fatOpen name 0 dst

def checkedCreateFile (name : List UInt8) (attr : Nat) (dst : HandleRef) : FatM Int :=
  withShortName name dst (checkedEnterFile name attr dst)

/-- `CreateDir` stores inside `d_name`, and reads the name up to its terminator. -/
structure DirInside (st : SdStore) : Prop where
  stores : ∀ t, createDir st ≠ .error .outOfBounds t
  reads : ∀ t, checkedCreateFile (dirNameOf st.dirId) attrDirectory .dir st.fs ≠ .error .outOfBounds t

/-- `CreateFile` stores inside `d_name`, and reads the name up to its terminator. -/
structure FileInside (st : SdStore) : Prop where
  stores : ∀ t, createFile st ≠ .error .outOfBounds t
  reads : ∀ t, checkedCreateFile (fileNameOf st.fileId) attrArchive .file st.fs ≠ .error .outOfBounds t

/-- The look-up of the new directory meets no entry that stores outside, and no entry is written for it. -/
def DirQuiet (st : SdStore) : Prop :=
  (∀ es, ¬ Stops (dirNameOf st.dirId) st.fs.vol st.fs.disk (st.fs.handle .cwd).start {} es .outside) ∧
    ∀ es sname, ¬ NewName (dirNameOf st.dirId) st.fs es sname

/-- Entries that follow the links of a chain: the file is looked up behind no entry that stores outside. -/
structure FilePast (name : List UInt8) (mem : Nat → UInt8) (sname : List UInt8) (s : FatState) (dir : DirPlace)
    (es : List Sector) : Prop where
  chain : dir.isRoot = false
  inside : ∀ x, (s.trail name es).begin = some x →
    ¬ (x.lay (newEntries name mem sname attrArchive 0)).Oversteps name

/-- The look-up of the new file meets no entry that stores outside, and no entry
is written for it unless its name has twelve characters. -/
def FileQuiet (st : SdStore) (dir : DirPlace) : Prop :=
  (∀ es, ¬ Stops (fileNameOf st.fileId) st.fs.vol st.fs.disk (st.fs.handle .cwd).start {} es .outside) ∧
    ∀ es sname, NewName (fileNameOf st.fileId) st.fs es sname → st.fileId < 10 ∧
      ((dir.isRoot = true ∨ newPlace (fileNameOf st.fileId) es < dir.count st.fs.vol ∧
          DirRoom st.fs dir (newPlace (fileNameOf st.fileId) es + ((fileNameOf st.fileId).length / 13 + 2))) ∨
        FilePast (fileNameOf st.fileId) st.namingFile.filename sname st.fs dir es)

variable {s t u : FatState} {st : SdStore} {v : FatVolHandle} {d : Disk} {h : FatFileHandle} {dir : DirPlace}
  {es fs : List Sector} {name sname : List UInt8} {mem : Nat → UInt8} {dst : HandleRef} {n : LongName}
  {b : ScanEnd}

theorem nameBlock_inside (h : i * 13 + 12 ≤ name.length) :
    nameBlock name i s = .ok (fun k => (name ++ [0]).getD k 0) s := by
  have hall : ((List.range 13).all fun j => i * 13 + j ≤ name.length) = true :=
    List.all_eq_true.mpr fun j hj => decide_eq_true (by have := List.mem_range.mp hj; omega)
  rw [nameBlock, if_pos hall]
  rfl

theorem nameBlock_outside (h : name.length < i * 13 + 12) : nameBlock name i s = .error .outOfBounds s := by
  have hnot : ¬ ((List.range 13).all fun j => i * 13 + j ≤ name.length) = true := fun hall => by
    have := of_decide_eq_true (List.all_eq_true.mp hall 12 (by decide))
    omega
  rw [nameBlock, if_neg hnot]
  rfl

theorem longDirent_congr {mem' : Nat → UInt8} (sname : List UInt8) (i : Nat) (last : Bool)
    (h : ∀ j < 13, mem' (i * 13 + j) = mem (i * 13 + j)) :
    longDirent mem' sname i last = longDirent mem sname i last := by
  have h0 := h 0 (by decide)
  rw [Nat.add_zero] at h0
  simp [longDirent, List.range_succ, h, h0]

theorem checkedLongEntries_eq (hc : CName name mem) (sname : List UInt8) (i : Nat) (last : Bool)
    (hi : i * 13 + 12 ≤ name.length) :
    checkedLongEntries name sname i last = writeLongEntries mem sname i last := by
  have hmem : ∀ k ≤ name.length, (name ++ [0]).getD k 0 = mem k := fun k hk => by
    rcases Nat.lt_or_eq_of_le hk with hlt | rfl
    · rw [List.getD_append _ _ _ _ hlt, hc.chars k hlt]
    · rw [List.getD_append_right _ _ _ _ (Nat.le_refl _), Nat.sub_self, hc.stop]
      rfl
  have hblock : ∀ i last, i * 13 + 12 ≤ name.length →
      longDirent (fun k => (name ++ [0]).getD k 0) sname i last = longDirent mem sname i last :=
    fun i last hi => longDirent_congr sname i last fun j hj => hmem _ (by omega)
  induction i generalizing last with
  | zero =>
    funext s
    rw [checkedLongEntries, writeLongEntries, bind_ok (nameBlock_inside hi), hblock 0 last hi]
  | succ i ih =>
    funext s
    rw [checkedLongEntries, writeLongEntries, bind_ok (nameBlock_inside hi), hblock (i + 1) last hi]
    simp only [ih false (by omega)]

theorem checkedEnterFile_eq (attr : Nat) (dst : HandleRef) (hc : CName name mem) (h : name.length % 13 = 12) :
    checkedEnterFile name attr dst sname = enterFile name mem attr dst sname := by
  rw [checkedEnterFile, checkedLongEntries_eq hc sname _ true (by omega)]
  rfl

theorem checkedEnterFile_overrun (attr : Nat) (dst : HandleRef) (sname : List UInt8)
    (hlen : name.length % 13 ≠ 12) (h : DirOpen s .cwd dir) (hr : Rows s.vol s.disk (s.handle .cwd).start es)
    (hsmall : es.length < 2 ^ 26) :
    ∃ t, checkedEnterFile name attr dst sname s = .error .outOfBounds t := by
  obtain ⟨t, hseek, -⟩ := fatDirSeekEmpty_rows (name.length / 13 + 2) h.scanReady hr hsmall
  have hblock : nameBlock name (name.length / 13) t = .error .outOfBounds t := nameBlock_outside (by omega)
  refine ⟨t, ?_⟩
  rw [checkedEnterFile, bind_ok hseek]
  refine bind_error ?_
  unfold checkedLongEntries
  exact bind_error hblock

-- ---------------------------------------------------------------------------
-- Look-ups and stores
-- ---------------------------------------------------------------------------

theorem createFile_inv {st' : SdStore} (h : createFile st = .error e st') :
    ∃ u, fatDirCreateFile (fileNameOf st.fileId) st.namingFile.filename attrArchive .file st.fs =
      .error e u := by
  cases hrun : fatDirCreateFile (fileNameOf st.fileId) st.namingFile.filename attrArchive .file st.fs with
  | ok ret u =>
    rw [createFile_ok (fatCreate_ok oWronly hrun)] at h
    cases h
  | error e' u =>
    have hcreate :
        fatCreate (fileNameOf st.fileId) st.namingFile.filename oWronly .file st.fs = .error e' u := by
      rw [fatCreate, bind_error hrun]
    have hon : onCard (fatCreate (fileNameOf st.fileId) st.namingFile.filename oWronly .file) st.namingFile =
        .error e' { st.namingFile with fs := u } := onCard_error hcreate
    rw [createFile, get_bind, modify_bind, get_bind] at h
    cases (bind_error hon).symm.trans h
    exact ⟨u, rfl⟩

theorem createDir_inv {st' : SdStore} (h : createDir st = .error e st') :
    (∃ u, fatMkdir (dirNameOf st.dirId) st.namingDir.dirname st.fs = .error e u) ∨
      ∃ ret u w, fatMkdir (dirNameOf st.dirId) st.namingDir.dirname st.fs = .ok ret u ∧
        fatChdir (dirNameOf st.dirId) u = .error e w := by
  cases hrun : fatMkdir (dirNameOf st.dirId) st.namingDir.dirname st.fs with
  | ok ret u =>
    cases hch : fatChdir (dirNameOf st.dirId) u with
    | ok a w =>
      rw [createDir_ok hrun hch] at h
      cases h
    | error e' w =>
      have hmk : onCard (fatMkdir (dirNameOf st.dirId) st.namingDir.dirname) st.namingDir =
          .ok ret { st.namingDir with fs := u } := onCard_ok hrun
      have hon : onCard (fatChdir (dirNameOf st.dirId)) { st.namingDir with fs := u } =
          .error e' { st.namingDir with fs := w } := onCard_error hch
      rw [createDir, get_bind, modify_bind, get_bind] at h
      cases ((bind_ok hmk).trans (bind_error hon)).symm.trans h
      exact .inr ⟨ret, u, w, rfl, hch⟩
  | error e' u =>
    have hmk : onCard (fatMkdir (dirNameOf st.dirId) st.namingDir.dirname) st.namingDir =
        .error e' { st.namingDir with fs := u } := onCard_error hrun
    rw [createDir, get_bind, modify_bind, get_bind] at h
    cases (bind_error hmk).symm.trans h
    exact .inl ⟨u, rfl⟩

-- ---------------------------------------------------------------------------
-- A new directory
-- ---------------------------------------------------------------------------

theorem DirQuiet.inside (h : DirOpen st.fs .cwd dir) (hq : DirQuiet st) : DirInside st := by
  obtain ⟨hin, hnew⟩ := hq
  have hdot := dirNameOf_ne_dot st.dirId
  refine ⟨fun t ht => ?_, fun t ht => ?_⟩
  · have hcases := withShortName_cases (enterFile (dirNameOf st.dirId) st.namingDir.dirname attrDirectory .dir)
      .dir (by decide) hdot h.scanReady
    rcases createDir_inv ht with ⟨u, hrun⟩ | ⟨ret, u, w, hrun, hch⟩
    all_goals
      rw [fatMkdir_eq, fatDirCreateFile_eq] at hrun
      rcases hcases with ⟨es, sname, x, hn, -⟩ | ⟨es, b, x, hst, -, hsc, hw⟩ | ⟨es, x, hst, -⟩ | ⟨x, hw⟩
    · exact hnew es sname hn
    · rw [bind_ok hw] at hrun
      cases hrun
    · exact hin es hst
    · rw [bind_error hw] at hrun
      cases hrun
    · exact hnew es sname hn
    · -- the second look-up goes the way of the first
      rw [bind_ok hw] at hrun
      cases hrun
      have hans := (hst.scanned hsc).fatOpen_run 0 .cwd (h.scanReady.scanned hsc) hdot
      cases b with
      | missing =>
        obtain ⟨y, hopen, -⟩ := hans
        cases hopen.symm.trans hch
      | found =>
        obtain ⟨y, hd, hopen, -⟩ := hans
        cases hopen.symm.trans hch
      | outside => exact hin es hst
    · exact hin es hst
    · rw [bind_error hw] at hrun
      cases hrun
  · rcases withShortName_cases (checkedEnterFile (dirNameOf st.dirId) attrDirectory .dir) .dir (by decide)
      hdot h.scanReady with ⟨es, sname, x, hn, -⟩ | ⟨es, b, x, -, -, -, hw⟩ | ⟨es, x, hst, -⟩ | ⟨x, hw⟩
    · exact hnew es sname hn
    · cases hw.symm.trans ht
    · exact hin es hst
    · cases hw.symm.trans ht

theorem DirInside.quiet (h : DirOpen st.fs .cwd dir) (hsmall : st.fs.ShortRow) (hi : DirInside st) :
    DirQuiet st := by
  have hdot := dirNameOf_ne_dot st.dirId
  refine ⟨fun es hst => ?_, fun es sname hn => ?_⟩
  · obtain ⟨t, ht⟩ := withShortName_outside (checkedEnterFile (dirNameOf st.dirId) attrDirectory .dir) .dir hdot
      h.scanReady hst
    exact hi.reads t ht
  · have hlen := dirNameOf_length st.dirId
    have hes := hsmall es hn.rows
    obtain ⟨w, hsc, hw⟩ := hn.entered (checkedEnterFile (dirNameOf st.dirId) attrDirectory .dir) .dir
      (by decide) hdot h.scanReady
    have hne : (dirNameOf st.dirId).length % 13 ≠ 12 := by omega
    obtain ⟨u, hu⟩ := checkedEnterFile_overrun attrDirectory .dir sname hne (h.scanned hsc)
      (hn.scanned hsc).rows (Nat.lt_of_le_of_lt (Nat.le_add_right _ 16) hes)
    exact hi.reads u (hw.trans hu)

-- ---------------------------------------------------------------------------
-- A new file
-- ---------------------------------------------------------------------------

theorem FileQuiet.inside (h : DirOpen st.fs .cwd dir) (hsmall : st.fs.ShortRow) (hq : FileQuiet st dir) :
    FileInside st := by
  obtain ⟨hin, hnew⟩ := hq
  have hdot := fileNameOf_ne_dot st.fileId
  have hlen := fileNameOf_length st.fileId
  have hc := cName_file st.fileId st.filename
  have enter : ∀ es sname w t, NewName (fileNameOf st.fileId) st.fs es sname → Scanned .file st.fs w →
      enterFile (fileNameOf st.fileId) st.namingFile.filename attrArchive .file sname w ≠
        .error .outOfBounds t :=
      fun es sname w t hn hsc ht => by
    have hes := hsmall es hn.rows
    rcases (hnew es sname hn).2 with hroom | hpast
    · obtain ⟨ret, u, hrun, -⟩ :=
        enterFile_own .file hc hdot (shortName_file st.fileId) (by omega) (h.scanned hsc)
        (hn.scanned hsc) hes (by rw [hsc.vol]; exact hroom.imp id And.left)
        (by rw [DirRoom, hsc.vol, hsc.disk]; exact hroom.imp id And.right)
      cases hrun.symm.trans ht
    · rcases enterFile_elsewhere st.namingFile.filename h hpast.chain hn (by omega) hsc with
        ⟨-, u, hrun, -⟩ | ⟨x, u, hbegin, hrun, hx⟩
      · cases hrun.symm.trans ht
      · exact hpast.inside x hbegin ((hx.overstep_iff hdot .file).mp ⟨t, hrun.symm.trans ht⟩)
  refine ⟨fun t ht => ?_, fun t ht => ?_⟩
  · obtain ⟨u, hrun⟩ := createFile_inv ht
    rw [fatDirCreateFile_eq] at hrun
    rcases withShortName_cases (enterFile (fileNameOf st.fileId) st.namingFile.filename attrArchive .file) .file
      (by decide) hdot h.scanReady with
      ⟨es, sname, x, hn, hsc, hw⟩ | ⟨es, b, x, -, -, -, hw⟩ | ⟨es, x, hst, -⟩ | ⟨x, hw⟩
    · exact enter es sname x u hn hsc (hw.symm.trans hrun)
    · cases hw.symm.trans hrun
    · exact hin es hst
    · cases hw.symm.trans hrun
  · rcases withShortName_cases (checkedEnterFile (fileNameOf st.fileId) attrArchive .file) .file (by decide)
      hdot h.scanReady with ⟨es, sname, x, hn, hsc, hw⟩ | ⟨es, b, x, -, -, -, hw⟩ | ⟨es, x, hst, -⟩ | ⟨x, hw⟩
    · have hsame : checkedEnterFile (fileNameOf st.fileId) attrArchive .file sname =
          enterFile (fileNameOf st.fileId) st.namingFile.filename attrArchive .file sname :=
        checkedEnterFile_eq attrArchive .file hc ((fileNameOf_full st.fileId).mpr (hnew es sname hn).1)
      exact enter es sname x t hn hsc ((congrFun hsame x).symm.trans (hw.symm.trans ht))
    · cases hw.symm.trans ht
    · exact hin es hst
    · cases hw.symm.trans ht

theorem FileInside.quiet (h : DirOpen st.fs .cwd dir) (hsmall : st.fs.ShortRow) (hi : FileInside st) :
    FileQuiet st dir := by
  have hdot := fileNameOf_ne_dot st.fileId
  refine ⟨fun es hst => ?_, fun es sname hn => ?_⟩
  · obtain ⟨t, ht⟩ := withShortName_outside (checkedEnterFile (fileNameOf st.fileId) attrArchive .file) .file
      hdot h.scanReady hst
    exact hi.reads t ht
  · have hes := hsmall es hn.rows
    obtain ⟨w, hsc, hw⟩ := hn.entered (checkedEnterFile (fileNameOf st.fileId) attrArchive .file) .file
      (by decide) hdot h.scanReady
    have hten : st.fileId < 10 := by
      by_contra hten
      obtain ⟨u, hu⟩ := checkedEnterFile_overrun attrArchive .file sname
        (fun h => hten ((fileNameOf_full st.fileId).mp h)) (h.scanned hsc) (hn.scanned hsc).rows (by omega)
      exact hi.reads u (hw.trans hu)
    refine ⟨hten, ?_⟩
    cases hr : dir.isRoot with
    | true => exact .inl (.inl rfl)
    | false =>
      refine .inr ⟨hr, fun x hbegin hover => ?_⟩
      rcases enterFile_elsewhere st.namingFile.filename h hr hn (by omega) hsc with
        ⟨hnone, -⟩ | ⟨x', t, hbegin', hrun, hx⟩
      · exact absurd (hbegin.symm.trans hnone) (by simp)
      · obtain rfl := Option.some.inj (hbegin.symm.trans hbegin')
        obtain ⟨u, hopen⟩ := (hx.overstep_iff hdot .file).mpr hover
        rw [checkedEnterFile_eq attrArchive .file (cName_file st.fileId st.filename)
          ((fileNameOf_full st.fileId).mpr hten)] at hw
        exact hi.reads u (hw.trans (hrun.trans hopen))

end Stm32Logger
