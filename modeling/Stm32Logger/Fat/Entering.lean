import Stm32Logger.Fat.NewFile
import Stm32Logger.Fat.PastEnd

/-!
# `_fat_dir_create_file` in any directory

The look-ups come to an end or they do not, and the entries begin in a slot of
the directory or behind its chain. What the call does follows from that.
-/

namespace Stm32Logger

/-- Look-ups of the name pass over `es` to an end, and `sname` is the short name it gets. -/
structure NewName (name : List UInt8) (s : FatState) (es : List Sector) (sname : List UInt8) : Prop where
  missing : Stops name s.vol s.disk (s.handle .cwd).start {} es .missing
  fresh : freshName name es 9 1 = some sname

/-- The row of entries that look-ups pass over is shorter than 2 GiB. -/
def FatState.ShortRow (s : FatState) : Prop :=
  ∀ es, Rows s.vol s.disk (s.handle .cwd).start es → es.length + 16 < 2 ^ 26

variable {s t u : FatState} {v : FatVolHandle} {d : Disk} {dir : DirPlace} {h : FatFileHandle}
  {es fs : List Sector} {name sname : List UInt8} {mem : Nat → UInt8} {dst : HandleRef}
  {b : ScanEnd} {x : Trail}

-- ---------------------------------------------------------------------------
-- The look-ups
-- ---------------------------------------------------------------------------

/-- The look-ups end with a short name, or without one, or store outside, or do not end. -/
theorem withShortName_cases (enter : List UInt8 → FatM Int) (dst : HandleRef) (hdst : dst ≠ .cwd)
    (hdot : name ≠ [46]) (hs : ScanReady s) :
    (∃ es sname t, NewName name s es sname ∧ Scanned dst s t ∧
      withShortName name dst enter s = enter sname t) ∨
    (∃ es b t, Stops name s.vol s.disk (s.handle .cwd).start {} es b ∧
      (b = .missing → freshName name es 9 1 = none) ∧ Scanned dst s t ∧
      withShortName name dst enter s = .ok (-1) t) ∨
    (∃ es t, Stops name s.vol s.disk (s.handle .cwd).start {} es .outside ∧
      withShortName name dst enter s = .error .outOfBounds t) ∨
    ∃ t, withShortName name dst enter s = .error .noReturn t := by
  by_cases hends : ∃ es b, Stops name s.vol s.disk (s.handle .cwd).start {} es b
  · obtain ⟨es, b, hst⟩ := hends
    cases b with
    | missing =>
      obtain ⟨t, hsc, hrun⟩ := withShortName_missing enter hdst hdot hs hst
      cases hf : freshName name es 9 1 with
      | none =>
        rw [hf] at hrun
        exact .inr (.inl ⟨es, _, t, hst, fun _ => hf, hsc, hrun⟩)
      | some sname =>
        rw [hf] at hrun
        exact .inl ⟨es, sname, t, ⟨hst, hf⟩, hsc, hrun⟩
    | found =>
      obtain ⟨t, hsc, hrun⟩ := withShortName_found enter hdst hdot hs hst
      exact .inr (.inl ⟨es, _, t, hst, fun h => ScanEnd.noConfusion h, hsc, hrun⟩)
    | outside =>
      obtain ⟨t, hrun⟩ := withShortName_outside enter dst hdot hs hst
      exact .inr (.inr (.inl ⟨es, t, hst, hrun⟩))
  · exact .inr (.inr (.inr (withShortName_endless enter hdot hs hends)))

theorem NewName.entered (enter : List UInt8 → FatM Int) (dst : HandleRef) (hdst : dst ≠ .cwd)
    (hdot : name ≠ [46]) (hs : ScanReady s) (hn : NewName name s es sname) :
    ∃ t, Scanned dst s t ∧ withShortName name dst enter s = enter sname t := by
  obtain ⟨t, hsc, hrun⟩ := withShortName_missing enter hdst hdot hs hn.missing
  rw [hn.fresh] at hrun
  exact ⟨t, hsc, hrun⟩

theorem NewName.rows (hn : NewName name s es sname) : Rows s.vol s.disk (s.handle .cwd).start es :=
  (hn.missing.rows rfl 0).1

theorem Scanned.dirHandle (hsc : Scanned dst s t) (hh : DirHandle v dir (s.handle .cwd)) :
    DirHandle v dir (t.handle .cwd) where
  fat := (congrArg FatFileHandle.fat hsc.cwd).trans hh.fat
  root := (congrArg FatFileHandle.rootFlag hsc.cwd).trans hh.root
  first := (congrArg FatFileHandle.firstCluster hsc.cwd).trans hh.first
  size := (congrArg FatFileHandle.size hsc.cwd).trans hh.size
  dirent := (congrArg FatFileHandle.direntSector hsc.cwd).trans hh.dirent

theorem Scanned.walked (hsc : Scanned dst s t) (h : DirOpen s .cwd dir) :
    Walked (fun d => d = s.disk) dir dst s t :=
  ⟨hsc.toRan, hsc.disk, hsc.vol, hsc.dirHandle h.handle, hsc.others, hsc.coherent⟩

theorem DirOpen.scanned (h : DirOpen s .cwd dir) (hsc : Scanned dst s t) : DirOpen t .cwd dir :=
  h.of_ran hsc.toRan hsc.disk hsc.vol (hsc.dirHandle h.handle) fun n _ => hsc.coherent n

theorem Stops.scanned (hst : Stops name s.vol s.disk (s.handle .cwd).start {} es b) (hsc : Scanned dst s t) :
    Stops name t.vol t.disk (t.handle .cwd).start {} es b := by
  rw [hsc.vol, hsc.disk, hsc.cwd]
  exact hst

theorem NewName.scanned (hn : NewName name s es sname) (hsc : Scanned dst s t) : NewName name t es sname :=
  ⟨hn.missing.scanned hsc, hn.fresh⟩

theorem Scanned.trail (hsc : Scanned dst s t) (name : List UInt8) (es : List Sector) :
    t.trail name es = s.trail name es := by
  have hself : t.newHandle name es = s.newHandle name es := by
    rw [FatState.newHandle, seek_congr hsc.cwd, hsc.vol, hsc.disk]
    rfl
  rw [FatState.trail, hsc.vol, hsc.disk, hself]
  rfl

-- ---------------------------------------------------------------------------
-- The row of a directory
-- ---------------------------------------------------------------------------

theorem Rows.unique (h1 : Rows v d h es) (h2 : Rows v d h fs) : es = fs := by
  induction h1 generalizing fs with
  | nil hend =>
    cases h2 with
    | nil => rfl
    | cons hm he h0 =>
      subst he
      exact absurd (hend hm) h0
  | cons hm he h0 hrest ih =>
    cases h2 with
    | nil hend =>
      subst he
      exact absurd (hend hm) h0
    | cons hm' he' h0' hrest' => rw [← he, ← he', ih hrest']

theorem DirOpen.seek_more (h : DirOpen s .cwd dir) (hi : i < dir.count s.vol) :
    ((s.handle .cwd).seek s.vol s.disk i).More := by
  have hsize := h.handle.size
  show (s.handle .cwd).size = 0 ∨ u32 (32 * i + 32) ≤ (s.handle .cwd).size
  rw [hsize]
  cases dir with
  | chain => exact .inl rfl
  | root =>
    have hlt : s.vol.rootSectorCount < 65536 := Nat.mod_lt _ (by decide)
    simp only [DirPlace.count] at hi
    simp only [DirPlace.size, u32]
    omega

theorem Shown.rows (h : Shown s dir es) (hend : dir.Ends s.vol s.disk es) :
    Rows s.vol s.disk (s.handle .cwd).start es := by
  have hv := h.layout.toShape
  have hfits := h.shows.fits
  have hsm := h.small
  have hentry : ∀ i < dir.count s.vol,
      ((s.handle .cwd).seek s.vol s.disk i).entry s.vol s.disk = dir.entry s.vol s.disk i := fun i hi => by
    rw [seek_slot hv h.place h.handle (.inr hi)]
    exact (h.handle.toSlot i).entry hv h.place hi
  have hrow : ∀ n i, i + n = es.length →
      Rows s.vol s.disk ((s.handle .cwd).seek s.vol s.disk i) (es.drop i) := by
    intro n
    induction n with
    | zero =>
      intro i hi
      rw [List.drop_of_length_le (by omega)]
      refine .nil fun hm => ?_
      rcases Nat.lt_or_ge i (dir.count s.vol) with hlt | hge
      · rw [hentry i hlt, show i = es.length by omega]
        exact hend.slot (by omega)
      · -- behind the root directory
        have hroot : dir.isRoot = true := by
          by_contra hr
          have := hend.stop (Bool.eq_false_iff.mpr hr)
          omega
        have hsize := h.handle.size
        have hplace := h.place
        change (s.handle .cwd).size = 0 ∨ u32 (32 * i + 32) ≤ (s.handle .cwd).size at hm
        rw [hsize] at hm
        cases dir with
        | chain => exact absurd hroot (by simp [DirPlace.isRoot])
        | root =>
          have hpos := RootOk.pos hplace
          have hlt : s.vol.rootSectorCount < 65536 := Nat.mod_lt _ (by decide)
          simp only [DirPlace.count] at hge hfits
          simp only [DirPlace.size, u32] at hm
          omega
    | succ n ih =>
      intro i hi
      have hlt : i < es.length := by omega
      have hshow := h.shows.entry i _ (List.getElem?_eq_getElem hlt)
      rw [List.drop_eq_getElem_cons hlt]
      refine .cons (h.toDirOpen.seek_more (by omega)) ?_ (h.shows.used _ (List.getElem_mem hlt)) ?_
      · rw [hentry i (by omega)]
        exact hshow
      · rw [seek_step hv (by omega)]
        exact ih (i + 1) (by omega)
  have hstart := hrow es.length 0 (Nat.zero_add _)
  rwa [seek_zero, List.drop_zero] at hstart

theorem Rows.vacant (h : DirOpen s .cwd dir) (hr : Rows s.vol s.disk (s.handle .cwd).start es)
    (hsmall : es.length < 2 ^ 26) (hp : newPlace name es < dir.count s.vol) :
    dir.entry s.vol s.disk (newPlace name es) 0 = 0xE5 ∨ dir.entry s.vol s.disk (newPlace name es) 0 = 0 := by
  have hv := h.layout.toShape
  rcases Nat.lt_or_eq_of_le (newPlace_le name es) with hlt | hlast
  · have hget := List.getElem?_eq_getElem hlt
    have hdel := newPlace_deleted name (Nat.le_refl _) (by omega) hget
    obtain ⟨hrow, -⟩ := hr.entry hv hsmall hget
    rw [seek_slot hv h.place h.handle (.inr hp), (h.handle.toSlot _).entry hv h.place hp] at hrow
    rw [hrow]
    exact .inl (of_decide_eq_true hdel)
  · rw [hlast] at hp ⊢
    have hend := (hr.ends h hsmall (.inr hp)).slot
    rw [List.take_of_length_le (Nat.le_of_lt hp)] at hend
    exact .inr (hend hp)

-- ---------------------------------------------------------------------------
-- Entries that begin in a slot of the directory
-- ---------------------------------------------------------------------------

theorem fatDirSeekEmpty_own (h : DirOpen s .cwd dir) (hr : Rows s.vol s.disk (s.handle .cwd).start es)
    (hsmall : es.length < 2 ^ 26) (hin : dir.isRoot = true ∨ newPlace name es < dir.count s.vol) :
    ∃ t, fatDirSeekEmpty .cwd (name.length / 13 + 2) s = .ok ⟨⟩ t ∧
      Walked (fun d => d = s.disk) dir .cwd s t ∧ Reached t.vol dir (newPlace name es) (t.handle .cwd) := by
  obtain ⟨t, hrun, hsc, hself⟩ := fatDirSeekEmpty_rows (name.length / 13 + 2) h.scanReady hr hsmall
  have hself : t.handle .cwd = (s.handle .cwd).seek s.vol s.disk (newPlace name es) := hself
  refine ⟨t, hrun, hsc.walked h, ?_⟩
  rw [hself, hsc.vol, seek_slot h.layout.toShape h.place h.handle hin]
  exact (h.handle.toSlot _).reached

theorem Rows.standing (h : DirOpen s .cwd dir) (hr : Rows s.vol s.disk (s.handle .cwd).start es)
    (hin : dir.isRoot = true ∨ newPlace name es < dir.count s.vol) :
    Standing s.vol dir (newPlace name es) ∧ newPlace name es ≤ (es.take (dir.count s.vol)).length := by
  have hp := newPlace_le name es
  rw [List.length_take]
  rcases hin with hroot | hlt
  · have hle := hr.root_le h hroot
    exact ⟨(Nat.lt_or_eq_of_le (Nat.le_trans hp hle)).imp id fun h => ⟨hroot, h⟩, by omega⟩
  · exact ⟨.inl hlt, by omega⟩

theorem enterFile_own (dst : HandleRef) (hc : CName name mem) (hdot : name ≠ [46])
    (hshort : ∀ n, ShortName (buildShortName name n)) (hk : name.length / 13 + 2 ≤ 16) (h : DirOpen s .cwd dir)
    (hn : NewName name s es sname) (hsmall : es.length + 16 < 2 ^ 26)
    (hin : dir.isRoot = true ∨ newPlace name es < dir.count s.vol)
    (hroom : dir.isRoot = true ∨ DirRoom s dir (newPlace name es + (name.length / 13 + 2))) :
    ∃ ret t, enterFile name mem attrArchive dst sname s = .ok ret t ∧
      FileEnd name mem sname dst dir (newPlace name es) s ret t := by
  obtain ⟨hr, hall, hl⟩ := hn.missing.rows rfl 0
  obtain ⟨n, rfl⟩ := (freshName_absent hn.fresh).2
  have hp := newPlace_le name es
  obtain ⟨t, hseek, hw, hat⟩ := fatDirSeekEmpty_own h hr (by omega) hin
  obtain ⟨hstand, hle⟩ := hr.standing h hin
  exact enterFile_from dst hc hdot (hshort n) hk (hr.shown h (by omega))
    (fun e he => hall e (List.mem_of_mem_take he)) hle
    hstand (by omega) hroom (lookup_take _ hl) hseek (hw.mono dst) hat

theorem enterDir_own (dst : HandleRef) (hc : CName name mem) (hdot : name ≠ [46])
    (hshort : ∀ n, ShortName (buildShortName name n)) (hk : name.length / 13 + 2 ≤ 16) (h : DirOpen s .cwd dir)
    (hn : NewName name s es sname) (hsmall : es.length + 16 < 2 ^ 26)
    (hin : dir.isRoot = true ∨ newPlace name es < dir.count s.vol) (hoff : dir.OffTable s.vol)
    (hfits : DirFits s dir (newPlace name es) (name.length / 13 + 2))
    (hsafe : TableSafe s dir (newPlace name es) (name.length / 13 + 2)) :
    ∃ ret t, enterFile name mem attrDirectory dst sname s = .ok ret t ∧
      DirEnd name mem sname dst dir (newPlace name es) s ret t := by
  obtain ⟨hr, hall, hl⟩ := hn.missing.rows rfl 0
  obtain ⟨n, rfl⟩ := (freshName_absent hn.fresh).2
  have hp := newPlace_le name es
  obtain ⟨t, hseek, hw, hat⟩ := fatDirSeekEmpty_own h hr (by omega) hin
  obtain ⟨hstand, hle⟩ := hr.standing h hin
  exact enterDir_from dst hc hdot (hshort n) hk (hr.shown h (by omega))
    (fun e he => hall e (List.mem_of_mem_take he)) hle
    hstand (by omega) hoff hfits hsafe (lookup_take _ hl) hseek (hw.mono dst) hat

-- ---------------------------------------------------------------------------
-- Entries that go wherever the links lead
-- ---------------------------------------------------------------------------

theorem DirOpen.chainHandle (h : DirOpen s .cwd dir) (hr : dir.isRoot = false) :
    ChainHandle (s.handle .cwd).start := by
  refine ⟨h.handle.fat, h.handle.root.trans hr, h.handle.size.trans ?_, h.handle.dirent, rfl⟩
  cases dir with
  | root => exact absurd hr (by simp [DirPlace.isRoot])
  | chain => rfl

/-- The long entries of a new name, stored from the place `_fat_dir_seek_empty` finds. -/
theorem newLongs_laid (mem : Nat → UInt8) (sname : List UInt8) (hs : ScanReady s) (hh : s.vol.HintOk)
    (hr : Rows s.vol s.disk (s.handle .cwd).start es) (hsmall : es.length < 2 ^ 26)
    (hc : ChainHandle (s.handle .cwd).start) :
    ∃ t, fatDirSeekEmpty .cwd (name.length / 13 + 2) s = .ok ⟨⟩ t ∧
      ((s.trail name es).begin = none ∧
          (∃ u, writeLongEntries mem sname (name.length / 13) true t = .ok false u ∧ u.disk = s.disk) ∨
        ∃ x u, (s.trail name es).begin = some x ∧
          writeLongEntries mem sname (name.length / 13) true t = .ok true u ∧
          u.On (x.lay (newLongs mem sname (name.length / 13) true))) := by
  obtain ⟨t, hseek, hsc, hself⟩ := fatDirSeekEmpty_rows (name.length / 13 + 2) hs hr hsmall
  have hself : t.handle .cwd = s.newHandle name es := hself
  refine ⟨t, hseek, ?_⟩
  rcases begin_on (x := s.trail name es) hsc.mounted (hsc.quiet hs.quiet) (hsc.vol ▸ hs.layout) (hsc.vol ▸ hh)
    (by rw [hself]; exact hc.seek _) hsc.coherent (by rw [FatState.trail, hself, hsc.vol, hsc.disk]) with
    ⟨hnone, hfull⟩ | ⟨x, w, hbegin, hw, hsame⟩
  · obtain ⟨u, hrun, hdisk⟩ := hfull _ (longDirent_length mem sname (name.length / 13) true)
    refine .inl ⟨hnone, u, ?_, hdisk.trans hsc.disk⟩
    unfold writeLongEntries
    rw [bind_ok hrun]
    rfl
  · obtain ⟨u, hrun, hu⟩ := writeLongEntries_on mem sname (name.length / 13) true hw
    exact .inr ⟨x, u, hbegin, (writeLongEntries_begun mem sname _ true hsame).trans hrun, hu⟩

theorem enterFile_laid (mem : Nat → UInt8) (sname : List UInt8) (dst : HandleRef) (hs : ScanReady s)
    (hh : s.vol.HintOk) (hr : Rows s.vol s.disk (s.handle .cwd).start es) (hsmall : es.length < 2 ^ 26)
    (hc : ChainHandle (s.handle .cwd).start) :
    (s.trail name es).begin = none ∧
      (∃ t, enterFile name mem attrArchive dst sname s = .ok (-1) t ∧ t.disk = s.disk) ∨
    ∃ x t, (s.trail name es).begin = some x ∧
      enterFile name mem attrArchive dst sname s = fatOpen name 0 dst t ∧
      t.On (x.lay (newEntries name mem sname attrArchive 0)) := by
  obtain ⟨t, hseek, ⟨hnone, u, hlongs, hdisk⟩ | ⟨x, u, hbegin, hlongs, hu⟩⟩ :=
    newLongs_laid mem sname hs hh hr hsmall hc
  · refine .inl ⟨hnone, u, ?_, hdisk⟩
    rw [enterFile, bind_ok hseek, bind_ok hlongs]
    rfl
  · obtain ⟨z, hshort, hz⟩ := fatWrite_on hu (shortDirent_length sname attrArchive 0)
    refine .inr ⟨x, z, hbegin, ?_, ?_⟩
    · have halloc : allocDirCluster attrArchive u = .ok (some 0) u := rfl
      rw [enterFile, bind_ok hseek, bind_ok hlongs, if_neg (by decide), bind_ok halloc]
      exact bind_ok hshort
    · rw [newEntries, lay_append]
      exact hz

/-- The long entries of a directory are stored; no cluster is left for it, or one is
marked and the rest stored. -/
theorem enterDir_laid (mem : Nat → UInt8) (sname : List UInt8) (dst : HandleRef) (hs : ScanReady s)
    (hh : s.vol.HintOk) (hr : Rows s.vol s.disk (s.handle .cwd).start es) (hsmall : es.length < 2 ^ 26)
    (hc : ChainHandle (s.handle .cwd).start) :
    (s.trail name es).begin = none ∧
      (∃ t, enterFile name mem attrDirectory dst sname s = .ok (-1) t ∧ t.disk = s.disk) ∨
    ∃ x y, (s.trail name es).begin = some x ∧ y = x.lay (newLongs mem sname (name.length / 13) true) ∧
      (y.dirCluster = none ∧
          (∃ t, enterFile name mem attrDirectory dst sname s = .ok (-1) t ∧ t.disk = y.disk) ∨
        ∃ c z t, y.dirCluster = some (c, z) ∧
          enterFile name mem attrDirectory dst sname s = fatOpen name 0 dst t ∧
          t.On (z.store (structOf (shortDirent sname attrDirectory c)))) := by
  obtain ⟨t, hseek, ⟨hnone, u, hlongs, hdisk⟩ | ⟨x, u, hbegin, hlongs, hu⟩⟩ :=
    newLongs_laid mem sname hs hh hr hsmall hc
  · refine .inl ⟨hnone, u, ?_, hdisk⟩
    rw [enterFile, bind_ok hseek, bind_ok hlongs]
    rfl
  · refine .inr ⟨x, _, hbegin, rfl, ?_⟩
    rcases allocDirCluster_on hu with ⟨hfull, w, halloc, hdisk⟩ | ⟨c, z, w, htaken, halloc, hw⟩
    · refine .inl ⟨hfull, w, ?_, hdisk⟩
      rw [enterFile, bind_ok hseek, bind_ok hlongs, if_neg (by decide), bind_ok halloc]
      rfl
    · obtain ⟨q, hshort, hq⟩ := fatWrite_on hw (shortDirent_length sname attrDirectory c)
      refine .inr ⟨c, z, q, htaken, ?_, hq⟩
      rw [enterFile, bind_ok hseek, bind_ok hlongs, if_neg (by decide), bind_ok halloc]
      exact bind_ok hshort

theorem enterFile_elsewhere (mem : Nat → UInt8) (h : DirOpen s .cwd dir) (hr : dir.isRoot = false)
    (hn : NewName name s es sname) (hsmall : es.length < 2 ^ 26) (hsc : Scanned dst s t) :
    (s.trail name es).begin = none ∧
      (∃ u, enterFile name mem attrArchive dst sname t = .ok (-1) u ∧ u.disk = s.disk) ∨
    ∃ x u, (s.trail name es).begin = some x ∧
      enterFile name mem attrArchive dst sname t = fatOpen name 0 dst u ∧
      u.On (x.lay (newEntries name mem sname attrArchive 0)) := by
  have ht := h.scanned hsc
  rw [← hsc.trail, ← hsc.disk]
  exact enterFile_laid mem sname dst ht.scanReady ht.hint (hn.scanned hsc).rows hsmall (ht.chainHandle hr)

theorem enterDir_elsewhere (mem : Nat → UInt8) (h : DirOpen s .cwd dir) (hr : dir.isRoot = false)
    (hn : NewName name s es sname) (hsmall : es.length < 2 ^ 26) (hsc : Scanned dst s t) :
    (s.trail name es).begin = none ∧
      (∃ u, enterFile name mem attrDirectory dst sname t = .ok (-1) u ∧ u.disk = s.disk) ∨
    ∃ x y, (s.trail name es).begin = some x ∧ y = x.lay (newLongs mem sname (name.length / 13) true) ∧
      (y.dirCluster = none ∧
          (∃ u, enterFile name mem attrDirectory dst sname t = .ok (-1) u ∧ u.disk = y.disk) ∨
        ∃ c z u, y.dirCluster = some (c, z) ∧
          enterFile name mem attrDirectory dst sname t = fatOpen name 0 dst u ∧
          u.On (z.store (structOf (shortDirent sname attrDirectory c)))) := by
  have ht := h.scanned hsc
  rw [← hsc.trail, ← hsc.disk]
  exact enterDir_laid mem sname dst ht.scanReady ht.hint (hn.scanned hsc).rows hsmall (ht.chainHandle hr)

-- ---------------------------------------------------------------------------
-- The last look-up
-- ---------------------------------------------------------------------------

theorem FatState.On.opened (hx : s.On x) (hdot : name ≠ [46]) (hrun : fatOpen name 0 dst s = .ok a t) :
    t.Mounted ∧ t.Quiet ∧ t.disk = x.disk ∧ (a = 0 ∨ x.Misses name) := by
  by_cases hst : x.stale = some x.firstSector
  · obtain ⟨w, hopen, hw, hq, hdisk⟩ := hx.misled hst dst hdot
    cases hopen.symm.trans hrun
    exact ⟨hw, hq, hdisk, .inr (.inl hst)⟩
  have hl := hx.looksAt hst
  by_cases hends : ∃ es b, Stops name x.vol x.disk x.handle.start {} es b
  · obtain ⟨es, b, hend⟩ := hends
    have hans := hl.stops hend dst hdot
    cases b with
    | missing =>
      obtain ⟨w, hopen, hsc⟩ := hans
      cases hopen.symm.trans hrun
      exact ⟨hsc.mounted, hsc.quiet hl.quiet, hsc.disk.trans hl.disk, .inr (.inr ⟨es, hend⟩)⟩
    | found =>
      obtain ⟨w, hd, hopen, hsc⟩ := hans
      cases hopen.symm.trans hrun
      exact ⟨hsc.toRan.withHandle.mounted, hsc.toRan.withHandle.quiet hl.quiet,
        hsc.disk.trans hl.disk, .inl rfl⟩
    | outside =>
      obtain ⟨w, hopen⟩ := hans
      cases hopen.symm.trans hrun
  · obtain ⟨w, hopen⟩ := hl.endless hends dst hdot
    cases hopen.symm.trans hrun

theorem FatState.On.overstep_iff (hx : s.On x) (hdot : name ≠ [46]) (dst : HandleRef) :
    (∃ t, fatOpen name 0 dst s = .error .outOfBounds t) ↔ x.Oversteps name := by
  by_cases hst : x.stale = some x.firstSector
  · obtain ⟨w, hopen, -⟩ := hx.misled hst dst hdot
    refine ⟨fun ⟨t, ht⟩ => ?_, fun ho => absurd hst ho.1⟩
    cases hopen.symm.trans ht
  have hl := hx.looksAt hst
  refine ⟨fun ⟨t, ht⟩ => ⟨hst, ?_⟩, fun ⟨_, es, hend⟩ => hl.stops hend dst hdot⟩
  by_cases hends : ∃ es b, Stops name x.vol x.disk x.handle.start {} es b
  · obtain ⟨es, b, hend⟩ := hends
    have hans := hl.stops hend dst hdot
    cases b with
    | missing =>
      obtain ⟨w, hopen, -⟩ := hans
      cases hopen.symm.trans ht
    | found =>
      obtain ⟨w, hd, hopen, -⟩ := hans
      cases hopen.symm.trans ht
    | outside => exact ⟨es, hend⟩
  · obtain ⟨w, hopen⟩ := hl.endless hends dst hdot
    cases hopen.symm.trans ht

end Stm32Logger
