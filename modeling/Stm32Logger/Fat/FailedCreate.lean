import Stm32Logger.Fat.Calm
import Stm32Logger.Fat.Entering
import Stm32Logger.Fat.Search

/-!
# What a failed create leaves behind

`_fat_dir_create_file` writes the long entries, a directory's cluster and the
short entry one after the other, and takes none of it back. A call that fails
leaves nothing behind where it fails before the first of them, or where they
go past the directory.
-/

namespace Stm32Logger

/-- The slots of the directory and the FATs are what they were. -/
structure SameSlots (v : FatVolHandle) (dir : DirPlace) (d d' : Disk) : Prop where
  entry : ∀ j < dir.count v, dir.entry v d' j = dir.entry v d j
  table : ∀ n, v.InFat n → d' n = d n

def FileClean (st : SdStore) (dir : DirPlace) : Prop :=
  ∀ ret t, fatCreate (fileNameOf st.fileId) st.namingFile.filename oWronly .file st.fs = .ok ret t → ret ≠ 0 →
    SameSlots st.fs.vol dir st.fs.disk t.disk

def DirClean (st : SdStore) (dir : DirPlace) : Prop :=
  ∀ ret t, fatMkdir (dirNameOf st.dirId) st.namingDir.dirname st.fs = .ok ret t → ret ≠ 0 →
    SameSlots st.fs.vol dir st.fs.disk t.disk

/-- The root directory is full already or has the `k` slots; the entries begin
in a slot of a chain, which has the slots or can grow. -/
def FileFits (s : FatState) (dir : DirPlace) (p k : Nat) : Prop :=
  if dir.isRoot then p = dir.count s.vol ∨ p + k ≤ dir.count s.vol
  else p < dir.count s.vol ∧ DirRoom s dir (p + k)

/-- The search would find a cluster after the one it finds next. -/
def FatVolHandle.Spare (v : FatVolHandle) (d : Disk) : Prop :=
  ∃ j, 2 ≤ j ∧ j < v.clusterCount ∧ j ≠ freeCluster v d ∧ fatEntry v d 0 j = 0

/-- The root directory is full already. Otherwise the slots are there and a
cluster is free, or the chain can grow and two are. -/
def NewDirFits (s : FatState) (dir : DirPlace) (p k : Nat) : Prop :=
  dir.isRoot = true ∧ p = dir.count s.vol ∨ p + k ≤ dir.count s.vol ∧ freeCluster s.vol s.disk ≠ 0 ∨
    dir.isRoot = false ∧ dir.Ok s.vol s.disk ∧ s.vol.Spare s.disk ∧ 2 ≤ s.vol.numFats

/-- Entries that follow the links of a chain: the file is found by them, or nothing shows of it. -/
structure FileElsewhere (name : List UInt8) (mem : Nat → UInt8) (sname : List UInt8) (s : FatState)
    (dir : DirPlace) (es : List Sector) : Prop where
  chain : dir.isRoot = false
  same : ∀ x y, (s.trail name es).begin = some x → y = x.lay (newEntries name mem sname attrArchive 0) →
    y.Misses name → SameSlots s.vol dir s.disk y.disk

/-- Where `CreateFile` fails before it writes, or past the directory, or not at all. -/
def FileFine (st : SdStore) (dir : DirPlace) : Prop :=
  ∀ es sname, NewName (fileNameOf st.fileId) st.fs es sname →
    FileFits st.fs dir (newPlace (fileNameOf st.fileId) es) ((fileNameOf st.fileId).length / 13 + 2) ∨
      FileElsewhere (fileNameOf st.fileId) st.namingFile.filename sname st.fs dir es

/-- Entries that follow the links of a chain: the directory is found by them, or nothing shows of it. -/
structure DirElsewhere (name : List UInt8) (mem : Nat → UInt8) (sname : List UInt8) (s : FatState)
    (dir : DirPlace) (es : List Sector) : Prop where
  chain : dir.isRoot = false
  full : ∀ x y, (s.trail name es).begin = some x → y = x.lay (newLongs mem sname (name.length / 13) true) →
    y.dirCluster = none → SameSlots s.vol dir s.disk y.disk
  same : ∀ x y c z w, (s.trail name es).begin = some x →
    y = x.lay (newLongs mem sname (name.length / 13) true) →
    y.dirCluster = some (c, z) → w = z.store (structOf (shortDirent sname attrDirectory c)) →
    w.Misses name → SameSlots s.vol dir s.disk w.disk

/-- Where `CreateDir` fails before it writes, or past the directory, or not at all. -/
def DirFine (st : SdStore) (dir : DirPlace) : Prop :=
  ∀ es sname, NewName (dirNameOf st.dirId) st.fs es sname →
    (dir.isRoot = true ∨ newPlace (dirNameOf st.dirId) es < dir.count st.fs.vol) ∧
        NewDirFits st.fs dir (newPlace (dirNameOf st.dirId) es) 2 ∨
      DirElsewhere (dirNameOf st.dirId) st.namingDir.dirname sname st.fs dir es

variable {s t u : FatState} {st : SdStore} {v : FatVolHandle} {d d' : Disk} {dir dir' : DirPlace}
  {h : FatFileHandle}
  {es fs : List Sector} {name sname : List UInt8} {mem : Nat → UInt8} {dst : HandleRef}

theorem SameSlots.of_eq (v : FatVolHandle) (dir : DirPlace) (h : d' = d) : SameSlots v dir d d' := by
  subst h
  exact ⟨fun _ _ => rfl, fun _ _ => rfl⟩

theorem Entered.sameSlots (hw : Walked P dir dst s u) (he : Entered .cwd dir dir' p [] u t)
    (hr : dir.isRoot = true) (hoff : dir.OffTable s.vol) : SameSlots s.vol dir s.disk t.disk := by
  have hsame := he.same_root hr
  have hoff' : dir.OffTable u.vol := hw.vol ▸ hoff
  refine ⟨fun j hj => ?_, fun n hn => ?_⟩
  · rw [← hw.vol] at hj
    have hentry := he.entry j (hsame ▸ hj)
    rw [hsame, DirPlace.entryWith, if_neg (by simp only [List.length_nil]; omega), if_pos hj, hw.vol,
      hw.disk] at hentry
    exact hentry
  · rw [he.fat hsame hoff' n (hw.vol ▸ hn), hw.disk]

/-- An entry written shows: it went to a deleted slot or to the end slot. -/
theorem Placed.touched (hw : Walked P dir dst s u) (he : Placed .cwd dir dir' p (f :: rest) u t)
    (hf : f 0 ≠ 0 ∧ f 0 ≠ 0xE5) (hp : p < dir.count s.vol)
    (hvacant : dir.entry s.vol s.disk p 0 = 0xE5 ∨ dir.entry s.vol s.disk p 0 = 0) :
    ¬ SameSlots s.vol dir s.disk t.disk := fun hu => by
  have hold := hu.entry _ hp
  rw [← hw.vol] at hp
  have hlt : p < dir'.count u.vol := Nat.lt_of_lt_of_le hp he.count
  have hnew := he.entry _ hlt
  rw [DirPlace.entryWith, List.length_cons, if_pos (by omega), Nat.sub_self, List.getD_cons_zero,
    DirPlace.entry,
    he.slot _ hp, hw.vol] at hnew
  have hentry : dir.entry s.vol s.disk p = f := hold.symm.trans hnew
  rw [hentry] at hvacant
  exact hvacant.elim hf.2 hf.1

theorem newLongs_first (mem : Nat → UInt8) (sname : List UInt8) (hi : i ≤ 18) (last : Bool) :
    ∃ f rest, newLongs mem sname i last = f :: rest ∧ f 0 ≠ 0 ∧ f 0 ≠ 0xE5 := by
  have hne : structOf (longDirent mem sname i last) 0 ≠ 0xE5 := fun h => by
    have hord := longDirent_ord mem sname (show i < 63 by omega) last
    rw [h, lastLongEntry] at hord
    change 0xE5 = _ at hord
    split at hord <;> omega
  cases i with
  | zero => exact ⟨_, [], rfl, longDirent_used (by decide) last, hne⟩
  | succ i => exact ⟨_, newLongs mem sname i false, rfl, longDirent_used (by omega) last, hne⟩


-- ---------------------------------------------------------------------------
-- fat_create
-- ---------------------------------------------------------------------------

theorem FileFits.own (hf : FileFits s dir p k) : dir.isRoot = true ∨ p < dir.count s.vol := by
  rw [FileFits] at hf
  split at hf
  next hr => exact .inl hr
  next => exact .inr hf.1

theorem FileFits.room (hf : FileFits s dir p k) : dir.isRoot = true ∨ DirRoom s dir (p + k) := by
  rw [FileFits] at hf
  split at hf
  next hr => exact .inl hr
  next => exact .inr hf.2

theorem FileEnd.sameSlots (hoff : dir.OffTable s.vol) (hfits : FileFits s dir p (name.length / 13 + 2))
    (hfe : FileEnd name mem sname dst dir p s ret t) (hret : ret ≠ 0) : SameSlots s.vol dir s.disk t.disk := by
  cases hfe with
  | full q hw he hq hr hend =>
    rw [FileFits, if_pos hr] at hfits
    have hq0 : q = 0 := by omega
    subst hq0
    exact he.sameSlots hw hr hoff
  | made => exact absurd rfl hret

theorem FileEnd.touched (hr : dir.isRoot = true) (hk : name.length / 13 ≤ 18)
    (hvacant : p < dir.count s.vol → dir.entry s.vol s.disk p 0 = 0xE5 ∨ dir.entry s.vol s.disk p 0 = 0)
    (hno : ¬ FileFits s dir p (name.length / 13 + 2)) (hfe : FileEnd name mem sname dst dir p s ret t) :
    ret ≠ 0 ∧ ¬ SameSlots s.vol dir s.disk t.disk := by
  rw [FileFits, if_pos hr] at hno
  obtain ⟨f, rest, hlongs, hf⟩ := newLongs_first mem sname hk true
  cases hfe with
  | @full s' u dir' q hw he hq _ hfull =>
    obtain ⟨q, rfl⟩ : ∃ m, q = m + 1 := ⟨q - 1, by omega⟩
    rw [newEntries, hlongs, List.cons_append, List.take_succ_cons] at he
    have hlt : p < dir.count s.vol := by omega
    exact ⟨by decide, he.toPlaced.touched hw hf hlt (hvacant hlt)⟩
  | @made s' u m dir' hw he hm =>
    have hfits := he.fits
    rw [he.same_root hr, newEntries_length, hw.vol] at hfits
    omega

theorem fatCreate_inv (h : fatCreate name mem flags dst s = .ok ret t) :
    ∃ u, fatDirCreateFile name mem attrArchive dst s = .ok ret u ∧ t.disk = u.disk := by
  rw [fatCreate] at h
  obtain ⟨a, u, hrun, hrest⟩ := bind_eq_ok.mp h
  rw [modifyHandle_bind] at hrest
  cases hrest
  exact ⟨u, hrun, rfl⟩

theorem FileFine.clean (h : DirOpen st.fs .cwd dir) (hsmall : st.fs.ShortRow) (hoff : dir.OffTable st.fs.vol)
    (hf : FileFine st dir) : FileClean st dir := by
  intro ret t hrun hret
  obtain ⟨u, hu, hdisk⟩ := fatCreate_inv hrun
  have hdot := fileNameOf_ne_dot st.fileId
  have hlen := fileNameOf_length st.fileId
  rw [hdisk]
  rcases withShortName_cases (enterFile (fileNameOf st.fileId) st.namingFile.filename attrArchive .file)
    .file (by decide) hdot h.scanReady with
    ⟨es, sname, w, hn, hsc, hw⟩ | ⟨es, b, w, -, -, hsc, hw⟩ | ⟨es, w, -, hw⟩ | ⟨w, hw⟩
  · have henter := hw.symm.trans hu
    have hes := hsmall es hn.rows
    rcases hf es sname hn with hfits | helse
    · obtain ⟨ret', t', hrun', hfe⟩ := enterFile_own .file (cName_file st.fileId st.filename) hdot
        (shortName_file st.fileId) (by omega) (h.scanned hsc) (hn.scanned hsc) hes
        (by rw [hsc.vol]; exact hfits.own)
        (by rw [DirRoom, hsc.vol, hsc.disk]; exact hfits.room)
      cases hrun'.symm.trans henter
      exact (hfe.walked (hsc.walked h)).sameSlots hoff hfits hret
    · rcases enterFile_elsewhere st.namingFile.filename h helse.chain hn (by omega) hsc with
        ⟨-, t', hrun', hsame⟩ | ⟨x, t', hbegin, hrun', hx⟩
      · cases hrun'.symm.trans henter
        exact .of_eq _ _ hsame
      · obtain ⟨-, -, hend, hmiss⟩ := hx.opened hdot (hrun'.symm.trans henter)
        rw [hend]
        exact helse.same x _ hbegin rfl (hmiss.resolve_left hret)
  · cases hw.symm.trans hu
    exact .of_eq _ _ hsc.disk
  · cases hw.symm.trans hu
  · cases hw.symm.trans hu

theorem FatVolHandle.Spare.free {v : FatVolHandle} (hh : v.HintOk) (h : v.Spare d) : freeCluster v d ≠ 0 := by
  obtain ⟨j, hj, hlt, -, hfree⟩ := h
  exact fun h0 => freeCluster_none hh h0 hj (by omega) hfree

theorem NewDirFits.found (hv : s.vol.Shape) (hh : s.vol.HintOk) (hoff : dir.OffTable s.vol)
    (hf : NewDirFits s dir p (fs.length + 1)) (hpos : 0 < fs.length) (hle : fs.length ≤ 15)
    (hp : p ≤ dir.count s.vol) (he : Entered .cwd dir dir' p fs s t) :
    freeCluster t.vol t.disk ≠ 0 := by
  have hfits := he.fits
  rcases hf with ⟨hr, hfull⟩ | ⟨hroom, hfree⟩ | ⟨hr, hok, hspare, -⟩
  · rw [he.same_root hr] at hfits
    omega
  · have hsame : dir' = dir := he.grown.resolve_right fun hg => by omega
    rw [he.free hv hh hsame hoff]
    exact hfree
  · obtain ⟨j, hj, hlt, hne, hfree⟩ := hspare
    have hcl : s.vol.IsCluster j := ⟨hj, by omega⟩
    have hleft := he.left hoff (by omega) j hcl hne hfree
    have hhint := he.vol.hintOk hh
    obtain ⟨i, hi, -⟩ := he.vol
    rw [hi] at hhint ⊢
    exact fun h0 => freeCluster_none hhint h0 hj (Nat.lt_of_lt_of_le hlt (Nat.le_max_right ..)) hleft

theorem DirEnd.zero (h : DirOpen s .cwd dir) (hoff : dir.OffTable s.vol) (hk : name.length / 13 ≤ 14)
    (hp : p ≤ dir.count s.vol) (hslots : dir.isRoot = true → p < dir.count s.vol)
    (hfits : NewDirFits s dir p (name.length / 13 + 2)) (hde : DirEnd name mem sname dst dir p s ret t) :
    ret = 0 := by
  have hlen := newLongs_length mem sname (name.length / 13) true
  cases hde with
  | full q hw he hq hr hend =>
    have := hslots hr
    rcases hfits with ⟨-, hfull⟩ | ⟨hroom, -⟩ | ⟨hr', -⟩
    · omega
    · omega
    · exact absurd (hr.symm.trans hr') (by decide)
  | fullShort hw he hr hend =>
    rcases hfits with ⟨-, hfull⟩ | ⟨hroom, -⟩ | ⟨hr', -⟩
    · omega
    · omega
    · exact absurd (hr.symm.trans hr') (by decide)
  | @noCluster s' u _ dir' hw he hf hk =>
    refine absurd hf
      (NewDirFits.found (hw.vol ▸ h.layout.toShape) (hw.vol ▸ h.hint) (hw.vol ▸ hoff) ?_ (by omega)
      (by omega) (hw.vol ▸ hp) he)
    rw [NewDirFits, hw.vol, hw.disk, hlen]
    exact hfits
  | made => rfl

theorem DirEnd.sameSlots (h : DirOpen s .cwd dir) (hoff : dir.OffTable s.vol) (hk : name.length / 13 ≤ 14)
    (hp : p ≤ dir.count s.vol) (hfits : NewDirFits s dir p (name.length / 13 + 2))
    (hde : DirEnd name mem sname dst dir p s ret t) (hret : ret ≠ 0) : SameSlots s.vol dir s.disk t.disk := by
  by_cases hfull : dir.isRoot = true → p < dir.count s.vol
  · exact absurd (hde.zero h hoff hk hp hfull hfits) hret
  obtain ⟨hr, hfull⟩ := Classical.not_imp.mp hfull
  cases hde with
  | full q hw he hq _ hend =>
    have hq0 : q = 0 := by omega
    subst hq0
    exact he.sameSlots hw hr hoff
  | fullShort hw he _ hend => omega
  | noCluster hw he hf hk =>
    have hfits := he.fits
    rw [he.same_root hr, newLongs_length, hw.vol] at hfits
    omega
  | made => exact absurd rfl hret

theorem DirEnd.touched (hr : dir.isRoot = true) (hk : name.length / 13 ≤ 14)
    (hvacant : p < dir.count s.vol → dir.entry s.vol s.disk p 0 = 0xE5 ∨ dir.entry s.vol s.disk p 0 = 0)
    (hno : ¬ NewDirFits s dir p (name.length / 13 + 2)) (hde : DirEnd name mem sname dst dir p s ret t) :
    ret ≠ 0 ∧ ¬ SameSlots s.vol dir s.disk t.disk := by
  obtain ⟨f, rest, hlongs, hf⟩ := newLongs_first mem sname (show name.length / 13 ≤ 18 by omega) true
  -- a root directory that is full already has room enough
  have hlt : p ≤ dir.count s.vol → p < dir.count s.vol := fun hle =>
    Nat.lt_of_le_of_ne hle fun hfull => hno (.inl ⟨hr, hfull⟩)
  cases hde with
  | @full s' u dir' q hw he hq _ hfull =>
    obtain ⟨q, rfl⟩ : ∃ m, q = m + 1 := ⟨q - 1, by omega⟩
    rw [hlongs, List.take_succ_cons] at he
    have hlt := hlt (by omega)
    exact ⟨by decide, he.toPlaced.touched hw hf hlt (hvacant hlt)⟩
  | fullShort hw he _ hfull =>
    rw [hlongs] at he
    have hlt := hlt (by omega)
    exact ⟨by decide, he.touched hw hf hlt (hvacant hlt)⟩
  | @noCluster s' u t dir' hw he hfree hkept =>
    have hlen := newLongs_length mem sname (name.length / 13) true
    have hfits := he.fits
    rw [he.same_root hr, hw.vol] at hfits
    have hlt : p < dir.count s.vol := by omega
    rw [hlongs] at he
    rw [hkept.disk]
    exact ⟨by decide, he.toPlaced.touched hw hf hlt (hvacant hlt)⟩
  | @made s' u m dir' c hw he hc hfree hapart hloose hmark hok hm =>
    have hfits := he.fits
    rw [he.same_root hr, newEntries_length, hw.vol] at hfits
    exact absurd (.inr (.inl ⟨hfits, hfree⟩)) hno

theorem NewDirFits.dirFits (hh : s.vol.HintOk) (hf : NewDirFits s dir p k) :
    DirFits s dir p k ∧ TableSafe s dir p k := by
  rcases hf with ⟨hr, -⟩ | ⟨hroom, -⟩ | ⟨hr, hok, hspare, hfats⟩
  · exact ⟨.inl hr, fun hr' => absurd (hr.symm.trans hr') (by decide)⟩
  · exact ⟨.inr (.inl (.inl hroom)), fun _ hlt => by omega⟩
  · exact ⟨.inr (.inl (.inr ⟨hok, hspare.free hh⟩)), fun _ _ _ _ => hfats⟩

theorem fatMkdir_inv (h : fatMkdir name mem s = .ok ret t) (hret : ret ≠ 0) :
    fatDirCreateFile name mem attrDirectory .dir s = .ok ret t ∨
      ∃ u, fatDirCreateFile name mem attrDirectory .dir s = .ok 0 u ∧ ¬ u.Faultless := by
  rw [fatMkdir_eq] at h
  obtain ⟨a, u, hcreate, hrest⟩ := bind_eq_ok.mp h
  by_cases ha : a = 0
  · subst ha
    exact .inr ⟨u, hcreate, fun hu => hret (fillDir_calm.ok hu hrest).2⟩
  · rw [if_pos ha] at hrest
    cases hrest
    exact .inl hcreate

theorem DirFine.clean (h : DirOpen st.fs .cwd dir) (hsmall : st.fs.ShortRow) (hoff : dir.OffTable st.fs.vol)
    (hf : DirFine st dir) : DirClean st dir := by
  intro ret t hrun hret
  have hdot := dirNameOf_ne_dot st.dirId
  have hlen := dirNameOf_length st.dirId
  have hk : (dirNameOf st.dirId).length / 13 + 2 = 2 := by omega
  -- the call fails before the cluster is filled, and not after that
  obtain ⟨ret', u, hu, hend⟩ :
      ∃ ret' u, fatDirCreateFile (dirNameOf st.dirId) st.namingDir.dirname attrDirectory .dir
      st.fs = .ok ret' u ∧ (u.Faultless ∨ ret' ≠ 0 → ret' ≠ 0 ∧ u = t) := by
    rcases fatMkdir_inv hrun hret with hfail | ⟨u, hmade, hfault⟩
    · exact ⟨ret, t, hfail, fun _ => ⟨hret, rfl⟩⟩
    · exact ⟨0, u, hmade, fun h => (h.elim hfault fun h => h rfl).elim⟩
  rcases withShortName_cases (enterFile (dirNameOf st.dirId) st.namingDir.dirname attrDirectory .dir)
    .dir (by decide) hdot h.scanReady with
    ⟨es, sname, w, hn, hsc, hw⟩ | ⟨es, b, w, -, -, hsc, hw⟩ | ⟨es, w, -, hw⟩ | ⟨w, hw⟩
  · have henter := hw.symm.trans hu
    have hes := hsmall es hn.rows
    rcases hf es sname hn with ⟨hin, hfits⟩ | helse
    · obtain ⟨hroom, hsafe⟩ := hfits.dirFits h.hint
      obtain ⟨ret', t', hrun', hde⟩ := enterDir_own .dir (cName_dir st.dirId st.dirname) hdot
        (shortName_dir st.dirId) (by omega) (h.scanned hsc) (hn.scanned hsc) hes (by rw [hsc.vol]; exact hin)
        (by rw [hsc.vol]; exact hoff) (by rw [DirFits, DirRoom, hsc.vol, hsc.disk, hk]; exact hroom)
        (by rw [TableSafe, hsc.vol, hsc.disk, hk]; exact hsafe)
      cases hrun'.symm.trans henter
      have hde := hde.walked (hsc.walked h)
      have hdone := hend (by
        by_cases h0 : ret' = 0
        · subst h0
          obtain ⟨hm, hq, -⟩ := hde.opened
          exact .inl (hm.faultless (hq h.quiet))
        · exact .inr h0)
      obtain ⟨hne, rfl⟩ := hdone
      have hp : newPlace (dirNameOf st.dirId) es ≤ dir.count st.fs.vol := hin.elim
        (fun hr => Nat.le_trans (newPlace_le _ es) (hn.rows.root_le h hr)) Nat.le_of_lt
      exact hde.sameSlots h hoff (by omega) hp (by rw [hk]; exact hfits) hne
    · rcases enterDir_elsewhere st.namingDir.dirname h helse.chain hn (by omega) hsc with
        ⟨-, t', hrun', hsame⟩ | ⟨x, y, hbegin, heq, ⟨hfull, t', hrun', hdisk⟩ | ⟨c, z, t', htaken, hrun', hz⟩⟩
      · cases hrun'.symm.trans henter
        obtain ⟨-, rfl⟩ := hend (.inr (by decide))
        exact .of_eq _ _ hsame
      · cases hrun'.symm.trans henter
        obtain ⟨-, rfl⟩ := hend (.inr (by decide))
        rw [hdisk]
        exact helse.full x y hbegin heq hfull
      · obtain ⟨hm, hq, hdisk, hmiss⟩ := hz.opened hdot (hrun'.symm.trans henter)
        obtain ⟨hne, rfl⟩ := hend (.inl (hm.faultless hq))
        rw [hdisk]
        exact helse.same x y c z _ hbegin heq htaken rfl (hmiss.resolve_left hne)
  · cases hw.symm.trans hu
    obtain ⟨-, rfl⟩ := hend (.inr (by decide))
    exact .of_eq _ _ hsc.disk
  · cases hw.symm.trans hu
  · cases hw.symm.trans hu

def outcome (m : FatM α) (f : FatState → β) (s : FatState) : Option (α × β) :=
  match m s with
  | .ok a t => some (a, f t)
  | .error _ _ => none

end Stm32Logger
