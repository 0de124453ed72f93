import Stm32Logger.Fat.LongRead
import Stm32Logger.Fat.NewEntries

/-!
# Looking a name up on the card

The loops of `fat_readdir`, `fat_open` and `_fat_dir_seek_empty` over a
directory on the card do what the list of its entries says, as far as that
list goes.
-/

namespace Stm32Logger

/-- The slots of a directory begin with `es`, and no entry of `es` marks the end. -/
structure DirPlace.Shows (v : FatVolHandle) (d : Disk) (dir : DirPlace) (es : List Sector) : Prop where
  entry : ∀ i e, es[i]? = some e → dir.entry v d i = e
  used : ∀ e ∈ es, e 0 ≠ 0
  fits : es.length ≤ dir.count v

/-- Behind `es` comes the end slot, or the end of the root directory. -/
structure DirPlace.Ends (v : FatVolHandle) (d : Disk) (dir : DirPlace) (es : List Sector) : Prop where
  stop : dir.isRoot = false → es.length < dir.count v
  slot : es.length < dir.count v → dir.entry v d es.length 0 = 0

/-- The slots of a directory hold `es` and then nothing; a cluster chain has an end slot. -/
structure DirPlace.Lists (v : FatVolHandle) (d : Disk) (dir : DirPlace) (es : List Sector) : Prop where
  entry : ∀ i e, es[i]? = some e → dir.entry v d i = e
  used : ∀ e ∈ es, e 0 ≠ 0
  fits : es.length ≤ dir.count v
  stop : dir.isRoot = false → es.length < dir.count v
  rest : ∀ i, es.length ≤ i → i < dir.count v → dir.entry v d i 0 = 0

/-- The handle `r` is one of the directory at `dir`, whose slots can be read. -/
structure DirOpen (s : FatState) (r : HandleRef) (dir : DirPlace) : Prop where
  mounted : s.Mounted
  quiet : s.Quiet
  layout : s.vol.Layout
  hint : s.vol.HintOk
  place : dir.Path s.vol s.disk
  handle : DirHandle s.vol dir (s.handle r)
  ready : ∀ i < dir.count s.vol, s.CacheOk (dir.slot s.vol i).sector

/-- The current directory is at `dir` and begins with `es`. -/
structure Shown (s : FatState) (dir : DirPlace) (es : List Sector) : Prop extends DirOpen s .cwd dir where
  shows : dir.Shows s.vol s.disk es
  small : es.length < 2 ^ 26

/-- The current directory is at `dir` and lists `es`. -/
structure Listed (s : FatState) (dir : DirPlace) (es : List Sector) : Prop where
  mounted : s.Mounted
  quiet : s.Quiet
  layout : s.vol.Layout
  hint : s.vol.HintOk
  place : dir.Ok s.vol s.disk
  handle : DirHandle s.vol dir (s.handle .cwd)
  lists : dir.Lists s.vol s.disk es
  long : ∀ e ∈ es, deleted e = false → longName e = true → LongOk e
  small : es.length < 2 ^ 26
  ready : ∀ i < dir.count s.vol, s.CacheOk (dir.slot s.vol i).sector

/-- A handle that came to slot `i` of the directory; behind the last cluster of a path it may be anywhere. -/
structure Reached (v : FatVolHandle) (dir : DirPlace) (i : Nat) (h : FatFileHandle) :
    Prop extends DirHandle v dir h where
  position : h.position = 32 * i
  cluster : dir.isRoot = true ∨ i < dir.count v → h.curCluster = dir.cur v i

/-- A call that walked the current directory, and made of the handle `dst` what it liked. -/
structure Walked (P : Disk → Prop) (dir : DirPlace) (dst : HandleRef)
    (s t : FatState) : Prop extends Ran P s t where
  disk : t.disk = s.disk
  vol : t.vol = s.vol
  cwd : DirHandle s.vol dir (t.handle .cwd)
  others : ∀ r, r ≠ .cwd → r ≠ dst → t.handle r = s.handle r
  coherent : t.Coherent

variable {P : Disk → Prop} {s t u : FatState} {v : FatVolHandle} {d : Disk} {dir : DirPlace} {es : List Sector}
  {name : List UInt8} {n : LongName} {e : Sector} {dst : HandleRef} {h : FatFileHandle}

-- ---------------------------------------------------------------------------
-- A slot read
-- ---------------------------------------------------------------------------

theorem DirPlace.Path.count_pos (hv : v.Shape) (hd : dir.Path v d) : 0 < dir.count v := by
  cases dir with
  | root =>
    have := hd.pos
    simp only [DirPlace.count]
    omega
  | chain cs =>
    have hspc := spc_pos hv
    have hpos := PathOk.pos hd
    simp only [DirPlace.count]
    exact Nat.mul_pos (by omega) hpos

theorem AtSlot.reached (ha : AtSlot v dir i h) : Reached v dir i h :=
  ⟨ha.toDirHandle, ha.position, fun _ => ha.cluster⟩

theorem Reached.at (ha : Reached v dir i h) (hi : i < dir.count v) : AtSlot v dir i h :=
  ⟨ha.toDirHandle, ha.position, ha.cluster (.inr hi)⟩

theorem AtSlot.reached_next (hv : v.Shape) (hd : dir.Path v d) (ha : AtSlot v dir i h) (h26 : i < 2 ^ 26) :
    Reached v dir (i + 1) (h.next v d) where
  toDirHandle := ha.dirHandle_next
  position := ha.next_position h26
  cluster := fun hi => by
    rw [ha.next hv hd h26 hi]
    rfl

theorem DirOpen.of_ran (h : DirOpen s r dir) (hr : Ran P s t) (hdisk : t.disk = s.disk) (hvol : t.vol = s.vol)
    (hh : DirHandle s.vol dir (t.handle r)) (hready : ∀ n, s.CacheOk n → t.CacheOk n) : DirOpen t r dir := by
  refine ⟨hr.mounted, hr.quiet h.quiet, hvol ▸ h.layout, hvol ▸ h.hint, ?_, hvol ▸ hh, ?_⟩
  · rw [hvol, hdisk]
    exact h.place
  · rw [hvol]
    exact fun i hi => hready _ (h.ready i hi)

theorem Shown.of_ran (h : Shown s dir es) (hr : Ran P s t) (hdisk : t.disk = s.disk) (hvol : t.vol = s.vol)
    (hh : DirHandle s.vol dir (t.handle .cwd)) (hready : ∀ n, s.CacheOk n → t.CacheOk n) : Shown t dir es := by
  refine ⟨h.toDirOpen.of_ran hr hdisk hvol hh hready, ?_, h.small⟩
  rw [hvol, hdisk]
  exact h.shows

theorem Shown.moved (h : Shown s dir es) (hm : Moved P .cwd h' s t) (hh : DirHandle s.vol dir h')
    (hready : ∀ n, s.CacheOk n → t.CacheOk n) : Shown t dir es :=
  h.of_ran hm.toRan hm.disk hm.vol (hm.self.symm ▸ hh) hready

theorem Shown.read (h : Shown s dir es) (ha : Reached s.vol dir i (s.handle .cwd)) (he : es[i]? = some e)
    (hP : P s.disk) :
    ∃ bs t h', fatRead .cwd 32 s = .ok (some bs) t ∧ bs.length = 32 ∧ structOf bs = e ∧
      Reached s.vol dir (i + 1) h' ∧ Moved P .cwd h' s t ∧ t.Coherent := by
  have hlt : i < es.length := (List.getElem?_eq_some_iff.mp he).1
  have hi := Nat.lt_of_lt_of_le hlt h.shows.fits
  have h26 := hlt.trans h.small
  obtain ⟨t, hrun, hm, hco⟩ :=
    fatRead_slot (P := P) h.mounted h.quiet h.layout h.place (ha.at hi) hi h26 (h.ready i hi) hP
  exact ⟨_, t, _, hrun, bytesAt_length .., h.shows.entry i e he,
    (ha.at hi).reached_next h.layout.toShape h.place h26, hm, hco⟩

theorem Shown.read_end (h : Shown s dir es) (hend : dir.Ends s.vol s.disk es)
    (ha : Reached s.vol dir es.length (s.handle .cwd)) (hco : s.Coherent ∨ es.length < dir.count s.vol)
    (hP : P s.disk) :
    ∃ bs t h', fatRead .cwd 32 s = .ok (some bs) t ∧ (bs.length = 32 → structOf bs 0 = 0) ∧
      DirHandle s.vol dir h' ∧ Moved P .cwd h' s t ∧ t.Coherent := by
  rcases Nat.lt_or_ge es.length (dir.count s.vol) with hlt | hge
  · obtain ⟨t, hrun, hm, hco'⟩ :=
      fatRead_slot (P := P) h.mounted h.quiet h.layout h.place (ha.at hlt) hlt h.small
      (h.ready _ hlt) hP
    exact ⟨_, t, _, hrun, fun _ => hend.slot hlt, (ha.at hlt).dirHandle_next, hm, hco'⟩
  · have heq : es.length = dir.count s.vol := Nat.le_antisymm h.shows.fits hge
    cases dir with
    | chain cs => exact absurd (hend.stop rfl) (by omega)
    | root =>
      have hat : AtSlot s.vol .root (DirPlace.root.count s.vol) (s.handle .cwd) := by
        rw [← heq]
        exact ⟨ha.toDirHandle, ha.position, ha.cluster (.inl rfl)⟩
      exact ⟨[], s, _, fatRead_rootEnd h.place hat, fun h => absurd h (by simp), h.handle, .refl h.mounted,
        hco.resolve_right (by omega)⟩

theorem Listed.shown (h : Listed s dir es) : Shown s dir es where
  mounted := h.mounted
  quiet := h.quiet
  layout := h.layout
  hint := h.hint
  place := h.place.path h.layout.toShape
  handle := h.handle
  ready := h.ready
  shows := ⟨h.lists.entry, h.lists.used, h.lists.fits⟩
  small := h.small

theorem Listed.ends (h : Listed s dir es) : dir.Ends s.vol s.disk es :=
  ⟨h.lists.stop, h.lists.rest _ (Nat.le_refl _)⟩

theorem Listed.inside (h : Listed s dir es) (he : e ∈ es) : StoresInside e :=
  fun hd hl => (h.long e he hd hl).inside hd hl

theorem Listed.of_ran (h : Listed s dir es) (hr : Ran P s t) (hdisk : t.disk = s.disk) (hvol : t.vol = s.vol)
    (hh : DirHandle s.vol dir (t.handle .cwd)) (hready : ∀ n, s.CacheOk n → t.CacheOk n) : Listed t dir es := by
  have hs := h.shown.of_ran hr hdisk hvol hh hready
  refine ⟨hs.mounted, hs.quiet, hs.layout, hs.hint, ?_, hs.handle, ?_, h.long, h.small, hs.ready⟩
  · rw [hvol, hdisk]
    exact h.place
  · rw [hvol, hdisk]
    exact h.lists

-- ---------------------------------------------------------------------------
-- The loops of fat_readdir and fat_open
-- ---------------------------------------------------------------------------

def openFound (flags : Nat) (dst : HandleRef) : FatM Int := do
  let _ ← fatLseek .cwd (-32) .cur
  let dir ← getHandle .cwd
  let v ← fatOf dir
  let (sector, offset) := fatFileSectorOffset v dir
  let bs := (← fatRead .cwd 32).getD []
  if bs.length ≠ 32 then pure minusEIO
  else
    let fatent := structOf bs
    fatFileInit (← getHandle .cwd).fat fatent dst
    modifyHandle dst fun h => { h with flags }
    if (fatent 11).toNat / attrDirectory % 2 = 0 then
      modifyHandle dst fun h => { h with direntSector := sector, direntOffset := offset }
      pure 0
    else
      if (← getHandle dst).firstCluster = 0 then fatFileRoot dst
      pure 0

/-- The round of `fat_open` after `fat_readdir`. -/
def openRound (name : List UInt8) (flags : Nat) (dst : HandleRef) (fuel : Nat) : Option Dirent → FatM Int
  | none => pure (-2)
  | some dirent =>
    if name = dirent.dName ∨ fatComparesfn name dirent.fatSname then openFound flags dst
    else openLoop name flags dst fuel

theorem openLoop_succ (name : List UInt8) (flags : Nat) (dst : HandleRef) (fuel : Nat) :
    openLoop name flags dst (fuel + 1) = fatReaddir .cwd >>= openRound name flags dst fuel := rfl

def fileHandleOf (e : Sector) (slot : Slot) (flags : Nat) : FatFileHandle where
  fat := true
  size := le32 e 28
  firstCluster := 65536 * le16 e 20 + le16 e 26
  curCluster := 65536 * le16 e 20 + le16 e 26
  flags := flags
  direntSector := slot.sector
  direntOffset := slot.offset

def rootHandle (v : FatVolHandle) : FatFileHandle :=
  if v.type = .fat32 then { fat := true, firstCluster := v.rootCluster, curCluster := v.rootCluster }
  else
    { fat := true, rootFlag := true, firstCluster := v.rootFirstSector, curCluster := v.rootFirstSector
      size := v.rootSectorCount * v.bytesPerSector }

/-- The handle of a file or a directory whose entry is `e`. -/
def openedHandle (v : FatVolHandle) (e : Sector) (slot : Slot) (flags : Nat) : FatFileHandle :=
  if (e 11).toNat / attrDirectory % 2 = 0 then fileHandleOf e slot flags
  else if 65536 * le16 e 20 + le16 e 26 = 0 then rootHandle v
  else { fileHandleOf e slot flags with direntSector := 0, direntOffset := 0 }

theorem Moved.walked (hm : Moved P .cwd h' s t) (hh : DirHandle s.vol dir h') (hco : t.Coherent) :
    Walked P dir dst s t where
  toRan := hm.toRan
  disk := hm.disk
  vol := hm.vol
  cwd := hm.self.symm ▸ hh
  others := fun _ hr _ => hm.other hr
  coherent := hco

theorem Moved.trans_walked (hm : Moved P .cwd h' s t) (hw : Walked P dir dst t u) : Walked P dir dst s u where
  toRan := hm.toRan.trans hw.toRan
  disk := hw.disk.trans hm.disk
  vol := hw.vol.trans hm.vol
  cwd := hm.vol ▸ hw.cwd
  others := fun r hr hr' => (hw.others r hr hr').trans (hm.other hr)
  coherent := hw.coherent

theorem Walked.trans (h1 : Walked P dir dst s t) (h2 : Walked P dir dst t u) : Walked P dir dst s u where
  toRan := h1.toRan.trans h2.toRan
  disk := h2.disk.trans h1.disk
  vol := h2.vol.trans h1.vol
  cwd := h1.vol ▸ h2.cwd
  others := fun r hr hr' => (h2.others r hr hr').trans (h1.others r hr hr')
  coherent := h2.coherent

theorem Walked.then (h1 : Walked (fun d => d = s.disk) dir dst s t)
    (h2 : Walked (fun d => d = t.disk) dir dst t u) :
    Walked (fun d => d = s.disk) dir dst s u := h1.trans (h1.disk ▸ h2)

theorem Walked.withHandle (hdst : dst ≠ .cwd) (h1 : Walked P dir .cwd s t) (hd : FatFileHandle) :
    Walked P dir dst s (t.withHandle dst hd) where
  toRan := h1.toRan.withHandle
  disk := h1.disk
  vol := h1.vol
  cwd := by
    rw [withHandle_of_ne hdst.symm]
    exact h1.cwd
  others := fun r hr hr' => by
    rw [withHandle_of_ne hr']
    exact h1.others r hr hr
  coherent := fun n => (h1.coherent n).withHandle

theorem Walked.mono (dst : HandleRef) (h1 : Walked P dir .cwd s t) : Walked P dir dst s t :=
  { h1 with others := fun r hr _ => h1.others r hr hr }

theorem Walked.refl (h : DirOpen s .cwd dir) (hco : s.Coherent) : Walked P dir dst s s where
  toRan := .refl h.mounted
  disk := rfl
  vol := rfl
  cwd := h.handle
  others := fun _ _ _ => rfl
  coherent := hco

theorem Shown.walked (h : Shown s dir es) (hw : Walked P dir dst s t) : Shown t dir es :=
  h.of_ran hw.toRan hw.disk hw.vol hw.cwd fun n _ => hw.coherent n

theorem Listed.walked (h : Listed s dir es) (hw : Walked P dir dst s t) : Listed t dir es :=
  h.of_ran hw.toRan hw.disk hw.vol hw.cwd fun n _ => hw.coherent n

theorem Shown.withHandle (h : Shown s dir es) (hdst : dst ≠ .cwd) (hd : FatFileHandle) :
    Shown (s.withHandle dst hd) dir es :=
  h.of_ran (P := fun _ => True) (Ran.refl h.mounted).withHandle rfl rfl
    (by rw [withHandle_of_ne hdst.symm]; exact h.handle) fun _ hn => hn.withHandle

theorem rewind_target (hi : i < 2 ^ 26) (hpos : h.position = 32 * (i + 1)) :
    Whence.cur.target h (-32) = ((32 * i : Nat) : Int) := by
  rw [Whence.target, hpos, i32, Int.bmod]
  omega

theorem fatFileRoot_bind {k : PUnit → FatM β} :
    (fatFileRoot dst >>= k) s = k ⟨⟩ (s.withHandle dst (rootHandle s.vol)) := by
  rw [fatFileRoot, bind_assoc, getVol_bind, rootHandle]
  split
  · simp only [setHandle_bind]
  · simp only [setHandle_bind]

theorem withHandle_withHandle (s : FatState) (dst : HandleRef) (h h' : FatFileHandle) :
    (s.withHandle dst h).withHandle dst h' = s.withHandle dst h' := by
  rw [FatState.withHandle, FatState.withHandle, FatState.withHandle, Function.update_idem]

theorem openFound_ends {n : Nat} (flags : Nat) (dst : HandleRef)
    (hseek : fatLseek .cwd (-32) .cur s = .ok n t) (hfat : (t.handle .cwd).fat = true)
    (hread : fatRead .cwd 32 t = .ok (some bs) u) (hlen : bs.length = 32) (hfat' : (u.handle .cwd).fat = true) :
    openFound flags dst s = .ok 0 (u.withHandle dst (openedHandle u.vol (structOf bs)
      ⟨(fatFileSectorOffset t.vol (t.handle .cwd)).1, (fatFileSectorOffset t.vol (t.handle .cwd)).2⟩
      flags)) := by
  rw [openFound, bind_ok hseek, getHandle_bind, fatOf_bind hfat]
  dsimp only
  rw [bind_ok hread]
  simp only [Option.getD_some, hlen, ne_eq, not_true_eq_false, if_false]
  rw [getHandle_bind, fatFileInit, hfat', setHandle_bind, modifyHandle_bind, withHandle_handle, openedHandle]
  split
  next hdir =>
    rw [modifyHandle_bind, withHandle_handle, withHandle_withHandle, withHandle_withHandle]
    rfl
  next hdir =>
    rw [getHandle_bind, withHandle_handle]
    by_cases h0 : 65536 * le16 (structOf bs) 20 + le16 (structOf bs) 26 = 0
    · simp only [h0, if_true]
      rw [fatFileRoot_bind, withHandle_withHandle, withHandle_withHandle, withHandle_vol, withHandle_vol]
      rfl
    · simp only [h0, if_false]
      rw [withHandle_withHandle]
      rfl

theorem openFound_run (flags : Nat) (dst : HandleRef) (h : Shown s dir es) (hco : s.Coherent)
    (ha : Reached s.vol dir (i + 1) (s.handle .cwd)) (he : es[i]? = some e) (hP : P s.disk) :
    ∃ m, openFound flags dst s = .ok 0 (m.withHandle dst (openedHandle s.vol e (dir.slot s.vol i) flags)) ∧
      Walked P dir .cwd s m := by
  have hlt : i < es.length := (List.getElem?_eq_some_iff.mp he).1
  have hcount := Nat.lt_of_lt_of_le hlt h.shows.fits
  have hi := hlt.trans h.small
  obtain ⟨n, t1, hseek, hm1, hco1⟩ :=
    fatLseek_slot (P := P) .cur (-32) i h.mounted h.quiet h.layout.toShape h.place
    h.handle (.inl hcount) hi (.inr hco) hP (rewind_target hi ha.position)
  have h1 := h.moved hm1 (h.handle.toSlot i).toDirHandle hco1
  have ha1 : AtSlot t1.vol dir i (t1.handle .cwd) := by
    rw [hm1.self, hm1.vol]
    exact h.handle.toSlot i
  obtain ⟨bs, t2, h2, hread, hlen, hbs, hh2, hm2, hco2⟩ := h1.read ha1.reached he (hm1.disk ▸ hP)
  have hfat : (t2.handle .cwd).fat = true := by
    rw [hm2.self]
    exact hh2.fat
  have hwalk : Walked P dir .cwd s t2 := hm1.trans_walked (hm2.walked hh2.toDirHandle hco2)
  have hopen := openFound_ends flags dst hseek ha1.fat hread hlen hfat
  rw [ha1.sectorOffset h1.layout.toShape h1.place (hm1.vol ▸ hcount), hm1.vol, hwalk.vol, hbs] at hopen
  exact ⟨t2, hopen, hwalk⟩

/-- What `fat_open` is to return and to leave, by the list, after a walk to `m`. -/
def Answers (v : FatVolHandle) (dir : DirPlace) (es : List Sector) (flags : Nat) (dst : HandleRef)
    (found : Option Nat) (a : Int) (m t : FatState) : Prop :=
  match found with
  | none => a = -2 ∧ t = m
  | some j => a = 0 ∧ ∃ e, es[j]? = some e ∧ t = m.withHandle dst (openedHandle v e (dir.slot v j) flags)

theorem readdirLoop_entry (fuel : Nat) (n : LongName) (hread : fatRead .cwd 32 s = .ok (some bs) t)
    (hlen : bs.length = 32) (hbs : structOf bs = e) (hused : e 0 ≠ 0) :
    readdirLoop .cwd (fuel + 1) n.csum n.chars s =
      if deleted e ∨ volumeId e then readdirLoop .cwd fuel n.csum n.chars t
      else if longName e then
        (longEntry e n.csum n.chars >>= fun r => readdirLoop .cwd fuel r.1 r.2) t
      else .ok (some (shortEntry e n.csum n.chars)) t := by
  rw [readdirLoop, bind_ok hread]
  simp only [Option.getD_some, hlen, ne_eq, not_true_eq_false, if_false, hbs, hused]
  by_cases hd : e 0 = 0xE5
  · have hd' : deleted e = true := decide_eq_true hd
    rw [if_pos hd, if_pos (.inl hd')]
  · have hd' : deleted e = false := decide_eq_false hd
    rw [if_neg hd]
    by_cases hv : (e 11).toNat = attrVolumeId
    · have hv' : volumeId e = true := decide_eq_true hv
      rw [if_pos hv, if_pos (.inr hv')]
    · have hv' : volumeId e = false := decide_eq_false hv
      have hskip : ¬ (deleted e = true ∨ volumeId e = true) := by simp [hd', hv']
      rw [if_neg hv, if_neg hskip]
      by_cases hl : (e 11).toNat = attrLongName
      · have hl' : longName e = true := decide_eq_true hl
        rw [if_pos hl, if_pos hl']
      · have hl' : longName e = false := decide_eq_false hl
        have hl'' : ¬ longName e = true := by simp [hl']
        rw [if_neg hl, if_neg hl'']
        rfl

theorem readdirLoop_end (fuel : Nat) (hread : fatRead .cwd 32 s = .ok (some bs) t)
    (hend : bs.length = 32 → structOf bs 0 = 0) : readdirLoop .cwd (fuel + 1) csum dName s = .ok none t := by
  rw [readdirLoop, bind_ok hread]
  simp only [Option.getD_some]
  split
  · rfl
  next hlen =>
    rw [if_pos (hend (not_not.mp hlen))]
    rfl

def scan (name : List UInt8) (flags : Nat) (dst : HandleRef) (fuel fuel' : Nat) (n : LongName) : FatM Int :=
  readdirLoop .cwd fuel n.csum n.chars >>= openRound name flags dst fuel'

/-- The fuel of a look-up with `m` entries to come. -/
def Enough (m fuel fuel' : Nat) : Prop := m < fuel ∧ m ≤ fuel'

theorem scan_outside (name : List UInt8) (flags : Nat) (dst : HandleRef) (fuel fuel' : Nat) (n : LongName)
    (hread : fatRead .cwd 32 s = .ok (some bs) t) (hlen : bs.length = 32) (hbs : structOf bs = e)
    (hused : e 0 ≠ 0) (hout : ¬ StoresInside e) :
    scan name flags dst (fuel + 1) fuel' n s = .error .outOfBounds t := by
  have hstep := readdirLoop_entry fuel n hread hlen hbs hused
  have hskip : ¬ (deleted e = true ∨ volumeId e = true) := by
    rintro (h | h)
    · exact hout fun hd _ => absurd (hd.symm.trans h) (by decide)
    · refine hout fun _ hl => ?_
      have h8 : (e 11).toNat = attrVolumeId := of_decide_eq_true h
      have h15 : (e 11).toNat = attrLongName := of_decide_eq_true hl
      rw [h8] at h15
      exact absurd h15 (by decide)
  have hl : longName e = true := by
    by_contra hl
    exact hout fun _ h => absurd h hl
  rw [if_neg hskip, if_pos hl, bind_error (longEntry_overrun (fun hall => hout fun _ _ => hall) n)] at hstep
  exact bind_error hstep

theorem scan_skip (name : List UInt8) (flags : Nat) (dst : HandleRef) (fuel fuel' : Nat) (n : LongName)
    (hread : fatRead .cwd 32 s = .ok (some bs) t) (hlen : bs.length = 32) (hbs : structOf bs = e)
    (hused : e 0 ≠ 0) (hin : StoresInside e) (he : ¬ Named e) :
    ∃ n', scanEntry name e n = some n' ∧
      scan name flags dst (fuel + 1) fuel' n s = scan name flags dst fuel fuel' n' t := by
  have hstep := readdirLoop_entry fuel n hread hlen hbs hused
  simp only [scan, scanEntry]
  by_cases hskip : deleted e = true ∨ volumeId e = true
  · rw [if_pos hskip] at hstep ⊢
    exact ⟨n, rfl, by simp only [bind, EStateM.bind, hstep]⟩
  · rw [if_neg hskip] at hstep ⊢
    obtain ⟨hd, hv⟩ := not_or.mp hskip
    have hl : longName e = true := by
      by_contra hl
      exact he ⟨Bool.eq_false_iff.mpr hd, Bool.eq_false_iff.mpr hv, Bool.eq_false_iff.mpr hl⟩
    rw [if_pos hl] at hstep ⊢
    rw [bind_ok (longEntry_run (hin (Bool.eq_false_iff.mpr hd) hl) n)] at hstep
    exact ⟨n.read e, rfl, by simp only [bind, EStateM.bind, hstep]⟩

theorem scan_named (name : List UInt8) (flags : Nat) (dst : HandleRef) (fuel fuel' : Nat) (n : LongName)
    (hread : fatRead .cwd 32 s = .ok (some bs) t) (hlen : bs.length = 32) (hbs : structOf bs = e)
    (hused : e 0 ≠ 0) (he : Named e) :
    scan name flags dst (fuel + 1) fuel' n s =
      if Matches name e n then openFound flags dst t else openLoop name flags dst fuel' t := by
  have hstep := readdirLoop_entry fuel n hread hlen hbs hused
  rw [if_neg (by simp [he.live, he.file]), if_neg (by simp [he.short])] at hstep
  rw [scan, bind_ok hstep, openRound]
  by_cases hm : Matches name e n
  · have hsame : name = (shortEntry e n.csum n.chars).dName ∨
        fatComparesfn name (shortEntry e n.csum n.chars).fatSname = true := hm
    rw [if_pos hm, if_pos hsame]
  · have hother : ¬ (name = (shortEntry e n.csum n.chars).dName ∨
        fatComparesfn name (shortEntry e n.csum n.chars).fatSname = true) := hm
    rw [if_neg hm, if_neg hother]

theorem scan_cons (name : List UInt8) (flags : Nat) (dst : HandleRef) (n : LongName) (h : Shown s dir es)
    (he : es[i]? = some e) (ha : Reached s.vol dir i (s.handle .cwd)) (hP : P s.disk)
    (hfuel : Enough (m + 1) fuel fuel') (hm : m < scanLimit) :
    ∃ t h', Reached s.vol dir (i + 1) h' ∧ Moved P .cwd h' s t ∧ t.Coherent ∧
      (¬ StoresInside e → scan name flags dst fuel fuel' n s = .error .outOfBounds t) ∧
      (StoresInside e →
        (scanEntry name e n = none → scan name flags dst fuel fuel' n s = openFound flags dst t) ∧
        ∀ n', scanEntry name e n = some n' →
          ∃ k k', Enough m k k' ∧ scan name flags dst fuel fuel' n s = scan name flags dst k k' n' t) := by
  obtain ⟨hf, hf'⟩ := hfuel
  obtain ⟨fuel, rfl⟩ : ∃ k, fuel = k + 1 := ⟨fuel - 1, by omega⟩
  obtain ⟨fuel', rfl⟩ : ∃ k, fuel' = k + 1 := ⟨fuel' - 1, by omega⟩
  obtain ⟨bs, t, h', hread, hlen, hbs, hh', hmv, hco⟩ := h.read (P := P) ha he hP
  have hused := h.shows.used e (List.mem_of_getElem? he)
  refine ⟨t, h', hh', hmv, hco, scan_outside name flags dst fuel (fuel' + 1) n hread hlen hbs hused,
    fun hin => ?_⟩
  by_cases hn : Named e
  · have hstep := scan_named name flags dst fuel (fuel' + 1) n hread hlen hbs hused hn
    rw [scanEntry_named hn]
    by_cases hm' : Matches name e n
    · rw [if_pos hm'] at hstep ⊢
      exact ⟨fun _ => hstep, fun n' h => absurd h (by simp)⟩
    · rw [if_neg hm'] at hstep ⊢
      refine ⟨fun h => absurd h (by simp), fun n' h => ?_⟩
      rw [← Option.some.inj h]
      exact ⟨scanLimit, fuel', ⟨hm, by omega⟩, hstep⟩
  · obtain ⟨n1, hscan, hstep⟩ := scan_skip name flags dst fuel (fuel' + 1) n hread hlen hbs hused hin hn
    rw [hscan]
    refine ⟨fun h => absurd h (by simp), fun n' h => ?_⟩
    rw [← Option.some.inj h]
    exact ⟨fuel, fuel' + 1, ⟨by omega, by omega⟩, hstep⟩

theorem scan_run (name : List UInt8) (flags fuel fuel' : Nat) (rest : List Sector) (n : LongName)
    (dst : HandleRef) (h : Shown s dir es) (hrest : es.drop i = rest) (hi : i ≤ es.length)
    (ha : Reached s.vol dir i (s.handle .cwd)) (hco : s.Coherent ∨ i < dir.count s.vol) (hP : P s.disk)
    (hfuel : Enough rest.length fuel fuel') (hin : ScanInside name rest n)
    (hend : lookup name rest i n = none → dir.Ends s.vol s.disk es) :
    ∃ a m t, scan name flags dst fuel fuel' n s = .ok a t ∧ Walked P dir .cwd s m ∧
      Answers s.vol dir es flags dst (lookup name rest i n) a m t := by
  induction rest generalizing s i n fuel fuel' with
  | nil =>
    obtain rfl : i = es.length := Nat.le_antisymm hi (List.drop_eq_nil_iff.mp hrest)
    obtain ⟨fuel, rfl⟩ : ∃ k, fuel = k + 1 := ⟨fuel - 1, by have := hfuel.1; omega⟩
    obtain ⟨bs, t, h', hread, hend, hh', hm, hco'⟩ := h.read_end (P := P) (hend rfl) ha hco hP
    refine ⟨-2, t, t, ?_, hm.walked hh' hco', rfl, rfl⟩
    rw [scan, bind_ok (readdirLoop_end fuel hread hend)]
    rfl
  | cons e rest ih =>
    have he : es[i]? = some e := by
      rw [← List.head?_drop, hrest, List.head?_cons]
    have hlt : i < es.length := (List.getElem?_eq_some_iff.mp he).1
    have hrest' : es.drop (i + 1) = rest := by
      rw [← List.tail_drop, hrest, List.tail_cons]
    have hscan : rest.length < scanLimit := by
      have hsmall := h.small
      have hle : rest.length = es.length - (i + 1) := by rw [← hrest', List.length_drop]
      rw [scanLimit]
      omega
    obtain ⟨hin, hin'⟩ := hin
    rw [List.length_cons] at hfuel
    obtain ⟨t, h', hh', hm, hco', -, hstep⟩ := scan_cons (P := P) name flags dst n h he ha hP hfuel hscan
    obtain ⟨hfound, hnext⟩ := hstep hin
    have ht := h.moved hm hh'.toDirHandle fun n _ => hco' n
    have hat : Reached t.vol dir (i + 1) (t.handle .cwd) := by
      rw [hm.self, hm.vol]
      exact hh'
    rw [lookup] at hend ⊢
    cases hs : scanEntry name e n with
    | none =>
      obtain ⟨m, hrun, hw⟩ := openFound_run (P := P) flags dst ht hco' hat he (hm.disk ▸ hP)
      rw [hm.vol] at hrun
      exact ⟨0, m, _, (hfound hs).trans hrun, hm.trans_walked hw, rfl, e, he, rfl⟩
    | some n' =>
      rw [hs] at hend hin'
      obtain ⟨k, k', henough, hgo⟩ := hnext n' hs
      obtain ⟨a, m, u, hrun, hw, hans⟩ := ih k k' n' ht hrest' hlt hat (.inl hco') (hm.disk ▸ hP) henough hin'
        (by rw [hm.vol, hm.disk]; exact hend)
      rw [hm.vol] at hans
      exact ⟨a, m, u, hgo.trans hrun, hm.trans_walked hw, hans⟩

theorem fatOpen_scan (name : List UInt8) (flags : Nat) (dst : HandleRef) (hname : name ≠ [46])
    (h : Shown s dir es) (hP : P s.disk) :
    ∃ t h' k, Reached s.vol dir 0 h' ∧ Moved P .cwd h' s t ∧ (∀ n, s.CacheOk n → t.CacheOk n) ∧
      Enough es.length scanLimit k ∧ fatOpen name flags dst s = scan name flags dst scanLimit k {} t := by
  have hsmall := h.small
  obtain ⟨_, t, hseek, hm, hready⟩ := fatLseek_slot (P := P) .set 0 0 h.mounted h.quiet
    h.layout.toShape h.place h.handle (.inl (h.place.count_pos h.layout.toShape)) (by decide) (.inl rfl) hP rfl
  obtain ⟨k, hk⟩ : ∃ k, scanLimit = k + 1 := ⟨2 ^ 40 - 1, rfl⟩
  refine ⟨t, _, k, (h.handle.toSlot 0).reached, hm, hready, ?_, ?_⟩
  · rw [Enough]
    rw [scanLimit] at hk ⊢
    omega
  · have hround : openLoop name flags dst scanLimit = fatReaddir .cwd >>= openRound name flags dst k := by
      rw [hk, openLoop_succ]
    rw [fatOpen, if_neg hname, bind_ok hseek, hround]
    rfl

theorem fatOpen_run (name : List UInt8) (flags : Nat) (dst : HandleRef) (hname : name ≠ [46])
    (h : Shown s dir es) (hP : P s.disk) (hin : ScanInside name es {})
    (hend : lookup name es 0 {} = none → dir.Ends s.vol s.disk es) :
    ∃ a m t, fatOpen name flags dst s = .ok a t ∧ Walked P dir .cwd s m ∧
      Answers s.vol dir es flags dst (lookup name es 0 {}) a m t := by
  obtain ⟨t1, h', k, hh', hm, hready, hfuel, hopen⟩ := fatOpen_scan (P := P) name flags dst hname h hP
  have h1 := h.moved hm hh'.toDirHandle hready
  have hat : Reached t1.vol dir 0 (t1.handle .cwd) := by
    rw [hm.self, hm.vol]
    exact hh'
  obtain ⟨a, m, t, hrun, hw, hans⟩ := scan_run (P := P) name flags scanLimit k es {} dst h1
    rfl (Nat.zero_le _) hat (.inr (h1.place.count_pos h1.layout.toShape)) (hm.disk ▸ hP) hfuel hin
    (by rw [hm.vol, hm.disk]; exact hend)
  rw [hm.vol] at hans
  exact ⟨a, m, t, hopen.trans hrun, hm.trans_walked hw, hans⟩

-- ---------------------------------------------------------------------------
-- The loop of _fat_dir_seek_empty
-- ---------------------------------------------------------------------------

theorem seekEmpty_scan (k fuel : Nat) (rest : List Sector) (run start : Nat) (h : Shown s dir es)
    (hend : dir.Ends s.vol s.disk es) (hrest : es.drop (start + run) = rest) (hi : start + run ≤ es.length)
    (ha : Reached s.vol dir (start + run) (s.handle .cwd)) (hco : s.Coherent ∨ start + run < dir.count s.vol)
    (hP : P s.disk) (hfuel : rest.length < fuel) :
    ∃ t h',
      seekEmptyLoop .cwd k fuel run (32 * start) s = .ok (32 * Slots.firstFit deleted k run start rest) t ∧
      DirHandle s.vol dir h' ∧ Moved P .cwd h' s t ∧ t.Coherent := by
  induction rest generalizing s run start fuel with
  | nil =>
    have hlast : start + run = es.length := Nat.le_antisymm hi (List.drop_eq_nil_iff.mp hrest)
    obtain ⟨fuel, rfl⟩ : ∃ k, fuel = k + 1 := ⟨fuel - 1, by omega⟩
    rw [hlast] at ha hco
    obtain ⟨bs, t, h', hread, hzero, hh', hm, hco'⟩ := h.read_end (P := P) hend ha hco hP
    refine ⟨t, h', ?_, hh', hm, hco'⟩
    rw [seekEmptyLoop, bind_ok hread, Slots.firstFit]
    simp only [Option.getD_some]
    split
    · rfl
    next hlen =>
      rw [if_pos (hzero (not_not.mp hlen))]
      rfl
  | cons e rest ih =>
    have he : es[start + run]? = some e := by
      rw [← List.head?_drop, hrest, List.head?_cons]
    have hlt : start + run < es.length := (List.getElem?_eq_some_iff.mp he).1
    have hrest' : es.drop (start + run + 1) = rest := by
      rw [← List.tail_drop, hrest, List.tail_cons]
    obtain ⟨fuel, rfl⟩ : ∃ k, fuel = k + 1 := ⟨fuel - 1, by omega⟩
    rw [List.length_cons] at hfuel
    obtain ⟨bs, t, h', hread, hlen, hbs, hh', hm, hco'⟩ := h.read (P := P) ha he hP
    have hused := h.shows.used e (List.mem_of_getElem? he)
    have ht := h.moved hm hh'.toDirHandle fun n _ => hco' n
    have hat : Reached t.vol dir (start + run + 1) (t.handle .cwd) := by
      rw [hm.self, hm.vol]
      exact hh'
    -- the walk goes on behind the entry
    have hnext : ∀ run' start', start' + run' = start + run + 1 → ∃ u h', seekEmptyLoop .cwd k fuel run'
        (32 * start') t = .ok (32 * Slots.firstFit deleted k run' start' rest) u ∧ DirHandle s.vol dir h' ∧
        Moved P .cwd h' s u ∧ u.Coherent := by
      intro run' start' heq
      rw [← heq] at hrest' hat
      obtain ⟨u, h'', hrun, hh'', hm', hco''⟩ :=
        ih fuel run' start' ht (by rw [hm.vol, hm.disk]; exact hend) hrest'
        (by omega) hat (.inl hco') (hm.disk ▸ hP) (by omega)
      exact ⟨u, h'', hrun, hm.vol ▸ hh'', hm.trans hm', hco''⟩
    rw [seekEmptyLoop, bind_ok hread, Slots.firstFit]
    simp only [Option.getD_some, hlen, ne_eq, not_true_eq_false, if_false, hbs, hused]
    by_cases hd : e 0 = 0xE5
    · have hd' : deleted e = true := decide_eq_true hd
      rw [if_pos hd, if_pos hd']
      split
      · exact ⟨t, h', rfl, hh'.toDirHandle, hm, hco'⟩
      · exact hnext (run + 1) start (by omega)
    · have hd' : ¬ deleted e = true := fun h => hd (of_decide_eq_true h)
      rw [if_neg hd, if_neg hd', getHandle_bind, hm.self, hh'.position]
      exact hnext 0 (start + run + 1) rfl

/-- `_fat_dir_seek_empty` stops where the row of entries has room. -/
theorem fatDirSeekEmpty_run (k : Nat) (h : Shown s dir es) (hend : dir.Ends s.vol s.disk es) (hP : P s.disk) :
    ∃ t h', fatDirSeekEmpty .cwd k s = .ok ⟨⟩ t ∧ AtSlot s.vol dir (Slots.firstFit deleted k 0 0 es) h' ∧
      Moved P .cwd h' s t ∧ t.Coherent := by
  have hcount := h.place.count_pos h.layout.toShape
  have hsmall := h.small
  obtain ⟨_, t1, hseek, hm1, hready⟩ := fatLseek_slot (P := P) .set 0 0 h.mounted h.quiet
    h.layout.toShape h.place h.handle (.inl hcount) (by decide) (.inl rfl) hP rfl
  have h1 := h.moved hm1 (h.handle.toSlot 0).toDirHandle hready
  have hat : Reached t1.vol dir 0 (t1.handle .cwd) := by
    rw [hm1.self, hm1.vol]
    exact (h.handle.toSlot 0).reached
  have hlimit : es.length < scanLimit := by
    rw [scanLimit]
    omega
  have hend1 : dir.Ends t1.vol t1.disk es := by
    rw [hm1.vol, hm1.disk]
    exact hend
  obtain ⟨t2, h', hscan, hh', hm2, hco2⟩ :=
    seekEmpty_scan (P := P) k scanLimit es 0 0 h1 hend1 rfl (Nat.zero_le _) hat
    (.inr (hm1.vol ▸ hcount)) (hm1.disk ▸ hP) hlimit
  have h2 := h1.moved hm2 hh' fun n _ => hco2 n
  have hp : Slots.firstFit deleted k 0 0 es ≤ es.length := by
    have := Slots.firstFit_le deleted k 0 0 es
    omega
  have hvol : t2.vol = s.vol := hm2.vol.trans hm1.vol
  have hplace : Slots.firstFit deleted k 0 0 es < dir.count t2.vol ∨
      dir.isRoot = true ∧ Slots.firstFit deleted k 0 0 es ≤ dir.count t2.vol := by
    rw [hvol]
    cases hr : dir.isRoot with
    | true => exact .inr ⟨rfl, Nat.le_trans hp h.shows.fits⟩
    | false => exact .inl (Nat.lt_of_le_of_lt hp (hend.stop hr))
  have hpos : Whence.set.target (t2.handle .cwd) (i32 (32 * Slots.firstFit deleted k 0 0 es : Nat)) =
      ((32 * Slots.firstFit deleted k 0 0 es : Nat) : Int) := by
    rw [Whence.target, i32, Int.bmod]
    omega
  obtain ⟨_, t3, hseek3, hm3, hready3⟩ :=
    fatLseek_slot (P := P) .set _ (Slots.firstFit deleted k 0 0 es) h2.mounted
    h2.quiet h2.layout.toShape h2.place h2.handle hplace (by omega) (.inr hco2) (hm2.disk ▸ hm1.disk ▸ hP) hpos
  refine ⟨t3, _, ?_, hvol ▸ h2.handle.toSlot _, (hm1.trans hm2).trans hm3, fun n => hready3 n (hco2 n)⟩
  rw [fatDirSeekEmpty, bind_ok hseek, bind_ok hscan, bind_ok hseek3]
  rfl

end Stm32Logger
