import Stm32Logger.Fat.Create
import Stm32Logger.Fat.LogNames

/-!
# A new directory

`fat_mkdir` writes the long entry, takes a cluster, writes the short entry, and
fills the cluster: zeros, and the entries `.` and `..`.
-/

namespace Stm32Logger

variable {P : Disk → Prop} {s t u : FatState} {v : FatVolHandle} {d d' : Disk} {dir dir' dir'' : DirPlace}
  {es fs gs : List Sector}
  {name sname : List UInt8} {mem : Nat → UInt8} {r : HandleRef} {c : Nat}

-- ---------------------------------------------------------------------------
-- The cluster
-- ---------------------------------------------------------------------------

/-- A free cluster marked as the end of a chain of its own. -/
structure Reserved (c : Nat) (s t : FatState) : Prop extends Ran (fun _ => True) s t where
  vol : t.vol = { s.vol with lastClusterAlloc := c }
  handle : t.handle = s.handle
  found : c = freeCluster s.vol s.disk
  ne_zero : c ≠ 0
  set : EntrySet s.vol (fun _ => True) c (fatEoc s.vol) s.disk t.disk
  coherent : t.Coherent

theorem allocDirCluster_none (hs : s.Mounted) (hq : s.Quiet) (hv : s.vol.Shape) (hh : s.vol.HintOk)
    (hok : s.TableOk) (hf : freeCluster s.vol s.disk = 0) :
    ∃ t, allocDirCluster attrDirectory s = .ok none t ∧ Kept (fun _ => True) s t := by
  obtain ⟨t, hrun, hfd, -, -⟩ := fatFindFreeCluster_run (P := fun _ => True) hs hq hv hh trivial hok
  rw [hf] at hrun hfd
  refine ⟨t, ?_, hfd.toRan, hfd.disk, ?_, hfd.handle⟩
  · rw [allocDirCluster, if_pos rfl, getVol_bind, bind_ok hrun, if_pos rfl, pure_run]
  · rw [hfd.vol, if_pos rfl]

theorem allocDirCluster_run (hs : s.Mounted) (hq : s.Quiet) (hv : s.vol.Shape) (hh : s.vol.HintOk)
    (hok : s.TableOk) (hf : freeCluster s.vol s.disk ≠ 0) :
    ∃ t, allocDirCluster attrDirectory s = .ok (some (freeCluster s.vol s.disk)) t ∧
      Reserved (freeCluster s.vol s.disk) s t := by
  obtain ⟨t, hrun, hfd, -, hco⟩ := fatFindFreeCluster_run (P := fun _ => True) hs hq hv hh trivial hok
  have hvol := hfd.vol
  rw [if_neg hf] at hvol
  have hc := (freeCluster_spec hh hf).1.2
  obtain ⟨u, hset, hw⟩ :=
    fatSetNextCluster_run (P := fun _ => True) (c := freeCluster s.vol s.disk) (x := fatEoc s.vol)
    hfd.mounted (hfd.quiet hq) (by rw [hvol]; exact hv.hint _) (by rw [hvol]; exact hc)
    (by rw [hvol]; exact fatEoc_lt s.vol hv) (fun _ _ => trivial) (hco (.inr hf) _)
  refine ⟨u, ?_, hfd.toRan.trans hw.became.toRan, hw.became.vol.trans hvol, hw.became.handle.trans hfd.handle,
    rfl, hf, ?_,
    hw.coherent⟩
  · rw [allocDirCluster, if_pos rfl, getVol_bind, bind_ok hrun, if_neg hf, bind_ok hset, pure_run]
  · have := hw.set
    rw [hvol, hfd.disk] at this
    exact this.of_hint

theorem Reserved.rehinted (hh : s.vol.HintOk) (h : Reserved c s t) : Rehinted s.vol t.vol := by
  have hc := (freeCluster_spec hh (h.found ▸ h.ne_zero)).1
  rw [← h.found] at hc
  exact ⟨c, h.vol, fun _ => ⟨hc.1, Nat.le_of_lt hc.2⟩⟩

theorem Reserved.isCluster (hh : s.vol.HintOk) (h : Reserved c s t) : s.vol.IsCluster c :=
  h.found ▸ (freeCluster_spec hh (h.found ▸ h.ne_zero)).1

theorem Reserved.free (hh : s.vol.HintOk) (h : Reserved c s t) : fatEntry s.vol s.disk 0 c = 0 :=
  h.found ▸ (freeCluster_spec hh (h.found ▸ h.ne_zero)).2

theorem Reserved.entry (hv : s.vol.Shape) (h : Reserved c s t) (hj : s.vol.HasEntry j) (hne : j ≠ c) :
    fatEntry s.vol t.disk 0 j = fatEntry s.vol s.disk 0 j := h.set.fatEntry_of_ne hv hv.numFats hj hne

theorem Reserved.path (hv : s.vol.Shape) (hh : s.vol.HintOk) (h : Reserved c s t) (hd : dir.Path s.vol s.disk) :
    dir.Path s.vol t.disk := by
  cases dir with
  | root => exact hd
  | chain cs =>
    have hpath : PathOk s.vol s.disk cs := hd
    refine ⟨hpath.pos, hpath.cluster, fun k hk => ?_, hpath.nodup⟩
    have hlink := hpath.link k hk
    rw [h.entry hv (hpath.cluster _ (getD_mem (Nat.lt_of_succ_lt hk))).2, hlink]
    intro hc
    rw [hc, h.free hh] at hlink
    have := (hpath.cluster _ (getD_mem hk)).1
    omega

theorem Reserved.ok (hv : s.vol.Shape) (hh : s.vol.HintOk) (h : Reserved c s t) (hd : dir.Ok s.vol s.disk) :
    dir.Ok s.vol t.disk := by
  cases dir with
  | root => exact hd
  | chain cs =>
    refine ChainOk.congr hd fun j hj => h.entry hv (ChainOk.cluster hd j hj).2 fun hjc => ?_
    exact ChainOk.entry_ne_zero hv hd hj (hjc ▸ h.free hh)

theorem Reserved.dirEntry (ho : dir.OffTable s.vol) (h : Reserved c s t) (hj : j < dir.count s.vol) :
    dir.entry s.vol t.disk j = dir.entry s.vol s.disk j := by
  rw [DirPlace.entry, DirPlace.entry]
  refine entryAt_congr fun b _ => ?_
  rw [slotBytes, slotBytes, h.set.rest _ (ho j hj)]

theorem Reserved.opened (h : Reserved c s t) (ho : DirOpen s r dir) : DirOpen t r dir := by
  have hre := h.rehinted ho.hint
  refine ⟨h.mounted, h.quiet ho.quiet, hre.layout ho.layout, hre.hintOk ho.hint,
    (h.path ho.layout.toShape ho.hint ho.place).rehinted hre, ?_, fun _ _ => h.coherent _⟩
  rw [h.handle]
  exact ho.handle.rehinted hre

theorem Reserved.placed (h : Reserved c s t) (ho : DirOpen s r dir) (ha : Reached s.vol dir p (s.handle r))
    (hp : p ≤ dir.count s.vol) (hoff : dir.OffTable s.vol) : Placed r dir dir p [] s t where
  toRan := h.toRan
  vol := h.rehinted ho.hint
  others := fun r' _ => by rw [h.handle]
  opened := h.opened ho
  here := by
    rw [h.handle]
    exact ha.rehinted (h.rehinted ho.hint)
  fits := hp
  slot := fun _ _ => rfl
  count := Nat.le_refl _
  root := rfl
  entry := fun j hj => by
    rw [DirPlace.entryWith, if_neg (by simp only [List.length_nil]; omega), if_pos hj, h.dirEntry hoff hj]
  confined := fun dir0 d0 hc => by
    have hloose := hc.free ho.layout.toShape (h.isCluster ho.hint) (h.free ho.hint)
    exact ⟨hc.off, hc.agree.trans (h.set.agree hloose),
      fun he => h.set.copiesEqual ho.layout.toShape (hc.copies he), hc.has, hc.root⟩

/-- No slot of the directory lies in a free cluster. -/
def DirPlace.Apart (v : FatVolHandle) (d : Disk) (dir : DirPlace) : Prop :=
  ∀ c, v.IsCluster c → fatEntry v d 0 c = 0 → ∀ j < dir.count v, ¬ v.InCluster c (dir.slot v j).sector

theorem Entered.apart (hv : s.vol.Shape) (h : Entered r dir dir' p fs s t) (ho : dir.OffTable s.vol)
    (ha : dir.Apart s.vol s.disk) : dir'.Apart s.vol t.disk := by
  intro c hcl hfree j hj
  have hfree' : fatEntry s.vol s.disk 0 c = 0 := by
    by_contra hne
    exact (h.used ho c hcl hne).1 hfree
  rcases Nat.lt_or_ge j (dir.count s.vol) with hlt | hge
  · rw [h.slot j hlt]
    exact ha c hcl hfree' j hlt
  · -- a slot of the cluster taken, which is in use now
    have hgrown := h.grown.resolve_left fun hsame => by
      rw [hsame] at hj
      omega
    have hok := h.ok hgrown.2.2.2.2.1
    cases dir' with
    | root => exact absurd (h.root.trans hgrown.2.2.2.1) (by decide)
    | chain cs =>
      have hchain : ChainOk s.vol t.disk cs := by
        obtain ⟨i, hi, -⟩ := h.vol
        rw [hi] at hok
        exact ⟨hok.chain, hok.cluster⟩
      intro hin
      have hidx := slot_index hj
      have hslot := chainSector_inCluster hv cs (32 * j)
      rw [slot_div_cluster] at hslot
      have hmem := getD_mem hidx
      rw [cluster_unique hcl.1 (hchain.cluster _ hmem).1 hin hslot] at hfree
      exact hchain.entry_ne_zero hv hmem hfree

theorem Entered.tableOk (h : Entered r dir dir' p fs s t)
    (hfats : dir.isRoot = false → dir.count s.vol ≤ p + fs.length → dir.Ok s.vol s.disk →
      freeCluster s.vol s.disk ≠ 0 → 2 ≤ s.vol.numFats) :
    t.TableOk := by
  rcases h.grown with hsame | ⟨-, hend, -, hr, hok, hf⟩
  · exact (h.same hsame).2.1.tableOk
  · refine h.usable.table ?_
    obtain ⟨i, hi, -⟩ := h.vol
    rw [hi]
    exact hfats hr hend hok hf

-- ---------------------------------------------------------------------------
-- The entries of a directory
-- ---------------------------------------------------------------------------

theorem hasEntry_lt_word (hv : v.Shape) (hc : v.HasEntry c) : c < 2 ^ 32 := by
  have hcount := hv.count
  have hmax := maxClusters_le v.type
  have hlt : c < v.clusterCount + 2 := hc
  omega

def newDirHandle (c : Nat) : FatFileHandle := { fat := true, firstCluster := c, curCluster := c }

theorem openedHandle_dir (hs : ShortName sname) (hc : v.IsCluster c) (hlt : c < 2 ^ 32) (v' : FatVolHandle)
    (slot : Slot) :
    openedHandle v' (structOf (shortDirent sname attrDirectory c)) slot 0 = newDirHandle c := by
  have hattr : (structOf (shortDirent sname attrDirectory c) 11).toNat / attrDirectory % 2 ≠ 0 := by
    rw [shortDirent_attr]
    decide
  have hfile := fileHandleOf_short hs attrDirectory hlt slot 0
  have hfirst : 65536 * le16 (structOf (shortDirent sname attrDirectory c)) 20 +
      le16 (structOf (shortDirent sname attrDirectory c)) 26 = c := congrArg FatFileHandle.firstCluster hfile
  have hne : c ≠ 0 := by
    have := hc.1
    omega
  rw [openedHandle, if_neg hattr, hfirst, if_neg hne, hfile]
  rfl

/-- How `_fat_dir_create_file` ends for a directory with entries to write from slot `p` on. -/
inductive DirEnd (name : List UInt8) (mem : Nat → UInt8) (sname : List UInt8) (dst : HandleRef)
    (dir : DirPlace) (p : Nat) (s : FatState) : Int → FatState → Prop where
  /-- The root directory has fewer slots left than the long entries need. -/
  | full {s' u : FatState} {dir' : DirPlace} (q : Nat) (hw : Walked (fun d => d = s.disk) dir dst s s')
      (he : Entered .cwd dir dir' p ((newLongs mem sname (name.length / 13) true).take q) s' u)
      (hq : q < name.length / 13 + 1) (hr : dir.isRoot = true) (hend : p + q = dir.count s.vol) :
      DirEnd name mem sname dst dir p s (-1) u
  /-- The long entries and the cluster are there, and the root directory has no slot for the short entry. -/
  | fullShort {s' u : FatState} {dir' : DirPlace} (hw : Walked (fun d => d = s.disk) dir dst s s')
      (he : Placed .cwd dir dir' p (newLongs mem sname (name.length / 13) true) s' u) (hr : dir.isRoot = true)
      (hend : p + (name.length / 13 + 1) = dir.count s.vol) : DirEnd name mem sname dst dir p s (-1) u
  /-- The search finds no cluster for the directory. -/
  | noCluster {s' u t : FatState} {dir' : DirPlace} (hw : Walked (fun d => d = s.disk) dir dst s s')
      (he : Entered .cwd dir dir' p (newLongs mem sname (name.length / 13) true) s' u)
      (hf : freeCluster u.vol u.disk = 0) (hk : Kept (fun _ => True) u t) :
      DirEnd name mem sname dst dir p s (-1) t
  | made {s' u m : FatState} {dir' : DirPlace} {c : Nat} (hw : Walked (fun d => d = s.disk) dir dst s s')
      (he : Placed .cwd dir dir' p (newEntries name mem sname attrDirectory c) s' u) (hc : s.vol.IsCluster c)
      (hf : freeCluster s.vol s.disk ≠ 0)
      (hapart : dir.Apart s.vol s.disk → ∀ j < dir'.count s.vol, ¬ s.vol.InCluster c (dir'.slot s.vol j).sector)
      (hloose : dir.Loose s.vol s.disk c)
      (hmark : dir.Apart s.vol s.disk → fatEntry s.vol u.disk 0 c = fatEoc s.vol)
      (hok : dir.Ok s.vol s.disk → dir'.Ok u.vol u.disk) (hm : Walked (fun d => d = u.disk) dir' .cwd u m) :
      DirEnd name mem sname dst dir p s 0 (m.withHandle dst (newDirHandle c))

/-- Room for the entries of a directory, or at least for the long ones with no cluster left for it. -/
def DirFits (s : FatState) (dir : DirPlace) (p k : Nat) : Prop :=
  dir.isRoot = true ∨ DirRoom s dir (p + k) ∨ p + k ≤ dir.count s.vol + 1 ∧ freeCluster s.vol s.disk = 0

/-- Only a directory that grows on a volume with one FAT leaves the search a table it cannot trust. -/
def TableSafe (s : FatState) (dir : DirPlace) (p k : Nat) : Prop :=
  dir.isRoot = false → dir.count s.vol < p + k → dir.Ok s.vol s.disk → freeCluster s.vol s.disk ≠ 0 →
    2 ≤ s.vol.numFats

theorem Entered.reserve (h : DirOpen s .cwd dir) (he : Entered .cwd dir dir' p fs s t) (hpos : 0 < fs.length)
    (hle : fs.length + 1 ≤ 16) (hsmall : p + fs.length + 1 < 2 ^ 26) (hoff : dir.OffTable s.vol)
    (hfits : DirFits s dir p (fs.length + 1)) (hsafe : TableSafe s dir p (fs.length + 1)) :
    freeCluster t.vol t.disk = 0 ∧
      (∃ u, allocDirCluster attrDirectory t = .ok none u ∧ Kept (fun _ => True) t u) ∨
      ∃ c u, allocDirCluster attrDirectory t = .ok (some c) u ∧ dir.Loose s.vol s.disk c ∧
        freeCluster s.vol s.disk ≠ 0 ∧
        ((dir.isRoot = true ∧ p + fs.length = dir.count s.vol ∧ Placed .cwd dir dir' p fs s u ∧
            ∀ bs : List UInt8, bs.length = 32 → fatWrite .cwd bs u = .ok 0 u) ∨
          ∀ bs : List UInt8, bs.length = 32 → ∃ w dir'', fatWrite .cwd bs u = .ok 32 w ∧
            Placed .cwd dir dir'' p (fs ++ [structOf bs]) s w ∧
            (dir.Apart s.vol s.disk → ∀ j < dir''.count s.vol,
              ¬ s.vol.InCluster c (dir''.slot s.vol j).sector) ∧
            (dir.Apart s.vol s.disk → fatEntry s.vol w.disk 0 c = fatEoc s.vol) ∧
            (dir.Ok s.vol s.disk → dir''.Ok w.vol w.disk)) := by
  have hv := h.layout.toShape
  have ho := he.opened
  have htable := he.tableOk fun hr hend hok hf => hsafe hr (by omega) hok hf
  have hoff' := he.offTable hv hoff
  obtain ⟨i, hi, hih⟩ := he.vol
  by_cases hf : freeCluster t.vol t.disk = 0
  · exact .inl ⟨hf, allocDirCluster_none ho.mounted ho.quiet ho.layout.toShape ho.hint htable hf⟩
  · obtain ⟨u, hrun, hres⟩ := allocDirCluster_run ho.mounted ho.quiet ho.layout.toShape ho.hint htable hf
    generalize freeCluster t.vol t.disk = c at hrun hres hf
    have hcl := hres.isCluster ho.hint
    have hcfree := hres.free ho.hint
    have hclear : dir.Apart s.vol s.disk → ∀ j < dir'.count s.vol,
        ¬ s.vol.InCluster c (dir'.slot s.vol j).sector := by
      rw [hi] at hcl hcfree
      exact fun ha => he.apart hv hoff ha c hcl hcfree
    have hfree : freeCluster s.vol s.disk ≠ 0 := by
      rcases he.grown with hsame | hg
      · rw [← he.free hv h.hint hsame hoff, ← hres.found]
        exact hf
      · exact hg.2.2.2.2.2
    have hoff2 : dir'.OffTable t.vol := hoff'.rehinted he.vol
    have hfitsT : p + fs.length ≤ dir'.count t.vol := by
      rw [dir'.count_rehinted he.vol]
      exact he.fits
    have hplaced := hres.placed ho he.here hfitsT hoff2
    have hall := he.toPlaced.trans hplaced
    rw [List.append_nil] at hall
    refine .inr ⟨c, u, hrun, ?_, hfree, ?_⟩
    · rw [hi] at hcl hcfree
      exact (he.confined dir s.disk (.refl h.place hoff)).free hv hcl hcfree
    have hroom : dir.isRoot = true ∨ DirRoom s dir (p + fs.length + 1) :=
      hfits.imp id fun h => h.resolve_right fun h => hfree h.2
    have hhere := hplaced.here
    rw [List.length_nil, Nat.add_zero] at hhere
    rcases he.standing hpos (by omega) hroom (Nat.lt_succ_self _) with hlt | ⟨hr, hend⟩
    · refine .inr fun bs hbs => ?_
      have hlt' : p + fs.length < dir'.count u.vol := by
        rw [dir'.count_rehinted hplaced.vol]
        exact hlt
      obtain ⟨w, dir'', hw, he2⟩ := hplaced.opened.write hhere hlt' (by omega) hbs
      have hset := hres.set.fatEntry_self ho.layout.numFats trivial (fatEoc_lt _ ho.layout.toShape)
      refine ⟨w, dir'', hw, hall.trans he2.toPlaced, fun ha j hj => ?_, fun ha => ?_, fun hok => ?_⟩
      have hcount : ∀ dir : DirPlace, dir.count u.vol = dir.count s.vol :=
        fun dir => dir.count_rehinted hall.vol
      rcases Nat.lt_or_ge j (dir'.count s.vol) with hlt | hge
      · have hslot := he2.slot j (by rw [hcount]; exact hlt)
        rw [dir''.slot_rehinted hall.vol, dir'.slot_rehinted hall.vol] at hslot
        rw [hslot]
        exact hclear ha j hlt
      · -- the cluster has its end mark, so that it is not taken again
        have hmark : fatEntry t.vol u.disk 0 c ≠ 0 := by
          rw [hset]
          exact Nat.ne_of_gt (Nat.zero_lt_of_lt (hasEntry_lt_eoc ho.layout.toShape hcl.2))
        have hused := he2.used (hoff2.rehinted hplaced.vol) c
        rw [hres.vol, hi] at hused
        rw [hi] at hcl hmark
        exact (hused hcl hmark).2 j hge hj
      · -- and keeps it
        have hconf := he2.confined dir' u.disk (.refl hplaced.opened.place (hoff2.rehinted hplaced.vol))
        have hkeep := hconf.agree.fatEntry (c := c) (hplaced.vol.shape ho.layout.toShape)
          (hplaced.vol.shape ho.layout.toShape).numFats
        rw [hres.vol, hi] at hkeep
        rw [hi] at hcl hset
        refine (hkeep hcl.2 ?_).trans hset
        rintro ⟨-, hf0 | hhas⟩
        · exact absurd (hset.symm.trans hf0)
            (Nat.ne_of_gt (Nat.zero_lt_of_lt (hasEntry_lt_eoc (hv.hint i) hcl.2)))
        · obtain ⟨j, hj, hin⟩ := hhas.slot hv
          exact hclear ha j hj hin
      · exact he2.ok
          (DirPlace.Ok.rehinted (hres.rehinted ho.hint) (hres.ok ho.layout.toShape ho.hint (he.ok hok)))
    · have hr' : dir.isRoot = true := he.root ▸ hr
      have hcount : dir.count t.vol = dir.count s.vol := dir.count_rehinted he.vol
      refine .inl ⟨hr', ?_, hall, fun bs hbs => ?_⟩
      · rw [he.same_root hr', hcount] at hend
        exact hend
      · refine (hplaced.opened.put_none hhere hr ?_ hbs hres.coherent).1
        rw [dir'.count_rehinted hplaced.vol]
        exact hend

theorem DirFits.longs (h : DirFits s dir p (k + 1)) : dir.isRoot = true ∨ DirRoom s dir (p + k) := by
  rcases h with hr | hroom | ⟨hle, -⟩
  · exact .inl hr
  · exact .inr (hroom.mono (by omega))
  · exact .inr (.inl (by omega))

theorem enterDir_from (dst : HandleRef) (hc : CName name mem) (hdot : name ≠ [46]) (hs : ShortName sname)
    (hk : name.length / 13 + 2 ≤ 16) (h : Shown s dir es) (hin : ∀ e ∈ es, StoresInside e)
    (hp : p ≤ es.length) (hstand : Standing s.vol dir p) (hsmall : p + 16 < 2 ^ 26) (hoff : dir.OffTable s.vol)
    (hfits : DirFits s dir p (name.length / 13 + 2)) (hsafe : TableSafe s dir p (name.length / 13 + 2))
    (habsent : lookup name es 0 {} = none)
    (hseek : fatDirSeekEmpty .cwd (name.length / 13 + 2) s = .ok ⟨⟩ u)
    (hw1 : Walked (fun d => d = s.disk) dir dst s u) (hat : Reached u.vol dir p (u.handle .cwd)) :
    ∃ ret t, enterFile name mem attrDirectory dst sname s = .ok ret t ∧
      DirEnd name mem sname dst dir p s ret t := by
  have h1 := h.walked hw1
  have hfits1 : DirFits u dir p (name.length / 13 + 1 + 1) := by
    rw [DirFits, DirRoom, hw1.vol, hw1.disk]
    exact hfits
  have hsafe1 : TableSafe u dir p (name.length / 13 + 1 + 1) := by
    rw [TableSafe, hw1.vol, hw1.disk]
    exact hsafe
  have hlen := newLongs_length mem sname (name.length / 13) true
  obtain ⟨ok, t2, q, dir1, hlongs, he, hok, hno⟩ :=
    writeLongEntries_run mem sname (name.length / 13) true h1.toDirOpen hat
    (hw1.vol ▸ hstand) (by omega) (by omega) hfits1.longs (.inl hw1.coherent)
  rw [enterFile, bind_ok hseek, bind_ok hlongs]
  cases ok with
  | false =>
    obtain ⟨hq, hr, hfull⟩ := hno rfl
    exact ⟨-1, t2, rfl, .full q hw1 he (by omega) hr (hw1.vol ▸ hfull)⟩
  | true =>
    obtain rfl := hok rfl
    rw [List.take_of_length_le (Nat.le_of_eq hlen)] at he
    rw [if_neg (by decide)]
    have hres := he.reserve h1.toDirOpen (by omega) (by omega) (by omega) (hw1.vol ▸ hoff)
      (by rw [hlen]; exact hfits1) (by rw [hlen]; exact hsafe1)
    rcases hres with ⟨hf, u, halloc, hk⟩ | ⟨c, u, halloc, hcl, hfree, ⟨hr, hfull, hpl, hwrite⟩ | hwrite⟩
    · refine ⟨-1, u, ?_, .noCluster hw1 he hf hk⟩
      rw [bind_ok halloc]
      rfl
    · rw [hlen, hw1.vol] at hfull
      refine ⟨-1, u, ?_, .fullShort hw1 hpl hr hfull⟩
      rw [bind_ok halloc]
      dsimp only
      rw [bind_ok (hwrite _ (shortDirent_length sname attrDirectory c)), if_pos (by decide), pure_run]
    · obtain ⟨w, dir2, hput, hpl, hapart, hmark, hkept⟩ := hwrite _ (shortDirent_length sname attrDirectory c)
      have hpl' : Placed .cwd dir dir2 p (newEntries name mem sname attrDirectory c) _ w := hpl
      have hnew := fun e (he : e ∈ newEntries name mem sname attrDirectory c) =>
        newEntries_inside attrDirectory hs hk (by decide) (by decide) c he
      have h3 := hpl'.shown h1 hp (fun f hf => (hnew f hf).1) (by rw [newEntries_length]; omega)
      have hfound := lookup_store attrDirectory hc hs (by decide) (by decide) c hp habsent
      obtain ⟨a, m, t4, hopen, hw, hans⟩ := fatOpen_run (P := fun d => d = w.disk) name 0 dst hdot h3 rfl
        (scanInside_of_all (mem_store_inside hin fun f hf => (hnew f hf).2)) fun hl => by simp [hfound] at hl
      rw [hfound] at hans
      obtain ⟨rfl, e, hlast, rfl⟩ := hans
      rw [newEntries_last name mem sname attrDirectory c hp] at hlast
      obtain rfl := Option.some.inj hlast
      have hcs : s.vol.IsCluster c := hw1.vol ▸ hcl.1
      rw [openedHandle_dir hs hcs (hasEntry_lt_word h.layout.toShape hcs.2)] at hopen
      refine ⟨0, m.withHandle dst (newDirHandle c), ?_,
        .made hw1 hpl' hcs (by rw [← hw1.vol, ← hw1.disk]; exact hfree)
        (by rw [← hw1.vol, ← hw1.disk]; exact hapart) (by rw [← hw1.vol, ← hw1.disk]; exact hcl)
        (by rw [← hw1.vol, ← hw1.disk]; exact hmark) (by rw [← hw1.vol, ← hw1.disk]; exact hkept) hw⟩
      rw [bind_ok halloc]
      dsimp only
      rw [bind_ok hput, if_neg (by decide)]
      exact hopen

theorem enterDir_run (dst : HandleRef) (hc : CName name mem) (hdot : name ≠ [46]) (hs : ShortName sname)
    (hk : name.length / 13 + 2 ≤ 16) (h : Shown s dir es) (hin : ∀ e ∈ es, StoresInside e)
    (hend : dir.Ends s.vol s.disk es) (hsmall : es.length + 16 < 2 ^ 26) (hoff : dir.OffTable s.vol)
    (hfits : DirFits s dir (newPlace name es) (name.length / 13 + 2))
    (hsafe : TableSafe s dir (newPlace name es) (name.length / 13 + 2)) (habsent : lookup name es 0 {} = none) :
    ∃ ret t, enterFile name mem attrDirectory dst sname s = .ok ret t ∧
      DirEnd name mem sname dst dir (newPlace name es) s ret t := by
  have hp := newPlace_le name es
  obtain ⟨t1, h', hseek, hat, hm, hco⟩ :=
    fatDirSeekEmpty_run (P := fun d => d = s.disk) (name.length / 13 + 2) h hend rfl
  exact enterDir_from dst hc hdot hs hk h hin hp (hend.standing h.shows.fits hp) (by omega) hoff hfits hsafe
    habsent hseek (hm.walked hat.toDirHandle hco) (by rw [hm.self, hm.vol]; exact hat.reached)

-- ---------------------------------------------------------------------------
-- The cluster filled
-- ---------------------------------------------------------------------------

theorem putSector_run (hs : s.Mounted) (hq : s.Quiet) (hn : n < 2 ^ 32) :
    ∃ t, putSector n s = .ok ⟨⟩ t ∧ Became (fun _ => True) (s.disk.edit n fun _ => s.buf) s t ∧ t.buf = s.buf ∧
      t.Loaded n := by
  -- the buffer gets the label once nothing else is waiting in it
  have relabel : ∀ w : FatState, Kept (fun _ => True) s w → w.buf = s.buf →
      (∀ m, m ≠ n → w.stored m = s.disk m) → Became (fun _ => True) (s.disk.edit n fun _ => s.buf) s
      { w with cache := { bldev := .part, sector := n, dirty := true } } ∧
      ({ w with cache := { bldev := .part, sector := n, dirty := true } } : FatState).Loaded n := by
    intro w hk hbuf hstored
    have hdisk : ({ w with cache := { bldev := .part, sector := n, dirty := true } } : FatState).disk =
        s.disk.edit n fun _ => s.buf := by
      funext m
      by_cases hm : m = n
      · subst hm
        rw [Disk.edit_self]
        simp [FatState.disk, hbuf]
      · rw [Disk.edit_of_ne _ hm, ← hstored m hm]
        have hm' : ¬ n = m := fun h => hm h.symm
        simp only [FatState.disk, FatState.stored, hm', and_false, if_false]
    refine ⟨⟨⟨hk.part, ⟨hk.mounted.ready, hk.mounted.dev, hn, fun _ => rfl, hk.mounted.reads⟩, hk.quiet, ?_⟩,
      hdisk,
      hk.vol, hk.handle⟩, rfl, rfl, ?_⟩
    · obtain ⟨ws, h1, h2, h3⟩ := hk.writes
      exact ⟨ws, h1, h2, h3⟩
    · rw [hdisk, Disk.edit_self]
      exact hbuf
  by_cases hhit : s.cache.bldev = .part ∧ s.cache.sector = n
  · refine ⟨{ s with cache := { bldev := .part, sector := n, dirty := true } }, ?_, ?_⟩
    · simp only [putSector, get_bind, hs.dev, hhit.1, hhit.2, ne_eq, not_true_eq_false, or_self, if_false]
      rfl
    · obtain ⟨hb, hl⟩ := relabel s (.refl hs) rfl fun m hm => by
        have hm' : ¬ s.cache.sector = m := hhit.2 ▸ fun h => hm h.symm
        simp only [FatState.disk, hm', and_false, if_false]
      exact ⟨hb, rfl, hl⟩
  · obtain ⟨w, hrun, hk, hcache, hbuf⟩ := flush_run (P := fun _ => True) hs hq trivial
    have hmiss : s.cache.bldev ≠ .part ∨ s.cache.sector ≠ n := not_and_or.mp hhit
    refine ⟨{ w with cache := { bldev := .part, sector := n, dirty := true } }, ?_, ?_⟩
    · simp only [putSector, get_bind, hs.dev, hmiss, if_true, bind_ok hrun]
      rfl
    · obtain ⟨hb, hl⟩ := relabel w hk hbuf fun m _ => by
        rw [← hk.disk, FatState.disk_clean (by rw [hcache])]
      exact ⟨hb, hbuf, hl⟩

theorem putLoop_run (n m : Nat) (hs : s.Mounted) (hq : s.Quiet) (hm : m + n ≤ 2 ^ 32) :
    ∃ t, putLoop n m s = .ok ⟨⟩ t ∧
      Became (fun _ => True) (fun i => if m ≤ i ∧ i < m + n then s.buf else s.disk i) s t ∧
        (0 < n → t.Coherent) := by
  induction n generalizing s m with
  | zero =>
    refine ⟨s, rfl, ?_, fun h => absurd h (Nat.lt_irrefl 0)⟩
    have hsame : (fun i => if m ≤ i ∧ i < m + 0 then s.buf else s.disk i) = s.disk := by
      funext i
      rw [if_neg (by omega)]
    rw [hsame]
    exact Kept.refl hs
  | succ n ih =>
    have hmlt : m < 2 ^ 32 := by omega
    obtain ⟨t, hput, hb, hbuf, hl⟩ := putSector_run hs hq hmlt
    obtain ⟨u, hrun, hb', hco⟩ := ih (m + 1) hb.mounted (hb.quiet hq) (by omega)
    have hdisk : (fun i => if m + 1 ≤ i ∧ i < m + 1 + n then t.buf else t.disk i) =
        fun i => if m ≤ i ∧ i < m + (n + 1) then s.buf else s.disk i := by
      funext i
      rw [hbuf, hb.disk]
      by_cases hi : i = m
      · subst hi
        rw [if_neg (by omega), Disk.edit_self, if_pos (by omega)]
      · rw [Disk.edit_of_ne _ hi]
        by_cases hin : m + 1 ≤ i ∧ i < m + 1 + n
        · rw [if_pos hin, if_pos (by omega)]
        · rw [if_neg hin, if_neg (by omega)]
    rw [hdisk] at hb'
    refine ⟨u, ?_, hb.trans hb', fun _ => ?_⟩
    · rw [putLoop, u32, Nat.mod_eq_of_lt hmlt, bind_ok hput]
      exact hrun
    · cases n with
      | zero =>
        cases hrun
        exact hl.coherent
      | succ n => exact hco (Nat.succ_pos n)

def fillDir : FatM Int := returning minusEIO do
  flushSector
  let v ← getVol
  modifyBuf fun b i => if i < v.bytesPerSector then 0 else b i
  let dir ← getHandle .dir
  putLoop v.sectorsPerCluster (fatFirstSectorOfCluster v dir.firstCluster)
  let ret ← fatWrite .dir (dotDirent 1 dir.firstCluster)
  if ret < 0 then pure ret
  else
    let cwd ← getHandle .cwd
    let parent := if !cwd.rootFlag ∧ v.rootCluster ≠ cwd.firstCluster then cwd.firstCluster else 0
    let ret ← fatWrite .dir (dotDirent 2 parent)
    pure (if ret < 0 then ret else 0)

theorem fatMkdir_eq (name : List UInt8) (mem : Nat → UInt8) :
    fatMkdir name mem = fatDirCreateFile name mem attrDirectory .dir >>= fun ret => if ret ≠ 0 then pure ret
      else fillDir :=
  rfl

/-- A call that changed the sectors of one cluster only, and made of the handle `dir` what it liked. -/
structure Filled (c : Nat) (s t : FatState) : Prop extends Ran (fun _ => True) s t where
  vol : t.vol = s.vol
  others : ∀ r, r ≠ .dir → t.handle r = s.handle r
  disk : ∀ n, ¬ s.vol.InCluster c n → t.disk n = s.disk n
  coherent : t.Coherent

theorem Filled.trans (h1 : Filled c s t) (h2 : Filled c t u) : Filled c s u where
  toRan := h1.toRan.trans h2.toRan
  vol := h2.vol.trans h1.vol
  others := fun r hr => (h2.others r hr).trans (h1.others r hr)
  disk := fun n hn => (h2.disk n (by rw [h1.vol]; exact hn)).trans (h1.disk n hn)
  coherent := h2.coherent

theorem Entered.filled (hv : s.vol.Shape) (he : Entered .dir (.chain [c]) dir' p fs s t)
    (hroom : p + fs.length < 16) :
    dir' = .chain [c] ∧ Filled c s t := by
  have hspc := spc_pos hv
  have hcount : 16 ≤ (DirPlace.chain [c]).count s.vol := by
    simp only [DirPlace.count, List.length_singleton]
    omega
  have hsame : dir' = .chain [c] := he.grown.resolve_right fun hg => by omega
  obtain ⟨hvol, hco, hdisk⟩ := he.same hsame
  refine ⟨hsame, he.toRan, hvol, he.others, fun n hn => hdisk n fun j hj h => ?_, hco⟩
  have hin := chainSector_inCluster hv [c] (32 * j)
  have hidx := slot_index hj
  rw [slot_div_cluster, Nat.lt_one_iff.mp hidx] at hin
  rw [h] at hn
  exact hn hin

theorem zeroCluster_run (hs : s.Mounted) (hq : s.Quiet) (hv : s.vol.Shape) (hcl : s.vol.IsCluster c) :
    ∃ t u, flushSector s = .ok ⟨⟩ t ∧ t.vol = s.vol ∧ t.handle = s.handle ∧
      putLoop s.vol.sectorsPerCluster (fatFirstSectorOfCluster s.vol c)
        { t with buf := fun i => if i < s.vol.bytesPerSector then 0 else t.buf i } = .ok ⟨⟩ u ∧
      u.handle = s.handle ∧ Filled c s u ∧ ∀ n, s.vol.InCluster c n → ∀ i < 512, u.disk n i = 0 := by
  obtain ⟨t, hflush, hk, hcache, -⟩ := flush_run (P := fun _ => True) hs hq trivial
  have hclean : t.cache.dirty = false := by rw [hcache]
  let z : FatState := { t with buf := fun i => if i < s.vol.bytesPerSector then 0 else t.buf i }
  have hdisk : z.disk = s.disk := by
    rw [← hk.disk, FatState.disk_clean (s := z) hclean, FatState.disk_clean hclean]
    rfl
  have hm : z.Mounted :=
    ⟨hk.mounted.ready, hk.mounted.dev, hk.mounted.label, hk.mounted.bldev, hk.mounted.reads⟩
  have hran : Ran (fun _ => True) s z := ⟨hk.part, hm, hk.quiet, hk.writes⟩
  obtain ⟨u, hput, hb, hco⟩ :=
    putLoop_run (s := z) s.vol.sectorsPerCluster (s.vol.clusterSector c) hm (hk.quiet hq)
    (clusterSector_le hv hcl)
  have hhandle : u.handle = s.handle := hb.handle.trans hk.handle
  rw [← fatFirstSectorOfCluster_eq hv hcl] at hput
  refine ⟨t, u, hflush, hk.vol, hk.handle, hput, hhandle, ⟨hran.trans hb.toRan, hb.vol.trans hk.vol,
    fun r _ => by rw [hhandle], fun n hn => ?_, hco (spc_pos hv)⟩, fun n hn i hi => ?_⟩
  · rw [hb.disk, hdisk]
    exact if_neg hn
  · rw [hb.disk]
    dsimp only
    rw [if_pos (show s.vol.clusterSector c ≤ n ∧ n < s.vol.clusterSector c + s.vol.sectorsPerCluster from hn)]
    exact if_pos (by rw [hv.bytes]; exact hi)

theorem dotDirent_named (dots cluster : Nat) (hdots : dots = 1 ∨ dots = 2) :
    longName (structOf (dotDirent dots cluster)) = false ∧ structOf (dotDirent dots cluster) 0 ≠ 0 := by
  have hattr := shortDirent_attr (List.replicate dots 46 ++ List.replicate (11 - dots) 32) attrDirectory cluster
  refine ⟨?_, ?_⟩
  · rw [longName, dotDirent, hattr]
    rfl
  · have hfirst : structOf (dotDirent dots cluster) 0 = 46 := by
      rw [dotDirent, shortDirent_apply _ _ _ (by decide), put16_of_ne (by decide) (by decide),
        put16_of_ne (by decide) (by decide),
        put8_of_ne (by decide), memcpy_apply]
      rcases hdots with rfl | rfl <;> rfl
    rw [hfirst]
    decide

def parentOf (s : FatState) : Nat :=
  if !(s.handle .cwd).rootFlag ∧
    s.vol.rootCluster ≠ (s.handle .cwd).firstCluster then (s.handle .cwd).firstCluster else 0

def dotEntries (c parent : Nat) : List Sector := [structOf (dotDirent 1 c), structOf (dotDirent 2 parent)]

theorem fillDir_run (hs : s.Mounted) (hq : s.Quiet) (hv : s.vol.Layout) (hh : s.vol.HintOk)
    (hcl : s.vol.IsCluster c) (hd : s.handle .dir = newDirHandle c) :
    ∃ t, fillDir s = .ok 0 t ∧ Filled c s t ∧
      (DirPlace.chain [c]).Lists s.vol t.disk (dotEntries c (parentOf s)) := by
  have hspc := spc_pos hv.toShape
  obtain ⟨t1, t2, hflush, hvol1, hhandle1, hput, hhandle2, hf2, hzero⟩ := zeroCluster_run hs hq hv.toShape hcl
  have hvol2 := hf2.vol
  have hopen2 : DirOpen t2 .dir (.chain [c]) := by
    refine ⟨hf2.mounted, hf2.quiet hq, hvol2 ▸ hv, hvol2 ▸ hh, ?_, ?_, fun _ _ => hf2.coherent _⟩
    · refine ⟨Nat.one_pos, fun c' hc' => ?_, fun k hk => absurd hk (Nat.not_lt_of_le (Nat.le_add_left 1 k)),
        List.nodup_singleton c⟩
      rw [List.mem_singleton.mp hc', hvol2]
      exact hcl
    · rw [hhandle2, hd]
      exact ⟨rfl, rfl, rfl, rfl, rfl⟩
  have hcount : 16 ≤ (DirPlace.chain [c]).count s.vol := by
    simp only [DirPlace.count, List.length_singleton]
    omega
  have hat : Reached t2.vol (.chain [c]) 0 (t2.handle .dir) := by
    refine ⟨hopen2.handle, ?_, fun _ => ?_⟩
    · rw [hhandle2, hd]
      rfl
    · rw [hhandle2, hd, DirPlace.cur, Nat.zero_div]
      rfl
  obtain ⟨t3, dir3, hdot, he3⟩ := hopen2.write hat (by rw [hvol2]; omega) (by decide)
    (shortDirent_length (List.replicate 1 46 ++ List.replicate (11 - 1) 32) attrDirectory c)
  obtain ⟨rfl, hf3⟩ := he3.filled (hvol2 ▸ hv.toShape) (by rw [List.length_singleton]; decide)
  have hcwd : t3.handle .cwd = s.handle .cwd := (hf3.others .cwd (by decide)).trans (by rw [hhandle2])
  obtain ⟨t4, dir4, hdots, he4⟩ :=
    he3.opened.write he3.here (by rw [List.length_singleton, hf3.vol, hvol2]; omega)
    (by rw [List.length_singleton]; decide)
    (shortDirent_length (List.replicate 2 46 ++ List.replicate (11 - 2) 32) attrDirectory (parentOf s))
  obtain ⟨rfl, hf4⟩ := he4.filled (by rw [hf3.vol, hvol2]; exact hv.toShape)
    (by rw [List.length_singleton, List.length_singleton]; decide)
  have hall := hf2.trans (hf3.trans hf4)
  have hlists : ∀ j < (DirPlace.chain [c]).count s.vol, (DirPlace.chain [c]).entry s.vol t4.disk j =
      if j = 0 then structOf (dotDirent 1 c) else if j = 1 then structOf (dotDirent 2 (parentOf s))
        else fun _ => 0 := fun j hj => by
    have h4 := he4.entry j (by rw [hf3.vol, hvol2]; exact hj)
    have h3 := he3.entry j (by rw [hvol2]; exact hj)
    rw [hf3.vol, hvol2] at h4
    rw [hvol2] at h3
    rw [h4, DirPlace.entryWith, h3, DirPlace.entryWith, if_pos hj, if_pos hj]
    simp only [List.length_singleton]
    rcases Nat.lt_trichotomy j 1 with hlt | rfl | hgt
    · obtain rfl := Nat.lt_one_iff.mp hlt
      rw [if_neg (by omega), if_pos (by omega), if_pos rfl]
      rfl
    · rw [if_pos (by omega), if_neg (by decide), if_pos rfl]
      rfl
    · rw [if_neg (by omega), if_neg (by omega), if_neg (by omega), if_neg (by omega), DirPlace.entry]
      funext b
      rw [entryAt_apply]
      split
      next hb =>
        have hin := chainSector_inCluster hv.toShape [c] (32 * j)
        have hidx := slot_index hj
        rw [slot_div_cluster, Nat.lt_one_iff.mp hidx] at hin
        exact hzero _ hin _ (by show 32 * (j % 16) + b < 512; omega)
      next => rfl
  have hcontent : ∀ i e, (dotEntries c (parentOf s))[i]? = some e →
      (DirPlace.chain [c]).entry s.vol t4.disk i = e := fun i e he => by
    have hi : i < 2 := (List.getElem?_eq_some_iff.mp he).1
    rw [hlists i (by omega)]
    interval_cases i
    · exact Option.some.inj he
    · exact Option.some.inj he
  refine ⟨t4, returning_ok ?_, hall, hcontent, fun e he => ?_, Nat.le_trans (by decide : 2 ≤ 16) hcount,
    fun _ => Nat.lt_of_lt_of_le (by decide : 2 < 16) hcount, fun i hi hi' => ?_⟩
  · have hdot' : fatWrite .dir (dotDirent 1 c) t2 = .ok 32 t3 := hdot
    have hdir : t1.handle .dir = newDirHandle c := by rw [hhandle1, hd]
    rw [bind_ok hflush, getVol_bind, hvol1, modifyBuf, modify_bind, getHandle_bind]
    dsimp only
    rw [hdir, newDirHandle]
    dsimp only
    rw [bind_ok hput, bind_ok hdot', if_neg (by decide), getHandle_bind, hcwd]
    exact bind_ok hdots
  · rcases List.mem_cons.mp he with rfl | he
    · exact (dotDirent_named 1 c (.inl rfl)).2
    · rw [List.mem_singleton.mp he]
      exact (dotDirent_named 2 _ (.inr rfl)).2
  · have hge : 2 ≤ i := hi
    rw [hlists i hi', if_neg (by omega), if_neg (by omega)]

theorem DirEnd.walked (hw : Walked (fun d => d = s.disk) dir dst s u)
    (h : DirEnd name mem sname dst dir p u ret t) :
    DirEnd name mem sname dst dir p s ret t := by
  cases h with
  | full q hw' he hq hr hend => exact .full q (hw.then hw') he hq hr (hw.vol ▸ hend)
  | fullShort hw' he hr hend => exact .fullShort (hw.then hw') he hr (hw.vol ▸ hend)
  | noCluster hw' he hf hk => exact .noCluster (hw.then hw') he hf hk
  | made hw' he hc hf hapart hloose hmark hok hm =>
    rw [hw.vol] at hc
    rw [hw.vol, hw.disk] at hf hapart hloose hmark hok
    exact .made (hw.then hw') he hc hf hapart hloose hmark hok hm

theorem DirEnd.opened (h : DirEnd name mem sname .dir dir p s 0 t) :
    t.Mounted ∧ (s.Quiet → t.Quiet) ∧ t.vol.Layout ∧ t.vol.HintOk ∧
      ∃ c, t.vol.IsCluster c ∧ t.handle .dir = newDirHandle c := by
  cases h with
  | @made s' u m dir' c hw he hc hf hapart hloose hmark hok hm =>
    obtain ⟨i, hi, -⟩ := he.vol
    refine ⟨hm.toRan.withHandle.mounted, fun hq => hm.toRan.withHandle.quiet (he.quiet (hw.quiet hq)),
      ?_, ?_, c, ?_,
      withHandle_handle⟩
    · rw [withHandle_vol, hm.vol]
      exact he.opened.layout
    · rw [withHandle_vol, hm.vol]
      exact he.opened.hint
    · rw [withHandle_vol, hm.vol, hi, hw.vol]
      exact hc

theorem fatMkdir_run (hc : CName name mem) (hdot : name ≠ [46])
    (hshort : ∀ n, ShortName (buildShortName name n)) (hk : name.length / 13 + 2 ≤ 16) (h : Shown s dir es)
    (hin : ScanInside name es {}) (hend : lookup name es 0 {} = none → dir.Ends s.vol s.disk es)
    (hsmall : es.length + 16 < 2 ^ 26) (hoff : dir.OffTable s.vol)
    (hroom : lookup name es 0 {} = none → freshName name es 9 1 ≠ none →
      DirFits s dir (newPlace name es) (name.length / 13 + 2) ∧
      TableSafe s dir (newPlace name es) (name.length / 13 + 2)) :
    ∃ ret t, fatMkdir name mem s = .ok ret t ∧
      match lookup name es 0 {}, freshName name es 9 1 with
      | none, some sname => ∃ u, DirEnd name mem sname .dir dir (newPlace name es) s ret u ∧ (ret ≠ 0 → t = u) ∧
          (ret = 0 → ∃ c, u.handle .dir = newDirHandle c ∧ Filled c u t ∧
            (DirPlace.chain [c]).Lists u.vol t.disk (dotEntries c (parentOf u)))
      | _, _ => ret = -1 ∧ Walked (fun d => d = s.disk) dir .dir s t := by
  obtain ⟨u, hw, hrun⟩ :=
    withShortName_run (enterFile name mem attrDirectory .dir) .dir (by decide) hdot h hin hend
  have stop : withShortName name .dir (enterFile name mem attrDirectory .dir) s = .ok (-1) u →
      fatMkdir name mem s = .ok (-1) u := fun hstop => by
    rw [fatMkdir_eq, fatDirCreateFile_eq, bind_ok hstop]
    rfl
  cases hl : lookup name es 0 {} with
  | some j =>
    rw [hl] at hrun
    exact ⟨-1, u, stop hrun, rfl, hw⟩
  | none =>
    rw [hl] at hrun
    cases hf : freshName name es 9 1 with
    | none =>
      rw [hf] at hrun
      exact ⟨-1, u, stop hrun, rfl, hw⟩
    | some sname =>
      rw [hf] at hrun
      obtain ⟨-, n, rfl⟩ := freshName_absent hf
      obtain ⟨hfits, hsafe⟩ := hroom hl (by simp [hf])
      obtain ⟨ret, t, henter, hmade⟩ :=
        enterDir_run .dir hc hdot (hshort n) hk (h.walked hw) ((scanInside_of_none hl).mp hin)
        (by rw [hw.vol, hw.disk]; exact hend hl) hsmall (hw.vol ▸ hoff)
        (by rw [DirFits, DirRoom, hw.vol, hw.disk]; exact hfits)
          (by rw [TableSafe, hw.vol, hw.disk]; exact hsafe) hl
      have hmade' := hmade.walked hw
      have hcreate := hrun.trans henter
      by_cases hret : ret = 0
      · subst hret
        obtain ⟨hm, hq, hv, hh, c, hcl, hd⟩ := hmade'.opened
        obtain ⟨v, hfill, hfilled, hlists⟩ := fillDir_run hm (hq h.quiet) hv hh hcl hd
        refine ⟨0, v, ?_, t, hmade', fun h => absurd rfl h, fun _ => ⟨c, hd, hfilled, hlists⟩⟩
        rw [fatMkdir_eq, fatDirCreateFile_eq, bind_ok hcreate]
        exact hfill
      · refine ⟨ret, t, ?_, t, hmade', fun _ => rfl, fun h => absurd h hret⟩
        rw [fatMkdir_eq, fatDirCreateFile_eq, bind_ok hcreate, if_pos hret]
        rfl

end Stm32Logger
