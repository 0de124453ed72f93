import Stm32Logger.Fat.FailedCreate
import Stm32Logger.Fat.Logs

/-!
# The logger's own directory

`CreateDir` makes a directory in the current one and goes into it. What was
there before stays, the new directory lists `.` and `..`, and it can be entered
again from where it was made, with the logs that are in it by then.
-/

namespace Stm32Logger

variable {s t u : FatState} {v v' : FatVolHandle} {d d' : Disk} {dir dir' dir0 : DirPlace}
  {es es' : List Sector}
    {e : Slot}
  {name sname : List UInt8} {mem : Nat → UInt8} {cs : List Nat} {c parent : Nat}
    {hd : FatFileHandle} {d0 : Disk}

-- ---------------------------------------------------------------------------
-- A directory seen from elsewhere
-- ---------------------------------------------------------------------------

theorem DirHandle.onward (hv : v.Shape) (hp : dir.Path v d) (hp' : dir'.Path v d')
    (hroot : dir'.isRoot = dir.isRoot) (hslot : dir'.slot v 0 = dir.slot v 0) (h : DirHandle v dir hd) :
    DirHandle v dir' hd := by
  cases dir with
  | root =>
    cases dir' with
    | root => exact h
    | chain cs' => exact absurd hroot Bool.false_ne_true
  | chain cs =>
    cases dir' with
    | root => exact absurd hroot.symm Bool.false_ne_true
    | chain cs' =>
      have hpos : 0 < cs.length := PathOk.pos hp
      have hpos' : 0 < cs'.length := PathOk.pos hp'
      have hin := chainSector_inCluster hv cs (32 * 0)
      have hin' := chainSector_inCluster hv cs' (32 * 0)
      have hsec : chainSector v cs' (32 * 0) = chainSector v cs (32 * 0) := congrArg Slot.sector hslot
      rw [Nat.mul_zero, Nat.zero_div] at hin hin'
      rw [Nat.mul_zero] at hsec
      rw [hsec] at hin'
      have hsame := cluster_unique (PathOk.cluster hp _ (getD_mem hpos)).1
          (PathOk.cluster hp' _ (getD_mem hpos')).1 hin hin'
      refine ⟨h.fat, h.root, ?_, h.size, h.dirent⟩
      have hhead : ∀ cs : List Nat, cs.headD 0 = cs.getD 0 0 := fun cs => by cases cs <;> rfl
      rw [h.first, DirPlace.first, DirPlace.first, hhead, hhead, hsame]

theorem Shown.agree {C : Nat → Prop} {B : Nat → Nat → Prop} (h : Shown s dir es) (hm : t.Mounted)
    (hq : t.Quiet) (hvol : Rehinted s.vol t.vol) (hco : t.Coherent) (hh : DirHandle s.vol dir (t.handle .cwd))
    (ho : dir.OffTable s.vol) (ha : Agree s.vol C B s.disk t.disk) (hC : ∀ c, dir.Has c → ¬ C c)
    (hB : ∀ j < dir.count s.vol, ∀ i, ¬ B (dir.slot s.vol j).sector i) : Shown t dir es := by
  have hv := h.layout.toShape
  have hpath : dir.Path s.vol t.disk := by
    have hp : dir.Path s.vol s.disk := h.place
    cases dir with
    | root => exact hp
    | chain cs =>
      exact PathOk.congr hp fun c hc => ha.fatEntry hv hv.numFats (PathOk.cluster hp c hc).2 (hC c hc)
  refine ⟨⟨hm, hq, hvol.layout h.layout, hvol.hintOk h.hint, hpath.rehinted hvol, hh.rehinted hvol,
    fun _ _ => hco _⟩,
    ⟨fun i e he => ?_, h.shows.used, ?_⟩, h.small⟩
  · have hi := Nat.lt_of_lt_of_le (List.getElem?_eq_some_iff.mp he).1 h.shows.fits
    rw [dir.entry_rehinted hvol, ← h.shows.entry i e he]
    exact entryAt_congr (ha.slotBytes (ho i hi) fun _ _ => hB i hi _)
  · rw [dir.count_rehinted hvol]
    exact h.shows.fits

theorem Confined.filled (hv : v.Shape) (h : Confined v dir0 d0 dir d) (hc : dir0.Loose v d0 c)
    (hd : ∀ n, ¬ v.InCluster c n → d' n = d n) : Confined v dir0 d0 dir d' where
  off := h.off
  agree := by
    refine h.agree.trans
      ⟨fun k hk j hj _ => fatNibble_congr hk hj fun n hn => hd n fun hin => ?_, fun n b _ hn => ?_⟩
    · exact not_inFat_of_cluster hv hin hn
    · rw [hd n fun hin => hn (.inl ⟨c, hc, hin⟩)]
  copies := fun hcp => (h.copies hcp).congr hv fun n hn => hd n fun hin => not_inFat_of_cluster hv hin hn
  has := h.has
  root := h.root

theorem DirPlace.Outside.apart (hv : v.Shape) (h : dir.Outside v) (hd : dir.Ok v d) : dir.Apart v d :=
  fun _ hc hf _ hj hin => hd.used hv (h.has hv (hd.path hv) hj hc hin) hf

-- ---------------------------------------------------------------------------
-- fat_mkdir and fat_chdir
-- ---------------------------------------------------------------------------

/-- A directory made in cluster `c` of the one at `dir`, which is at `dir'` now. -/
structure DirMade (name : List UInt8) (mem : Nat → UInt8) (sname : List UInt8) (c parent : Nat)
    (dir dir' : DirPlace) (es : List Sector) (s t : FatState) : Prop where
  vol : Rehinted s.vol t.vol
  shown : Shown t dir' (Slots.store (newPlace name es) (newEntries name mem sname attrDirectory c) es)
  coherent : t.Coherent
  cluster : s.vol.IsCluster c
  free : fatEntry s.vol s.disk 0 c = 0
  mark : fatEntry s.vol t.disk 0 c = fatEoc s.vol
  confined : Confined s.vol dir s.disk dir' t.disk
  ok : dir'.Ok t.vol t.disk
  apart : ∀ j < dir'.count s.vol, ¬ s.vol.InCluster c (dir'.slot s.vol j).sector
  root : dir'.isRoot = dir.isRoot
  slot : ∀ j < dir.count s.vol, dir'.slot s.vol j = dir.slot s.vol j
  count : dir.count s.vol ≤ dir'.count s.vol
  lists : (DirPlace.chain [c]).Lists s.vol t.disk (dotEntries c parent)

theorem DirEnd.filled (hs : ShortName sname) (hk : name.length / 13 + 2 ≤ 16) (h : Listed s dir es)
    (hout : dir.Outside s.vol)
    (hsmall : es.length + 16 < 2 ^ 26) (hmade : DirEnd name mem sname .dir dir (newPlace name es) s 0 u)
    (hhandle : u.handle .dir = newDirHandle c) (hfill : Filled c u t)
    (hlists : (DirPlace.chain [c]).Lists u.vol t.disk (dotEntries c parent)) :
    ∃ dir', DirMade name mem sname c parent dir dir' es s t := by
  have hv := h.layout.toShape
  have hoff := hout.offTable hv
  have hp := newPlace_le name es
  have hapart := hout.apart hv h.place
  cases hmade with
  | @made s' u0 m dir' c' hw he hcl hf hclear hloose hmark hok hm =>
    rw [withHandle_handle] at hhandle
    obtain rfl : c' = c := congrArg FatFileHandle.firstCluster hhandle
    have hclear := hclear hapart
    have hvol0 : Rehinted s.vol u0.vol := hw.vol ▸ he.vol
    have hvolt : t.vol = u0.vol := hfill.vol.trans hm.vol
    have hvol : Rehinted s.vol t.vol := hvolt ▸ hvol0
    have hvolu : (m.withHandle .dir (newDirHandle c')).vol = u0.vol := hm.vol
    have hdisk : ∀ n, ¬ s.vol.InCluster c' n → t.disk n = u0.disk n := fun n hn => by
      have hd := hfill.disk n
      rw [hvolu] at hd
      obtain ⟨i, hi, -⟩ := hvol0
      rw [hi] at hd
      rw [hd hn, withHandle_disk, hm.disk]
    have hconf : Confined s.vol dir s.disk dir' u0.disk := by
      have hc := he.confined dir s.disk
      rw [hw.vol, hw.disk] at hc
      exact hc (.refl (h.place.path hv) hoff)
    have hconft := hconf.filled hv hloose hdisk
    have hslot : ∀ j < dir.count s.vol, dir'.slot s.vol j = dir.slot s.vol j := by
      have hslot := he.slot
      rw [hw.vol] at hslot
      exact hslot
    have hcount : dir.count s.vol ≤ dir'.count s.vol := by
      have hcount := he.count
      rw [hw.vol] at hcount
      exact hcount
    have hfree : fatEntry s.vol s.disk 0 c' = 0 := hloose.2.resolve_right fun hhas => by
      obtain ⟨j, hj, hin⟩ := hhas.slot hv
      refine hclear j (Nat.lt_of_lt_of_le hj hcount) ?_
      rw [hslot j hj]
      exact hin
    have hfat : ∀ n, s.vol.InFat n → t.disk n = u0.disk n := fun n hn =>
      hdisk n fun hin => not_inFat_of_cluster hv hin hn
    have hnew := fun e (he : e ∈ newEntries name mem sname attrDirectory c') =>
      newEntries_inside attrDirectory hs hk (by decide) (by decide) c' he
    have hshown : Shown (m.withHandle .dir (newDirHandle c')) dir'
        (Slots.store (newPlace name es) (newEntries name mem sname attrDirectory c') es) :=
      ((he.shown (h.shown.walked hw) hp (fun f hf => (hnew f hf).1) (by rw [newEntries_length]; omega)).walked
        hm).withHandle
        (by decide) _
    have hroot : dir'.isRoot = dir.isRoot := he.root
    refine ⟨dir', hvol, ?_, hfill.coherent, hcl, hfree, ?_, hconft, ?_, hclear, hroot, hslot, hcount, ?_⟩
    · refine hshown.agree (C := fun _ => False) (B := fun n _ => s.vol.InCluster c' n) hfill.mounted
        (hfill.quiet hshown.quiet)
        (hfill.vol ▸ .refl _) hfill.coherent ?_ ?_ ?_ (fun _ _ => id) ?_
      · rw [hfill.others .cwd (by decide)]
        exact hshown.handle
      · exact hconf.off.rehinted (hvolu ▸ hvol0)
      · rw [hvolu]
        obtain ⟨i, hi, -⟩ := hvol0
        rw [hi]
        exact ⟨fun k hk j hj _ =>
          fatNibble_congr hk hj fun n hn => by rw [withHandle_disk, hm.disk]; exact hfat n hn,
          fun n i _ hn => by rw [withHandle_disk, hm.disk, hdisk n hn]⟩
      · rw [hvolu, dir'.count_rehinted hvol0]
        intro j hj _
        rw [dir'.slot_rehinted hvol0]
        exact hclear j hj
    · rw [fatEntry_congr hv hv.numFats hcl.2 hfat]
      exact hmark hapart
    · have hok := hok h.place
      rw [hvolt]
      cases dir' with
      | root => exact hok
      | chain cs =>
        refine ChainOk.congr hok fun j hj => ?_
        have hj' := (ChainOk.cluster hok j hj).2
        obtain ⟨i, hi, -⟩ := hvol0
        rw [hi] at hj' ⊢
        exact fatEntry_congr (hv.hint i) hv.numFats hj' hfat
    · rw [hvolu] at hlists
      obtain ⟨i, hi, -⟩ := hvol0
      rw [hi] at hlists
      exact ⟨hlists.entry, hlists.used, hlists.fits, hlists.stop, hlists.rest⟩

/-- The current directory is a new one in cluster `c`, made in the directory at `dir`, which is at `dir'`
now and lists `es'`; the handle the old one was open with enters the new one under `name` again. -/
structure InNewDir (name : List UInt8) (c parent : Nat) (dir dir' : DirPlace) (es es' : List Sector)
    (s t : FatState) :
    Prop where
  vol : Rehinted s.vol t.vol
  listed : Listed t (.chain [c]) (dotEntries c parent)
  coherent : t.Coherent
  cluster : s.vol.IsCluster c
  free : fatEntry s.vol s.disk 0 c = 0
  confined : Confined s.vol dir s.disk dir' t.disk
  outer : Shown (t.withHandle .cwd (s.handle .cwd)) dir' es'
  inside : ∀ e ∈ es', StoresInside e
  outside : dir'.Outside s.vol
  used : ∀ c', dir'.Has c' → fatEntry s.vol t.disk 0 c' ≠ 0 ∧ c' ≠ c
  slot : ∀ j < dir.count s.vol, dir'.slot s.vol j = dir.slot s.vol j
  count : dir.count s.vol ≤ dir'.count s.vol
  entry : ∀ (i : Nat) e, es[i]? = some e → deleted e = false → es'[i]? = some e
  found : ∃ j e, lookup name es' 0 {} = some j ∧ es'[j]? = some e ∧ ∀ v slot,
    openedHandle v e slot 0 = newDirHandle c

theorem DirMade.entered (hs : ShortName sname) (h : Listed s dir es) (hout : dir.Outside s.vol)
    (hm : DirMade name mem sname c parent dir dir' es s t)
    (hinside : ∀ e ∈ Slots.store (newPlace name es) (newEntries name mem sname attrDirectory c) es,
      StoresInside e)
    (hfound : lookup name (Slots.store (newPlace name es) (newEntries name mem sname attrDirectory c) es) 0 {} =
      some (newPlace name es + name.length / 13 + 1))
    (hw : Walked (fun d => d = t.disk) dir' .cwd t u) :
    InNewDir name c parent dir dir' es
      (Slots.store (newPlace name es) (newEntries name mem sname attrDirectory c) es) s
      (u.withHandle .cwd (newDirHandle c)) := by
  have hv := h.layout.toShape
  have hp := newPlace_le name es
  have hlen := newEntries_length name mem sname attrDirectory c
  have hvol : Rehinted s.vol u.vol := hw.vol ▸ hm.vol
  have hlt := hasEntry_lt_word hv hm.cluster.2
  have hwvol : (u.withHandle .cwd (newDirHandle c)).vol = u.vol := rfl
  have hpath : dir'.Path s.vol t.disk := hm.vol.of_path (hm.ok.path hm.shown.layout.toShape)
  have hout' : dir'.Outside s.vol := fun hr => by
    obtain rfl := hm.confined.root hr
    exact hout hr
  have hran : Ran (fun d => d = t.disk) t (u.withHandle .cwd (newDirHandle c)) := hw.toRan.withHandle
  refine ⟨hvol, ?_, fun n => (hw.coherent n).withHandle, hm.cluster, hm.free, ?_, ?_, hinside, hout',
      fun c' hc' =>
    ⟨?_, ?_⟩, hm.slot,
    hm.count, fun i e he hd => ?_, _, _, hfound, newEntries_last name mem sname attrDirectory c hp,
    fun v slot => openedHandle_dir hs hm.cluster hlt v slot⟩
  · refine ⟨hran.mounted, hran.quiet hm.shown.quiet, hvol.layout h.layout, hvol.hintOk h.hint,
      hvol.chainOk ⟨?_, fun a ha => ?_⟩, ?_, ?_,
      fun e he _ hlong => ?_, (by decide : 2 < 2 ^ 26), fun _ _ => (hw.coherent _).withHandle⟩
    · rw [withHandle_disk, hw.disk]
      exact hm.mark
    · rw [List.mem_singleton.mp ha]
      exact hm.cluster
    · rw [withHandle_handle]
      exact ⟨rfl, rfl, rfl, rfl, rfl⟩
    · rw [withHandle_disk, hw.disk]
      have hl := hm.lists
      obtain ⟨i, hi, -⟩ := hvol
      rw [hwvol, hi]
      exact ⟨hl.entry, hl.used, hl.fits, hl.stop, hl.rest⟩
    · rcases List.mem_cons.mp he with rfl | he
      · exact absurd ((dotDirent_named 1 c (.inl rfl)).1.symm.trans hlong) (by decide)
      · rw [List.mem_singleton.mp he] at hlong
        exact absurd ((dotDirent_named 2 parent (.inr rfl)).1.symm.trans hlong) (by decide)
  · rw [withHandle_disk, hw.disk]
    exact hm.confined
  · have hpathS : dir.Path s.vol s.disk := h.place.path hv
    have hhandle := (h.handle.onward hv hpathS hpath hm.root (hm.slot 0 (hpathS.count_pos hv))).rehinted hm.vol
    rw [withHandle_withHandle]
    refine hm.shown.of_ran (P := fun d => d = t.disk) hw.toRan.withHandle hw.disk hw.vol ?_ fun _ _ =>
        (hw.coherent _).withHandle
    rw [withHandle_handle]
    exact hhandle
  · have hused := hm.ok.used hm.shown.layout.toShape hc'
    rw [withHandle_disk, hw.disk]
    obtain ⟨i, hi, -⟩ := hm.vol
    rwa [hi] at hused
  · rintro rfl
    obtain ⟨j, hj, hin⟩ := hc'.slot hv
    exact hm.apart j hj hin
  · have hnot : ¬ (newPlace name es ≤ i ∧ i < newPlace name es + (newEntries name mem sname attrDirectory
      c).length) := fun hin => by
      rw [newPlace_deleted name hin.1 (hlen ▸ hin.2) he] at hd
      exact absurd hd (by decide)
    rw [Slots.store_getElem? hp, if_neg hnot, he]

theorem FileAt.rehinted (hr : Rehinted v v') (h : FileAt v d e cs) : FileAt v' d e cs := by
  obtain ⟨i, rfl, -⟩ := hr
  exact ⟨h.used, h.links, h.size, h.first, h.fat, h.place⟩

variable {o : Before} {l : Log} {logs : List Log} {st : SdStore}

theorem Recorded.of_ran (h : Recorded o s dir es logs) (hr : Ran (fun _ => True) s t) (hdisk : t.disk = s.disk)
    (hvol : t.vol = s.vol) (hh : DirHandle s.vol dir (t.handle .cwd)) (hco : t.Coherent) :
        Recorded o t dir es logs := by
  refine ⟨hvol ▸ h.vol, h.listed.of_ran hr hdisk hvol hh fun n _ => hco n, hco, h.outside, ?_, h.count,
    h.slot, h.kept,
    fun l hl => ?_, h.apart⟩
  · rw [hdisk]
    exact h.confined
  · rw [hdisk]
    exact h.on l hl

theorem InNewDir.again (hn : InNewDir name c parent dir dir' es es' s t) (hdot : name ≠ [46])
    (hr : Recorded ⟨t.vol, .chain [c], t.disk, dotEntries c parent⟩ u dir0 es0 logs) :
    ∃ m, fatChdir name (u.withHandle .cwd (s.handle .cwd)) = .ok 0 m ∧ m.disk = u.disk ∧
      Recorded ⟨t.vol, .chain [c], t.disk, dotEntries c parent⟩ m dir0 es0 logs := by
  have hv : t.vol.Shape := hn.listed.layout.toShape
  have hran : Ran (fun _ => True) u (u.withHandle .cwd (s.handle .cwd)) :=
    (Ran.refl hr.listed.mounted).withHandle
  have hout : dir'.Outside t.vol := by
    have hout := hn.outside
    obtain ⟨i, hi, -⟩ := hn.vol
    rw [hi]
    exact hout
  have hclear : ∀ a, dir'.Has a → ¬ (DirPlace.chain [c]).Loose t.vol t.disk a := fun a ha => by
    obtain ⟨hused, hne⟩ := hn.used a ha
    rintro ⟨-, hfree | hmem⟩
    · obtain ⟨i, hi, -⟩ := hn.vol
      rw [hi] at hfree
      exact hused hfree
    · exact hne (List.mem_singleton.mp hmem)
  have houter : Shown (u.withHandle .cwd (s.handle .cwd)) dir' es' := by
    refine hn.outer.agree hran.mounted (hran.quiet hr.listed.quiet) hr.vol
      (fun n => (hr.coherent n).withHandle) ?_
      (hout.offTable hv) hr.confined.agree hclear fun j hj _ => ?_
    · have hhandle := hn.outer.handle
      rw [withHandle_handle] at hhandle ⊢
      exact hhandle
    · rintro (⟨a, hl, hin⟩ | ⟨hroot, -⟩)
      · exact hclear a (hout.has hv hn.outer.place hj hl.1 hin) hl
      · exact Bool.false_ne_true hroot
  obtain ⟨j, e, hfound, hentry, hopened⟩ := hn.found
  obtain ⟨a, m, w, hopen, hw, hans⟩ := fatOpen_run (P := fun _ => True) name 0 .cwd hdot houter trivial
    (scanInside_of_all hn.inside) fun hl => by simp [hfound] at hl
  rw [hfound] at hans
  obtain ⟨rfl, e', he', rfl⟩ := hans
  obtain rfl := Option.some.inj (hentry.symm.trans he')
  rw [hopened] at hopen
  have hnew : DirHandle t.vol (.chain [c]) (newDirHandle c) := ⟨rfl, rfl, rfl, rfl, rfl⟩
  have hroot : dir0.isRoot = false := Bool.eq_false_iff.mpr fun h0 => by
    rw [← hr.confined.root h0] at h0
    exact Bool.false_ne_true h0
  have hpath : (DirPlace.chain [c]).Path t.vol t.disk := hn.listed.place.path hv
  have hhandle := (hnew.onward hv hpath hr.path hroot (hr.slot 0 (hpath.count_pos hv))).rehinted hr.vol
  refine ⟨_, hopen, hw.disk, hr.of_ran (hran.trans hw.toRan.withHandle) hw.disk hw.vol ?_ fun n =>
      (hw.coherent n).withHandle⟩
  rw [withHandle_handle]
  exact hhandle

/-- A new directory finds nothing of its name, a short name, slots for its entries and a cluster. -/
structure DirFitting (name : List UInt8) (s : FatState) (dir : DirPlace) (es : List Sector) : Prop where
  absent : lookup name es 0 {} = none
  short : freshName name es 9 1 ≠ none
  slots : dir.isRoot = true → newPlace name es + (name.length / 13 + 2) ≤ dir.count s.vol
  clusters : NewDirFits s dir (newPlace name es) (name.length / 13 + 2)

theorem DirFitting.made (hf : DirFitting name s dir es) (hc : CName name mem) (hdot : name ≠ [46])
    (hshort : ∀ n, ShortName (buildShortName name n)) (hk : name.length / 13 ≤ 14) (h : Listed s dir es)
    (hout : dir.Outside s.vol) (hsmall : es.length + 16 < 2 ^ 26) : ∃ t, fatMkdir name mem s = .ok 0 t := by
  have hoff := hout.offTable h.layout.toShape
  obtain ⟨ret, t, hrun, hend⟩ :=
    fatMkdir_run hc hdot hshort (by omega) h.shown (scanInside_of_all fun e => h.inside)
    (fun _ => h.ends) hsmall hoff fun _ _ => hf.clusters.dirFits h.hint
  obtain ⟨sname, hs⟩ := Option.ne_none_iff_exists'.mp hf.short
  rw [hf.absent, hs] at hend
  obtain ⟨u, hde, -⟩ := hend
  have hzero := hde.zero h.shown.toDirOpen hoff hk (Nat.le_trans (newPlace_le name es) h.lists.fits)
    (fun hr => by have := hf.slots hr; omega) hf.clusters
  exact ⟨t, hzero ▸ hrun⟩

end Stm32Logger
