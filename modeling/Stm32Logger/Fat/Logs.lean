import Stm32Logger.Fat.Concatenation
import Stm32Logger.Fat.Filed
import Stm32Logger.Fat.Reading

/-!
# The logs of a directory

Files made one after the other in one directory, and lines that go to the
newest. Every log made keeps its bytes, whatever is made or written after it,
and its name finds them.
-/

namespace Stm32Logger

variable {s t u : FatState} {v v' : FatVolHandle} {d d' : Disk} {dir dir' : DirPlace}
  {es : List Sector} {e : Slot}
  {name sname : List UInt8} {mem : Nat → UInt8} {cs cs' : List Nat} {log b : List UInt8} {C : Nat → Prop}
      {B : Nat → Nat → Prop}

-- ---------------------------------------------------------------------------
-- What a change of other places leaves
-- ---------------------------------------------------------------------------

theorem Holds.agree (hv : v.Shape) (h : Holds v d cs log) (ha : Agree v C B d d') (hC : ∀ c ∈ cs, ¬ C c)
    (hB : ∀ c ∈ cs, ∀ n, v.InCluster c n → ∀ i, ¬ B n i) : Holds v d' cs log := by
  refine h.congr (fun c hc => ha.fatEntry hv hv.numFats (h.isCluster c hc).2 (hC c hc)) fun q hq => ?_
  have hmem := getD_mem (div_lt_of_lt hv (Nat.lt_of_lt_of_le hq h.fits))
  exact ha.rest _ _ (chainSector_not_inFat hv) (hB _ hmem _ (chainSector_inCluster hv cs q) _)

theorem Agree.slotBytes (ha : Agree v C B d d') (hn : ¬ v.InFat e.sector)
    (hB : ∀ i < 32, ¬ B e.sector (e.offset + i)) :
    ∀ i < 32, slotBytes d' e i = slotBytes d e i := fun i hi => ha.rest _ _ hn (hB i hi)

/-- What storing a line changes: the entries and the sectors of the file's clusters and of the next one. -/
theorem AheadArea.line (hv : v.Shape) (ha : AheadArea v cs p d d') (e : Slot) :
    Agree v (fun c => c ∈ cs ∨ v.Next d c)
      (fun n i => (∃ c, (c ∈ cs ∨ v.Next d c) ∧ v.InCluster c n) ∨ e.Field n i) d d' := by
  refine Agree.mono ha ?_ ?_
  · rintro j (hj | ⟨hj, -⟩)
    · exact .inr hj
    · exact .inl hj
  · rintro n i (⟨m, q, -, -, hq, rfl, -⟩ | ⟨c, hc, hin⟩)
    · exact .inl ⟨_, .inl (getD_mem hq), chainSector_inCluster hv cs q⟩
    · exact .inl ⟨c, .inr hc, hin⟩

theorem Wrote.line (hv : v.Shape) (hne : ¬ v.InFat e.sector) (hw : Wrote v cs cs' log b d d')
    (first size : Nat) :
    Agree v (fun c => c ∈ cs ∨ v.Next d c)
      (fun n i => (∃ c, (c ∈ cs ∨ v.Next d c) ∧ v.InCluster c n) ∨ e.Field n i) d
      (d'.edit e.sector (syncDirent e.offset first size)) :=
  (hw.area.line hv e).trans (syncDirent_agree hne fun _ _ => .inr)

theorem LogWritten.copies {P Q : Disk → Prop} {r : HandleRef} (hv : Rehinted v s.vol)
    (hne : ¬ s.vol.InFat e.sector) (hsh : s.vol.Shape) (hw : LogWritten P Q r e cs cs' log b s t)
    (hc : CopiesEqual v s.disk) :
        CopiesEqual v t.disk := by
  obtain ⟨d', hwrote, hdisk⟩ := hw.disk
  have hboth : CopiesEqual s.vol s.disk → CopiesEqual s.vol t.disk := fun hc => by
    rw [hdisk]
    exact (hwrote.table.copies hc).congr hsh fun n hn => Disk.edit_of_ne _ fun he => hne (he ▸ hn)
  obtain ⟨i, hi, -⟩ := hv
  rw [hi] at hboth
  exact hboth hc

/-- The slots of a root directory lie outside the FATs and the clusters. -/
def DirPlace.Outside (v : FatVolHandle) (dir : DirPlace) : Prop :=
  dir.isRoot = true → ∀ j < dir.count v, ¬ v.InFat (dir.slot v j).sector ∧ ∀ c, v.IsCluster c →
      ¬ v.InCluster c (dir.slot v j).sector

theorem DirPlace.Outside.offTable (hv : v.Shape) (h : dir.Outside v) : dir.OffTable v := fun j hj => by
  cases hr : dir.isRoot with
  | true => exact (h hr j hj).1
  | false => exact slot_not_inFat hv hr j

theorem DirPlace.Outside.has (hv : v.Shape) (h : dir.Outside v) (hp : dir.Path v d) (hj : j < dir.count v)
    (hc : v.IsCluster c)
    (hin : v.InCluster c (dir.slot v j).sector) : dir.Has c := by
  cases dir with
  | root => exact absurd hin ((h rfl j hj).2 c hc)
  | chain cs =>
    have hidx := slot_index hj
    rw [← slot_div_cluster] at hidx
    have hmem := getD_mem hidx
    rw [cluster_unique hc.1 (PathOk.cluster hp _ hmem).1 hin (chainSector_inCluster hv cs (32 * j))]
    exact hmem

-- ---------------------------------------------------------------------------
-- A file made
-- ---------------------------------------------------------------------------

structure Created (name : List UInt8) (mem : Nat → UInt8) (sname : List UInt8) (dir dir' : DirPlace)
    (es : List Sector)
    (s t : FatState) : Prop extends FileAdded name mem sname (newPlace name es) dir dir' es s t where
  absent : lookup name es 0 {} = none
  tried : ∃ n, sname = buildShortName name n
  coherent : t.Coherent
  vol : Rehinted s.vol t.vol
  file : t.handle .file = {
    fat := true
    flags := oWronly
    direntSector := (dir'.slot t.vol (newPlace name es + name.length / 13 + 1)).sector
    direntOffset := (dir'.slot t.vol (newPlace name es + name.length / 13 + 1)).offset }
  count : dir.count s.vol ≤ dir'.count s.vol
  confined : ∀ dir0 d0, Confined s.vol dir0 d0 dir s.disk → Confined s.vol dir0 d0 dir' t.disk
  part : t.part = s.part
  writes : dir.OffTable s.vol →
    Writes (SlotArea s.vol dir (newPlace name es) (newPlace name es + (name.length / 13 + 2)) s.disk) s t

theorem Created.name_short (h : Created name mem sname dir dir' es s t)
    (hs : ∀ n, ShortName (buildShortName name n)) :
    ShortName sname := by
  obtain ⟨n, rfl⟩ := h.tried
  exact hs n

theorem Created.live_kept (h : Created name mem sname dir dir' es s t) (i : Nat) (e : Sector)
    (he : es[i]? = some e) (hd : deleted e = false) :
    ¬ (newPlace name es ≤ i ∧ i < newPlace name es + (name.length / 13 + 2)) ∧
      (Slots.store (newPlace name es) (newEntries name mem sname attrArchive 0) es)[i]? = some e := by
  have hout : ¬ (newPlace name es ≤ i ∧ i < newPlace name es + (name.length / 13 + 2)) := fun hin => by
    rw [h.room i e hin.1 hin.2 he] at hd
    exact absurd hd (by decide)
  exact ⟨hout, by rw [Slots.store_getElem? h.start, newEntries_length, if_neg hout, he]⟩

/-- A new file finds no file of its name, a short name, and slots for its entries: the root directory has
them, and a chain has a cluster to grow into. -/
structure Fits (name : List UInt8) (s : FatState) (dir : DirPlace) (es : List Sector) : Prop where
  absent : lookup name es 0 {} = none
  short : freshName name es 9 1 ≠ none
  slots : dir.isRoot = true → newPlace name es + (name.length / 13 + 2) ≤ dir.count s.vol
  cluster : dir.isRoot = false → freeCluster s.vol s.disk ≠ 0

theorem fatCreate_created (hc : CName name mem) (hdot : name ≠ [46])
    (hshort : ∀ n, ShortName (buildShortName name n)) (hk : name.length / 13 + 2 ≤ 16) (h : Listed s dir es)
    (hsmall : es.length + 16 < 2 ^ 26) (hfits : Fits name s dir es) :
    ∃ t dir' sname, fatCreate name mem oWronly .file s = .ok 0 t ∧ Created name mem sname dir dir' es s t := by
  have hroom : HasRoom s dir (newPlace name es + (name.length / 13 + 2)) := fun hr _ => hfits.cluster hr
  obtain ⟨ret, t, hrun, hend⟩ := fatDirCreateFile_run .file (by decide) hc hdot hshort hk h.shown
    (scanInside_of_all fun e => h.inside) (fun _ => h.ends) hsmall fun _ _ => h.room hroom
  obtain ⟨sname, hf⟩ := Option.ne_none_iff_exists'.mp hfits.short
  obtain ⟨hfresh, n, rfl⟩ := freshName_absent hf
  rw [hfits.absent, hf] at hend
  cases hend with
  | full q hw he hq hr hfull =>
    have := hfits.slots hr
    omega
  | @made s' u m dir' hw he hm =>
    have hvol : Rehinted s.vol m.vol := by
      rw [hm.vol, ← hw.vol]
      exact he.vol
    have hcreate := fatCreate_ok oWronly hrun
    rw [withHandle_withHandle] at hcreate
    refine ⟨_, dir', buildShortName name n, hcreate, ?_⟩
    refine ⟨he.added hc hdot (hshort n) hk h hsmall hfits.absent hfresh hroom hw (hm.withHandle (by decide) _),
      hfits.absent, ⟨n, rfl⟩, fun n => (hm.coherent n).withHandle, hvol, ?_, hw.vol ▸ he.count,
      fun dir0 d0 hconf => ?_, hm.part.trans (he.part.trans hw.part), fun hoff => ?_⟩
    · rw [withHandle_handle, withHandle_handle, withHandle_vol,
        fileHandleOf_short (hshort n) attrArchive (Nat.two_pow_pos 32), dir'.slot_rehinted hvol]
    · rw [withHandle_disk, hm.disk, ← hw.vol]
      refine he.confined dir0 d0 ?_
      rw [hw.vol, hw.disk]
      exact hconf
    · have hcuts := he.cuts (by rw [hw.vol, hw.disk]; exact h.place) (by rw [hw.vol]; exact hoff)
      have hwrites := hcuts.writes
      have harea := hcuts.area
      rw [hw.vol, hw.disk, newEntries_length] at hwrites harea
      exact (hw.writes.mono fun d hd => hd ▸ .refl ..).trans hw.part
        (hwrites.trans he.part (hm.writes.mono fun d hd => hd ▸ harea))

-- ---------------------------------------------------------------------------
-- The logs made so far
-- ---------------------------------------------------------------------------

structure Log where
  name : List UInt8
  mem : Nat → UInt8
  sname : List UInt8
  place : Nat
  cs : List Nat
  bytes : List UInt8

def Log.index (l : Log) : Nat := l.place + l.name.length / 13 + 1

/-- The volume, and a directory of it, before the logs. -/
structure Before where
  vol : FatVolHandle
  dir : DirPlace
  disk : Disk
  es : List Sector

/-- The log is on the volume, in slots and clusters that were free before. -/
structure Log.On (o : Before) (dir : DirPlace) (d : Disk) (es : List Sector) (l : Log) : Prop where
  filed : Filed l.name l.mem l.sname l.place es
  holds : Holds o.vol d l.cs l.bytes
  entry : Entry d (dir.slot o.vol l.index) l.cs l.bytes.length
  own : ∀ c ∈ l.cs, ¬ dir.Has c
  fresh : ∀ e, o.es[l.index]? = some e → deleted e = true
  loose : ∀ c ∈ l.cs, o.dir.Loose o.vol o.disk c

def Log.Apart (l l' : Log) : Prop := l.cs.Disjoint l'.cs ∧ l.index ≠ l'.index

/-- A volume with the logs `logs`, the newest first, in the directory at `dir`, which lists `es`. -/
structure Recorded (o : Before) (s : FatState) (dir : DirPlace) (es : List Sector) (logs : List Log) :
    Prop where
  vol : Rehinted o.vol s.vol
  listed : Listed s dir es
  coherent : s.Coherent
  outside : dir.Outside o.vol
  confined : Confined o.vol o.dir o.disk dir s.disk
  count : o.dir.count o.vol ≤ dir.count o.vol
  slot : ∀ j < o.dir.count o.vol, dir.slot o.vol j = o.dir.slot o.vol j
  kept : ∀ (i : Nat) e, o.es[i]? = some e → deleted e = false → es[i]? = some e
  on : ∀ l ∈ logs, l.On o dir s.disk es
  apart : logs.Pairwise Log.Apart

variable {o : Before} {l l' : Log} {logs : List Log}

theorem Rehinted.of_holds (h : Rehinted v v') (hh : Holds v' d cs log) : Holds v d cs log := by
  obtain ⟨i, rfl, -⟩ := h
  exact ⟨fun hne => ⟨(hh.chain hne).chain, (hh.chain hne).cluster⟩, hh.empty, hh.fits, hh.eager, hh.data⟩

theorem Rehinted.of_path (h : Rehinted v v') (hd : dir.Path v' d) : dir.Path v d := by
  cases dir with
  | root =>
    obtain ⟨i, rfl, -⟩ := h
    exact ⟨hd.word, hd.first, hd.pos⟩
  | chain cs =>
    obtain ⟨hpos, hcl, hlink, hnodup⟩ : PathOk v' d cs := hd
    obtain ⟨i, rfl, -⟩ := h
    exact ⟨hpos, hcl, hlink, hnodup⟩

theorem Holds.used (hv : v.Shape) (h : Holds v d cs log) (hc : c ∈ cs) : fatEntry v d 0 c ≠ 0 :=
  (h.chain (List.ne_nil_of_mem hc)).entry_ne_zero hv hc

theorem Entry.of_entryAt (h : Entry d e cs n) (he : entryAt d' e = entryAt d e) : Entry d' e cs n := by
  refine ⟨?_, fun hn => ?_⟩
  · rw [slotSize_entry, he, ← slotSize_entry]
    exact h.size
  · rw [slotCluster_entry, he, ← slotCluster_entry]
    exact h.cluster hn

section
variable (h : Recorded o s dir es logs)
include h

theorem Recorded.shape : o.vol.Shape := h.vol.of_shape h.listed.layout.toShape

theorem Recorded.path : dir.Path o.vol s.disk := h.vol.of_path (h.listed.place.path h.listed.layout.toShape)

theorem Recorded.offTable : dir.OffTable o.vol := h.outside.offTable h.shape

theorem Recorded.hasUsed (hc : dir.Has c) : fatEntry o.vol s.disk 0 c ≠ 0 := by
  have hplace : dir.Ok s.vol s.disk := h.listed.place
  have hused := hplace.used h.listed.layout.toShape hc
  obtain ⟨i, hi, -⟩ := h.vol
  rwa [hi] at hused

theorem Recorded.not_loose (hl : l ∈ logs) (hc : c ∈ l.cs) : ¬ dir.Loose o.vol s.disk c := by
  rintro ⟨-, hfree | hhas⟩
  · exact (h.on l hl).holds.used h.shape hc hfree
  · exact (h.on l hl).own c hc hhas

theorem Recorded.not_looseSector (hl : l ∈ logs) (hc : c ∈ l.cs) (hin : o.vol.InCluster c n) :
    ¬ dir.LooseSector o.vol s.disk n := by
  have hcl := (h.on l hl).holds.isCluster c hc
  rintro (⟨c', hloose, hin'⟩ | ⟨-, j, hj, rfl⟩)
  · rw [← cluster_unique hcl.1 hloose.1.1 hin hin'] at hloose
    exact h.not_loose hl hc hloose
  · exact (h.on l hl).own c hc (h.outside.has h.shape h.path hj hcl hin)

theorem Recorded.entryAt (hl : l ∈ logs) : ∃ f, es[l.index]? = some f ∧ Named f ∧ l.index < dir.count o.vol ∧
    Stm32Logger.entryAt s.disk (dir.slot o.vol l.index) = f := by
  obtain ⟨f, hf, hn, -⟩ := (h.on l hl).filed.entry
  have hentry := h.listed.lists.entry _ _ hf
  have hlt := (List.getElem?_eq_some_iff.mp hf).1
  have hfits := h.listed.lists.fits
  rw [dir.entry_rehinted h.vol] at hentry
  rw [dir.count_rehinted h.vol] at hfits
  exact ⟨f, hf, hn, Nat.lt_of_lt_of_le hlt hfits, hentry⟩

end

theorem Recorded.created (h : Recorded o s dir es logs) (hc : CName name mem) (hown : OwnName name)
    (hshort : ∀ n, ShortName (buildShortName name n)) (hcr : Created name mem sname dir dir' es s t) :
    Recorded o t dir' (Slots.store (newPlace name es) (newEntries name mem sname attrArchive 0) es)
      (⟨name, mem, sname, newPlace name es, [], []⟩ :: logs) := by
  have hv := h.shape
  have hs := hcr.name_short hshort
  have hlen := newEntries_length name mem sname attrArchive 0
  have hconf : Confined o.vol dir s.disk dir' t.disk :=
    (hcr.confined dir s.disk (.rehinted h.vol (.refl h.path h.offTable))).of_rehinted h.vol
  have hlive := hcr.live_kept
  have hcount := hcr.count
  rw [dir.count_rehinted h.vol, dir'.count_rehinted h.vol] at hcount
  refine ⟨h.vol.trans hcr.vol, hcr.listed, hcr.coherent, fun hr => ?_,
    (hcr.confined _ _ (h.confined.rehinted h.vol)).of_rehinted h.vol, Nat.le_trans h.count hcount,
        fun j hj => ?_,
        fun i e he hd => (hlive i e (h.kept i e he hd) hd).2,
    fun l hl => ?_, List.pairwise_cons.mpr ⟨fun l hl => ⟨List.disjoint_nil_left _, fun heq => ?_⟩, h.apart⟩⟩
  · obtain rfl := hconf.root hr
    exact h.outside hr
  · have hslot := hcr.slot j (by rw [dir.count_rehinted h.vol]; exact Nat.lt_of_lt_of_le hj h.count)
    rw [dir'.slot_rehinted (h.vol.trans hcr.vol), dir.slot_rehinted h.vol] at hslot
    exact hslot.trans (h.slot j hj)
  · rcases List.mem_cons.mp hl with rfl | hl
    · refine ⟨⟨hc, hown, hs, hcr.tried, es.take (newPlace name es), structOf (shortDirent sname attrArchive 0),
        es.drop (newPlace name es + (newEntries name mem sname attrArchive 0).length), ?_, ?_, fun _ _ => rfl,
            lookup_take _ hcr.absent⟩,
        .nil .., ?_, fun c hc => absurd hc List.not_mem_nil, fun e he => ?_, fun c hc =>
          absurd hc List.not_mem_nil⟩
      · rw [newLongs_append, Slots.store, List.append_assoc]
      · rw [List.length_take, Nat.min_eq_left hcr.start]
      · refine ⟨?_, fun h0 => absurd h0 (Nat.lt_irrefl 0)⟩
        have hlast : (newEntries name mem sname attrArchive 0)[name.length / 13 + 1]? = some
          (structOf (shortDirent sname attrArchive 0)) := by
          rw [newEntries, List.getElem?_append_right (by rw [newLongs_length]), newLongs_length, Nat.sub_self]
          rfl
        have hstored := hcr.stored _ _ hlast
        rw [dir'.entry_rehinted (h.vol.trans hcr.vol), DirPlace.entry] at hstored
        have hsize :=
          congrArg FatFileHandle.size (fileHandleOf_short hs attrArchive (Nat.two_pow_pos 32) ⟨0, 0⟩ 0)
        rw [slotSize_entry, Log.index, Nat.add_assoc, hstored]
        exact hsize
      · by_contra hd
        have hd := Bool.eq_false_iff.mpr hd
        refine (hlive _ e (h.kept _ e he hd) hd).1 ?_
        simp only [Log.index]
        omega
    · have hon := h.on l hl
      obtain ⟨f, hf, hn, hidx, hentry⟩ := h.entryAt hl
      have hslot : dir'.slot o.vol l.index = dir.slot o.vol l.index := by
        have := hcr.slot l.index (by rw [dir.count_rehinted h.vol]; exact hidx)
        rwa [dir'.slot_rehinted (h.vol.trans hcr.vol), dir.slot_rehinted h.vol] at this
      refine ⟨hon.filed.added hc hs hcr.start hcr.room hcr.fresh hcr.absent,
        hon.holds.agree hv hconf.agree (fun c hc => h.not_loose hl hc) fun c hc n hin _ =>
            h.not_looseSector hl hc hin, ?_,
        fun c hc hhas => h.not_loose hl hc (hconf.has c hhas), hon.fresh, hon.loose⟩
      rw [hslot]
      refine hon.entry.of_entryAt ?_
      have hkept := hcr.live _ _ hf hn.live
      rw [dir.entry_rehinted h.vol, DirPlace.entry] at hkept
      rw [hkept, hentry]
  · obtain ⟨f, hf, hn, -⟩ := h.entryAt hl
    refine (hlive _ f hf hn.live).1 ?_
    rw [← heq]
    simp only [Log.index]
    omega

-- ---------------------------------------------------------------------------
-- A line for the newest log
-- ---------------------------------------------------------------------------

theorem FatVolHandle.Next.loose (h : Recorded o s dir es logs) (hc : s.vol.Next s.disk c) :
    o.vol.IsCluster c ∧ fatEntry o.vol s.disk 0 c = 0 := by
  have hfree := Next.free h.listed.hint hc
  obtain ⟨i, hi, -⟩ := h.vol
  rwa [hi] at hfree

theorem Recorded.line (h : Recorded o s dir es (l :: logs)) (hc : c ∈ l.cs ∨ s.vol.Next s.disk c) :
    o.vol.IsCluster c ∧ ¬ dir.Has c ∧ o.dir.Loose o.vol o.disk c ∧ ∀ l' ∈ logs, c ∉ l'.cs := by
  rcases hc with hc | hc
  · have hon := h.on l List.mem_cons_self
    exact ⟨hon.holds.isCluster c hc, hon.own c hc, hon.loose c hc, fun l' hl' hc' =>
      ((List.pairwise_cons.mp h.apart).1 l' hl').1 hc hc'⟩
  · obtain ⟨hcl, hfree⟩ := hc.loose h
    exact ⟨hcl, fun hhas => h.hasUsed hhas hfree, h.confined.free h.shape hcl hfree, fun l' hl' hc' =>
      (h.on l' (List.mem_cons_of_mem l hl')).holds.used h.shape hc' hfree⟩

theorem Slot.Field.behind {n i : Nat} (h : e.Field n i) :
    n = e.sector ∧ e.offset + 20 ≤ i ∧ i < e.offset + 32 := by
  obtain ⟨hn, hi⟩ := h
  exact ⟨hn, by omega, by omega⟩

def LinePlace (o : Before) (s : FatState) (dir : DirPlace) (l : Log) (n i : Nat) : Prop :=
  (∃ c, (c ∈ l.cs ∨ s.vol.Next s.disk c) ∧ o.vol.InCluster c n) ∨ (dir.slot o.vol l.index).Field n i

theorem Recorded.line_agree (h : Recorded o s dir es logs) (l : Log)
    (ha : Agree s.vol (fun c => c ∈ l.cs ∨ s.vol.Next s.disk c)
      (fun n i => (∃ c, (c ∈ l.cs ∨ s.vol.Next s.disk c) ∧ s.vol.InCluster c n) ∨
        (dir.slot s.vol l.index).Field n i) s.disk d) :
    Agree o.vol (fun c => c ∈ l.cs ∨ s.vol.Next s.disk c) (LinePlace o s dir l) s.disk d := by
  have ha := h.vol.agree ha
  rw [dir.slot_rehinted h.vol] at ha
  obtain ⟨i, hi, -⟩ := h.vol
  exact ha.mono (fun _ hc => hc) fun n i hp => hp.imp (fun ⟨c, hc, hin⟩ => ⟨c, hc, by rwa [hi] at hin⟩) id

theorem Recorded.offSlot (h : Recorded o s dir es logs) (hl : l ∈ logs) :
    ¬ s.vol.InFat (dir.slot s.vol l.index).sector := by
  obtain ⟨f, -, -, hidx, -⟩ := h.entryAt hl
  obtain ⟨i, hi, -⟩ := h.vol
  rw [hi]
  exact h.offTable _ hidx

theorem Recorded.line_slot (h : Recorded o s dir es (l :: logs)) (hj : j < dir.count o.vol) (hi : i < 32)
    (hin : LinePlace o s dir l (dir.slot o.vol j).sector ((dir.slot o.vol j).offset + i)) :
    j = l.index ∧ 20 ≤ i := by
  rcases hin with ⟨c, hc, hin⟩ | hfield
  · obtain ⟨hcl, hno, -⟩ := h.line hc
    exact absurd (h.outside.has h.shape h.path hj hcl hin) hno
  · obtain ⟨f, -, -, hidx, -⟩ := h.entryAt List.mem_cons_self
    obtain ⟨hsec, hlo, hhi⟩ := hfield.behind
    have h1 := dir.slot_aligned o.vol j
    have h2 := dir.slot_aligned o.vol l.index
    have hoff : (dir.slot o.vol j).offset = (dir.slot o.vol l.index).offset := by omega
    have hslot : dir.slot o.vol j = dir.slot o.vol l.index := by
      generalize dir.slot o.vol j = e1 at hsec hoff
      generalize dir.slot o.vol l.index = e2 at hsec hoff
      cases e1
      cases e2
      exact Slot.mk.injEq .. ▸ ⟨hsec, hoff⟩
    exact ⟨h.path.slot_inj h.shape hj hidx hslot, by omega⟩

theorem Recorded.line_cluster (h : Recorded o s dir es (l :: logs)) (hl : l' ∈ logs) (hc : c ∈ l'.cs)
    (hin : o.vol.InCluster c n) :
    ¬ LinePlace o s dir l n i := by
  have hl' := List.mem_cons_of_mem l hl
  have hcl := (h.on l' hl').holds.isCluster c hc
  rintro (⟨c', hc', hin'⟩ | hfield)
  · obtain ⟨hcl', -, -, hno⟩ := h.line hc'
    rw [← cluster_unique hcl.1 hcl'.1 hin hin'] at hno
    exact hno l' hl hc
  · obtain ⟨f, -, -, hidx, -⟩ := h.entryAt (l := l) List.mem_cons_self
    rw [hfield.1] at hin
    exact (h.on l' hl').own c hc (h.outside.has h.shape h.path hidx hcl hin)

theorem Recorded.written {P Q : Disk → Prop} (h : Recorded o s dir es (l :: logs)) (hq : t.Quiet)
    (hw : LogWritten P Q .file (dir.slot s.vol l.index) l.cs cs' l.bytes b s t) :
    ∃ es', es'.length = es.length ∧
      Recorded o t dir es' ({ l with cs := cs', bytes := l.bytes ++ b } :: logs) := by
  have hv := h.shape
  obtain ⟨f, hf, hn, hidx, hentry⟩ := h.entryAt (l := l) List.mem_cons_self
  have hvol := h.vol.trans hw.vol
  have hne := h.offSlot (l := l) List.mem_cons_self
  have hagree : Agree o.vol (fun c => c ∈ l.cs ∨ s.vol.Next s.disk c) (LinePlace o s dir l) s.disk t.disk := by
    obtain ⟨d', hwrote, hdisk⟩ := hw.disk
    exact h.line_agree l (hdisk ▸ hwrote.line h.listed.layout.toShape hne _ _)
  -- the slots of the directory
  have hslots : ∀ j < dir.count o.vol, ∀ b < 32, ¬ (j = l.index ∧ 20 ≤ b) →
      slotBytes t.disk (dir.slot o.vol j) b = slotBytes s.disk (dir.slot o.vol j) b := fun j hj b hb hno =>
    hagree.rest _ _ (h.offTable j hj) fun hp => hno (h.line_slot hj hb hp)
  have hothers : ∀ j < dir.count o.vol, j ≠ l.index → dir.entry o.vol t.disk j = dir.entry o.vol s.disk j :=
    fun j hj hji =>
    entryAt_congr fun b hb => hslots j hj b hb fun h => hji h.1
  have hhead : ∀ b < 12, dir.entry o.vol t.disk l.index b = f b := fun b hb => by
    rw [← hentry, DirPlace.entry, entryAt_apply, entryAt_apply, if_pos (by omega), if_pos (by omega)]
    exact hslots _ hidx b (by omega) (by omega)
  have hfile : ∀ c, dir.Has c → fatEntry o.vol t.disk 0 c = fatEntry o.vol s.disk 0 c := fun c hc =>
    hagree.fatEntry hv hv.numFats (h.path.hasCluster hc).2 fun hC => (h.line hC).2.1 hc
  have hlisted : Listed t dir (es.set l.index (dir.entry o.vol t.disk l.index)) := by
    have hl := h.listed
    have hcount := dir.count_rehinted hvol
    have hcount' := dir.count_rehinted h.vol
    have hlt := (List.getElem?_eq_some_iff.mp hf).1
    have hfits := hl.lists.fits
    refine ⟨hw.opened.mounted, hq, hw.vol.layout hl.layout, hw.vol.hintOk hl.hint, ?_, ?_,
      ⟨fun i e he => ?_, fun e he => ?_, ?_,
      fun hr => ?_, fun i hi hi' => ?_⟩, fun e he => ?_, by rw [List.length_set]; exact hl.small, fun i _ =>
          hw.opened.coherent _⟩
    · have hplace : dir.Ok s.vol s.disk := hl.place
      cases dir with
      | root => exact (hplace : DirPlace.root.Ok s.vol s.disk).rehinted hw.vol
      | chain cs =>
        refine hw.vol.chainOk (ChainOk.congr hplace fun c hc => ?_)
        obtain ⟨i, hi, -⟩ := h.vol
        rw [hi]
        exact hfile c hc
    · rw [hw.handle, Function.update_of_ne (by decide)]
      exact hl.handle.rehinted hw.vol
    · rw [dir.entry_rehinted hvol]
      by_cases hi : i = l.index
      · subst hi
        rw [List.getElem?_set_self hlt] at he
        exact Option.some.inj he
      · rw [List.getElem?_set_ne fun h => hi h.symm] at he
        have hlt' := (List.getElem?_eq_some_iff.mp he).1
        rw [hothers i (by omega) hi, ← dir.entry_rehinted h.vol]
        exact hl.lists.entry i e he
    · rcases List.mem_or_eq_of_mem_set he with he | rfl
      · exact hl.lists.used e he
      · rw [hhead 0 (by decide)]
        exact hl.lists.used f (List.mem_of_getElem? hf)
    · rw [List.length_set, hcount, ← hcount']
      exact hfits
    · rw [List.length_set, hcount, ← hcount']
      exact hl.lists.stop hr
    · rw [List.length_set] at hi
      rw [hcount] at hi'
      rw [dir.entry_rehinted hvol, hothers i hi' (by omega), ← dir.entry_rehinted h.vol]
      exact hl.lists.rest i hi (by rw [hcount']; exact hi')
    · rcases List.mem_or_eq_of_mem_set he with he | rfl
      · exact hl.long e he
      · exact fun _ hlong => absurd ((hn.congr hhead).short.symm.trans hlong) (by decide)
  have hgrown : ∀ c ∈ cs', c ∈ l.cs ∨ s.vol.Next s.disk c := by
    obtain ⟨d', hwrote, -⟩ := hw.disk
    exact hwrote.fresh
  have hslot := dir.slot_rehinted h.vol l.index
  refine ⟨_, List.length_set, hvol, hlisted, hw.opened.coherent, h.outside,
    ⟨h.confined.off, h.confined.agree.trans (hagree.mono
    (fun c hc => (h.line hc).2.2.1) fun n i hp => ?_), fun hc =>
        hw.copies h.vol hne h.listed.layout.toShape (h.confined.copies hc), h.confined.has, h.confined.root⟩,
            h.count, h.slot, fun i e he hd => ?_, fun l' hl' => ?_,
    List.pairwise_cons.mpr ⟨fun l' hl' => ⟨fun c hc hc' => (h.line (hgrown c hc)).2.2.2 l' hl' hc',
      ((List.pairwise_cons.mp h.apart).1 l' hl').2⟩, (List.pairwise_cons.mp h.apart).2⟩⟩
  · rcases hp with ⟨c, hc, hin⟩ | hfield
    · exact .inl ⟨c, (h.line hc).2.2.1, hin⟩
    · rw [hfield.1]
      exact h.confined.slot hv hidx
  · have hon := h.on l List.mem_cons_self
    rw [List.getElem?_set_ne fun heq => ?_]
    · exact h.kept i e he hd
    · subst heq
      rw [hon.fresh e he] at hd
      exact absurd hd (by decide)
  · rcases List.mem_cons.mp hl' with rfl | hl'
    · have hon := h.on l List.mem_cons_self
      have hopened := hw.opened
      rw [hslot] at hopened
      exact ⟨hon.filed.rewritten hf hn hhead, hvol.of_holds hopened.holds, hopened.entry,
        fun c hc => (h.line (hgrown c hc)).2.1, hon.fresh, fun c hc => (h.line (hgrown c hc)).2.2.1⟩
    · have hon := h.on l' (List.mem_cons_of_mem l hl')
      obtain ⟨f', -, -, hidx', -⟩ := h.entryAt (List.mem_cons_of_mem l hl')
      have hne := ((List.pairwise_cons.mp h.apart).1 l' hl').2
      exact ⟨hon.filed.rewritten hf hn hhead, hon.holds.agree hv hagree
          (fun c hc hC => (h.line hC).2.2.2 l' hl' hc) fun c hc n hin i => h.line_cluster hl' hc hin,
        hon.entry.of_entryAt (hothers _ hidx' fun heq => hne heq.symm), hon.own, hon.fresh, hon.loose⟩

-- ---------------------------------------------------------------------------
-- The store as a book of logs
-- ---------------------------------------------------------------------------

/-- What the store is for: logs under their names, the newest first, and the number of the next one. -/
structure LogBook where
  next : UInt8
  logs : List (List UInt8 × List UInt8)

inductive Command where
  | create
  | write (b : List UInt8)

def LogBook.after (k : LogBook) : Command → LogBook
  | .create => { next := k.next + 1, logs := (fileNameOf k.next, []) :: k.logs }
  | .write b =>
    match k.logs with
    | [] => k
    | (name, bytes) :: logs => { k with logs := (name, bytes ++ b) :: logs }

def Command.run : Command → StoreM Unit
  | .create => createFile
  | .write b => writeToFile b

def Command.size : Command → Nat
  | .create => 0
  | .write b => b.length

/-- The next file fits the directory; no allocation of `WriteToFile` fails. -/
def Command.Ok (s : SdStore) : Command → Prop
  | .create => ∀ dir es, Listed s.fs dir es → Fits (fileNameOf s.fileId) s.fs dir es
  | .write b => b.length ≤ 255 ∧ s.AllocOk b

structure Recorder (o : Before) (s : SdStore) (dir : DirPlace) (es : List Sector) (l : Log) (logs : List Log) :
    Prop extends Recorded o s.fs dir es (l :: logs) where
  newest : Writing s (dir.slot s.fs.vol l.index) l.cs l.bytes

def bookOf (s : SdStore) (logs : List Log) : LogBook :=
  { next := s.fileId, logs := logs.map fun l => (l.name, l.bytes) }

variable {st : SdStore}

theorem DirPlace.slot_pos (hv : v.Shape) (hd : dir.Path v d) (j : Nat) : 0 < (dir.slot v j).sector := by
  cases dir with
  | root => exact Nat.add_pos_left (RootOk.first hd) _
  | chain cs =>
    have hle : v.firstDataSector ≤ chainSector v cs (32 * j) :=
        Nat.le_trans (Nat.le_add_right _ _) (chainSector_inCluster hv cs (32 * j)).1
    have h1 := hv.reserved
    have h2 := hv.data
    show 0 < chainSector v cs (32 * j)
    omega

theorem Recorded.slotApart (h : Recorded o s dir es logs) (hl : l ∈ logs) :
    SlotApart s.vol s.disk (dir.slot s.vol l.index) [] := by
  have hv := h.listed.layout.toShape
  obtain ⟨f, -, -, hidx, -⟩ := h.entryAt hl
  rw [← dir.count_rehinted h.vol] at hidx
  have hplace : dir.Ok s.vol s.disk := h.listed.place
  have hpath := hplace.path hv
  have hout : dir.Outside s.vol := by
    have hout := h.outside
    obtain ⟨i, hi, -⟩ := h.vol
    rw [hi]
    exact hout
  refine ⟨dir.slot_pos hv hpath _, hpath.slot_lt hv hidx, ?_, hout.offTable hv _ hidx,
    fun c hcl hin => ⟨hplace.used hv (hout.has hv hpath hidx hcl hin), List.not_mem_nil⟩⟩
  show 32 * (l.index % 16) + 32 ≤ 512
  omega

theorem Recorded.opened (h : Recorded o s dir es (l :: logs))
    (hfile : s.handle .file = { fat := true, flags := oWronly, direntSector := (dir.slot s.vol l.index).sector
                                direntOffset := (dir.slot s.vol l.index).offset })
    (hentry : Entry s.disk (dir.slot o.vol l.index) [] 0) : Opened s .file (dir.slot s.vol l.index) [] [] := by
  rw [← dir.slot_rehinted h.vol] at hentry
  refine ⟨⟨h.listed.mounted, h.listed.layout.toShape, h.listed.hint, .nil .., ?_, ?_, ?_, ?_, ?_,
    h.slotApart List.mem_cons_self⟩,
    h.coherent, ?_, hentry⟩
  · rw [hfile]
    exact ⟨rfl, rfl, rfl, rfl, rfl⟩
  · rw [hfile]
    exact Nat.le_refl 0
  · rw [hfile]
  · rw [hfile]
  · rw [hfile]
    exact (by decide : oWronly / oAsync % 2 = 0)
  · rw [hfile]
    rfl

theorem Listed.create (h : Listed st.fs dir es) (hsmall : es.length + 16 < 2 ^ 26)
    (hok : Command.Ok st .create) :
    ∃ t dir' sname, createFile st =
      .ok ⟨⟩ { st.namingFile with fs := t, sdFile := st.fileId.toNat, fileId := st.fileId + 1 } ∧
      Created (fileNameOf st.fileId) st.namingFile.filename sname dir dir' es st.fs t := by
  have hlen := fileNameOf_length st.fileId
  obtain ⟨t, dir', sname, hret, hcr⟩ :=
    fatCreate_created (cName_file st.fileId st.filename) (fileNameOf_ne_dot _)
    (shortName_file _) (by omega) h hsmall (hok dir es h)
  exact ⟨t, dir', sname, createFile_ok hret, hcr⟩

theorem Created.recorder (u : SdStore) (h : Recorded o st.fs dir es logs)
    (hcr : Created (fileNameOf st.fileId) st.namingFile.filename sname dir dir' es st.fs u.fs) :
    Recorder o u dir' (Slots.store (newPlace (fileNameOf st.fileId) es)
        (newEntries (fileNameOf st.fileId) st.namingFile.filename sname attrArchive 0) es)
      ⟨fileNameOf st.fileId, st.namingFile.filename, sname, newPlace (fileNameOf st.fileId) es, [], []⟩
        logs := by
  have hrec := h.created (cName_file st.fileId st.filename) (ownName_file _) (shortName_file _) hcr
  exact ⟨hrec, hrec.opened hcr.file (hrec.on _ List.mem_cons_self).entry, hrec.listed.quiet,
    fun hne => absurd rfl hne⟩

theorem Recorded.create (h : Recorded o st.fs dir es logs) (hsmall : es.length + 16 < 2 ^ 26)
    (hok : Command.Ok st .create) :
    ∃ t dir' es' l, createFile st = .ok ⟨⟩ t ∧ Recorder o t dir' es' l logs ∧ es'.length ≤ es.length + 3 ∧
      l.bytes = [] ∧ bookOf t (l :: logs) = (bookOf st logs).after .create := by
  obtain ⟨t, dir', sname, hrun, hcr⟩ := h.listed.create hsmall hok
  have hlen := fileNameOf_length st.fileId
  have hstart := hcr.start
  refine ⟨_, dir', _, _, hrun, Created.recorder _ h hcr, ?_, rfl, rfl⟩
  rw [Slots.store_length _ hstart, newEntries_length]
  omega

theorem bookOf_write_nil (st : SdStore) (l : Log) (logs : List Log) :
    bookOf st (l :: logs) = (bookOf st (l :: logs)).after (.write []) := by
  simp only [bookOf, LogBook.after, List.map_cons, List.append_nil]

theorem LogWritten.recorder {P Q : Disk → Prop} {f : FatState} (h : Recorder o st dir es l logs)
    (hw : LogWritten P Q .file (dir.slot st.fs.vol l.index) l.cs cs' l.bytes b st.fs f)
    (hwriting : Writing { st with fs := f } (dir.slot st.fs.vol l.index) cs' (l.bytes ++ b)) :
    ∃ es', es'.length = es.length ∧
      Recorder o { st with fs := f } dir es' { l with cs := cs', bytes := l.bytes ++ b } logs := by
  obtain ⟨es', hlen, hrec⟩ := h.toRecorded.written hwriting.quiet hw
  refine ⟨es', hlen, hrec, ?_⟩
  have hslot := dir.slot_rehinted hw.vol l.index
  show Writing _ (dir.slot f.vol l.index) _ _
  rw [hslot]
  exact hwriting

theorem Recorder.write (h : Recorder o st dir es l logs) (hok : Command.Ok st (.write b))
    (h32 : l.bytes.length + b.length < 2 ^ 32) :
    ∃ t es' l', writeToFile b st = .ok ⟨⟩ t ∧ Recorder o t dir es' l' logs ∧ es'.length = es.length ∧
      l'.bytes = l.bytes ++ b ∧ bookOf t (l' :: logs) = (bookOf st (l :: logs)).after (.write b) := by
  by_cases hb : b = []
  · subst hb
    exact ⟨st, es, l, h.newest.write_nil, h, rfl, (List.append_nil _).symm, bookOf_write_nil st l logs⟩
  · obtain ⟨t, cs', hrun, hw, hwriting⟩ := h.newest.append (List.length_pos_of_ne_nil hb) hok.1
        (h.listed.layout.tests _) h32 hok.2
    obtain ⟨es', hlen, hrec⟩ := hw.recorder h hwriting
    exact ⟨_, es', _, hrun, hrec, hlen, rfl, rfl⟩

theorem Recorder.step (c : Command) (h : Recorder o st dir es l logs) (hok : Command.Ok st c)
    (hsmall : es.length + 19 < 2 ^ 26)
    (h32 : l.bytes.length + c.size < 2 ^ 32) :
    ∃ t dir' es' l' logs', c.run st = .ok ⟨⟩ t ∧ Recorder o t dir' es' l' logs' ∧ es'.length ≤ es.length + 3 ∧
      l'.bytes.length ≤ l.bytes.length + c.size ∧ bookOf t (l' :: logs') = (bookOf st (l :: logs)).after c := by
  cases c with
  | create =>
    obtain ⟨t, dir', es', l', hrun, ht, hlen, hbytes, hbook⟩ := h.toRecorded.create (by omega) hok
    exact ⟨t, dir', es', l', l :: logs, hrun, ht, hlen, by rw [hbytes]; exact Nat.zero_le _, hbook⟩
  | write b =>
    obtain ⟨t, es', l', hrun, ht, hlen, hbytes, hbook⟩ := h.write hok h32
    exact ⟨t, dir, es', l', logs, hrun, ht, by omega,
      by rw [hbytes, List.length_append]; exact Nat.le_refl _, hbook⟩

theorem Recorder.run (cmds : List Command) (h : Recorder o st dir es l logs)
    (hok : Along Command.run Command.Ok cmds st) (hsmall : es.length + 3 * cmds.length + 19 < 2 ^ 26)
    (h32 : l.bytes.length + (cmds.map Command.size).sum < 2 ^ 32) :
    ∃ t dir' es' l' logs', runAll Command.run cmds st = .ok ⟨⟩ t ∧ Recorder o t dir' es' l' logs' ∧
      bookOf t (l' :: logs') = cmds.foldl LogBook.after (bookOf st (l :: logs)) := by
  induction cmds generalizing st dir es l logs with
  | nil => exact ⟨st, dir, es, l, logs, rfl, h, rfl⟩
  | cons c cmds ih =>
    rw [List.map_cons, List.sum_cons] at h32
    rw [List.length_cons] at hsmall
    obtain ⟨t, dir1, es1, l1, logs1, hrun, ht, hlen, hbytes, hbook⟩ := h.step c hok.1 (by omega) (by omega)
    obtain ⟨u, dir2, es2, l2, logs2, hrun2, hu, hbook2⟩ := ih ht (hok.2 t hrun) (by omega) (by omega)
    refine ⟨u, dir2, es2, l2, logs2, runAll_cons hrun hrun2, hu, ?_⟩
    rw [List.foldl_cons, ← hbook, hbook2]

-- ---------------------------------------------------------------------------
-- What the card is for
-- ---------------------------------------------------------------------------

theorem Recorded.reads (h : Recorded o s dir es logs) (hl : l ∈ logs) (flags : Nat) (dst : HandleRef)
    (ops : List Cursor.Op)
    (hdot : l.name ≠ [46]) (hsmall : l.bytes.length < 2 ^ 31) (hops : ∀ op ∈ ops, InRange op) :
    ∃ u, fatOpen l.name flags dst s = .ok 0 u ∧ (u.handle dst).size = l.bytes.length ∧
      (l.bytes ≠ [] → ∃ w, runOps dst ops u = .ok (Cursor.answers l.bytes 0 ops) w ∧ w.disk = s.disk) := by
  have hon := h.on l hl
  have hv := h.listed.layout.toShape
  have hfound := hon.filed.found
  obtain ⟨f, hf, hn, hhead⟩ := hon.filed.entry
  have hattr : (f 11).toNat / attrDirectory % 2 = 0 := by
    rw [hhead 11 (by decide)]
    exact shortDirent_archive l.sname
  have hinside : ScanInside l.name es {} := scanInside_of_all fun e => h.listed.inside
  have hread : readFile s.vol s.disk (dir.slot s.vol l.index) = some l.bytes := by
    rw [dir.slot_rehinted h.vol, readFile_rehinted s.vol h.vol,
      hon.holds.readFile h.shape hon.entry (Nat.le_refl _), List.take_length]
  obtain ⟨a, m, u, hopen, -, hans⟩ :=
      fatOpen_run (P := fun _ => True) l.name flags dst hdot h.listed.shown trivial
    hinside
    fun hnone => by
      rw [hfound] at hnone
      exact nomatch hnone
  rw [hfound] at hans
  obtain ⟨rfl, e, he, rfl⟩ := hans
  obtain rfl := Option.some.inj (he.symm.trans hf)
  have hentry := h.listed.lists.entry _ _ hf
  refine ⟨_, hopen, ?_, fun hne => ?_⟩
  · have hsize := hon.entry.size
    rw [← dir.slot_rehinted h.vol, slotSize_entry] at hsize
    rw [withHandle_handle, openedHandle, if_pos hattr, fileHandleOf]
    rw [DirPlace.entry] at hentry
    rw [← hentry]
    exact hsize
  · obtain ⟨t, cs, hopen', hdisk, hr⟩ := fatOpen_reading flags h.listed.shown hdot hinside hfound
        ⟨e, hf, hattr⟩ hread hne hsmall
    obtain ⟨w, -, hrun, hm, -⟩ := runOps_content ops hr hops
    rw [hopen] at hopen'
    injection hopen' with _ ht
    exact ⟨w, ht ▸ hrun, hm.disk.trans hdisk⟩

/-- A file that was there: in a slot the logs leave alone. -/
def Aside (v : FatVolHandle) (d : Disk) (dir : DirPlace) (es : List Sector) (e : Slot) : Prop :=
  ¬ dir.LooseSector v d e.sector ∨ ∃ (i : Nat) (f : Sector), es[i]? = some f ∧ deleted f = false ∧
    i < dir.count v ∧
      e = dir.slot v i

theorem slotBytes_of_entry (he : dir'.entry v d' i = dir.entry v d i) (hs : dir'.slot v i = dir.slot v i) :
    ∀ b < 32, slotBytes d' (dir.slot v i) b = slotBytes d (dir.slot v i) b := by
  intro b hb
  have hboth := congrFun he b
  rw [DirPlace.entry, DirPlace.entry, hs, entryAt_apply, entryAt_apply, if_pos hb, if_pos hb] at hboth
  exact hboth

theorem FileAt.kept (hv : v.Shape) (hout : dir.Outside v) (hp : dir.Path v d) (hf : FileAt v d e cs)
    (hcs : ∀ c ∈ cs, ¬ dir.Has c) (ha : Agree v (dir.Loose v d) (fun n _ => dir.LooseSector v d n) d d')
    (hslot : ∀ i < 32, slotBytes d' e i = slotBytes d e i) :
    readFile v d' e = readFile v d e := by
  have hloose : ∀ c ∈ cs, ¬ dir.Loose v d c := fun c hc hl => hl.2.elim (hf.used c hc).2 (hcs c hc)
  have hsize := slotSize_congr hslot
  have hfirst := slotCluster_congr hslot
  rw [readFile_eq cs hv (fun c hc => (hf.used c hc).1) hf.links hf.size hf.first,
    readFile_eq cs hv (fun c hc => (hf.used c hc).1) (fun i hi => ?_) (hsize ▸ hf.size)
        (hsize ▸ hfirst ▸ hf.first),
        hsize]
  · congr 1
    refine List.map_congr_left fun q hq => ?_
    have hmem := getD_mem (div_lt_of_lt hv (Nat.lt_of_lt_of_le (List.mem_range.mp hq) hf.size))
    have hcl := (hf.used _ hmem).1
    have hin := chainSector_inCluster hv cs q
    refine ha.rest _ _ (chainSector_not_inFat hv) ?_
    rintro (⟨c, hc, hin'⟩ | ⟨-, j, hj, hj'⟩)
    · rw [← cluster_unique hcl.1 hc.1.1 hin hin'] at hc
      exact hloose _ hmem hc
    · rw [hj'] at hin
      exact hcs _ hmem (hout.has hv hp hj hcl hin)
  · have hmem := getD_mem (show i < cs.length by omega)
    rw [ha.fatEntry hv hv.numFats (hf.used _ hmem).1.2 (hloose _ hmem)]
    exact hf.links i hi

theorem Recorded.othersKept (h : Recorded o s dir es logs)
    (hlists : ∀ i e, o.es[i]? = some e → o.dir.entry o.vol o.disk i = e) (hout : o.dir.Outside o.vol)
    (hp : o.dir.Path o.vol o.disk) (hf : FileAt o.vol o.disk e cs) (hcs : ∀ c ∈ cs, ¬ o.dir.Has c)
    (hside : Aside o.vol o.disk o.dir o.es e) :
    (∀ i < 32, slotBytes s.disk e i = slotBytes o.disk e i) ∧
      readFile o.vol s.disk e = readFile o.vol o.disk e := by
  have ha := h.confined.agree
  have hslot : ∀ i < 32, slotBytes s.disk e i = slotBytes o.disk e i := by
    rcases hside with hno | ⟨i, f, hi, hd, hlt, rfl⟩
    · exact ha.slotBytes hf.fat fun _ _ => hno
    · have hnow := h.listed.lists.entry _ _ (h.kept i f hi hd)
      rw [dir.entry_rehinted h.vol] at hnow
      exact slotBytes_of_entry (hnow.trans (hlists i f hi).symm) (h.slot i hlt)
  exact ⟨hslot, hf.kept h.shape hout hp hcs ha hslot⟩

end Stm32Logger
