import Stm32Logger.Fat.Create
import Stm32Logger.Fat.LogNames

/-!
# A new file in the current directory

Whatever the directory holds, `_fat_dir_create_file` writes over nothing that
lives in it, and the file it opens is the one the new name finds.
-/

namespace Stm32Logger

variable {s t u : FatState} {dir dir' : DirPlace} {es fs : List Sector} {name sname : List UInt8}
  {mem : Nat → UInt8}
  {dst : HandleRef}

theorem Listed.entered (h : Listed s dir es) (he : Entered .cwd dir dir' p fs s t) (hp : p ≤ es.length)
    (hstop : dir.isRoot = false → p + fs.length < dir'.count s.vol)
    (hfs : ∀ f ∈ fs, f 0 ≠ 0 ∧ (deleted f = false → longName f = true → LongOk f))
    (hsmall : p + fs.length < 2 ^ 26) :
    Listed t dir' (Slots.store p fs es) := by
  have hs := he.shown h.shown hp (fun f hf => (hfs f hf).1) hsmall
  have hlen := Slots.store_length fs hp
  have hcount := he.count
  refine ⟨hs.mounted, hs.quiet, hs.layout, hs.hint, he.ok h.place, hs.handle,
    ⟨hs.shows.entry, hs.shows.used, hs.shows.fits, fun hr => ?_, fun j hj hj' => ?_⟩, fun f hf => ?_,
      hs.small, hs.ready⟩
  · have hr' := he.root ▸ hr
    have hstop' := h.lists.stop hr'
    have := hstop hr'
    rw [dir'.count_rehinted he.vol]
    omega
  · rw [dir'.count_rehinted he.vol] at hj'
    rw [dir'.entry_rehinted he.vol, he.entry j hj', DirPlace.entryWith, if_neg (by omega)]
    split
    next hlt => exact h.lists.rest j (by omega) hlt
    next => rfl
  · rcases Slots.mem_store hf with hf | hf
    · exact (hfs f hf).2
    · exact h.long f hf

theorem DirPlace.Lists.length_le {d : Disk} {v : FatVolHandle} {es' : List Sector} (h : dir.Lists v d es)
    (h' : dir.Lists v d es') : es.length ≤ es'.length := by
  by_contra hlt
  have hin : es'.length < es.length := by omega
  have hzero := h'.rest es'.length (Nat.le_refl _) (Nat.lt_of_lt_of_le hin h.fits)
  rw [h.entry _ _ (List.getElem?_eq_getElem hin)] at hzero
  exact h.used _ (List.getElem_mem hin) hzero

theorem Listed.unique {es' : List Sector} (h : Listed s dir es) (h' : Listed s dir' es') :
    dir = dir' ∧ es = es' := by
  obtain rfl : dir = dir' := by
    have hroot := h.handle.root.symm.trans h'.handle.root
    have hfirst := h.handle.first.symm.trans h'.handle.first
    have hv := h.layout.toShape
    have hplace := h.place
    have hplace' := h'.place
    cases dir with
    | root =>
      cases dir' with
      | root => rfl
      | chain => cases hroot
    | chain cs =>
      cases dir' with
      | root => cases hroot
      | chain cs' =>
        have hok : ChainOk s.vol s.disk cs := hplace
        have hok' : ChainOk s.vol s.disk cs' := hplace'
        have hhead : cs.headD 0 = cs'.headD 0 := hfirst
        rw [hok.chain.unique (hok.eoc_not_mem hv) hok'.chain (hok'.eoc_not_mem hv) ?_]
        rw [List.head?_eq_some_head hok.chain.ne_nil, List.head?_eq_some_head hok'.chain.ne_nil]
        simpa [List.headD_eq_head?_getD, List.head?_eq_some_head hok.chain.ne_nil,
          List.head?_eq_some_head hok'.chain.ne_nil] using hhead
  refine ⟨rfl, List.ext_getElem (Nat.le_antisymm (h.lists.length_le h'.lists) (h'.lists.length_le h.lists)) ?_⟩
  intro i hi hi'
  rw [← h.lists.entry i _ (List.getElem?_eq_getElem hi), h'.lists.entry i _ (List.getElem?_eq_getElem hi')]

-- ---------------------------------------------------------------------------
-- A new log file
-- ---------------------------------------------------------------------------

/-- The directory with the file `name` added, whose entries start at slot `p`. -/
structure FileAdded (name : List UInt8) (mem : Nat → UInt8) (sname : List UInt8) (p : Nat) (dir dir' : DirPlace)
    (es : List Sector) (s t : FatState) : Prop where
  slot : ∀ i < dir.count s.vol, dir'.slot t.vol i = dir.slot s.vol i
  live : ∀ i e, es[i]? = some e → deleted e = false → dir.entry s.vol t.disk i = e
  start : p ≤ es.length
  room : ∀ i e, p ≤ i → i < p + (name.length / 13 + 2) → es[i]? = some e → deleted e = true
  stored : ∀ j e, (newEntries name mem sname attrArchive 0)[j]? = some e → dir'.entry t.vol t.disk (p + j) = e
  named : bytesAt (dir'.entry t.vol t.disk (p + name.length / 13 + 1)) 0 11 = sname
  fresh : ∀ e ∈ es, Named e → bytesAt e 0 11 ≠ sname
  /-- Up to its end slot the directory lists the old entries and the new ones. -/
  listed : Listed t dir' (Slots.store p (newEntries name mem sname attrArchive 0) es)
  first : lookup name (Slots.store p (newEntries name mem sname attrArchive 0) es) 0 {} =
    some (p + name.length / 13 + 1)
  found : ∀ flags dst, dst ≠ .cwd → ∃ u, fatOpen name flags dst t = .ok 0 u ∧
    u.handle dst =
      { fat := true, flags, direntSector := (dir'.slot t.vol (p + name.length / 13 + 1)).sector
        direntOffset := (dir'.slot t.vol (p + name.length / 13 + 1)).offset }

theorem Listed.room (h : Listed s dir es) (hroom : HasRoom s dir m) : dir.isRoot = true ∨ DirRoom s dir m := by
  cases hr : dir.isRoot with
  | true => exact .inl rfl
  | false =>
    rcases Nat.lt_or_ge (dir.count s.vol) m with hlt | hge
    · exact .inr (.inr ⟨h.place, hroom hr (Nat.le_of_lt hlt)⟩)
    · exact .inr (.inl hge)

theorem newPlace_deleted {e : Sector} (name : List UInt8) (hi : newPlace name es ≤ i)
    (hi' : i < newPlace name es + (name.length / 13 + 2)) (he : es[i]? = some e) : deleted e = true :=
  Slots.firstFit_hole (by omega) hi hi' he

theorem bytesAt_shortDirent (hs : ShortName sname) (attr cluster : Nat) :
    bytesAt (structOf (shortDirent sname attr cluster)) 0 11 = sname := by
  refine List.ext_getElem (by rw [bytesAt_length, hs.length]) fun j hj hj' => ?_
  rw [bytesAt_length] at hj
  simp only [bytesAt, List.getElem_map, List.getElem_range, Nat.zero_add]
  rw [shortDirent_name hs attr cluster j hj, List.getD_eq_getElem _ _ hj']

theorem Entered.added (hc : CName name mem) (hdot : name ≠ [46]) (hs : ShortName sname)
    (hk : name.length / 13 + 2 ≤ 16) (h : Listed s dir es) (hsmall : es.length + 16 < 2 ^ 26)
    (habsent : lookup name es 0 {} = none) (hfresh : lookup sname es 0 {} = none)
    (hroom : HasRoom s dir (newPlace name es + (name.length / 13 + 2)))
    (hw : Walked (fun d => d = s.disk) dir dst s s')
    (he : Entered .cwd dir dir' (newPlace name es) (newEntries name mem sname attrArchive 0) s' u)
    (hm : Walked (fun d => d = u.disk) dir' dst u t) :
    FileAdded name mem sname (newPlace name es) dir dir' es s t := by
  have hp := newPlace_le name es
  have hlen := newEntries_length name mem sname attrArchive 0
  have hlast := newEntries_last name mem sname attrArchive 0 hp
  have hfirst := lookup_store attrArchive hc hs (by decide) (by decide) 0 hp habsent
  have hlisted :
      Listed t dir' (Slots.store (newPlace name es) (newEntries name mem sname attrArchive 0) es) := by
    refine ((h.walked hw).entered he hp (fun hr => ?_) (fun f hf => ?_) (by omega)).walked hm
    · refine he.stop hr (h.walked hw).place (fun hle => ?_) (by omega) (by omega)
      rw [hw.vol, hw.disk]
      rw [hw.vol, hlen] at hle
      exact hroom hr hle
    · refine ⟨(newEntries_inside attrArchive hs hk (by decide) (by decide) 0 hf).1, fun _ hlong => ?_⟩
      rcases List.mem_append.mp hf with hf | hf
      · exact (newLongs_ok (by omega) true hf).2
      · rw [List.mem_singleton.mp hf] at hlong
        exact absurd
          ((shortDirent_named attrArchive hs (by decide) (by decide) 0).short.symm.trans hlong) (by decide)
  have hvol : Rehinted s.vol t.vol := by
    rw [hm.vol, ← hw.vol]
    exact he.vol
  have hslot : ∀ i < dir.count s.vol, dir'.slot s.vol i = dir.slot s.vol i := by
    rw [← hw.vol]
    exact he.slot
  have hlists := hlisted.lists
  refine ⟨fun i hi => ?_, fun i e hi hd => ?_, hp, fun i e hi hi' he => newPlace_deleted name hi hi' he,
    fun j e hj => ?_, ?_,
    fun e he hn => lookup_none_ne hs.self hfresh he hn, hlisted, hfirst, fun flags dst hdst => ?_⟩
  · rw [dir'.slot_rehinted hvol]
    exact hslot i hi
  · -- the entries stored are not where this one is
    have hlt : i < es.length := (List.getElem?_eq_some_iff.mp hi).1
    have hfits := h.lists.fits
    have hout : ¬ (newPlace name es ≤ i ∧ i < newPlace name es + (name.length / 13 + 2)) := fun hin => by
      rw [newPlace_deleted name hin.1 hin.2 hi] at hd
      exact absurd hd (by decide)
    have hget : (Slots.store (newPlace name es) (newEntries name mem sname attrArchive 0) es)[i]? = some e := by
      rw [Slots.store_getElem? hp, hlen, if_neg hout, hi]
    have hentry := hlists.entry i e hget
    rw [DirPlace.entry, dir'.slot_rehinted hvol, hslot i (by omega)] at hentry
    exact hentry
  · have hj' : j < (newEntries name mem sname attrArchive 0).length := (List.getElem?_eq_some_iff.mp hj).1
    refine hlists.entry _ _ ?_
    rw [Slots.store_getElem? hp, if_pos (by omega), Nat.add_sub_cancel_left]
    exact hj
  · rw [hlists.entry _ _ hlast]
    exact bytesAt_shortDirent hs attrArchive 0
  · obtain ⟨a, m, u, hrun, -, hans⟩ :=
      fatOpen_run (P := fun _ => True) name flags dst hdot hlisted.shown trivial
      (scanInside_of_all fun e => hlisted.inside) fun _ => hlisted.ends
    rw [hfirst] at hans
    obtain ⟨rfl, e, he, rfl⟩ := hans
    obtain rfl := Option.some.inj (hlast.symm.trans he)
    refine ⟨_, hrun, ?_⟩
    rw [withHandle_handle, openedHandle, if_pos (shortDirent_archive sname),
      fileHandleOf_short hs attrArchive (Nat.two_pow_pos 32)]

/-- `CreateFile` never overwrites an entry: whatever entries and holes the
current directory has, when `fat_create` returns 0 those that live keep their
bytes and the file added is the one its name finds. -/
theorem createFile_overwrites_nothing (st : SdStore) (h : Listed st.fs dir es)
    (hsmall : es.length + 16 < 2 ^ 26)
    (hroom : HasRoom st.fs dir (newPlace (fileNameOf st.fileId) es + ((fileNameOf st.fileId).length / 13 + 2))) :
    ∃ ret t st',
      fatCreate (fileNameOf st.fileId) (sprintfInto (fileNameOf st.fileId) st.filename) oWronly .file st.fs =
        .ok ret t ∧
      createFile st = .ok ⟨⟩ st' ∧ st'.fs = t ∧
      (ret = 0 → ∃ dir' p sname,
        FileAdded (fileNameOf st.fileId) (sprintfInto (fileNameOf st.fileId) st.filename) sname p dir dir' es
          st.fs t) := by
  have hlen := fileNameOf_length st.fileId
  have hdot : fileNameOf st.fileId ≠ [46] := fun hd => by
    rw [hd] at hlen
    exact absurd hlen.1 (by decide)
  have hc := cName_file st.fileId st.filename
  obtain ⟨ret, t, hrun, hend⟩ := fatDirCreateFile_run .file (by decide) hc hdot (shortName_file st.fileId)
    (by omega) h.shown (scanInside_of_all fun e => h.inside) (fun _ => h.ends) hsmall fun _ _ => h.room hroom
  have hcreate := fatCreate_ok oWronly hrun
  refine ⟨ret, _, _, hcreate, createFile_ok hcreate, rfl, fun hret => ?_⟩
  subst hret
  cases habsent : lookup (fileNameOf st.fileId) es 0 {} with
  | some j =>
    rw [habsent] at hend
    exact absurd hend.1 (by decide)
  | none =>
    cases hf : freshName (fileNameOf st.fileId) es 9 1 with
    | none =>
      rw [habsent, hf] at hend
      exact absurd hend.1 (by decide)
    | some sname =>
      rw [habsent, hf] at hend
      obtain ⟨hfresh, n, rfl⟩ := freshName_absent hf
      cases hend with
      | made hw he hm =>
        rw [withHandle_withHandle]
        exact ⟨_, _, _,
          he.added hc hdot (shortName_file st.fileId n) (by omega) h hsmall habsent hfresh hroom hw
          (hm.withHandle (by decide) _)⟩

/-- A directory in one cluster of a FAT12 volume: a file, two deleted entries and the end slot. -/
def holedFs : FatState where
  card :=
    { image := fun n i =>
        if n = 1 then if i = 3 then 0xF8 else if i = 4 then 0x0F else 0
        else if n = 2 then if i = 0 then 65 else if i = 32 ∨ i = 64 then 0xE5 else 0
        else 0 }
  part := { ready := true }
  vol :=
    { dev := .part, type := .fat12, bytesPerSector := 512, sectorsPerCluster := 1
      reservedSectorCount := 1, numFats := 1, firstDataSector := 2, clusterCount := 8, fatSize := 1
      lastClusterAlloc := 2 }
  handle _ := { fat := true, firstCluster := 2, curCluster := 2 }

def holedStore : SdStore := { fs := holedFs }

def holedEntries : List Sector := (List.range 3).map ((DirPlace.chain [2]).entry holedFs.vol holedFs.disk)

theorem holedFs_listed : Listed holedFs (.chain [2]) holedEntries where
  mounted := ⟨rfl, rfl, Nat.two_pow_pos 32, fun h => Bool.noConfusion h, fun _ h => absurd h List.not_mem_nil⟩
  quiet := fun _ h => absurd h List.not_mem_nil
  layout :=
    { bytes := rfl
      type := fun h => FatType.noConfusion h
      spc := ⟨0, by decide, rfl⟩
      numFats := Nat.le_refl 1
      reserved := Nat.le_refl 1
      data := (by decide : 1 + 1 * 1 ≤ 2)
      fits := (by decide : 2 + 8 * 1 ≤ 2 ^ 32)
      entries := (by decide : 3 * (8 + 2) ≤ 1024 * 1)
      count := (by decide : 8 ≤ 4084)
      aligned := Nat.mod_one 2 }
  hint := ⟨Nat.le_refl 2, by decide⟩
  place := ⟨(by decide : fatEntry holedFs.vol holedFs.disk 0 2 = 0xFF8), fun c hc => by
    rw [List.mem_singleton.mp hc]
    exact ⟨by decide, by decide⟩⟩
  handle := ⟨rfl, rfl, rfl, rfl, rfl⟩
  lists :=
    { entry := fun i e h => by
        have hi : i < 3 := by simpa [holedEntries] using (List.getElem?_eq_some_iff.mp h).1
        rw [holedEntries, List.getElem?_map, List.getElem?_range hi] at h
        exact Option.some.inj h
      used := by decide
      fits := (by decide : 3 ≤ 16)
      stop := fun _ => by decide
      rest := fun i hi hi' => by
        have hle : 3 ≤ i := hi
        have hlt : i < 16 := hi'
        interval_cases i <;> rfl }
  long := fun e he _ hl => by
    have hnone : ∀ e ∈ holedEntries, longName e = false := by decide
    exact absurd hl (by rw [hnone e he]; decide)
  small := by decide
  ready := fun _ _ h => BlockDev.noConfusion h

/-- The next log file goes to the deleted entries. -/
theorem createFile_overwrites_nothing_holed :
    ∃ t st' dir' p sname,
      fatCreate (fileNameOf 0) (sprintfInto (fileNameOf 0) holedStore.filename) oWronly .file holedFs =
        .ok 0 t ∧
      createFile holedStore = .ok ⟨⟩ st' ∧ st'.fs = t ∧
      FileAdded (fileNameOf 0) (sprintfInto (fileNameOf 0) holedStore.filename) sname p (.chain [2]) dir'
        holedEntries holedFs t := by
  have hzero : (match fatCreate (fileNameOf 0)
      (sprintfInto (fileNameOf 0) holedStore.filename) oWronly .file holedFs with
      | .ok ret _ => ret
      | .error _ _ => -1) = 0 := by decide +kernel
  obtain ⟨ret, t, st', hrun, hcreate, hfs, hadded⟩ := createFile_overwrites_nothing holedStore holedFs_listed
    (by decide) fun _ h => absurd h (by decide +kernel)
  have hrun' : fatCreate (fileNameOf 0) (sprintfInto (fileNameOf 0) holedStore.filename) oWronly .file holedFs =
      .ok ret t := hrun
  rw [hrun'] at hzero
  obtain rfl : ret = 0 := hzero
  obtain ⟨dir', p, sname, hf⟩ := hadded rfl
  exact ⟨t, st', dir', p, sname, hrun', hcreate, hfs, hf⟩

end Stm32Logger
