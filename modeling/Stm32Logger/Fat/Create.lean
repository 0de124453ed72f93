import Stm32Logger.Fat.Enter

/-!
# `_fat_dir_create_file` step by step

Two look-ups, a row of entries, and a look-up of what was made. What the
directory shows decides how far it comes: the name is there already, no short
name is free, the root directory is full, or the entries are written.
-/

namespace Stm32Logger

variable {P : Disk → Prop} {s t u : FatState} {v : FatVolHandle} {d d' : Disk} {dir dir' : DirPlace}
  {es fs : List Sector}
  {name sname : List UInt8} {mem : Nat → UInt8} {dst r : HandleRef}

-- ---------------------------------------------------------------------------
-- The long entries
-- ---------------------------------------------------------------------------

theorem longDirent_ok (hi : i ≤ 18) (last : Bool) : LongOk (structOf (longDirent mem sname i last)) := by
  refine ⟨?_, fun j hj hle => ?_⟩
  · rw [longDirent_ord _ _ (by omega), lastLongEntry]
    split
    · omega
    · omega
  · rw [longDirent_index (by omega)] at hle
    omega

theorem longDirent_length (mem : Nat → UInt8) (sname : List UInt8) (i : Nat) (last : Bool) :
    (longDirent mem sname i last).length = 32 := bytesAt_length ..

theorem shortDirent_length (sname : List UInt8) (attr cluster : Nat) :
    (shortDirent sname attr cluster).length = 32 :=
  bytesAt_length ..

theorem newLongs_ok (hi : i ≤ 18) (last : Bool) (he : e ∈ newLongs mem sname i last) : e 0 ≠ 0 ∧ LongOk e := by
  induction i generalizing last with
  | zero =>
    rw [List.mem_singleton.mp he]
    exact ⟨longDirent_used (by omega) last, longDirent_ok hi last⟩
  | succ i ih =>
    rcases List.mem_cons.mp he with rfl | he
    · exact ⟨longDirent_used (by omega) last, longDirent_ok hi last⟩
    · exact ih (by omega) false he

/-- Where the next entry goes: a slot of the directory, or the end of the root directory. -/
def Standing (v : FatVolHandle) (dir : DirPlace) (p : Nat) : Prop :=
  p < dir.count v ∨ dir.isRoot = true ∧ p = dir.count v

theorem Entered.standing (h : Entered r dir dir' p fs s t) (hpos : 0 < fs.length) (hle : fs.length ≤ 16)
    (hroom : dir.isRoot = true ∨ DirRoom s dir m) (hm : p + fs.length < m) :
    Standing t.vol dir' (p + fs.length) := by
  rw [Standing, dir'.count_rehinted h.vol, h.root]
  have hfits := h.fits
  have hcount := h.count
  cases hr : dir.isRoot with
  | true => exact (Nat.lt_or_eq_of_le hfits).imp id fun h => ⟨rfl, h⟩
  | false =>
    rcases hroom.resolve_left (by simp [hr]) with hle' | ⟨hok, hf⟩
    · exact .inl (by omega)
    · exact .inl (h.stop hr hok (fun _ => hf) hpos hle)

theorem writeLongEntries_run (mem : Nat → UInt8) (sname : List UInt8) (i : Nat) (last : Bool)
    (h : DirOpen s .cwd dir) (ha : Reached s.vol dir p (s.handle .cwd)) (hp : Standing s.vol dir p)
    (hsmall : p + i + 1 < 2 ^ 26) (hi : i < 16) (hroom : dir.isRoot = true ∨ DirRoom s dir (p + i + 1))
    (hco : s.Coherent ∨ p < dir.count s.vol) :
    ∃ ok t q dir', writeLongEntries mem sname i last s = .ok ok t ∧
      Entered .cwd dir dir' p ((newLongs mem sname i last).take q) s t ∧
      (ok = true → q = i + 1) ∧ (ok = false → q ≤ i ∧ dir.isRoot = true ∧ p + q = dir.count s.vol) := by
  induction i generalizing s dir p last with
  | zero =>
    rcases hp with hp | ⟨hr, hp⟩
    · obtain ⟨t, dir', hrun, he⟩ := h.write ha hp (by omega) (longDirent_length mem sname 0 last)
      refine ⟨true, t, 1, dir', ?_, he, fun _ => rfl, fun h => absurd h (by decide)⟩
      rw [writeLongEntries, bind_ok hrun]
      rfl
    · obtain ⟨hrun, hnil⟩ :=
        h.put_none ha hr hp (longDirent_length mem sname 0 last) (hco.resolve_right (by omega))
      refine ⟨false, s, 0, dir, ?_, hnil, fun h => absurd h (by decide), fun _ => ⟨Nat.le_refl 0, hr, hp⟩⟩
      rw [writeLongEntries, bind_ok hrun]
      rfl
  | succ i ih =>
    rcases hp with hp | ⟨hr, hp⟩
    · obtain ⟨t, dir1, hrun, he⟩ := h.write ha hp (by omega) (longDirent_length mem sname (i + 1) last)
      have hroom' : dir1.isRoot = true ∨ DirRoom t dir1 (p + 1 + i + 1) := by
        rw [he.root, show p + 1 + i + 1 = p + (i + 1) + 1 by omega]
        cases hr : dir.isRoot with
        | true => exact .inl rfl
        | false => exact .inr (he.room h.layout h.hint hr (hroom.resolve_left (by simp [hr])) (by omega))
      have hstand : Standing t.vol dir1 (p + 1) :=
        he.standing Nat.one_pos (by rw [List.length_singleton]; decide) hroom
          (by rw [List.length_singleton]; omega)
      have hco' : t.Coherent ∨ p + 1 < dir1.count t.vol := by
        rcases hstand with hlt | ⟨hr, -⟩
        · exact .inr hlt
        · exact .inl (he.coherent_root (he.root ▸ hr))
      obtain ⟨ok, u, q, dir2, hu, he2, hok, hno⟩ :=
        ih (p := p + 1) false he.opened he.here hstand (by omega) (by omega) hroom' hco'
      refine ⟨ok, u, q + 1, dir2, ?_, he.trans h.layout h.hint he2, fun h => by rw [hok h], fun h => ?_⟩
      · rw [writeLongEntries, bind_ok hrun]
        exact hu
      · obtain ⟨hq, hr, hend⟩ := hno h
        have hsame := he.same_root (he.root ▸ hr)
        rw [dir1.count_rehinted he.vol, hsame] at hend
        exact ⟨by omega, he.root ▸ hr, by omega⟩
    · obtain ⟨hrun, hnil⟩ :=
        h.put_none ha hr hp (longDirent_length mem sname (i + 1) last) (hco.resolve_right (by omega))
      refine ⟨false, s, 0, dir, ?_, hnil, fun h => absurd h (by decide), fun _ => ⟨Nat.zero_le _, hr, hp⟩⟩
      rw [writeLongEntries, bind_ok hrun]
      rfl

-- ---------------------------------------------------------------------------
-- The short name
-- ---------------------------------------------------------------------------

theorem buildShortName_length (name : List UInt8) (n : Nat) : (buildShortName name n).length = 11 := by
  have hstem : ((name.takeWhile (· ≠ 46)).take 8).length ≤ 8 := List.length_take_le ..
  have hext : (((name.reverse.takeWhile (· ≠ 46)).reverse.take 3).map toupper).length ≤ 3 := by
    rw [List.length_map]
    exact List.length_take_le ..
  have hbase : ∀ ext : List UInt8, ext.length ≤ 3 → (((name.takeWhile (· ≠ 46)).take 8).map toupper ++
      List.replicate (8 - ((name.takeWhile (· ≠ 46)).take 8).length) 32 ++ ext ++
        List.replicate (3 - ext.length) 32).length = 11 := by
    intro ext h
    simp only [List.length_append, List.length_map, List.length_replicate]
    omega
  have hboth : (if name.contains 46 then ((name.reverse.takeWhile (· ≠ 46)).reverse.take 3).map toupper
      else ([] : List UInt8)).length ≤ 3 := by
    split
    · exact hext
    · exact Nat.zero_le 3
  rw [buildShortName]
  split
  · rw [List.length_set, List.length_set]
    exact hbase _ hboth
  · exact hbase _ hboth

theorem buildShortName_ne_dot (name : List UInt8) (n : Nat) : buildShortName name n ≠ [46] := fun h => by
  have := buildShortName_length name n
  rw [h] at this
  exact absurd this (by decide)

/-- The short name taken: the first of `k` tries from `n` on that no entry has. -/
def freshName (name : List UInt8) (es : List Sector) : (k n : Nat) → Option (List UInt8)
  | 0, _ => none
  | k + 1, n =>
    if lookup (buildShortName name n) es 0 {} = none then
      if (buildShortName name n).head? = some 32 then none else some (buildShortName name n)
    else freshName name es k (n + 1)

theorem freshName_absent (h : freshName name es k n = some sname) :
    lookup sname es 0 {} = none ∧ ∃ n, sname = buildShortName name n := by
  induction k generalizing n with
  | zero => exact absurd h (by simp [freshName])
  | succ k ih =>
    rw [freshName] at h
    split at h
    next hl =>
      split at h
      · exact absurd h (by simp)
      · rw [← Option.some.inj h]
        exact ⟨hl, n, rfl⟩
    next => exact ih h

theorem Answers.walked (hdst : dst ≠ .cwd) (h : Answers v dir es flags dst found a m t)
    (hw : Walked P dir .cwd s m) :
    Walked P dir dst s t := by
  cases found with
  | none => exact h.2 ▸ hw.mono dst
  | some j =>
    obtain ⟨-, e, -, rfl⟩ := h
    exact hw.withHandle hdst _

theorem shortNameLoop_run (name : List UInt8) (hdst : dst ≠ .cwd) (k n : Nat) (h : Shown s dir es)
    (hin : ∀ e ∈ es, StoresInside e) (hend : dir.Ends s.vol s.disk es) (hco : s.Coherent) :
    ∃ t, shortNameLoop name dst k n s = .ok (freshName name es k n) t ∧
      Walked (fun d => d = s.disk) dir dst s t := by
  induction k generalizing s n with
  | zero => exact ⟨s, rfl, .refl h.toDirOpen hco⟩
  | succ k ih =>
    obtain ⟨a, m, t, hopen, hw, hans⟩ := fatOpen_run (P := fun d => d = s.disk) (buildShortName name n) 0 dst
      (buildShortName_ne_dot name n) h rfl (scanInside_of_all hin) fun _ => hend
    have hw' := hans.walked hdst hw
    rw [shortNameLoop, bind_ok hopen, freshName]
    cases hl : lookup (buildShortName name n) es 0 {} with
    | none =>
      rw [hl] at hans
      obtain ⟨rfl, rfl⟩ := hans
      rw [if_pos rfl, if_pos (by decide)]
      exact ⟨t, rfl, hw'⟩
    | some j =>
      rw [hl] at hans
      obtain ⟨u, hrun, hw''⟩ := ih (n + 1) (h.walked hw') (by rw [hw'.vol, hw'.disk]; exact hend) hw'.coherent
      rw [if_neg (not_not.mpr hans.1), if_neg (by simp)]
      exact ⟨u, hrun, hw'.then hw''⟩

-- ---------------------------------------------------------------------------
-- The directory with the entries in it
-- ---------------------------------------------------------------------------

theorem Placed.shown (he : Placed .cwd dir dir' p fs s t) (h : Shown s dir es) (hp : p ≤ es.length)
    (hused : ∀ f ∈ fs, f 0 ≠ 0) (hsmall : p + fs.length < 2 ^ 26) : Shown t dir' (Slots.store p fs es) := by
  have hlen := Slots.store_length fs hp
  have hes := h.shows.fits
  have hsm := h.small
  have hcount := he.count
  have hfits := he.fits
  refine ⟨he.opened, ⟨fun j e hj => ?_, fun e hmem => ?_, ?_⟩, by omega⟩
  · have hlt : j < (Slots.store p fs es).length := (List.getElem?_eq_some_iff.mp hj).1
    rw [dir'.entry_rehinted he.vol, he.entry j (by omega), DirPlace.entryWith]
    rw [Slots.store_getElem? hp] at hj
    split at hj
    next hin =>
      rw [if_pos hin, List.getD_eq_getElem?_getD, hj, Option.getD_some]
    next hout =>
      have := (List.getElem?_eq_some_iff.mp hj).1
      rw [if_neg hout, if_pos (by omega)]
      exact h.shows.entry j e hj
  · rcases Slots.mem_store hmem with hmem | hmem
    · exact hused e hmem
    · exact h.shows.used e hmem
  · rw [dir'.count_rehinted he.vol]
    omega

theorem mem_store_inside (hin : ∀ e ∈ es, StoresInside e) (hnew : ∀ f ∈ fs, StoresInside f) :
    ∀ e ∈ Slots.store p fs es, StoresInside e := fun e he =>
  (Slots.mem_store he).elim (hnew e) (hin e)

theorem newEntries_inside (attr : Nat) (hs : ShortName sname) (hk : name.length / 13 + 2 ≤ 16)
    (hv : UInt8.ofNat attr ≠ 8) (hl : UInt8.ofNat attr ≠ 15) (cluster : Nat)
    (he : e ∈ newEntries name mem sname attr cluster) :
    e 0 ≠ 0 ∧ StoresInside e := by
  rcases List.mem_append.mp he with he | he
  · obtain ⟨hused, hok⟩ := newLongs_ok (by omega) true he
    exact ⟨hused, hok.inside⟩
  · rw [List.mem_singleton.mp he]
    refine ⟨?_,
      fun _ hlong => absurd ((shortDirent_named attr hs hv hl cluster).short.symm.trans hlong) (by decide)⟩
    rw [shortDirent_name hs _ _ 0 (by decide)]
    exact hs.first.1

/-- The slot the new entries start from. -/
def newPlace (name : List UInt8) (es : List Sector) : Nat :=
  Slots.firstFit deleted (name.length / 13 + 2) 0 0 es

theorem newPlace_le (name : List UInt8) (es : List Sector) : newPlace name es ≤ es.length := by
  have := Slots.firstFit_le deleted (name.length / 13 + 2) 0 0 es
  rw [newPlace]
  omega

theorem DirPlace.Ends.standing (h : dir.Ends v d es) (hfits : es.length ≤ dir.count v) (hp : p ≤ es.length) :
    Standing v dir p := by
  cases hr : dir.isRoot with
  | true => exact (Nat.lt_or_eq_of_le (Nat.le_trans hp hfits)).imp id fun h => ⟨hr, h⟩
  | false => exact .inl (Nat.lt_of_le_of_lt hp (h.stop hr))

theorem lookup_store (attr : Nat) (hc : CName name mem) (hs : ShortName sname) (hv : UInt8.ofNat attr ≠ 8)
    (hl : UInt8.ofNat attr ≠ 15) (cluster : Nat) (hp : p ≤ es.length) (h : lookup name es 0 {} = none) :
    lookup name (Slots.store p (newEntries name mem sname attr cluster) es) 0 {} =
      some (p + name.length / 13 + 1) := by
  have htake : (es.take p).length = p := by
    rw [List.length_take]
    omega
  rw [Slots.store, List.append_assoc, lookup_append (lookup_take p h), htake, Nat.zero_add]
  exact lookup_newEntries _ p _ hc hs hv hl cluster

theorem newEntries_last (name : List UInt8) (mem : Nat → UInt8) (sname : List UInt8) (attr cluster : Nat)
    (hp : p ≤ es.length) :
    (Slots.store p (newEntries name mem sname attr cluster) es)[p + name.length / 13 + 1]? =
      some (structOf (shortDirent sname attr cluster)) := by
  have hlen := newLongs_length mem sname (name.length / 13) true
  rw [Slots.store_getElem? hp, newEntries_length, if_pos (by omega), newEntries,
    List.getElem?_append_right (by omega),
    hlen, show p + name.length / 13 + 1 - p - (name.length / 13 + 1) = 0 by omega]
  rfl

-- ---------------------------------------------------------------------------
-- The entries of a file
-- ---------------------------------------------------------------------------

/-- What `_fat_dir_create_file` does with the short name it has found. -/
def enterFile (name : List UInt8) (mem : Nat → UInt8) (attr : Nat) (dst : HandleRef) (sname : List UInt8) :
    FatM Int := do
  fatDirSeekEmpty .cwd (name.length / 13 + 2)
  if !(← writeLongEntries mem sname (name.length / 13) true) then pure (-1)
  else
    match ← allocDirCluster attr with
    | none => pure (-1)
    | some cluster =>
      if (← fatWrite .cwd (shortDirent sname attr cluster)) ≠ 32 then pure (-1)
      else fatOpen name 0 dst

/-- The look-ups of `_fat_dir_create_file`, and `enter` with the short name they come to. -/
def withShortName (name : List UInt8) (dst : HandleRef) (enter : List UInt8 → FatM Int) : FatM Int := do
  if (← fatOpen name 0 dst) = 0 then pure (-1)
  else
    match ← shortNameLoop name dst 9 1 with
    | none => pure (-1)
    | some sname => enter sname

theorem fatDirCreateFile_eq (name : List UInt8) (mem : Nat → UInt8) (attr : Nat) (dst : HandleRef) :
    fatDirCreateFile name mem attr dst = withShortName name dst (enterFile name mem attr dst) := rfl

theorem withShortName_run (enter : List UInt8 → FatM Int) (dst : HandleRef) (hdst : dst ≠ .cwd)
    (hdot : name ≠ [46]) (h : Shown s dir es) (hin : ScanInside name es {})
    (hend : lookup name es 0 {} = none → dir.Ends s.vol s.disk es) :
    ∃ t, Walked (fun d => d = s.disk) dir dst s t ∧ withShortName name dst enter s =
      match lookup name es 0 {}, freshName name es 9 1 with
      | none, some sname => enter sname t
      | _, _ => .ok (-1) t := by
  obtain ⟨a1, m, t1, hopen, hw1, hans1⟩ := fatOpen_run (P := fun d => d = s.disk) name 0 dst hdot h rfl hin hend
  have hw := hans1.walked hdst hw1
  rw [withShortName, bind_ok hopen]
  cases hl : lookup name es 0 {} with
  | some j =>
    rw [hl] at hans1
    rw [if_pos hans1.1]
    exact ⟨t1, hw, rfl⟩
  | none =>
    rw [hl] at hans1
    obtain ⟨rfl, -⟩ := hans1
    obtain ⟨t2, hname, hw2⟩ := shortNameLoop_run name hdst 9 1 (h.walked hw) ((scanInside_of_none hl).mp hin)
      (by rw [hw.vol, hw.disk]; exact hend hl) hw.coherent
    refine ⟨t2, hw.then hw2, ?_⟩
    rw [if_neg (by decide), bind_ok hname]
    cases freshName name es 9 1 with
    | none => rfl
    | some sname => rfl

theorem shortDirent_archive (sname : List UInt8) :
    (structOf (shortDirent sname attrArchive 0) 11).toNat / attrDirectory % 2 = 0 := by
  rw [shortDirent_attr]
  rfl

theorem le16_shortDirent (sname : List UInt8) (attr cluster : Nat) (hj : j + 1 < 32) :
    le16 (structOf (shortDirent sname attr cluster)) j =
      le16 (put16 26 (cluster % 65536) (put16 20 (cluster / 65536) (put8 11 attr (memcpy 0 sname fun _ => 0))))
        j := by
  rw [le16, le16, shortDirent_apply _ _ _ (by omega), shortDirent_apply _ _ _ hj]

theorem fileHandleOf_short (hs : ShortName sname) (attr : Nat) (hc : cluster < 2 ^ 32) (slot : Slot)
    (flags : Nat) :
    fileHandleOf (structOf (shortDirent sname attr cluster)) slot flags =
      { fat := true, firstCluster := cluster, curCluster := cluster, flags
        direntSector := slot.sector, direntOffset := slot.offset } := by
  have hlen := hs.length
  have hbase : ∀ j, 12 ≤ j → le16 (put8 11 attr (memcpy 0 sname fun _ => 0)) j = 0 := fun j hj => by
    rw [le16, put8_of_ne (by omega), put8_of_ne (by omega), memcpy_apply, memcpy_apply, if_neg (by omega),
      if_neg (by omega)]
    rfl
  have hhigh : le16 (structOf (shortDirent sname attr cluster)) 20 = cluster / 65536 % 65536 := by
    rw [le16_shortDirent _ _ _ (by decide), le16_put16_of_ne (.inl (by decide)), le16_put16]
  have hlow : le16 (structOf (shortDirent sname attr cluster)) 26 = cluster % 65536 % 65536 := by
    rw [le16_shortDirent _ _ _ (by decide), le16_put16]
  have hsize : ∀ j, 28 ≤ j → j + 1 < 32 → le16 (structOf (shortDirent sname attr cluster)) j = 0 :=
      fun j hj hj' => by
    rw [le16_shortDirent _ _ _ hj', le16_put16_of_ne (.inr (by omega)), le16_put16_of_ne (.inr (by omega)),
      hbase j (by omega)]
  have hfirst : 65536 * (cluster / 65536 % 65536) + cluster % 65536 % 65536 = cluster := by omega
  rw [fileHandleOf, le32, hhigh, hlow, hfirst, hsize 28 (by decide) (by decide),
    hsize 30 (by decide) (by decide)]

/-- How `_fat_dir_create_file` ends for a file with entries to write from slot `p` on. -/
inductive FileEnd (name : List UInt8) (mem : Nat → UInt8) (sname : List UInt8) (dst : HandleRef)
    (dir : DirPlace) (p : Nat) (s : FatState) : Int → FatState → Prop where
  /-- The root directory has fewer slots left than the file needs. -/
  | full {s' u : FatState} {dir' : DirPlace} (q : Nat) (hw : Walked (fun d => d = s.disk) dir dst s s')
      (he : Entered .cwd dir dir' p ((newEntries name mem sname attrArchive 0).take q) s' u)
      (hq : q < name.length / 13 + 2) (hr : dir.isRoot = true) (hend : p + q = dir.count s.vol) :
      FileEnd name mem sname dst dir p s (-1) u
  | made {s' u m : FatState} {dir' : DirPlace} (hw : Walked (fun d => d = s.disk) dir dst s s')
      (he : Entered .cwd dir dir' p (newEntries name mem sname attrArchive 0) s' u)
      (hm : Walked (fun d => d = u.disk) dir' .cwd u m) :
      FileEnd name mem sname dst dir p s 0 (m.withHandle dst
        (fileHandleOf (structOf (shortDirent sname attrArchive 0))
        (dir'.slot s.vol (p + name.length / 13 + 1)) 0))

theorem writeEntries_run (mem : Nat → UInt8) (sname : List UInt8) (h : DirOpen s .cwd dir)
    (ha : Reached s.vol dir p (s.handle .cwd)) (hp : Standing s.vol dir p) (hk : name.length / 13 + 2 ≤ 16)
    (hsmall : p + 16 < 2 ^ 26) (hroom : dir.isRoot = true ∨ DirRoom s dir (p + (name.length / 13 + 2)))
    (hco : s.Coherent) :
    ∃ ok t, writeLongEntries mem sname (name.length / 13) true s = .ok ok t ∧
      (ok = false → ∃ q dir', Entered .cwd dir dir' p ((newEntries name mem sname attrArchive 0).take q) s t ∧
        q < name.length / 13 + 2 ∧ dir.isRoot = true ∧ p + q = dir.count s.vol) ∧
      (ok = true → ∃ n u q dir', fatWrite .cwd (shortDirent sname attrArchive 0) t = .ok n u ∧
        Entered .cwd dir dir' p ((newEntries name mem sname attrArchive 0).take q) s u ∧
        (n = 32 ∧ q = name.length / 13 + 2 ∨
          n = 0 ∧ q < name.length / 13 + 2 ∧ dir.isRoot = true ∧ p + q = dir.count s.vol)) := by
  have hlongs : ∀ q ≤ name.length / 13 + 1, (newEntries name mem sname attrArchive 0).take q =
      (newLongs mem sname (name.length / 13) true).take q := fun q hq => by
    rw [newEntries, List.take_append_of_le_length (by rw [newLongs_length]; exact hq)]
  obtain ⟨ok, t, q, dir1, hrun, he, hok, hno⟩ :=
    writeLongEntries_run mem sname (name.length / 13) true h ha hp (by omega)
    (by omega) (hroom.imp id fun hr => hr.mono (by omega)) (.inl hco)
  refine ⟨ok, t, hrun, fun h => ?_, fun h' => ?_⟩
  · obtain ⟨hq, hr, hend⟩ := hno h
    exact ⟨q, dir1, by rw [hlongs q (by omega)]; exact he, by omega, hr, hend⟩
  · obtain rfl := hok h'
    have hlen := newLongs_length mem sname (name.length / 13) true
    have hfull : (newLongs mem sname (name.length / 13) true).take (name.length / 13 + 1) =
        newLongs mem sname (name.length / 13) true := List.take_of_length_le (Nat.le_of_eq hlen)
    have he' := he
    rw [hfull] at he'
    have hhere := he'.here
    have hstand := he'.standing (by omega) (by omega) hroom (by omega)
    rw [hlen] at hhere hstand
    rcases hstand with hlt | ⟨hr, hend⟩
    · obtain ⟨u, dir2, hw, he2⟩ :=
        he'.opened.write hhere hlt (by omega) (shortDirent_length sname attrArchive 0)
      have hall := he'.trans h.layout h.hint (hlen ▸ he2)
      refine ⟨32, u, name.length / 13 + 2, dir2, hw, ?_, .inl ⟨rfl, rfl⟩⟩
      rw [List.take_of_length_le (Nat.le_of_eq (newEntries_length ..))]
      exact hall
    · have hr' : dir.isRoot = true := he'.root ▸ hr
      obtain ⟨hw, -⟩ :=
        he'.opened.put_none hhere hr hend (shortDirent_length sname attrArchive 0) (he'.coherent_root hr')
      rw [dir1.count_rehinted he'.vol, he'.same_root hr'] at hend
      exact ⟨0, t, name.length / 13 + 1, dir1, hw, by rw [hlongs _ (Nat.le_refl _)]; exact he,
        .inr ⟨rfl, by omega, hr', by omega⟩⟩

theorem enterFile_from (dst : HandleRef) (hc : CName name mem) (hdot : name ≠ [46]) (hs : ShortName sname)
    (hk : name.length / 13 + 2 ≤ 16) (h : Shown s dir es) (hin : ∀ e ∈ es, StoresInside e)
    (hp : p ≤ es.length) (hstand : Standing s.vol dir p) (hsmall : p + 16 < 2 ^ 26)
    (hroom : dir.isRoot = true ∨ DirRoom s dir (p + (name.length / 13 + 2)))
    (habsent : lookup name es 0 {} = none) (hseek : fatDirSeekEmpty .cwd (name.length / 13 + 2) s = .ok ⟨⟩ u)
    (hw1 : Walked (fun d => d = s.disk) dir dst s u) (hat : Reached u.vol dir p (u.handle .cwd)) :
    ∃ ret t, enterFile name mem attrArchive dst sname s = .ok ret t ∧
      FileEnd name mem sname dst dir p s ret t := by
  have h1 := h.walked hw1
  have hroom1 : dir.isRoot = true ∨ DirRoom u dir (p + (name.length / 13 + 2)) := by
    rw [DirRoom, hw1.vol, hw1.disk]
    exact hroom
  obtain ⟨ok, t2, hlongs, hno, hyes⟩ :=
    writeEntries_run mem sname h1.toDirOpen hat (hw1.vol ▸ hstand) hk hsmall hroom1 hw1.coherent
  rw [enterFile, bind_ok hseek, bind_ok hlongs]
  cases ok with
  | false =>
    obtain ⟨q, dir', he, hq, hr, hfull⟩ := hno rfl
    exact ⟨-1, t2, rfl, .full q hw1 he hq hr (hw1.vol ▸ hfull)⟩
  | true =>
    obtain ⟨n, t3, q, dir', hwrite, he, hdone⟩ := hyes rfl
    have halloc : allocDirCluster attrArchive t2 = .ok (some 0) t2 := rfl
    rw [if_neg (by decide), bind_ok halloc]
    dsimp only
    rw [bind_ok hwrite]
    rcases hdone with ⟨rfl, rfl⟩ | ⟨rfl, hq, hr, hfull⟩
    · rw [List.take_of_length_le (Nat.le_of_eq (newEntries_length ..))] at he
      have hnew := fun e (he : e ∈ newEntries name mem sname attrArchive 0) =>
        newEntries_inside attrArchive hs hk (by decide) (by decide) 0 he
      have h3 := he.shown h1 hp (fun f hf => (hnew f hf).1) (by rw [newEntries_length]; omega)
      have hfound := lookup_store attrArchive hc hs (by decide) (by decide) 0 hp habsent
      obtain ⟨a, m, t4, hopen, hw, hans⟩ := fatOpen_run (P := fun d => d = t3.disk) name 0 dst hdot h3 rfl
        (scanInside_of_all (mem_store_inside hin fun f hf => (hnew f hf).2)) fun hl => by simp [hfound] at hl
      rw [hfound] at hans
      obtain ⟨rfl, e, hlast, rfl⟩ := hans
      rw [newEntries_last name mem sname attrArchive 0 hp] at hlast
      obtain rfl := Option.some.inj hlast
      rw [if_neg (not_not.mpr rfl)]
      refine ⟨0, _, hopen, ?_⟩
      have hend := FileEnd.made hw1 he hw
      rw [openedHandle, if_pos (shortDirent_archive sname), dir'.slot_rehinted he.vol, hw1.vol]
      exact hend
    · exact ⟨-1, t3, rfl, .full q hw1 he hq hr (hw1.vol ▸ hfull)⟩

theorem enterFile_run (dst : HandleRef) (hc : CName name mem) (hdot : name ≠ [46]) (hs : ShortName sname)
    (hk : name.length / 13 + 2 ≤ 16) (h : Shown s dir es) (hin : ∀ e ∈ es, StoresInside e)
    (hend : dir.Ends s.vol s.disk es) (hsmall : es.length + 16 < 2 ^ 26)
    (hroom : dir.isRoot = true ∨ DirRoom s dir (newPlace name es + (name.length / 13 + 2)))
    (habsent : lookup name es 0 {} = none) :
    ∃ ret t, enterFile name mem attrArchive dst sname s = .ok ret t ∧
      FileEnd name mem sname dst dir (newPlace name es) s ret t := by
  have hp := newPlace_le name es
  obtain ⟨t1, h', hseek, hat, hm, hco⟩ :=
    fatDirSeekEmpty_run (P := fun d => d = s.disk) (name.length / 13 + 2) h hend rfl
  exact enterFile_from dst hc hdot hs hk h hin hp (hend.standing h.shows.fits hp) (by omega) hroom habsent hseek
    (hm.walked hat.toDirHandle hco) (by rw [hm.self, hm.vol]; exact hat.reached)

theorem FileEnd.walked (hw : Walked (fun d => d = s.disk) dir dst s u)
    (h : FileEnd name mem sname dst dir p u ret t) :
    FileEnd name mem sname dst dir p s ret t := by
  cases h with
  | full q hw' he hq hr hend => exact .full q (hw.then hw') he hq hr (hw.vol ▸ hend)
  | made hw' he hm =>
    rw [hw.vol]
    exact .made (hw.then hw') he hm

theorem fatDirCreateFile_run (dst : HandleRef) (hdst : dst ≠ .cwd) (hc : CName name mem) (hdot : name ≠ [46])
    (hshort : ∀ n, ShortName (buildShortName name n)) (hk : name.length / 13 + 2 ≤ 16) (h : Shown s dir es)
    (hin : ScanInside name es {}) (hend : lookup name es 0 {} = none → dir.Ends s.vol s.disk es)
    (hsmall : es.length + 16 < 2 ^ 26)
    (hroom : lookup name es 0 {} = none → freshName name es 9 1 ≠ none →
      dir.isRoot = true ∨ DirRoom s dir (newPlace name es + (name.length / 13 + 2))) :
    ∃ ret t, fatDirCreateFile name mem attrArchive dst s = .ok ret t ∧
      match lookup name es 0 {}, freshName name es 9 1 with
      | none, some sname => FileEnd name mem sname dst dir (newPlace name es) s ret t
      | _, _ => ret = -1 ∧ Walked (fun d => d = s.disk) dir dst s t := by
  obtain ⟨u, hw, hrun⟩ := withShortName_run (enterFile name mem attrArchive dst) dst hdst hdot h hin hend
  rw [fatDirCreateFile_eq, hrun]
  cases hl : lookup name es 0 {} with
  | some j => exact ⟨-1, u, rfl, rfl, hw⟩
  | none =>
    cases hf : freshName name es 9 1 with
    | none => exact ⟨-1, u, rfl, rfl, hw⟩
    | some sname =>
      obtain ⟨-, n, rfl⟩ := freshName_absent hf
      obtain ⟨ret, t, hrun, hmade⟩ :=
        enterFile_run dst hc hdot (hshort n) hk (h.walked hw) ((scanInside_of_none hl).mp hin)
        (by rw [hw.vol, hw.disk]; exact hend hl) hsmall
        (by rw [DirRoom, hw.vol, hw.disk]; exact hroom hl (by simp [hf])) hl
      exact ⟨ret, t, hrun, hmade.walked hw⟩

-- ---------------------------------------------------------------------------
-- The calls of the store
-- ---------------------------------------------------------------------------

section
variable {st : SdStore} {ret : Int}

def SdStore.namingFile (st : SdStore) : SdStore :=
  { st with filename := sprintfInto (fileNameOf st.fileId) st.filename }

def SdStore.namingDir (st : SdStore) : SdStore :=
  { st with dirname := sprintfInto (dirNameOf st.dirId) st.dirname }

theorem fatCreate_ok (flags : Nat) (h : fatDirCreateFile name mem attrArchive dst s = .ok ret t) :
    fatCreate name mem flags dst s = .ok ret (t.withHandle dst { t.handle dst with flags }) := by
  rw [fatCreate, bind_ok h, modifyHandle_bind]
  rfl

theorem createFile_ok
    (h : fatCreate (fileNameOf st.fileId) st.namingFile.filename oWronly .file st.fs = .ok ret t) :
    createFile st =
      .ok ⟨⟩ { st.namingFile with fs := t, sdFile := st.fileId.toNat, fileId := st.fileId + 1 } := by
  have hon : onCard (fatCreate (fileNameOf st.fileId) st.namingFile.filename oWronly .file) st.namingFile =
      .ok ret { st.namingFile with fs := t } := onCard_ok h
  rw [createFile, get_bind, modify_bind, get_bind]
  exact bind_ok hon

theorem createDir_ok (h : fatMkdir (dirNameOf st.dirId) st.namingDir.dirname st.fs = .ok ret t)
    (hchdir : fatChdir (dirNameOf st.dirId) t = .ok a u) :
    createDir st = .ok ⟨⟩ { st.namingDir with fs := u, sdDir := st.dirId.toNat, dirId := st.dirId + 1 } := by
  have hmk : onCard (fatMkdir (dirNameOf st.dirId) st.namingDir.dirname) st.namingDir =
      .ok ret { st.namingDir with fs := t } := onCard_ok h
  have hch : onCard (fatChdir (dirNameOf st.dirId)) { st.namingDir with fs := t } =
      .ok a { st.namingDir with fs := u } := onCard_ok hchdir
  rw [createDir, get_bind, modify_bind, get_bind]
  refine (bind_ok hmk).trans ?_
  exact bind_ok hch

end

end Stm32Logger
