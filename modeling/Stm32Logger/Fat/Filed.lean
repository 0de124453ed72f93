import Stm32Logger.Fat.NewFile

/-!
# What later files do to a look-up

The entries of a log stand in a row, and its name is found there first. Entries
stored elsewhere leave it so: what a reader put together before a hole is
forgotten behind the entries that fill it, and a name that has a capital letter
in it is found by its long entries or its own short name only.
-/

namespace Stm32Logger

variable {name name' sname sname' : List UInt8} {mem mem' : Nat → UInt8} {es new : List Sector}
  {e f f' : Sector}
    {n n' : LongName}

-- ---------------------------------------------------------------------------
-- A name that is put together anew
-- ---------------------------------------------------------------------------

theorem LongName.run_none (units : List Nat) (i : Nat) (h : n.csum = none) : (n.run units i).2.csum = none := by
  simp only [LongName.run]
  split
  · rfl
  · exact h

theorem LongName.read_none (h : (n.start e).csum = none) : (n.read e).csum = none := by
  have h1 := run_none (ldirentName1 e) (longIndex e) h
  have h2 := run_none (ldirentName2 e) (longIndex e + 5) h1
  simp only [LongName.read]
  split
  · exact h1
  · split
    · exact h2
    · exact run_none _ _ h2

/-- The name read so far is `n`'s, or it counts for nothing. -/
def Forgot (n n' : LongName) : Prop := n'.csum = none ∨ n' = n

theorem Forgot.read (h : Forgot n n') (e : Sector) : Forgot (n.read e) (n'.read e) := by
  rcases h with h | rfl
  · by_cases hlast : (e 0).toNat / lastLongEntry % 2 = 1
    · refine .inr ?_
      have hstart : n'.start e = n.start e := by simp only [LongName.start, if_pos hlast]
      rw [LongName.read, LongName.read, hstart]
    · refine .inl (LongName.read_none ?_)
      simp only [LongName.start, if_neg hlast, h, ne_eq, reduceCtorEq, not_false_eq_true, if_true]
  · exact .inr rfl

theorem shortEntry_none (e : Sector) (chars : Sector) : (shortEntry e none chars).dName = shortDName e := by
  simp only [shortEntry, ne_eq, reduceCtorEq, not_false_eq_true, true_or, if_true]

/-- No short entry alone is shown by the name. -/
def NotShort (name : List UInt8) : Prop := ∀ e, name ≠ shortDName e

theorem Forgot.matches (hname : NotShort name) (h : Forgot n n') (hm : Matches name e n') :
    Matches name e n := by
  rcases h with h | rfl
  · rw [Matches, h, shortEntry_none] at hm
    exact .inr (hm.resolve_left (hname e))
  · exact hm

theorem Forgot.lookup (hname : NotShort name) (hn : Forgot n n') (h : lookup name es i n = none) :
    lookup name es j n' = none := by
  induction es generalizing i j n n' with
  | nil => rfl
  | cons e es ih =>
    rw [Stm32Logger.lookup, scanEntry] at h ⊢
    split at h
    next => exact absurd h (by simp)
    next m hm =>
      by_cases hskip : deleted e ∨ volumeId e
      · rw [if_pos hskip] at hm ⊢
        cases hm
        exact ih hn h
      · rw [if_neg hskip] at hm ⊢
        by_cases hlong : longName e
        · rw [if_pos hlong] at hm ⊢
          cases hm
          exact ih (hn.read e) h
        · rw [if_neg hlong] at hm ⊢
          have hno : ¬ Matches name e n := fun hyes => by
            rw [if_pos hyes] at hm
            exact absurd hm (by simp)
          rw [if_neg hno] at hm
          cases hm
          rw [if_neg fun hyes => hno (hn.matches hname hyes)]
          exact ih (.inl rfl) h

theorem lookup_drop (p : Nat) (h : lookup name es i n = none) :
    lookup name (es.drop p) (i + (es.take p).length) (n.after name (es.take p)) = none := by
  rwa [← lookup_append (lookup_take p h), List.take_append_drop]

-- ---------------------------------------------------------------------------
-- Entries that change or are added
-- ---------------------------------------------------------------------------

theorem scanEntry_congr (hf : Named f) (h : ∀ b < 12, f' b = f b) (n : LongName) :
    scanEntry name f' n = scanEntry name f n := by
  have hattr : f' 11 = f 11 := h 11 (by decide)
  have hspaces : ∀ k i, skipSpaces f' k i = skipSpaces f k i := fun k => by
    induction k with
    | zero => exact fun _ => rfl
    | succ k ih =>
      intro i
      rw [skipSpaces, skipSpaces, ih]
      by_cases hi : i + 1 < 12
      · rw [h _ hi]
      · rw [if_neg (by omega), if_neg (by omega)]
  have hchars : ∀ k i, shortChars f' k i = shortChars f k i := fun k => by
    induction k with
    | zero => exact fun _ => rfl
    | succ k ih =>
      intro i
      rw [shortChars, shortChars, ih, ih, hspaces]
      by_cases hi : i < 11
      · rw [h i (by omega)]
      · rw [if_neg hi, if_neg hi]
  have hname : bytesAt f' 0 11 = bytesAt f 0 11 :=
    List.map_congr_left fun j hj => h _ (by have := List.mem_range.mp hj; omega)
  have hentry : shortEntry f' n.csum n.chars = shortEntry f n.csum n.chars := by
    simp only [shortEntry, shortDName, hchars, hname, hattr, fatDirentChksum_congr fun j hj => h j (by omega)]
  have hf' : Named f' :=
    ⟨by rw [deleted, h 0 (by decide)]; exact hf.live, by rw [volumeId, hattr]; exact hf.file,
    by rw [longName, hattr]; exact hf.short⟩
  have hmatches : Matches name f' n ↔ Matches name f n := by rw [Matches, Matches, hentry]
  rw [scanEntry_named hf, scanEntry_named hf']
  exact if_congr hmatches rfl rfl

theorem lookup_congr (pre post : List Sector) (hf : Named f) (h : ∀ b < 12, f' b = f b) :
    lookup name (pre ++ f' :: post) i n = lookup name (pre ++ f :: post) i n := by
  induction pre generalizing i n with
  | nil => rw [List.nil_append, List.nil_append, lookup, lookup, scanEntry_congr hf h]
  | cons e pre ih =>
    rw [List.cons_append, List.cons_append, lookup, lookup]
    split
    · rfl
    · exact ih

theorem lookup_newEntries_other (es : List Sector) (k : Nat) (n : LongName) (hc : CName name' mem')
    (hs : ShortName sname')
    (hv : UInt8.ofNat attr ≠ 8) (hl : UInt8.ofNat attr ≠ 15) (cluster : Nat) (hne : name ≠ name')
    (hshort : fatComparesfn name sname' = false) :
    lookup name (newEntries name' mem' sname' attr cluster ++ es) k n = lookup name es
        (k + name'.length / 13 + 2) {} := by
  have hfits := hc.fits
  have hpos := hc.pos
  rw [newEntries, List.append_assoc, lookup_longs _ _ _ true n hc (by omega) ⟨by omega, by omega⟩,
    List.cons_append, List.nil_append, lookup, scanEntry_named (shortDirent_named attr hs hv hl cluster)]
  have hcs : fatDirentChksum (structOf (shortDirent sname' attr cluster)) = fatDirentChksum (structOf sname') :=
    fatDirentChksum_congr fun j hj => shortDirent_name hs attr cluster j hj
  have hsname : bytesAt (structOf (shortDirent sname' attr cluster)) 0 11 = sname' :=
      bytesAt_shortDirent hs attr cluster
  have hne' : name' ≠ [] := List.ne_nil_of_length_pos hpos
  have hno : ¬ Matches name (structOf (shortDirent sname' attr cluster))
      { csum := some (fatDirentChksum (structOf sname')), chars := fill mem' 0 (name'.length + 1) fun _ => 0 }
        := by
    simp only [Matches, shortEntry, hcs, cString_fill hc, ne_eq, not_true_eq_false, hne', or_self,
      if_false, hsname,
      hshort,
      Bool.false_eq_true, or_false]
    exact hne
  rw [if_neg hno]

-- ---------------------------------------------------------------------------
-- The entries of a log
-- ---------------------------------------------------------------------------

/-- The name is found by its long entries, or by the one short name it has. -/
structure OwnName (name : List UInt8) : Prop where
  long : NotShort name
  short : ∀ sname, fatComparesfn name sname = true → ∀ n, buildShortName name n = sname

/-- The entries of the file `name` stand in the row `es` from slot `p` on, and its name finds them.
The size and the cluster in the short one are not given. -/
structure Filed (name : List UInt8) (mem : Nat → UInt8) (sname : List UInt8) (p : Nat) (es : List Sector) :
    Prop where
  cname : CName name mem
  own : OwnName name
  sized : ShortName sname
  tried : ∃ n, sname = buildShortName name n
  split : ∃ pre e post, es = pre ++ (newLongs mem sname (name.length / 13) true ++ e :: post) ∧ pre.length = p ∧
    (∀ b < 12, e b = structOf (shortDirent sname attrArchive 0) b) ∧ lookup name pre 0 {} = none

theorem newLongs_long (hi : i ≤ 18) (last : Bool) (he : e ∈ newLongs mem sname i last) :
    deleted e = false ∧ longName e = true := by
  have hone : ∀ i ≤ 18, ∀ last, deleted (structOf (longDirent mem sname i last)) = false ∧
      longName (structOf (longDirent mem sname i last)) = true := fun i hi last => by
    have hord := longDirent_ord mem sname (show i < 63 by omega) last
    refine ⟨decide_eq_false fun h => ?_, by rw [longName, longDirent_attr]; rfl⟩
    rw [h, lastLongEntry] at hord
    change 229 = _ at hord
    split at hord <;> omega
  induction i generalizing last with
  | zero =>
    rw [List.mem_singleton.mp he]
    exact hone 0 hi last
  | succ i ih =>
    rcases List.mem_cons.mp he with rfl | he
    · exact hone (i + 1) hi last
    · exact ih (by omega) false he

theorem short_archive_named (hs : ShortName sname) : Named (structOf (shortDirent sname attrArchive 0)) :=
  shortDirent_named attrArchive hs (by decide) (by decide) 0

theorem Named.congr (hf : Named f) (h : ∀ b < 12, f' b = f b) : Named f' := by
  have hattr : f' 11 = f 11 := h 11 (by decide)
  exact ⟨by rw [deleted, h 0 (by decide)]; exact hf.live, by rw [volumeId, hattr]; exact hf.file,
    by rw [longName, hattr]; exact hf.short⟩

theorem newLongs_append (mem : Nat → UInt8) (sname : List UInt8) (attr cluster : Nat) (post : List Sector) :
    newLongs mem sname (name.length / 13) true ++ structOf (shortDirent sname attr cluster) :: post =
      newEntries name mem sname attr cluster ++ post := by
  rw [newEntries, List.append_assoc]
  rfl

theorem Filed.found (h : Filed name mem sname p es) :
    lookup name es 0 {} = some (p + name.length / 13 + 1) := by
  obtain ⟨pre, e, post, rfl, rfl, he, hpre⟩ := h.split
  rw [lookup_append hpre, lookup_congr _ post (short_archive_named h.sized) he, newLongs_append,
    lookup_newEntries post _ _ h.cname h.sized (by decide) (by decide) 0, Nat.zero_add]

theorem Filed.entry (h : Filed name mem sname p es) : ∃ e, es[p + name.length / 13 + 1]? = some e ∧ Named e ∧
    ∀ b < 12, e b = structOf (shortDirent sname attrArchive 0) b := by
  obtain ⟨pre, e, post, rfl, rfl, he, -⟩ := h.split
  have hlen := newLongs_length mem sname (name.length / 13) true
  refine ⟨e, ?_, (short_archive_named h.sized).congr he, he⟩
  rw [List.getElem?_append_right (by omega), List.getElem?_append_right (by omega), hlen,
    show pre.length + name.length / 13 + 1 - pre.length - (name.length / 13 + 1) = 0 by omega]
  rfl

theorem Filed.live (h : Filed name mem sname p es) (hi : p ≤ i) (hi' : i < p + (name.length / 13 + 2)) :
    ∃ e, es[i]? = some e ∧ deleted e = false ∧ (i < p + (name.length / 13 + 1) → ¬ Named e) := by
  have hfits := h.cname.fits
  rcases Nat.lt_or_ge i (p + (name.length / 13 + 1)) with hlt | hge
  · obtain ⟨pre, e, post, rfl, rfl, -, -⟩ := h.split
    have hlen := newLongs_length mem sname (name.length / 13) true
    have hin : i - pre.length < (newLongs mem sname (name.length / 13) true).length := by omega
    refine ⟨(newLongs mem sname (name.length / 13) true)[i - pre.length], ?_, ?_, fun _ => ?_⟩
    · rw [List.getElem?_append_right hi, List.getElem?_append_left hin, List.getElem?_eq_getElem hin]
    · exact (newLongs_long (by omega) true (List.getElem_mem hin)).1
    · exact fun hn =>
        absurd (hn.short.symm.trans (newLongs_long (by omega) true (List.getElem_mem hin)).2) (by decide)
  · obtain ⟨e, he, hn, -⟩ := h.entry
    obtain rfl : i = p + name.length / 13 + 1 := by omega
    exact ⟨e, he, hn.live, fun h => by omega⟩

theorem Filed.not_short (h : Filed name mem sname p es) (hfresh : ∀ e ∈ es, Named e → bytesAt e 0 11 ≠ sname') :
    fatComparesfn name sname' = false := by
  obtain ⟨e, he, hn, hhead⟩ := h.entry
  obtain ⟨n, hsn⟩ := h.tried
  refine Bool.eq_false_iff.mpr fun hcmp => hfresh e (List.mem_of_getElem? he) hn ?_
  have hbytes : bytesAt e 0 11 = bytesAt (structOf (shortDirent sname attrArchive 0)) 0 11 :=
    List.map_congr_left fun j hj => hhead _ (by have := List.mem_range.mp hj; omega)
  rw [hbytes, bytesAt_shortDirent h.sized, hsn]
  exact h.own.short sname' hcmp n

theorem Filed.added (h : Filed name mem sname p es) (hc : CName name' mem') (hs : ShortName sname')
    (hp : p' ≤ es.length)
    (hole : ∀ i e, p' ≤ i → i < p' + (name'.length / 13 + 2) → es[i]? = some e → deleted e = true)
    (hfresh : ∀ e ∈ es, Named e → bytesAt e 0 11 ≠ sname') (habsent : lookup name' es 0 {} = none) :
    Filed name mem sname p (Slots.store p' (newEntries name' mem' sname' attrArchive 0) es) := by
  have hlen := newEntries_length name' mem' sname' attrArchive 0
  have hshort := h.not_short hfresh
  have hne : name ≠ name' := fun heq => by
    have hfound := h.found
    rw [heq, habsent] at hfound
    exact nomatch hfound
  -- the holes are in front of the log or behind it
  have hout : p' + (name'.length / 13 + 2) ≤ p ∨ p + (name.length / 13 + 2) ≤ p' := by
    by_contra hno
    obtain ⟨e, he, hd, -⟩ := h.live (i := max p p') (by omega) (by omega)
    rw [hole _ e (by omega) (by omega) he] at hd
    exact absurd hd (by decide)
  refine ⟨h.cname, h.own, h.sized, h.tried, ?_⟩
  obtain ⟨pre, e, post, rfl, rfl, he, hpre⟩ := h.split
  have hlongs := newLongs_length mem sname (name.length / 13) true
  rcases hout with hbefore | hbehind
  · refine ⟨Slots.store p' (newEntries name' mem' sname' attrArchive 0) pre, e, post,
      Slots.store_append_left _ (by omega), ?_, he, ?_⟩
    · rw [Slots.store_length _ (by omega)]
      omega
    · rw [Slots.store, List.append_assoc, lookup_append (lookup_take p' hpre),
        lookup_newEntries_other _ _ _ hc hs (by decide) (by decide) 0 hne hshort]
      exact Forgot.lookup h.own.long (.inl rfl) (lookup_drop (p' + _) hpre)
  · refine ⟨pre, e, Slots.store (p' - pre.length - (name.length / 13 + 2))
      (newEntries name' mem' sname' attrArchive 0) post, ?_,
      rfl, he, hpre⟩
    have hmid : newLongs mem sname (name.length / 13) true ++ e :: post =
        (newLongs mem sname (name.length / 13) true ++ [e]) ++ post := by
      rw [List.append_assoc]
      rfl
    have hmidlen : (newLongs mem sname (name.length / 13) true ++ [e]).length = name.length / 13 + 2 := by
      rw [List.length_append, hlongs]
      rfl
    rw [hmid, Slots.store_append_right _ _ (by omega), Slots.store_append_right _ _ (by omega), hmidlen,
        List.append_assoc]
    rfl

/-- A file is written to, and its short entry changes behind the name: the log stays where it is. -/
theorem Filed.rewritten (h : Filed name mem sname p es) (hf : es[j]? = some f) (hn : Named f)
    (hhead : ∀ b < 12, f' b = f b) :
    Filed name mem sname p (es.set j f') := by
  refine ⟨h.cname, h.own, h.sized, h.tried, ?_⟩
  have hlive := h.live (i := j)
  obtain ⟨pre, e, post, rfl, rfl, he, hpre⟩ := h.split
  have hlongs := newLongs_length mem sname (name.length / 13) true
  rcases Nat.lt_or_ge j pre.length with hlt | hge
  · -- in front of the log
    rw [List.getElem?_append_left hlt] at hf
    obtain ⟨hj, hf⟩ := List.getElem?_eq_some_iff.mp hf
    have hset : pre.set j f' = pre.take j ++ f' :: pre.drop (j + 1) := List.set_eq_take_cons_drop f' hj
    have hself : pre = pre.take j ++ f :: pre.drop (j + 1) := by
      rw [← hf, ← List.drop_eq_getElem_cons hj, List.take_append_drop]
    refine ⟨pre.set j f', e, post, List.set_append_left _ _ hlt, List.length_set, he, ?_⟩
    rw [hset, lookup_congr _ _ hn hhead, ← hself]
    exact hpre
  · rcases Nat.lt_trichotomy j (pre.length + (name.length / 13 + 1)) with hlt | heq | hgt
    · obtain ⟨g, hg, -, hno⟩ := hlive hge (by omega)
      obtain rfl := Option.some.inj (hf.symm.trans hg)
      exact absurd hn (hno hlt)
    · -- the log's own entry
      subst heq
      rw [List.getElem?_append_right (by omega), List.getElem?_append_right (by omega), hlongs,
          Nat.add_sub_cancel_left, Nat.sub_self] at hf
      obtain rfl := Option.some.inj hf
      refine ⟨pre, f', post, ?_, rfl, fun b hb => (hhead b hb).trans (he b hb), hpre⟩
      rw [List.set_append_right _ _ (by omega), List.set_append_right _ _ (by omega), hlongs,
          Nat.add_sub_cancel_left, Nat.sub_self]
      rfl
    · refine ⟨pre, e, post.set (j - pre.length - (name.length / 13 + 2)) f', ?_, rfl, he, hpre⟩
      rw [List.set_append_right _ _ (by omega), List.set_append_right _ _ (by omega), hlongs,
        show j - pre.length - (name.length / 13 + 1) = j - pre.length - (name.length / 13 + 2) + 1 by omega,
            List.set_cons_succ]

-- ---------------------------------------------------------------------------
-- The names the logger gives
-- ---------------------------------------------------------------------------

theorem tolower_small (c : UInt8) : ¬ (65 ≤ tolower c ∧ tolower c ≤ 90) := by
  have hlt := c.toNat_lt
  rw [tolower]
  simp only [UInt8.le_iff_toNat_le] at *
  split
  · rw [UInt8.toNat_add]
    simp only [UInt8.reduceToNat] at *
    omega
  · assumption

theorem shortChars_small (e : Sector) (k i : Nat) : ∀ c ∈ shortChars e k i, ¬ (65 ≤ c ∧ c ≤ 90) := by
  induction k generalizing i with
  | zero => exact fun c hc => absurd hc List.not_mem_nil
  | succ k ih =>
    intro c hc
    rw [shortChars] at hc
    split at hc
    · split at hc
      · rcases List.mem_cons.mp hc with rfl | hc
        · decide
        · exact ih _ c hc
      · rcases List.mem_cons.mp hc with rfl | hc
        · exact tolower_small _
        · exact ih _ c hc
    · exact absurd hc List.not_mem_nil

theorem notShort_of_capital (hc : c ∈ name) (hlow : 65 ≤ c) (hhigh : c ≤ 90) : NotShort name := fun e heq => by
  rw [heq, shortDName, cString] at hc
  have hmem := (List.takeWhile_sublist _).subset hc
  split at hmem
  · exact shortChars_small e 11 0 c (List.mem_of_mem_dropLast hmem) ⟨hlow, hhigh⟩
  · exact shortChars_small e 11 0 c hmem ⟨hlow, hhigh⟩

theorem fatComparesfn_false (hdot : name.head? ≠ some 46) (hleft : (canonLoop 11 0 name).2 = c :: rest)
    (hc : c ≠ 47) :
    fatComparesfn name sname = false := by
  rw [fatComparesfn, if_neg hdot]
  simp [hleft, hc]

theorem ownName_file (id : UInt8) : OwnName (fileNameOf id) := by
  obtain ⟨ds, hne, hlen, hds, heq⟩ := fileNameOf_eq id
  obtain ⟨d, ds, rfl⟩ := List.exists_cons_of_ne_nil hne
  have hchar : ∀ d < 10, digitChar d ≠ 46 ∧ digitChar d ≠ 47 := by decide
  have hdot : ∀ bs, (ascii "Logfile" ++ bs ++ ascii ".csv").head? ≠ some 46 := fun bs h =>
      absurd (Option.some.inj h) (by decide)
  have hd := hds d List.mem_cons_self
  refine ⟨notShort_of_capital (c := 76) ?_ (by decide) (by decide), fun sname hcmp n => ?_⟩
  · rw [heq]
    exact List.mem_append_left _ (List.mem_append_left _ List.mem_cons_self)
  rw [heq] at hcmp ⊢
  rw [List.map_cons] at hcmp ⊢
  cases ds with
  | nil =>
    rw [List.map_nil] at hcmp ⊢
    rw [buildShortName_one n (hchar d hd).1]
    have hcanon : ∀ d < 10, canonLoop 11 0 (ascii "Logfile" ++ [digitChar d] ++ ascii ".csv") =
        ([76, 79, 71, 70, 73, 76, 69, toupper (digitChar d), 67, 83, 86], []) := by decide +kernel
    rw [fatComparesfn, if_neg (hdot [digitChar d]), hcanon d hd] at hcmp
    exact (of_decide_eq_true hcmp).2
  | cons d' ds =>
    have hd' := hchar d' (hds d' (by simp))
    rw [List.map_cons] at hcmp
    refine absurd hcmp (Bool.eq_false_iff.mp ?_)
    rcases List.eq_nil_or_concat ds with rfl | ⟨ds, d'', rfl⟩
    · have hleft :
          (canonLoop 11 0 (ascii "Logfile" ++ [digitChar d, digitChar d'] ++ ascii ".csv")).2 = [115, 118] := by
        simp [canonLoop, ascii, hd', hchar d hd]
      exact fatComparesfn_false (hdot _) hleft (by decide)
    · obtain rfl : ds = [] := List.eq_nil_of_length_eq_zero (by simp at hlen; omega)
      have hd'' := hchar d'' (hds d'' (by simp))
      have hleft :
          (canonLoop 11 0 (ascii "Logfile" ++ [digitChar d, digitChar d', digitChar d''] ++ ascii ".csv")).2 =
          [99, 115, 118] := by
        simp [canonLoop, ascii, hd', hd'', hchar d hd]
      exact fatComparesfn_false (hdot _) hleft (by decide)

end Stm32Logger
