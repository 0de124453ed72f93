import Stm32Logger.Fat.Growth

/-!
# Writing directory entries

`fat_write` of one entry puts it into its slot and leaves every other entry
alone, and so does a row of them. Behind the last slot of a chain the row goes
on in a new cluster; at the end of the root directory it stops.
-/

namespace Stm32Logger

variable {s t u : FatState} {v : FatVolHandle} {d d' : Disk} {dir dir' : DirPlace} {es : List Sector}
  {bs : List UInt8} {e e' : Slot} {r : HandleRef}

-- ---------------------------------------------------------------------------
-- fat_write of an entry
-- ---------------------------------------------------------------------------

theorem slot_edit_inFat (hv : v.Shape) (hr : dir.isRoot = false) :
    ∀ n, v.InFat n → d.edit (dir.slot v i).sector f n = d n := by
  cases dir with
  | root => exact absurd hr (by decide)
  | chain cs => exact chainEdit_inFat cs hv

theorem DirPlace.Ok.edit (hv : v.Shape) (hd : dir.Ok v d) : dir.Ok v (d.edit (dir.slot v i).sector f) := by
  cases dir with
  | root => exact hd
  | chain cs =>
    exact ChainOk.congr hd fun c hc => fatEntry_congr hv hv.numFats (ChainOk.cluster hd c hc).2
      (chainEdit_inFat cs hv)

theorem PathOk.congr (h : PathOk v d cs) (he : ∀ c ∈ cs, fatEntry v d' 0 c = fatEntry v d 0 c) :
    PathOk v d' cs :=
  ⟨h.pos, h.cluster, fun k hk => (he _ (getD_mem (Nat.lt_of_succ_lt hk))).trans (h.link k hk), h.nodup⟩

theorem DirPlace.Path.edit (hv : v.Shape) (hd : dir.Path v d) :
    dir.Path v (d.edit (dir.slot v i).sector f) := by
  cases dir with
  | root => exact hd
  | chain cs =>
    exact PathOk.congr hd fun c hc =>
      fatEntry_congr hv hv.numFats (PathOk.cluster hd c hc).2 (chainEdit_inFat cs hv)

theorem AtSlot.cur_ne_zero (hd : dir.Path v d) (h : AtSlot v dir i hd') (hi : i < dir.count v) :
    hd'.curCluster ≠ 0 := by
  rw [h.cluster]
  cases dir with
  | root => exact Nat.ne_of_gt hd.first
  | chain cs =>
    have hidx := slot_index hi
    rw [DirPlace.cur, List.getD_append _ _ _ _ hidx]
    have := (PathOk.cluster hd _ (getD_mem hidx)).1
    omega

theorem allocFirst_standing (h : (s.handle r).curCluster ≠ 0) : allocFirst r size s = .ok true s := by
  rw [allocFirst, getHandle_bind, if_neg fun h' => h h'.1]
  rfl

theorem growSize_none (h : (s.handle r).direntSector = 0) : growSize r s = .ok ⟨⟩ s := by
  rw [growSize, getHandle_bind, if_neg fun h' => h'.1 h]
  rfl

structure SlotStored (r : HandleRef) (dir : DirPlace) (i : Nat) (bs : List UInt8) (s t : FatState) : Prop
    extends Ran (fun d => d = s.disk) s t where
  disk : t.disk = s.disk.edit (dir.slot s.vol i).sector (memcpy (dir.slot s.vol i).offset bs)
  vol : t.vol = s.vol
  handle : t.handle = Function.update s.handle r { s.handle r with position := 32 * (i + 1) }
  coherent : t.Coherent

theorem fatWrite_slot (h : DirOpen s r dir) (ha : AtSlot s.vol dir i (s.handle r)) (hi : i < dir.count s.vol)
    (h26 : i < 2 ^ 26) (hlen : bs.length = 32) :
    ∃ t u dir', fatWrite r bs s = .ok 32 u ∧ SlotStored r dir i bs s t ∧ Stepped r dir dir' i t u := by
  have hv := h.layout
  have hlt := h.place.slot_lt hv.toShape hi
  have hoff : (dir.slot s.vol i).offset = 32 * i % 512 := dir.slot_offset s.vol i
  have hpos : u32 (32 * i + 32) = 32 * (i + 1) := by
    rw [u32, Nat.mod_eq_of_lt (by omega)]
    omega
  have hsize : (if (s.handle r).rootFlag = true ∧ u32 ((s.handle r).position + bs.length) > (s.handle r).size
      then (i32 (sub32 (s.handle r).size (s.handle r).position)).toNat else bs.length) = 32 := by
    rw [hlen, ha.position, hpos, if_neg]
    rintro ⟨hr, hgt⟩
    rw [ha.root] at hr
    rw [ha.size] at hgt
    cases dir with
    | chain cs => exact absurd hr (by simp [DirPlace.isRoot])
    | root =>
      simp only [DirPlace.count] at hi
      simp only [DirPlace.size] at hgt
      omega
  rcases writeRound_cases (P := fun d => d = s.disk) (r := r) bs 31 0
    (dir.slot s.vol i).offset 32 h.mounted hv.toShape rfl
    ha.fat (show 0 < 32 by decide) hlt (h.ready i hi) (by omega) (by decide) with ⟨t, hrun, hb, hl⟩ | ⟨hnq, -⟩
  · rw [List.drop_zero, List.take_of_length_le (Nat.le_of_eq hlen)] at hb
    have hfwd : (s.handle r).forward 32 = { s.handle r with position := 32 * (i + 1) } := by
      rw [FatFileHandle.forward, ha.position, hpos]
    rw [hfwd] at hrun
    let w := t.withHandle r { s.handle r with position := 32 * (i + 1) }
    have hw : SlotStored r dir i bs s w := by
      refine ⟨hb.toRan.withHandle, hb.disk, hb.vol, ?_, hl.withHandle.coherent⟩
      show Function.update t.handle r _ = _
      rw [hb.handle]
    have hplace : dir.Path w.vol w.disk := by
      rw [hw.vol, hw.disk]
      exact h.place.edit hv.toShape
    obtain ⟨o, u, dir', hadv, hstep⟩ := writeAdvance_slot (s := w) (r := r) dir i hw.mounted (hw.quiet h.quiet)
      (hw.vol ▸ hv) (hw.vol ▸ h.hint) hplace (hw.vol ▸ hi) (by rw [withHandle_handle]; exact ha.root)
      (by rw [withHandle_handle, hw.vol]; exact ha.size) (by rw [withHandle_handle])
      (by rw [withHandle_handle, hw.vol]; exact ha.cluster) hw.coherent
    rw [hw.vol] at hadv
    refine ⟨w, u, dir', returning_ok ?_, hw, hstep⟩
    rw [bind_ok (allocFirst_standing (ha.cur_ne_zero h.place hi)), if_pos rfl, getHandle_bind]
    simp only [hsize]
    rw [fatOf_bind ha.fat, ha.sectorOffset hv.toShape h.place hi]
    have hdirent : (u.handle r).direntSector = 0 := by
      obtain ⟨c, hc, -⟩ := hstep.handle
      rw [hc, Function.update_self, withHandle_handle]
      exact ha.dirent
    have hloop : writeLoop r bs 32 32 0 (dir.slot s.vol i).sector (dir.slot s.vol i).offset s = .ok 32 u := by
      rw [hrun, bind_ok hadv]
      cases o with
      | none => rfl
      | some sector => exact writeLoop_done (Nat.le_refl _)
    dsimp only
    rw [bind_ok hloop, bind_ok (growSize_none hdirent)]
    rfl
  · exact absurd h.quiet hnq

theorem fatWrite_rootEnd (hd : RootOk s.vol) (ha : AtSlot s.vol .root (DirPlace.root.count s.vol) (s.handle r))
    (hlen : bs.length = 32) : fatWrite r bs s = .ok 0 s := by
  have h16 : s.vol.rootSectorCount < 65536 := Nat.mod_lt _ (by decide)
  have hcount : 32 * DirPlace.root.count s.vol = 512 * s.vol.rootSectorCount := by
    simp only [DirPlace.count]
    omega
  have hroot : (s.handle r).rootFlag = true := ha.root
  have hsz : (s.handle r).size = 512 * s.vol.rootSectorCount := ha.size
  have hsize : (if (s.handle r).rootFlag = true ∧ u32 ((s.handle r).position + bs.length) > (s.handle r).size
      then (i32 (sub32 (s.handle r).size (s.handle r).position)).toNat else bs.length) = 0 := by
    have hgt : u32 (512 * s.vol.rootSectorCount + 32) > 512 * s.vol.rootSectorCount := by
      rw [u32]
      omega
    have hsub : sub32 (512 * s.vol.rootSectorCount) (512 * s.vol.rootSectorCount) = 0 := by
      simp only [sub32, u32]
      omega
    rw [hlen, ha.position, hsz, hcount, if_pos ⟨hroot, hgt⟩, hsub]
    rfl
  have hcur : (s.handle r).curCluster ≠ 0 := by
    rw [ha.cluster]
    exact Nat.ne_of_gt hd.first
  refine returning_ok ?_
  rw [bind_ok (allocFirst_standing hcur), if_pos rfl, getHandle_bind]
  simp only [hsize]
  rw [fatOf_bind ha.fat, bind_ok (writeLoop_done (Nat.le_refl 0)), bind_ok (growSize_none ha.dirent)]
  rfl

-- ---------------------------------------------------------------------------
-- Entries in a row
-- ---------------------------------------------------------------------------

/-- What a slot holds after the entries `fs` were written from slot `p` on. -/
def DirPlace.entryWith (v : FatVolHandle) (d : Disk) (dir : DirPlace) (p : Nat) (fs : List Sector) (j : Nat) :
    Sector :=
  if p ≤ j ∧ j < p + fs.length then fs.getD (j - p) fun _ => 0
  else if j < dir.count v then dir.entry v d j
  else fun _ => 0

def DirPlace.OffTable (v : FatVolHandle) (dir : DirPlace) : Prop :=
  ∀ j < dir.count v, ¬ v.InFat (dir.slot v j).sector

theorem slot_not_inFat (hv : v.Shape) (hr : dir.isRoot = false) (j : Nat) :
    ¬ v.InFat (dir.slot v j).sector := by
  cases dir with
  | root => exact absurd hr (by decide)
  | chain cs => exact chainSector_not_inFat hv

/-- A cluster that was free, or the directory's. -/
def DirPlace.Loose (v : FatVolHandle) (d : Disk) (dir : DirPlace) (c : Nat) : Prop :=
  v.IsCluster c ∧ (fatEntry v d 0 c = 0 ∨ dir.Has c)

/-- The sectors of such clusters, and those of the root directory. -/
def DirPlace.LooseSector (v : FatVolHandle) (d : Disk) (dir : DirPlace) (n : Nat) : Prop :=
  (∃ c, dir.Loose v d c ∧ v.InCluster c n) ∨ dir.isRoot = true ∧ ∃ j < dir.count v, n = (dir.slot v j).sector

/-- Since the directory was at `dir0` only what was free has changed, and the directory. -/
structure Confined (v : FatVolHandle) (dir0 : DirPlace) (d0 : Disk) (dir : DirPlace) (d : Disk) : Prop where
  off : dir.OffTable v
  agree : Agree v (dir0.Loose v d0) (fun n _ => dir0.LooseSector v d0 n) d0 d
  copies : CopiesEqual v d0 → CopiesEqual v d
  has : ∀ c, dir.Has c → dir0.Loose v d0 c
  root : dir.isRoot = true → dir0 = dir

section
variable {dir0 : DirPlace} {d0 : Disk}

theorem DirPlace.Path.hasCluster (h : dir.Path v d) (hc : dir.Has c) : v.IsCluster c := by
  cases dir with
  | root => exact hc.elim
  | chain cs => exact PathOk.cluster h c hc

theorem DirPlace.Has.slot (hv : v.Shape) (hc : dir.Has c) :
    ∃ j < dir.count v, v.InCluster c (dir.slot v j).sector := by
  cases dir with
  | root => exact hc.elim
  | chain cs =>
    obtain ⟨k, hk, rfl⟩ := List.getElem_of_mem hc
    have hspc := spc_pos hv
    have hin := chainSector_inCluster hv cs (32 * (16 * v.sectorsPerCluster * k))
    rw [slot_div_cluster, Nat.mul_div_cancel_left k (by omega), List.getD_eq_getElem _ _ hk] at hin
    exact ⟨16 * v.sectorsPerCluster * k, Nat.mul_lt_mul_of_pos_left hk (by omega), hin⟩

theorem Confined.refl (h : dir.Path v d) (ho : dir.OffTable v) : Confined v dir d dir d :=
  ⟨ho, .refl .., id, fun _ hc => ⟨h.hasCluster hc, .inr hc⟩, fun _ => rfl⟩

theorem Confined.slot (hv : v.Shape) (h : Confined v dir0 d0 dir d) (hi : i < dir.count v) :
    dir0.LooseSector v d0 (dir.slot v i).sector := by
  cases dir with
  | root =>
    obtain rfl := h.root rfl
    exact .inr ⟨rfl, i, hi, rfl⟩
  | chain cs =>
    have hidx := slot_index hi
    rw [← slot_div_cluster] at hidx
    exact .inl ⟨_, h.has _ (getD_mem hidx), chainSector_inCluster hv cs (32 * i)⟩

theorem Confined.free (hv : v.Shape) (h : Confined v dir0 d0 dir d) (hc : v.IsCluster c)
    (hf : fatEntry v d 0 c = 0) :
    dir0.Loose v d0 c := by
  by_contra hno
  rw [h.agree.fatEntry hv hv.numFats hc.2 hno] at hf
  exact hno ⟨hc, .inl hf⟩

theorem Confined.edit (hv : v.Shape) (h : Confined v dir0 d0 dir d) (hi : i < dir.count v) :
    Confined v dir0 d0 dir (d.edit (dir.slot v i).sector f) where
  off := h.off
  agree := by
    refine h.agree.trans ⟨fun k hk j hj _ => fatNibble_congr hk hj fun n hn => ?_, fun n b _ hn => ?_⟩
    · exact Disk.edit_of_ne _ fun he => h.off i hi (he ▸ hn)
    · have hne : n ≠ (dir.slot v i).sector := fun he => hn (by rw [he]; exact h.slot hv hi)
      rw [Disk.edit_of_ne _ hne]
  copies := fun hc => (h.copies hc).congr hv fun n hn => Disk.edit_of_ne _ fun he => h.off i hi (he ▸ hn)
  has := h.has
  root := h.root

theorem Confined.grown (hv : v.Shape) (hh : v.HintOk) (hp : dir.Path v d) (h : Confined v dir0 d0 dir d)
    (hg : DirGrown v dir d dir' d') : Confined v dir0 d0 dir' d' := by
  cases hg with
  | root => exact h
  | @chain cs cs' _ _ hg =>
    cases hg with
    | same => exact h
    | @snoc d1 _ hf hl hkeep hzero =>
      obtain ⟨hcl, hfree⟩ := freeCluster_spec hh hf
      have hloose := h.free hv hcl hfree
      have hpos := PathOk.pos hp
      have hlast : dir0.Loose v d0 (lastOf cs) := h.has _ (getD_mem (Nat.sub_lt hpos Nat.one_pos))
      refine ⟨fun j _ => slot_not_inFat hv rfl j, h.agree.trans ((hl.agree.mono ?_ fun _ _ h => h.elim).trans
        ((hzero rfl).agree hv fun n _ hn => .inl ⟨_, hloose, hn⟩)),
        fun hc =>
        (hl.copies (h.copies hc)).congr hv
        ((hzero rfl).inFat hv),
        fun c hc => ?_, (fun hr => nomatch hr)⟩
      · rintro j (rfl | rfl)
        · exact hloose
        · exact hlast
      · rcases List.mem_append.mp hc with hc | hc
        · exact h.has c hc
        · rw [List.mem_singleton.mp hc]
          exact hloose

theorem Confined.rehinted (hr : Rehinted v v') (h : Confined v dir0 d0 dir d) : Confined v' dir0 d0 dir d := by
  obtain ⟨i, rfl, -⟩ := hr
  exact ⟨h.off, ⟨h.agree.fat, h.agree.rest⟩, h.copies, h.has, h.root⟩

theorem Confined.of_rehinted (hr : Rehinted v v') (h : Confined v' dir0 d0 dir d) :
    Confined v dir0 d0 dir d := by
  obtain ⟨i, rfl, -⟩ := hr
  exact ⟨h.off, ⟨h.agree.fat, h.agree.rest⟩, h.copies, h.has, h.root⟩

end

-- ---------------------------------------------------------------------------
-- What is on the card meanwhile
-- ---------------------------------------------------------------------------

def FatVolHandle.Vacant (v : FatVolHandle) (d : Disk) (c : Nat) : Prop := v.IsCluster c ∧ fatEntry v d 0 c = 0

def DirPlace.Last (c : Nat) : DirPlace → Prop
  | root => False
  | chain cs => c ∈ cs ∧ c = lastOf cs

/-- The bytes of the slots from `p` up to `q`, and those of free clusters. -/
def SlotBytes (v : FatVolHandle) (dir : DirPlace) (p q : Nat) (d : Disk) (n i : Nat) : Prop :=
  (∃ c, v.Vacant d c ∧ v.InCluster c n) ∨ ∃ j, p ≤ j ∧ j < q ∧ j < dir.count v ∧ n = (dir.slot v j).sector ∧
    (dir.slot v j).offset ≤ i ∧ i < (dir.slot v j).offset + 32

def SlotArea (v : FatVolHandle) (dir : DirPlace) (p q : Nat) (d : Disk) : Disk → Prop :=
  Agree v (fun c => v.Vacant d c ∨ dir.Last c) (SlotBytes v dir p q d) d

/-- On the card, only those slots, free clusters and the end of the directory's chain change. -/
structure SlotCuts (dir dir' : DirPlace) (p q : Nat) (s t : FatState) : Prop where
  writes : Writes (SlotArea s.vol dir p q s.disk) s t
  area : SlotArea s.vol dir p q s.disk t.disk
  ok : dir'.Ok s.vol t.disk
  off : dir'.OffTable s.vol
  has : ∀ c, dir.Has c → dir'.Has c
  last : ∀ c, dir'.Last c → dir.Last c ∨ s.vol.Vacant s.disk c
  more : ∀ j, dir.count s.vol ≤ j → j < dir'.count s.vol → ∃ c, s.vol.Vacant s.disk c ∧
    s.vol.InCluster c (dir'.slot s.vol j).sector

theorem DirPlace.Ok.used (hv : v.Shape) (h : dir.Ok v d) (hc : dir.Has c) : fatEntry v d 0 c ≠ 0 := by
  cases dir with
  | root => exact hc.elim
  | chain cs => exact ChainOk.entry_ne_zero hv h hc

theorem Rehinted.of_shape (h : Rehinted v v') (hv : v'.Shape) : v.Shape := by
  obtain ⟨i, rfl, -⟩ := h
  exact hv.hint v.lastClusterAlloc

theorem DirPlace.Last.has (h : dir.Last c) : dir.Has c := by
  cases dir with
  | root => exact h.elim
  | chain cs => exact h.1

theorem SlotCuts.refl (p q : Nat) (hok : dir.Ok s.vol s.disk) (hoff : dir.OffTable s.vol) :
    SlotCuts dir dir p q s s where
  writes := .refl
  area := .refl ..
  ok := hok
  off := hoff
  has := fun _ => id
  last := fun _ => .inl
  more := fun _ hge hlt => absurd hlt (Nat.not_lt_of_le hge)

theorem SlotArea.vacant (hv : v.Shape) (h : SlotArea v dir p q d d') (hc : v.Vacant d' c) :
    v.Vacant d c ∨ dir.Last c := by
  by_contra hno
  have hfree := hc.2
  rw [h.fatEntry hv hv.numFats hc.1.2 hno] at hfree
  exact hno (.inl ⟨hc.1, hfree⟩)

theorem SlotArea.mono (h : SlotArea v dir p q d d') (hp : p' ≤ p) (hq : q ≤ q') : SlotArea v dir p' q' d d' :=
  Agree.mono h (fun _ => id) fun _ _ hb => hb.imp id fun ⟨j, hj, hj', hrest⟩ =>
    ⟨j, Nat.le_trans hp hj, Nat.lt_of_lt_of_le hj' hq, hrest⟩

theorem SlotArea.trans (hv : v.Shape) (h : SlotArea v dir p q d d') (h' : SlotArea v dir' q q' d' d'')
    (hp : p ≤ q) (hq : q ≤ q') (hlast : ∀ c, dir'.Last c → dir.Last c ∨ v.Vacant d c)
    (hmore : ∀ j, dir.count v ≤ j → j < dir'.count v → ∃ c, v.Vacant d c ∧ v.InCluster c (dir'.slot v j).sector)
    (hslot : ∀ j < dir.count v, dir'.slot v j = dir.slot v j)
    (hused : ∀ c, dir.Last c → fatEntry v d' 0 c ≠ 0) : SlotArea v dir p q' d d'' := by
  have hvacant : ∀ c, v.Vacant d' c → v.Vacant d c := fun c hc =>
    (h.vacant hv hc).resolve_right fun hl => hused c hl hc.2
  refine Agree.trans (h.mono (Nat.le_refl p) hq) (Agree.mono h' ?_ ?_)
  · rintro c (hc | hc)
    · exact .inl (hvacant c hc)
    · exact (hlast c hc).symm
  · rintro n i (⟨c, hc, hin⟩ | ⟨j, hj, hj', hlt, hn, hi⟩)
    · exact .inl ⟨c, hvacant c hc, hin⟩
    · rcases Nat.lt_or_ge j (dir.count v) with hlt' | hge
      · rw [hslot j hlt'] at hn hi
        exact .inr ⟨j, Nat.le_trans hp hj, hj', hlt', hn, hi⟩
      · obtain ⟨c, hc, hin⟩ := hmore j hge hlt
        exact .inl ⟨c, hc, hn ▸ hin⟩

theorem DirPlace.Ok.of_rehinted (hvol : Rehinted v v') (h : dir.Ok v' d) : dir.Ok v d := by
  obtain ⟨i, rfl, -⟩ := hvol
  cases dir with
  | root => exact ⟨h.word, h.first, h.pos⟩
  | chain cs =>
    obtain ⟨hchain, hcl⟩ : ChainOk _ d cs := h
    exact ⟨hchain, hcl⟩

theorem SlotCuts.trans (hv : s.vol.Shape) (hvol : Rehinted s.vol t.vol) (hpart : t.part = s.part)
    (hslot : ∀ j < dir.count s.vol, dir'.slot s.vol j = dir.slot s.vol j)
    (hslot' : ∀ j < dir'.count s.vol, dir''.slot s.vol j = dir'.slot s.vol j) (hp : p ≤ q) (hq : q ≤ q')
    (h1 : SlotCuts dir dir' p q s t) (h2 : SlotCuts dir' dir'' q q' t u) : SlotCuts dir dir'' p q' s u := by
  have hused : ∀ c, dir.Last c → fatEntry s.vol t.disk 0 c ≠ 0 := fun c hc => h1.ok.used hv (h1.has c hc.has)
  have hvacant : ∀ c, s.vol.Vacant t.disk c → s.vol.Vacant s.disk c := fun c hc =>
    (h1.area.vacant hv hc).resolve_right fun hl => hused c hl hc.2
  have harea : ∀ d, SlotArea s.vol dir' q q' t.disk d → SlotArea s.vol dir p q' s.disk d := fun d hd =>
    h1.area.trans hv hd hp hq h1.last h1.more hslot hused
  obtain ⟨hwrites, harea2, hok, hoff, hhas, hlast, hmore⟩ := h2
  have hok := hok.of_rehinted hvol
  obtain ⟨i, hi, -⟩ := hvol
  rw [hi] at hwrites harea2 hoff hlast hmore
  refine ⟨(h1.writes.mono fun d hd => hd.mono (Nat.le_refl p) hq).trans hpart (hwrites.mono fun d hd => harea d
    ⟨hd.fat, hd.rest⟩),
    harea _
    ⟨harea2.fat, harea2.rest⟩,
    hok,
    hoff,
    fun c hc =>
    hhas c
    (h1.has c hc),
    fun c hc =>
    ?_,
    fun j hge hlt => ?_⟩
  · rcases hlast c hc with hc | hc
    · exact h1.last c hc
    · exact .inr (hvacant c hc)
  · rcases Nat.lt_or_ge j (dir'.count s.vol) with hlt' | hge'
    · rw [hslot' j hlt']
      exact h1.more j hge hlt'
    · obtain ⟨c, hc, hin⟩ := hmore j hge' hlt
      exact ⟨c, hvacant c hc, hin⟩

/-- A directory with entries in the slots from `p` on. -/
structure Placed (r : HandleRef) (dir dir' : DirPlace) (p : Nat) (fs : List Sector) (s t : FatState) : Prop
    extends Ran (fun _ => True) s t where
  vol : Rehinted s.vol t.vol
  others : ∀ r', r' ≠ r → t.handle r' = s.handle r'
  opened : DirOpen t r dir'
  here : Reached t.vol dir' (p + fs.length) (t.handle r)
  fits : p + fs.length ≤ dir'.count s.vol
  slot : ∀ j < dir.count s.vol, dir'.slot s.vol j = dir.slot s.vol j
  count : dir.count s.vol ≤ dir'.count s.vol
  root : dir'.isRoot = dir.isRoot
  entry : ∀ j < dir'.count s.vol, dir'.entry s.vol t.disk j = dir.entryWith s.vol s.disk p fs j
  confined : ∀ dir0 d0, Confined s.vol dir0 d0 dir s.disk → Confined s.vol dir0 d0 dir' t.disk

/-- Entries written to the slots from `p` on, and nothing but them. -/
structure Entered (r : HandleRef) (dir dir' : DirPlace) (p : Nat) (fs : List Sector) (s t : FatState) : Prop
    extends Placed r dir dir' p fs s t where
  ok : dir.Ok s.vol s.disk → dir'.Ok t.vol t.disk
  same : dir' = dir → t.vol = s.vol ∧ t.Coherent ∧
    ∀ n, (∀ j < dir.count s.vol, n ≠ (dir.slot s.vol j).sector) → t.disk n = s.disk n
  grown : dir' = dir ∨ p < dir.count s.vol ∧ dir.count s.vol ≤ p + fs.length ∧
    dir.count s.vol + 16 ≤ dir'.count s.vol ∧ dir.isRoot = false ∧ dir.Ok s.vol s.disk ∧
      freeCluster s.vol s.disk ≠ 0
  stop : dir.isRoot = false → dir.Ok s.vol s.disk →
    (dir.count s.vol ≤ p + fs.length → freeCluster s.vol s.disk ≠ 0) → 0 < fs.length → fs.length ≤ 16 →
    p + fs.length < dir'.count s.vol
  used : dir.OffTable s.vol → ∀ c, s.vol.IsCluster c → fatEntry s.vol s.disk 0 c ≠ 0 →
    fatEntry s.vol t.disk 0 c ≠ 0 ∧
      ∀ j, dir.count s.vol ≤ j → j < dir'.count s.vol → ¬ s.vol.InCluster c (dir'.slot s.vol j).sector
  left : dir.OffTable s.vol → p + fs.length < dir.count s.vol + 16 → ∀ c, s.vol.IsCluster c →
    c ≠ freeCluster s.vol s.disk → fatEntry s.vol s.disk 0 c = 0 → fatEntry s.vol t.disk 0 c = 0
  usable : t.Usable
  cuts : dir.Ok s.vol s.disk → dir.OffTable s.vol → SlotCuts dir dir' p (p + fs.length) s t

theorem DirPlace.Ok.rehinted (h : Rehinted v v') (hd : dir.Ok v d) : dir.Ok v' d := by
  cases dir with
  | root =>
    obtain ⟨i, rfl, -⟩ := h
    exact ⟨hd.word, hd.first, hd.pos⟩
  | chain cs => exact h.chainOk hd

theorem DirPlace.OffTable.rehinted (h : Rehinted v v') (ho : dir.OffTable v) : dir.OffTable v' := by
  obtain ⟨i, rfl, -⟩ := h
  exact ho

theorem DirPlace.Path.rehinted (h : Rehinted v v') (hd : dir.Path v d) : dir.Path v' d := by
  cases dir with
  | root =>
    obtain ⟨i, rfl, -⟩ := h
    exact ⟨hd.word, hd.first, hd.pos⟩
  | chain cs =>
    obtain ⟨hpos, hcl, hlink, hnodup⟩ : PathOk v d cs := hd
    obtain ⟨i, rfl, -⟩ := h
    exact ⟨hpos, hcl, hlink, hnodup⟩

theorem DirHandle.rehinted (h : Rehinted v v') (hh : DirHandle v dir hd) : DirHandle v' dir hd := by
  obtain ⟨i, rfl, -⟩ := h
  exact ⟨hh.fat, hh.root, hh.first, hh.size, hh.dirent⟩

theorem Reached.rehinted (h : Rehinted v v') (ha : Reached v dir i hd) : Reached v' dir i hd := by
  refine ⟨ha.toDirHandle.rehinted h, ha.position, ?_⟩
  obtain ⟨i, rfl, -⟩ := h
  exact ha.cluster

theorem DirPlace.count_rehinted (h : Rehinted v v') (dir : DirPlace) : dir.count v' = dir.count v := by
  obtain ⟨k, rfl, -⟩ := h
  rfl

theorem DirPlace.slot_rehinted (h : Rehinted v v') (dir : DirPlace) (i : Nat) :
    dir.slot v' i = dir.slot v i := by
  obtain ⟨k, rfl, -⟩ := h
  rfl

theorem DirPlace.entry_rehinted (h : Rehinted v v') (dir : DirPlace) (d : Disk) (i : Nat) :
    dir.entry v' d i = dir.entry v d i := by
  rw [DirPlace.entry, DirPlace.entry, dir.slot_rehinted h]

theorem Entered.nil (h : DirOpen s r dir) (ha : Reached s.vol dir p (s.handle r)) (hp : p ≤ dir.count s.vol)
    (hco : s.Coherent) :
    Entered r dir dir p [] s s where
  toPlaced :=
    { toRan := .refl h.mounted
      vol := .refl _
      others := fun _ _ => rfl
      opened := h
      here := ha
      fits := hp
      slot := fun _ _ => rfl
      count := Nat.le_refl _
      root := rfl
      entry := fun j hj => by
        rw [DirPlace.entryWith, if_neg (by simp only [List.length_nil]; omega), if_pos hj]
      confined := fun _ _ => id }
  ok := id
  same := fun _ => ⟨rfl, hco, fun _ _ => rfl⟩
  grown := .inl rfl
  stop := fun _ _ _ h => absurd h (Nat.lt_irrefl 0)
  used := fun _ c _ hc => ⟨hc, fun j hj hj' => absurd hj' (Nat.not_lt_of_le hj)⟩
  left := fun _ _ _ _ _ hc => hc
  usable := hco.usable
  cuts := fun hok hoff => .refl _ _ hok hoff

theorem slot_edit_area (hoff : dir.OffTable v) (hi : i < dir.count v) (hlen : bs.length = 32) :
    SlotArea v dir i (i + 1) d (d.edit (dir.slot v i).sector (memcpy (dir.slot v i).offset bs)) := by
  refine ⟨fun k hk j hj _ => fatNibble_congr hk hj fun n hn => Disk.edit_of_ne _ fun h => hoff i hi (h ▸ hn),
    fun n b _ hn => ?_⟩
  by_cases hsec : n = (dir.slot v i).sector
  · subst hsec
    rw [Disk.edit_self, memcpy_apply, if_neg]
    rintro ⟨hlo, hhi⟩
    exact hn (.inr ⟨i, Nat.le_refl i, Nat.lt_succ_self i, hi, rfl, hlo, by omega⟩)
  · rw [Disk.edit_of_ne _ hsec]

theorem DirGrown.has (h : DirGrown v dir d dir' d') (hc : dir.Has c) : dir'.Has c := by
  cases h with
  | root => exact hc
  | chain h => exact h.prefix.subset hc

theorem DirGrown.last (h : DirGrown v dir d dir' d') (hc : dir'.Last c) : dir.Last c ∨ v.Next d c := by
  cases h with
  | root => exact .inl hc
  | chain h =>
    cases h with
    | same => exact .inl hc
    | snoc hf hl hkeep hzero =>
      obtain ⟨-, rfl⟩ := hc
      rw [← getLast_eq_lastOf (by simp), List.getLast_concat]
      exact .inr ⟨hf, rfl⟩

theorem DirGrown.more (hv : v.Shape) (h : DirGrown v dir d dir' d') (hge : dir.count v ≤ j)
    (hlt : j < dir'.count v) :
    ∃ c, v.Next d c ∧ v.InCluster c (dir'.slot v j).sector := by
  cases h with
  | root => exact absurd hlt (Nat.not_lt_of_le hge)
  | @chain cs _ _ _ h =>
    cases h with
    | same => exact absurd hlt (Nat.not_lt_of_le hge)
    | snoc hf hl hkeep hzero => exact ⟨_, ⟨hf, rfl⟩, slot_inNew hv cs _ hge hlt⟩

theorem DirGrown.offTable (hv : v.Shape) (h : DirGrown v dir d dir' d') (hoff : dir.OffTable v) :
    dir'.OffTable v := by
  cases h with
  | root => exact hoff
  | chain => exact fun j _ => slot_not_inFat hv rfl j

theorem SlotStored.cuts (h : DirOpen s r dir) (hi : i < dir.count s.vol) (hlen : bs.length = 32)
    (hw : SlotStored r dir i bs s w) (hstep : Stepped r dir dir' i w t) (hok : dir.Ok s.vol s.disk)
    (hoff : dir.OffTable s.vol) : SlotCuts dir dir' i (i + 1) s t := by
  have hv := h.layout.toShape
  have hgrown := hstep.grown
  rw [hw.vol] at hgrown
  have hstored : SlotArea s.vol dir i (i + 1) s.disk w.disk := hw.disk ▸ slot_edit_area hoff hi hlen
  have hpath : dir.Path s.vol w.disk := by
    rw [hw.disk]
    exact h.place.edit hv
  have hsame : freeCluster s.vol w.disk = freeCluster s.vol s.disk := freeCluster_congr hv h.hint fun n hn => by
    have hne : n ≠ (dir.slot s.vol i).sector := fun h => hoff i hi (h ▸ hn)
    rw [hw.disk, Disk.edit_of_ne _ hne]
  have hnext : ∀ c, s.vol.Next w.disk c → s.vol.Vacant s.disk c := fun c hc => by
    obtain ⟨hne, rfl⟩ := hc
    rw [hsame] at hne ⊢
    exact freeCluster_spec h.hint hne
  have harea : ∀ d, StepArea s.vol dir w.disk d → SlotArea s.vol dir i (i + 1) s.disk d := by
    rintro d (rfl | ⟨cs, rfl, hd⟩)
    · exact hstored
    · refine Agree.trans hstored (Agree.mono hd ?_ ?_)
      · rintro c (hc | hc)
        · exact .inl (hnext c hc)
        · exact .inr hc
      · rintro n b ⟨c, hc, hin⟩
        exact .inl ⟨c, hnext c hc, hin⟩
  have hran := hstep.toRan
  rw [hw.vol] at hran
  refine ⟨(hw.writes.mono fun d hd => ?_).trans hw.part (hran.writes.mono harea),
    harea _ (hgrown.stepArea hv hpath), ?_,
    hgrown.offTable hv hoff, fun c hc => hgrown.has hc, fun c hc => (hgrown.last hc).imp id (hnext c),
    fun j hge hlt => ?_⟩
  · exact hd ▸ .refl ..
  · refine hgrown.ok hv h.hint ?_
    rw [hw.disk]
    exact hok.edit hv
  · obtain ⟨c, hc, hin⟩ := hgrown.more hv hge hlt
    exact ⟨c, hnext c hc, hin⟩

theorem DirOpen.write (h : DirOpen s r dir) (ha : Reached s.vol dir i (s.handle r)) (hi : i < dir.count s.vol)
    (h26 : i + 1 < 2 ^ 26) (hlen : bs.length = 32) :
    ∃ t dir', fatWrite r bs s = .ok 32 t ∧ Entered r dir dir' i [structOf bs] s t := by
  have hv := h.layout.toShape
  obtain ⟨w, t, dir', hrun, hw, hstep⟩ := fatWrite_slot h (ha.at hi) hi (by omega) hlen
  obtain ⟨c, hhandle, hcur⟩ := hstep.handle
  have hgrown := hstep.grown
  have hends := hstep.ends
  have hmore := hstep.more
  have husable := hstep.usable
  rw [hw.vol] at hgrown hends hmore hcur
  have hvol : Rehinted s.vol t.vol := hw.vol ▸ hstep.vol
  have hcount := hgrown.count_le
  have hpath : dir.Path s.vol w.disk := by
    rw [hw.disk]
    exact h.place.edit hv
  have hok : dir.Ok s.vol s.disk → dir.Ok s.vol w.disk := fun hok => by
    rw [hw.disk]
    exact hok.edit hv
  -- an end mark in the table is there before the entry is stored
  have hok' : dir.isRoot = false → dir.Ok s.vol w.disk → dir.Ok s.vol s.disk := fun hr hok => by
    cases dir with
    | root => exact absurd hr (by decide)
    | chain cs =>
      refine ChainOk.congr hok fun c hc => (fatEntry_congr hv hv.numFats (ChainOk.cluster hok c hc).2 ?_).symm
      intro n hn
      rw [hw.disk]
      exact slot_edit_inFat hv hr n hn
  have hfat : dir.OffTable s.vol → ∀ n, s.vol.InFat n → w.disk n = s.disk n := fun hoff n hn => by
    have hne : n ≠ (dir.slot s.vol i).sector := fun h => hoff i hi (h ▸ hn)
    rw [hw.disk, Disk.edit_of_ne _ hne]
  have hfree : dir.isRoot = false → freeCluster s.vol w.disk = freeCluster s.vol s.disk := fun hr => by
    rw [hw.disk]
    exact freeCluster_congr hv h.hint (slot_edit_inFat hv hr)
  have hentry : ∀ j < dir'.count s.vol,
      dir'.entry s.vol t.disk j = dir.entryWith s.vol s.disk i [structOf bs] j := by
    intro j hj
    rw [DirPlace.entryWith, List.length_singleton]
    rcases Nat.lt_or_ge j (dir.count s.vol) with hlt | hge
    · rw [hgrown.entry hv h.hint (hends.imp id And.left) hlt, hw.disk,
        h.place.entry_edit hv hi hlt hlen, if_pos hlt]
      by_cases hji : j = i
      · subst hji
        rw [if_pos rfl, if_pos ⟨Nat.le_refl j, Nat.lt_succ_self j⟩, Nat.sub_self]
        rfl
      · rw [if_neg hji, if_neg (by omega)]
    · rw [hgrown.entry_new hv hge hj, if_neg (by omega), if_neg (by omega)]
  have hcwd : t.handle r = { s.handle r with position := 32 * (i + 1), curCluster := c } := by
    rw [hhandle, Function.update_self, hw.handle, Function.update_self]
  have hdir := hgrown.dirHandle hpath h.handle
  have hhere : Reached t.vol dir' (i + 1) (t.handle r) := by
    rw [hcwd]
    exact Reached.rehinted hvol ⟨⟨hdir.fat, hdir.root, hdir.first, hdir.size, hdir.dirent⟩, rfl, hcur⟩
  have hready : ∀ j < dir'.count t.vol, t.CacheOk (dir'.slot t.vol j).sector := fun j _ => by
    cases hr : dir'.isRoot with
    | false => exact husable.data _ (slot_not_inFat (hvol.shape hv) hr j)
    | true => exact hstep.coherent (hgrown.of_root (hgrown.isRoot ▸ hr)) _
  refine ⟨t, dir', hrun, ⟨⟨(hw.toRan.mono fun _ _ => trivial).trans (hstep.toRan.mono fun _ _ => trivial), hvol,
    fun r' hr' => ?_, ?_, hhere, Nat.le_trans hi hcount,
    fun j hj => hgrown.slot hj, hcount, hgrown.isRoot, hentry, fun _ _ hc => ?_⟩,
    fun h' => ?_, fun hsame => ⟨?_, ?_, fun n hn => ?_⟩, ?_,
    fun hr hok1 hroom _ _ => ?_, fun hoff k hcl hk => ?_, fun hoff _ k hcl hne hk => ?_, husable,
    hw.cuts h hi hlen hstep⟩⟩
  · rw [hhandle, Function.update_of_ne hr', hw.handle, Function.update_of_ne hr']
  · exact ⟨hstep.mounted, hstep.quiet (hw.quiet h.quiet), hvol.layout h.layout, hvol.hintOk h.hint,
      (hgrown.path hv h.hint hpath (hends.imp id And.left)).rehinted hvol, hhere.toDirHandle, hready⟩
  · rw [hw.disk] at hgrown hpath
    exact (hc.edit hv hi).grown hv h.hint hpath hgrown
  · exact (hgrown.ok hv h.hint (hok h')).rehinted hvol
  · rw [hstep.hint hsame, hw.vol]
  · exact hstep.coherent hsame
  · rw [hsame] at hgrown
    rw [hgrown.same, hw.disk, Disk.edit_of_ne _ (hn i hi)]
  · rcases hgrown.cases hv with ⟨hsame, -⟩ | hmore'
    · exact .inl hsame
    · have hne : dir' ≠ dir := fun h => by
        rw [h] at hmore'
        omega
      have hr : dir.isRoot = false := Bool.eq_false_iff.mpr fun hr => hne (hgrown.of_root hr)
      exact .inr ⟨hi, (hends.resolve_left hne).2, hmore', hr, hok' hr (hends.resolve_left hne).1,
        hfree hr ▸ hgrown.free hne⟩
  · rcases Nat.lt_or_ge (i + 1) (dir.count s.vol) with hlt | hge
    · exact Nat.lt_of_lt_of_le hlt hcount
    · exact hmore hr hge (hok hok1) (by rw [hfree hr]; exact hroom hge)
  · refine hgrown.used hv h.hint hcl ?_
    rwa [fatEntry_congr hv hv.numFats hcl.2 (hfat hoff)]
  · refine hgrown.left hv (hends.imp id And.left) hcl ?_ ?_
    · rwa [freeCluster_congr hv h.hint (hfat hoff)]
    · rwa [fatEntry_congr hv hv.numFats hcl.2 (hfat hoff)]

theorem DirPlace.offTable_of_chain (hv : v.Shape) (hr : dir.isRoot = false) : dir.OffTable v := fun j _ =>
  slot_not_inFat hv hr j

theorem Entered.fat (h : Entered r dir dir' p fs s t) (hsame : dir' = dir) (ho : dir.OffTable s.vol) :
    ∀ n, s.vol.InFat n → t.disk n = s.disk n := fun n hn =>
  (h.same hsame).2.2 n fun j hj hj' => ho j hj (hj' ▸ hn)

theorem Entered.free (h : Entered r dir dir' p fs s t) (hv : s.vol.Shape) (hh : s.vol.HintOk)
    (hsame : dir' = dir) (ho : dir.OffTable s.vol) : freeCluster t.vol t.disk = freeCluster s.vol s.disk := by
  rw [(h.same hsame).1]
  exact freeCluster_congr hv hh (h.fat hsame ho)

theorem Entered.table (h : Entered r dir dir' p fs s t) (hv : s.vol.Layout) (hh : s.vol.HintOk)
    (hsame : dir' = dir) (hr : dir.isRoot = false) :
    (dir.Ok t.vol t.disk → dir.Ok s.vol s.disk) ∧ freeCluster t.vol t.disk = freeCluster s.vol s.disk := by
  have ho := DirPlace.offTable_of_chain hv.toShape hr
  refine ⟨fun hok => ?_, h.free hv.toShape hh hsame ho⟩
  rw [(h.same hsame).1] at hok
  cases dir with
  | root => exact hok
  | chain cs =>
    exact ChainOk.congr hok fun c hc =>
      (fatEntry_congr hv.toShape hv.numFats (ChainOk.cluster hok c hc).2 (h.fat hsame ho)).symm

theorem DirPlace.entryWith_append (v : FatVolHandle) (d : Disk) (dir : DirPlace) (p : Nat)
    (fs gs : List Sector) (j : Nat) :
    dir.entryWith v d p (fs ++ gs) j =
      if p + fs.length ≤ j ∧ j < p + fs.length + gs.length then gs.getD (j - (p + fs.length)) fun _ => 0
      else dir.entryWith v d p fs j := by
  simp only [DirPlace.entryWith, List.length_append]
  by_cases hg : p + fs.length ≤ j ∧ j < p + fs.length + gs.length
  · rw [if_pos (by omega), if_pos hg, List.getD_append_right _ _ _ _ (by omega),
      show j - p - fs.length = j - (p + fs.length) by omega]
  · rw [if_neg hg]
    by_cases hf : p ≤ j ∧ j < p + fs.length
    · rw [if_pos (by omega), if_pos hf, List.getD_append _ _ _ _ (by omega)]
    · rw [if_neg (by omega), if_neg hf]

theorem Placed.same_root (h : Placed r dir dir' p fs s t) (hr : dir.isRoot = true) : dir' = dir := by
  have hr' := h.root.trans hr
  cases dir with
  | chain => exact absurd hr (by simp [DirPlace.isRoot])
  | root =>
    cases dir' with
    | chain => exact absurd hr' (by simp [DirPlace.isRoot])
    | root => rfl

theorem Entered.offTable (hv : s.vol.Shape) (h : Entered r dir dir' p fs s t) (ho : dir.OffTable s.vol) :
    dir'.OffTable s.vol := by
  cases hr : dir.isRoot with
  | true => rw [h.same_root hr]; exact ho
  | false => exact fun j _ => slot_not_inFat hv (h.root.trans hr) j

theorem Placed.trans (h1 : Placed r dir dir' p fs s t) (h2 : Placed r dir' dir'' (p + fs.length) gs t u) :
    Placed r dir dir'' p (fs ++ gs) s u := by
  have hcount : ∀ dir : DirPlace, dir.count t.vol = dir.count s.vol := fun dir => dir.count_rehinted h1.vol
  have hslot : ∀ (dir : DirPlace) j, dir.slot t.vol j = dir.slot s.vol j := fun dir => dir.slot_rehinted h1.vol
  have hentry : ∀ (dir : DirPlace) d j, dir.entry t.vol d j = dir.entry s.vol d j :=
    fun dir => dir.entry_rehinted h1.vol
  obtain ⟨hran2, hvol2, hothers2, hopened2, hhere2, hfits2, hslot2, hcount2, hroot2, hentry2, hconf2⟩ := h2
  rw [hcount] at hfits2
  rw [hcount, hcount] at hcount2
  simp only [hcount, hslot] at hslot2
  simp only [hcount, hentry] at hentry2
  have hgrow := h1.count
  refine ⟨h1.toRan.trans hran2, h1.vol.trans hvol2, fun r' hr => (hothers2 r' hr).trans (h1.others r' hr),
    hopened2, ?_, ?_,
    fun j hj => (hslot2 j (by omega)).trans (h1.slot j hj), Nat.le_trans hgrow hcount2, hroot2.trans h1.root,
    fun j hj => ?_,
    fun dir0 d0 hc => (hconf2 dir0 d0 ((h1.confined dir0 d0 hc).rehinted h1.vol)).of_rehinted h1.vol⟩
  · rw [List.length_append, ← Nat.add_assoc]
    exact hhere2
  · rw [List.length_append]
    omega
  · have hfits := h1.fits
    rw [hentry2 j hj, dir.entryWith_append, DirPlace.entryWith, hentry, hcount]
    split
    · rfl
    next hg =>
      split
      next hlt => exact h1.entry j hlt
      next hge => rw [DirPlace.entryWith, if_neg (by omega), if_neg (by omega)]

theorem Entered.trans (hv : s.vol.Layout) (hh : s.vol.HintOk) (h1 : Entered r dir dir' p fs s t)
    (h2 : Entered r dir' dir'' (p + fs.length) gs t u) : Entered r dir dir'' p (fs ++ gs) s u := by
  have hcount : ∀ dir : DirPlace, dir.count t.vol = dir.count s.vol := fun dir => dir.count_rehinted h1.vol
  have hslot : ∀ (dir : DirPlace) j, dir.slot t.vol j = dir.slot s.vol j := fun dir => dir.slot_rehinted h1.vol
  have hplaced := h1.toPlaced.trans h2.toPlaced
  have hcount2 := h2.count
  have hslot2 := h2.slot
  have hfat2 := h2.fat
  obtain ⟨-, hok2, hsame2, hgrown2, hstop2, hused2, hleft2, husable2, hcuts2⟩ := h2
  rw [hcount, hcount] at hcount2
  simp only [hcount, hslot] at hslot2 hsame2 hgrown2 hstop2
  -- the hint is no part of what is said of a cluster
  have hused2 : dir'.OffTable s.vol → ∀ c, s.vol.IsCluster c → fatEntry s.vol t.disk 0 c ≠ 0 →
      fatEntry s.vol u.disk 0 c ≠ 0 ∧
        ∀ j, dir'.count s.vol ≤ j → j < dir''.count s.vol →
        ¬ s.vol.InCluster c (dir''.slot s.vol j).sector := by
    obtain ⟨i, hi, -⟩ := h1.vol
    rw [hi] at hused2
    exact hused2
  have hfat2 : dir'' = dir' → dir'.OffTable s.vol → ∀ n, s.vol.InFat n → u.disk n = t.disk n := by
    obtain ⟨i, hi, -⟩ := h1.vol
    rw [hi] at hfat2
    exact hfat2
  -- growing twice is growing
  have hboth : dir'' = dir → dir' = dir := fun h => by
    refine h1.grown.elim id fun hg => ?_
    rw [h] at hcount2
    omega
  refine ⟨hplaced, fun h => hok2 (h1.ok h), fun hsame => ?_, ?_, fun hr hok hroom hpos hle => ?_,
    fun hoff c hcl hc => ?_, fun hoff hend c hcl hne hc => ?_, husable2, fun hok hoff => ?_⟩
  · have hsame1 := hboth hsame
    obtain ⟨hv1, -, hd1⟩ := h1.same hsame1
    obtain ⟨hv2, hco, hd2⟩ := hsame2 (hsame.trans hsame1.symm)
    rw [hsame1] at hd2
    exact ⟨hv2.trans hv1, hco, fun n hn => (hd2 n hn).trans (hd1 n hn)⟩
  · rw [List.length_append]
    rcases h1.grown with hsame | ⟨hp, hend, hmore, hrest⟩
    · refine hgrown2.imp (fun h => h.trans hsame) fun ⟨hp, hend, hmore, hr, hok, hf⟩ => ?_
      rw [hsame] at hp hend hmore hr hok
      obtain ⟨hok', hfree⟩ := h1.table hv hh hsame hr
      exact ⟨by omega, by omega, hmore, hr, hok' hok, hfree ▸ hf⟩
    · exact .inr ⟨hp, by omega, by omega, hrest⟩
  · rw [List.length_append] at hroom hpos hle ⊢
    rcases h1.grown with hsame | ⟨hp, -, hmore, -⟩
    · obtain ⟨-, hfree⟩ := h1.table hv hh hsame hr
      rcases Nat.eq_zero_or_pos gs.length with h0 | hgs
      · rw [h0] at hroom hpos ⊢
        have := h1.stop hr hok hroom hpos (by omega)
        omega
      · have := hstop2 (h1.root.trans hr) (h1.ok hok) (fun h => by
          rw [hfree]
          rw [hsame] at h
          exact hroom (by omega)) hgs (by omega)
        omega
    · omega
  · obtain ⟨hc1, hnew1⟩ := h1.used hoff c hcl hc
    obtain ⟨hc2, hnew2⟩ := hused2 (h1.offTable hv.toShape hoff) c hcl hc1
    refine ⟨hc2, fun j hj hj' => ?_⟩
    rcases Nat.lt_or_ge j (dir'.count s.vol) with hlt | hge
    · rw [hslot2 j hlt]
      exact hnew1 j hj hlt
    · exact hnew2 j hge hj'
  · rw [List.length_append] at hend
    have hc1 := h1.left hoff (by omega) c hcl hne hc
    have hoff' := h1.offTable hv.toShape hoff
    rcases h1.grown with hsame | ⟨-, -, hmore, -⟩
    · have hvol := (h1.same hsame).1
      have hfree := h1.free hv.toShape hh hsame hoff
      rw [hvol] at hleft2 hfree
      refine hleft2 hoff' ?_ c hcl (hfree ▸ hne) hc1
      rw [hsame]
      omega
    · -- the second row has room in the cluster the first one took
      have hsame2 : dir'' = dir' := hgrown2.resolve_right fun hg => by omega
      rw [fatEntry_congr hv.toShape hv.numFats hcl.2 (hfat2 hsame2 hoff')]
      exact hc1
  · have hc1 := h1.cuts hok hoff
    rw [List.length_append, ← Nat.add_assoc]
    exact hc1.trans hv.toShape h1.vol h1.part h1.slot hslot2 (Nat.le_add_right ..) (Nat.le_add_right ..)
      (hcuts2 (hc1.ok.rehinted h1.vol) (hc1.off.rehinted h1.vol))

theorem Entered.coherent_root (h : Entered r dir dir' p fs s t) (hr : dir.isRoot = true) : t.Coherent :=
  (h.same (h.same_root hr)).2.1

theorem DirOpen.put_none (h : DirOpen s r dir) (ha : Reached s.vol dir p (s.handle r)) (hr : dir.isRoot = true)
    (hp : p = dir.count s.vol) (hlen : bs.length = 32) (hco : s.Coherent) :
    fatWrite r bs s = .ok 0 s ∧ Entered r dir dir p [] s s := by
  cases dir with
  | chain cs => exact absurd hr (by simp [DirPlace.isRoot])
  | root =>
    subst hp
    exact ⟨fatWrite_rootEnd h.place ⟨ha.toDirHandle, ha.position, ha.cluster (.inl rfl)⟩ hlen,
      .nil h ha (Nat.le_refl _) hco⟩

/-- The slots before `m` are there, or the chain of the directory can take a cluster for them. -/
def DirRoom (s : FatState) (dir : DirPlace) (m : Nat) : Prop :=
  m ≤ dir.count s.vol ∨ dir.Ok s.vol s.disk ∧ freeCluster s.vol s.disk ≠ 0

theorem DirRoom.mono (h : DirRoom s dir m) (hle : n ≤ m) : DirRoom s dir n := h.imp (Nat.le_trans hle) id

theorem Entered.room (hv : s.vol.Layout) (hh : s.vol.HintOk) (h : Entered r dir dir' p fs s t)
    (hr : dir.isRoot = false) (hroom : DirRoom s dir m) (hm : m ≤ p + 16) : DirRoom t dir' m := by
  rw [DirRoom, dir'.count_rehinted h.vol]
  have hcount := h.count
  rcases h.grown with hsame | ⟨hp, -, hmore, -⟩
  · refine hroom.imp (fun hle => by omega) fun ⟨hok, hf⟩ => ⟨h.ok hok, ?_⟩
    rw [(h.table hv hh hsame hr).2]
    exact hf
  · exact .inl (by omega)

/-- Where the slots up to `m` need another cluster, there is one. -/
def HasRoom (s : FatState) (dir : DirPlace) (m : Nat) : Prop :=
  dir.isRoot = false → dir.count s.vol ≤ m → freeCluster s.vol s.disk ≠ 0

end Stm32Logger
