import Stm32Logger.Fat.Scan

/-!
# Rows of entries

A look-up that comes to an end without the name has passed over a row of
entries, in the directory and wherever the links lead behind it. Every other
look-up meets the same row, and `_fat_dir_seek_empty` finds its place in it.
-/

namespace Stm32Logger

/-- The entries from a handle on, up to an end. -/
inductive Rows (v : FatVolHandle) (d : Disk) : FatFileHandle → List Sector → Prop where
  | nil {h : FatFileHandle} (hend : h.More → h.entry v d 0 = 0) : Rows v d h []
  | cons {h : FatFileHandle} {e : Sector} {es : List Sector} (hm : h.More) (he : h.entry v d = e) (h0 : e 0 ≠ 0)
      (hrest : Rows v d (h.step v d) es) : Rows v d h (e :: es)

/-- Where `fat_lseek` to entry `p` leads, along the links. -/
def FatFileHandle.seek (v : FatVolHandle) (d : Disk) (p : Nat) (h : FatFileHandle) : FatFileHandle :=
  { h with
    position := 32 * p
    curCluster :=
      if h.rootFlag then h.firstCluster
      else (fatNext v d)^[p / (16 * v.sectorsPerCluster)] h.firstCluster }

variable {s t : FatState} {v : FatVolHandle} {d : Disk} {dir : DirPlace} {g h : FatFileHandle}
  {es : List Sector}
  {name : List UInt8} {n : LongName} {dst : HandleRef}

-- ---------------------------------------------------------------------------
-- Look-ups over a row
-- ---------------------------------------------------------------------------

theorem Stops.rows (hs : Stops name v d h n es b) (hb : b = .missing) (k : Nat) :
    Rows v d h es ∧ (∀ e ∈ es, StoresInside e) ∧ lookup name es k n = none := by
  induction hs generalizing k with
  | missing hend => exact ⟨.nil hend, fun e he => absurd he List.not_mem_nil, rfl⟩
  | found => exact absurd hb (by decide)
  | outside => exact absurd hb (by decide)
  | next hm h0 hin hs hrest ih =>
    obtain ⟨hr, hall, hl⟩ := ih hb (k + 1)
    refine ⟨.cons hm rfl h0 hr, fun e he => ?_, ?_⟩
    · rcases List.mem_cons.mp he with rfl | he
      · exact hin
      · exact hall e he
    · rw [lookup, hs]
      exact hl

theorem Rows.stops (name : List UInt8) (n : LongName) (k : Nat) (hr : Rows v d h es)
    (hin : ∀ e ∈ es, StoresInside e) :
    (lookup name es k n = none → Stops name v d h n es .missing) ∧
      (lookup name es k n ≠ none → ∃ es', Stops name v d h n es' .found) := by
  induction hr generalizing n k with
  | nil hend => exact ⟨fun _ => .missing hend, fun h => absurd rfl h⟩
  | @cons h e es hm he h0 hrest ih =>
    subst he
    have hin0 := hin _ List.mem_cons_self
    rw [lookup]
    cases hs : scanEntry name (h.entry v d) n with
    | none => exact ⟨fun h => absurd h (by simp), fun _ => ⟨[], .found hm h0 hs⟩⟩
    | some n' =>
      obtain ⟨hno, hyes⟩ := ih n' (k + 1) fun e he => hin e (List.mem_cons_of_mem _ he)
      refine ⟨fun hl => .next hm h0 hin0 hs (hno hl), fun hl => ?_⟩
      obtain ⟨es', hst⟩ := hyes hl
      exact ⟨_, .next hm h0 hin0 hs hst⟩

theorem ScanReady.rows (hr : Rows s.vol s.disk (s.handle .cwd).start es) (hsc : Scanned dst s t) :
    Rows t.vol t.disk (t.handle .cwd).start es := by
  rw [hsc.vol, hsc.disk, hsc.cwd]
  exact hr

theorem shortNameLoop_rows (name : List UInt8) (hdst : dst ≠ .cwd) (k n : Nat) (hs : ScanReady s)
    (hr : Rows s.vol s.disk (s.handle .cwd).start es) (hin : ∀ e ∈ es, StoresInside e) (hco : s.Coherent) :
    ∃ t, shortNameLoop name dst k n s = .ok (freshName name es k n) t ∧ Scanned dst s t := by
  induction k generalizing s n with
  | zero => exact ⟨s, rfl, .refl hs hco⟩
  | succ k ih =>
    obtain ⟨hno, hyes⟩ := hr.stops (buildShortName name n) {} 0 hin
    rw [shortNameLoop, freshName]
    by_cases hl : lookup (buildShortName name n) es 0 {} = none
    · obtain ⟨t, hopen, hsc⟩ := (hno hl).fatOpen_run 0 dst hs (buildShortName_ne_dot name n)
      rw [bind_ok hopen, if_pos (by decide), if_pos hl]
      exact ⟨t, rfl, hsc.mono dst⟩
    · obtain ⟨es', hst⟩ := hyes hl
      obtain ⟨t, hd, hopen, hsc⟩ := hst.fatOpen_run 0 dst hs (buildShortName_ne_dot name n)
      have hsc' := hsc.withHandle hdst hd
      obtain ⟨u, hrun, hsc''⟩ := ih (n + 1) (hs.scanned hsc') (ScanReady.rows hr hsc') hsc'.coherent
      rw [bind_ok hopen, if_neg (by decide), if_neg hl]
      exact ⟨u, hrun, hsc'.trans hsc''⟩

theorem withShortName_missing (enter : List UInt8 → FatM Int) (hdst : dst ≠ .cwd) (hdot : name ≠ [46])
    (hs : ScanReady s) (hst : Stops name s.vol s.disk (s.handle .cwd).start {} es .missing) :
    ∃ t, Scanned dst s t ∧ withShortName name dst enter s =
      match freshName name es 9 1 with
      | some sname => enter sname t
      | none => .ok (-1) t := by
  obtain ⟨t, hopen, hsc⟩ := hst.fatOpen_run 0 dst hs hdot
  have hsc' := hsc.mono dst
  obtain ⟨hr, hin, -⟩ := hst.rows rfl 0
  obtain ⟨u, hname, hsc''⟩ := shortNameLoop_rows name hdst 9 1 (hs.scanned hsc') (ScanReady.rows hr hsc') hin
    hsc'.coherent
  refine ⟨u, hsc'.trans hsc'', ?_⟩
  rw [withShortName, bind_ok hopen, if_neg (by decide), bind_ok hname]
  cases freshName name es 9 1 with
  | none => rfl
  | some sname => rfl

theorem withShortName_found (enter : List UInt8 → FatM Int) (hdst : dst ≠ .cwd) (hdot : name ≠ [46])
    (hs : ScanReady s) (hst : Stops name s.vol s.disk (s.handle .cwd).start {} es .found) :
    ∃ t, Scanned dst s t ∧ withShortName name dst enter s = .ok (-1) t := by
  obtain ⟨t, hd, hopen, hsc⟩ := hst.fatOpen_run 0 dst hs hdot
  refine ⟨_, hsc.withHandle hdst hd, ?_⟩
  rw [withShortName, bind_ok hopen, if_pos rfl]
  rfl

theorem withShortName_outside (enter : List UInt8 → FatM Int) (dst : HandleRef) (hdot : name ≠ [46])
    (hs : ScanReady s) (hst : Stops name s.vol s.disk (s.handle .cwd).start {} es .outside) :
    ∃ t, withShortName name dst enter s = .error .outOfBounds t := by
  obtain ⟨t, hopen⟩ := hst.fatOpen_run 0 dst hs hdot
  exact ⟨t, by rw [withShortName, bind_error hopen]⟩

theorem withShortName_endless (enter : List UInt8 → FatM Int) (hdot : name ≠ [46]) (hs : ScanReady s)
    (hno : ¬ ∃ es b, Stops name s.vol s.disk (s.handle .cwd).start {} es b) :
    ∃ t, withShortName name dst enter s = .error .noReturn t := by
  have hrun : ¬ Ended (fatOpen name 0 dst s) := fun h => hno (fatOpen_stops 0 dst hs hdot h)
  obtain ⟨t, ht⟩ := not_forall.mp hrun
  exact ⟨t, by rw [withShortName, bind_error (not_not.mp ht)]⟩

-- ---------------------------------------------------------------------------
-- Places along the links
-- ---------------------------------------------------------------------------

theorem seek_zero (v : FatVolHandle) (d : Disk) (h : FatFileHandle) : h.seek v d 0 = h.start := by
  rw [FatFileHandle.seek, Nat.zero_div, Function.iterate_zero, id_eq, ite_self]
  rfl

theorem start_seek (v : FatVolHandle) (d : Disk) (p : Nat) (h : FatFileHandle) :
    h.start.seek v d p = h.seek v d p := rfl

theorem seek_congr (hh : g.start = h.start) : g.seek v d p = h.seek v d p := by
  rw [← start_seek, hh, start_seek]

theorem seek_step (hv : v.Shape) (h26 : p < 2 ^ 26) : (h.seek v d p).step v d = h.seek v d (p + 1) := by
  have hspc := spc_pos hv
  have hpos : u32 (32 * p + 32) = 32 * (p + 1) := by
    rw [u32, Nat.mod_eq_of_lt (by omega)]
    omega
  have hmod : 32 * (p + 1) % v.clusterBytes = 0 ↔ (p + 1) % (16 * v.sectorsPerCluster) = 0 := by
    rw [clusterBytes_slots, Nat.mul_mod_mul_left]
    omega
  simp only [FatFileHandle.step, FatFileHandle.seek, hpos, hmod]
  cases h.rootFlag with
  | true => rfl
  | false =>
    simp only [true_and, Bool.false_eq_true, if_false]
    by_cases hcl : (p + 1) % (16 * v.sectorsPerCluster) = 0
    · rw [if_pos hcl, Nat.succ_div, if_pos (Nat.dvd_of_mod_eq_zero hcl), Function.iterate_succ_apply']
    · rw [if_neg hcl, Nat.succ_div, if_neg fun h => hcl (Nat.mod_eq_zero_of_dvd h)]
      rfl

theorem Rows.drop (hv : v.Shape) (hr : Rows v d h.start es) (hi : i ≤ es.length) (hsmall : es.length < 2 ^ 26) :
    Rows v d (h.seek v d i) (es.drop i) := by
  induction i with
  | zero =>
    rw [seek_zero]
    exact hr
  | succ i ih =>
    have hlt : i < es.length := hi
    have hrow := ih (Nat.le_of_lt hlt)
    rw [List.drop_eq_getElem_cons hlt] at hrow
    cases hrow with
    | cons hm he h0 hrest =>
      rw [seek_step hv (by omega)] at hrest
      exact hrest

theorem Rows.entry (hv : v.Shape) (hr : Rows v d h.start es) (hsmall : es.length < 2 ^ 26)
    (he : es[i]? = some e) :
    (h.seek v d i).entry v d = e ∧ e 0 ≠ 0 := by
  obtain ⟨hi, rfl⟩ := List.getElem?_eq_some_iff.mp he
  have hrow := hr.drop hv (Nat.le_of_lt hi) hsmall
  rw [List.drop_eq_getElem_cons hi] at hrow
  cases hrow with
  | cons hm he h0 hrest => exact ⟨he, h0⟩

theorem Rows.last (hv : v.Shape) (hr : Rows v d h.start es) (hsmall : es.length < 2 ^ 26) :
    (h.seek v d es.length).More → (h.seek v d es.length).entry v d 0 = 0 := by
  have hrow := hr.drop hv (Nat.le_refl _) hsmall
  rw [List.drop_length] at hrow
  cases hrow with
  | nil hend => exact hend

theorem Rows.sized (hr : Rows v d h es) (ho : h.OnEntry) (h0 : h.size ≠ 0) (hsize : h.size < 2 ^ 32 - 32) :
    32 * es.length + h.position ≤ h.size := by
  induction hr with
  | nil => exact (Nat.zero_add _).symm ▸ ho.inside.resolve_left h0
  | cons hm he hne hrest ih =>
    have hstep := ih (ho.step hm) h0 hsize
    have hle := ho.inside.resolve_left h0
    simp only [FatFileHandle.step, u32] at hstep
    rw [List.length_cons]
    omega

-- ---------------------------------------------------------------------------
-- _fat_dir_seek_empty
-- ---------------------------------------------------------------------------

theorem seekEmptyLoop_rows (k fuel run start : Nat) (rest : List Sector) (hs : ScanReady s)
    (hh : s.handle .cwd = g.seek s.vol s.disk (start + run)) (ho : (s.handle .cwd).OnEntry)
    (hc : s.Readable (s.handle .cwd)) (hr : Rows s.vol s.disk (s.handle .cwd) rest)
    (hsmall : start + run + rest.length < 2 ^ 26) (hfuel : rest.length < fuel) :
    ∃ t, seekEmptyLoop .cwd k fuel run (32 * start) s = .ok (32 * Slots.firstFit deleted k run start rest) t ∧
      Scanned .cwd s t := by
  induction rest generalizing s run start fuel with
  | nil =>
    obtain ⟨fuel, rfl⟩ : ∃ k, fuel = k + 1 := ⟨fuel - 1, by omega⟩
    cases hr with
    | nil hend =>
      obtain ⟨bs, t, hread, hz, hsc⟩ := hs.read_end ho hc hend
      refine ⟨t, ?_, hsc⟩
      rw [seekEmptyLoop, bind_ok hread, Slots.firstFit]
      simp only [Option.getD_some]
      split
      · rfl
      next hlen =>
        rw [if_pos (hz (not_not.mp hlen))]
        rfl
  | cons e rest ih =>
    obtain ⟨fuel, rfl⟩ : ∃ k, fuel = k + 1 := ⟨fuel - 1, by omega⟩
    rw [List.length_cons] at hfuel hsmall
    cases hr with
    | cons hm he h0 hrest =>
      subst he
      obtain ⟨bs, t, hread, hlen, hbs, hmv, hco⟩ := hs.read ho hc hm
      have hsc : Scanned .cwd s t := hmv.scanned rfl hco
      have hstep : (s.handle .cwd).step s.vol s.disk = g.seek t.vol t.disk (start + run + 1) := by
        rw [hh, seek_step hs.layout.toShape (by omega), hmv.vol, hmv.disk]
      have hself := hmv.self.trans hstep
      -- the walk goes on behind the entry
      have hnext : ∀ run' start', start' + run' = start + run + 1 → ∃ u, seekEmptyLoop .cwd k fuel run'
          (32 * start') t = .ok (32 * Slots.firstFit deleted k run' start' rest) u ∧ Scanned .cwd s u := by
        intro run' start' heq
        rw [← heq] at hself
        obtain ⟨u, hrun, hsc'⟩ := ih fuel run' start' (hs.scanned hsc) hself
          (by rw [hmv.self]; exact ho.step hm) (.inl hco) (by rw [hmv.self, hmv.vol, hmv.disk]; exact hrest)
          (by omega) (by omega)
        exact ⟨u, hrun, hsc.trans hsc'⟩
      rw [seekEmptyLoop, bind_ok hread, Slots.firstFit]
      simp only [Option.getD_some, hlen, ne_eq, not_true_eq_false, if_false, hbs, h0]
      by_cases hd : (s.handle .cwd).entry s.vol s.disk 0 = 0xE5
      · have hd' : deleted ((s.handle .cwd).entry s.vol s.disk) = true := decide_eq_true hd
        rw [if_pos hd, if_pos hd']
        split
        · exact ⟨t, rfl, hsc⟩
        · exact hnext (run + 1) start (by omega)
      · have hd' : ¬ deleted ((s.handle .cwd).entry s.vol s.disk) = true := fun h => hd (of_decide_eq_true h)
        rw [if_neg hd, if_neg hd', getHandle_bind, hself]
        exact hnext 0 (start + run + 1) rfl

theorem fatDirSeekEmpty_rows (k : Nat) (hs : ScanReady s) (hr : Rows s.vol s.disk (s.handle .cwd).start es)
    (hsmall : es.length < 2 ^ 26) :
    ∃ t, fatDirSeekEmpty .cwd k s = .ok ⟨⟩ t ∧ Scanned .cwd s t ∧
      t.handle .cwd = (s.handle .cwd).seek s.vol s.disk (Slots.firstFit deleted k 0 0 es) := by
  have hv := hs.layout.toShape
  have hp := Slots.firstFit_le deleted k 0 0 es
  have hsized := hr.sized hs.dir
  have hlimit : es.length < scanLimit := by
    rw [scanLimit]
    omega
  have hstart := hs.started
  have hself : (s.withHandle .cwd (s.handle .cwd).start).handle .cwd = (s.handle .cwd).start :=
    withHandle_handle
  obtain ⟨t, hloop, hsc⟩ := seekEmptyLoop_rows (g := s.handle .cwd) k scanLimit 0 0 es hstart
    (by rw [hself]; exact (seek_zero ..).symm) (by rw [hself]; exact hs.dir) (by rw [hself]; exact hs.ready)
    (by rw [hself]; exact hr) (by omega) hlimit
  generalize hq : Slots.firstFit deleted k 0 0 es = p at *
  have hsc' : Scanned .cwd s t :=
    ⟨((Ran.refl hs.mounted).withHandle).trans hsc.toRan, hsc.disk, hsc.vol, hsc.cwd.trans (by rw [hself]; rfl),
      fun r hr hr' => by rw [hsc.others r hr hr', withHandle_of_ne hr], hsc.coherent⟩
  have hcwd := hsc'.cwd
  have hsize : (t.handle .cwd).start.size = (s.handle .cwd).start.size := congrArg FatFileHandle.size hcwd
  have hfat : (t.handle .cwd).start.fat = (s.handle .cwd).start.fat := congrArg FatFileHandle.fat hcwd
  change (t.handle .cwd).size = (s.handle .cwd).size at hsize
  replace hfat : (t.handle .cwd).fat = true := hfat.trans hs.dir.fat
  have htarget : Whence.set.target (t.handle .cwd) (i32 (32 * p : Nat)) = ((32 * p : Nat) : Int) := by
    rw [Whence.target, i32, Int.bmod]
    omega
  have hu : u32OfInt ((32 * p : Nat) : Int) = 32 * p := by
    rw [u32OfInt]
    omega
  have hclip : ¬ ((t.handle .cwd).size ≠ 0 ∧ u32OfInt ((32 * p : Nat) : Int) > (t.handle .cwd).size) := by
    rintro ⟨h0, hgt⟩
    rw [hsize] at h0 hgt
    rw [hu] at hgt
    have := hsized h0
    simp only [FatFileHandle.start] at this
    omega
  have hseek := fatLseek_eq _ htarget hclip
  rw [hu] at hseek
  have hplace : (t.handle .cwd).seek t.vol t.disk p = (s.handle .cwd).seek s.vol s.disk p := by
    rw [seek_congr hcwd, hsc'.vol, hsc'.disk]
  have hrun : ∀ {n u}, fatLseek .cwd (i32 (32 * p : Nat)) .set t = .ok n u →
      fatDirSeekEmpty .cwd k s = .ok ⟨⟩ u :=
    fun hrun => by
      rw [fatDirSeekEmpty, bind_ok (fatLseek_start hs.layout.toShape hs.dir.fat), bind_ok hloop, bind_ok hrun]
      rfl
  have hm := (Kept.refl (P := fun d => d = t.disk) hsc.mounted).moved .cwd
    { t.handle .cwd with curCluster := (t.handle .cwd).firstCluster, position := 32 * p }
  cases hroot : (t.handle .cwd).rootFlag with
  | true =>
    rw [hroot] at hseek
    have hat : { t.handle .cwd with curCluster := (t.handle .cwd).firstCluster, position := 32 * p } =
        (t.handle .cwd).seek t.vol t.disk p := by
      rw [FatFileHandle.seek, if_pos hroot]
    rw [hat] at hm hseek
    exact ⟨_, hrun hseek, hsc'.trans (hm.scanned rfl fun n => (hsc.coherent n).withHandle),
      hm.self.trans hplace⟩
  | false =>
    rw [hroot] at hseek
    obtain ⟨u, hwalk, hmv, hco⟩ :=
      lseekWalk_iterate (P := fun d => d = t.disk) (r := .cwd) (32 * p) (32 * p : Nat)
      hm.mounted (hm.quiet (hsc'.quiet hs.quiet)) (hm.vol ▸ hsc'.vol ▸ hv)
      (fun n => (hsc.coherent n).withHandle) (by rw [hm.self]; exact hfat) (by omega) hm.disk
    have hall := hm.trans hmv
    rw [withHandle_handle, withHandle_vol, withHandle_disk, Int.toNat_natCast, hsc'.vol, slot_div_cluster,
      ← hsc'.vol] at hall
    have hat : { t.handle .cwd with
        position := 32 * p
        curCluster :=
          (fatNext t.vol t.disk)^[p / (16 * t.vol.sectorsPerCluster)] (t.handle .cwd).firstCluster } =
        (t.handle .cwd).seek t.vol t.disk p := by
      rw [FatFileHandle.seek, if_neg (by simp [hroot])]
    have hlseek : fatLseek .cwd (i32 (32 * p : Nat)) .set t = .ok (32 * p) u := by
      rw [hseek, if_neg (by simp), Int.toNat_natCast]
      exact bind_ok hwalk
    exact ⟨u, hrun hlseek, hsc'.trans (hall.scanned rfl hco), hall.self.trans (hat.trans hplace)⟩

-- ---------------------------------------------------------------------------
-- A directory's own slots
-- ---------------------------------------------------------------------------

theorem PathOk.iterate (hv : v.Shape) (h : PathOk v d cs) (hk : k < cs.length) :
    (fatNext v d)^[k] (cs.headD 0) = cs.getD k 0 := by
  induction k with
  | zero =>
    cases cs with
    | nil => exact absurd hk (Nat.not_lt_zero 0)
    | cons => rfl
  | succ k ih =>
    have hk' := Nat.lt_of_succ_lt hk
    rw [Function.iterate_succ_apply', ih hk', fatNext_eq hv (h.cluster _ (getD_mem hk')).2, h.link k hk]

theorem seek_slot (hv : v.Shape) (hd : dir.Path v d) (hh : DirHandle v dir h)
    (hp : dir.isRoot = true ∨ p < dir.count v) : h.seek v d p = h.toSlot v dir p := by
  have hroot := hh.root
  have hfirst := hh.first
  rw [FatFileHandle.seek, FatFileHandle.toSlot, hroot, hfirst]
  cases dir with
  | root => rfl
  | chain cs =>
    have hidx := slot_index (hp.resolve_left (by simp [DirPlace.isRoot]))
    rw [DirPlace.cur, List.getD_append _ _ _ _ hidx, ← PathOk.iterate hv hd hidx]
    rfl

theorem AtSlot.entry (hv : v.Shape) (hd : dir.Path v d) (ha : AtSlot v dir i h) (hi : i < dir.count v) :
    h.entry v d = dir.entry v d i := by
  rw [FatFileHandle.entry, ha.sectorOffset hv hd hi, ha.position, ← dir.slot_offset v i]
  rfl

theorem DirOpen.onEntry (h : DirOpen s .cwd dir) : (s.handle .cwd).start.OnEntry := by
  have hsize := h.handle.size
  have hroot := h.handle.root
  have hplace := h.place
  refine ⟨h.handle.fat, rfl, Nat.two_pow_pos 32, ?_, .inr (Nat.zero_le _), fun hr => ?_⟩
  · show (s.handle .cwd).size < 2 ^ 32
    rw [hsize]
    have h16 : s.vol.rootSectorCount < 65536 := Nat.mod_lt _ (by decide)
    cases dir with
    | root =>
      simp only [DirPlace.size]
      omega
    | chain => exact Nat.two_pow_pos 32
  · have hr' : dir.isRoot = true := hroot.symm.trans hr
    show (s.handle .cwd).size ≠ 0 ∧ (s.handle .cwd).size < 2 ^ 32 - 32
    rw [hsize]
    have h16 : s.vol.rootSectorCount < 65536 := Nat.mod_lt _ (by decide)
    cases dir with
    | chain => exact absurd hr' (by simp [DirPlace.isRoot])
    | root =>
      have hpos := RootOk.pos hplace
      simp only [DirPlace.size]
      omega

theorem DirOpen.scanReady (h : DirOpen s .cwd dir) : ScanReady s := by
  have hv := h.layout.toShape
  have hcount := h.place.count_pos hv
  have hat : AtSlot s.vol dir 0 (s.handle .cwd).start := by
    rw [← seek_zero s.vol s.disk, seek_slot hv h.place h.handle (.inr hcount)]
    exact h.handle.toSlot 0
  have hmore : (s.handle .cwd).start.More := by
    have hsize := h.handle.size
    have hplace := h.place
    show (s.handle .cwd).size = 0 ∨ u32 (0 + 32) ≤ (s.handle .cwd).size
    rw [hsize]
    cases dir with
    | chain => exact .inl rfl
    | root =>
      have hpos := RootOk.pos hplace
      simp only [DirPlace.size, u32]
      omega
  refine ⟨h.mounted, h.quiet, h.layout, .inr ⟨hmore, ?_⟩, h.onEntry⟩
  rw [hat.sectorOffset hv h.place hcount]
  exact h.ready 0 hcount

theorem Rows.root_le (h : DirOpen s .cwd dir) (hr : Rows s.vol s.disk (s.handle .cwd).start es)
    (hroot : dir.isRoot = true) : es.length ≤ dir.count s.vol := by
  have hsize := h.handle.size
  have ho := h.onEntry
  have hbound := ho.root (h.handle.root.trans hroot)
  have hle := hr.sized ho hbound.1 hbound.2
  cases dir with
  | chain => exact absurd hroot (by simp [DirPlace.isRoot])
  | root =>
    have hlen : 32 * es.length + 0 ≤ 512 * s.vol.rootSectorCount := by
      rw [← show (s.handle .cwd).size = 512 * s.vol.rootSectorCount from hsize]
      exact hle
    simp only [DirPlace.count]
    omega

/-- The slots of the directory, as far as the row goes. -/
theorem Rows.shown (h : DirOpen s .cwd dir) (hr : Rows s.vol s.disk (s.handle .cwd).start es)
    (hsmall : es.length < 2 ^ 26) : Shown s dir (es.take (dir.count s.vol)) := by
  have hv := h.layout.toShape
  have hentry : ∀ i e, i < dir.count s.vol → es[i]? = some e → dir.entry s.vol s.disk i = e ∧ e 0 ≠ 0 := by
    intro i e hi he
    obtain ⟨hrow, h0⟩ := hr.entry hv hsmall he
    rw [seek_slot hv h.place h.handle (.inr hi)] at hrow
    exact ⟨((h.handle.toSlot i).entry hv h.place hi).symm.trans hrow, h0⟩
  have hlen : (es.take (dir.count s.vol)).length ≤ dir.count s.vol := List.length_take_le ..
  refine ⟨h, ⟨fun i e he => ?_, fun e he => ?_, hlen⟩, ?_⟩
  · have hi : i < (es.take (dir.count s.vol)).length := (List.getElem?_eq_some_iff.mp he).1
    rw [List.getElem?_take_of_lt (by omega)] at he
    exact (hentry i e (by omega) he).1
  · obtain ⟨i, hi, rfl⟩ := List.getElem_of_mem he
    rw [List.getElem_take]
    have hlt : i < es.length := by
      rw [List.length_take] at hi
      omega
    exact (hentry i _ (by omega) (List.getElem?_eq_getElem hlt)).2
  · rw [List.length_take]
    omega

theorem Rows.ends (h : DirOpen s .cwd dir) (hr : Rows s.vol s.disk (s.handle .cwd).start es)
    (hsmall : es.length < 2 ^ 26) (hin : dir.isRoot = true ∨ es.length < dir.count s.vol) :
    dir.Ends s.vol s.disk (es.take (dir.count s.vol)) := by
  have hv := h.layout.toShape
  have hle : es.length ≤ dir.count s.vol := hin.elim (hr.root_le h) Nat.le_of_lt
  rw [List.take_of_length_le hle]
  refine ⟨fun hroot => hin.resolve_left (by simp [hroot]), fun hlt => ?_⟩
  have hlast := hr.last hv hsmall
  rw [seek_slot hv h.place h.handle (.inr hlt), (h.handle.toSlot _).entry hv h.place hlt] at hlast
  refine hlast ?_
  have hsize := h.handle.size
  show (s.handle .cwd).size = 0 ∨ u32 (32 * es.length + 32) ≤ (s.handle .cwd).size
  rw [hsize]
  cases dir with
  | chain => exact .inl rfl
  | root =>
    simp only [DirPlace.count] at hlt
    simp only [DirPlace.size, u32]
    omega

end Stm32Logger
