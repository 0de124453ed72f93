import Stm32Logger.Fat.LogFile
import Stm32Logger.Fat.NewDir
import Stm32Logger.Fat.Rows
import Stm32Logger.Fat.SetNext

/-!
# Entries written wherever the links lead

A directory's chain may end in a mark that `fat_write` does not know, or be full
on a full volume. The entries then go where the handle points, in a cluster of
no chain or over the last cluster of the directory once more, and a cluster may
be taken behind them. What the volume is afterwards is worked out without the
cache, up to the one sector that is left zeroed in the buffer.
-/

namespace Stm32Logger

/-- How far storing entries has come: the volume, its hint and the handle, and
the sector whose label the zeroed buffer has, if nothing was fetched since. -/
structure Trail where
  vol : FatVolHandle
  disk : Disk
  handle : FatFileHandle
  stale : Option Nat

namespace Trail

/-- The sector the next entry goes to. -/
def sector (x : Trail) : Nat := (fatFileSectorOffset x.vol x.handle).1

/-- The sector a look-up from the start of the handle reads first. -/
def firstSector (x : Trail) : Nat := (fatFileSectorOffset x.vol x.handle.start).1

def stored (x : Trail) (e : Sector) : Trail :=
  { x with
    disk := x.disk.edit x.sector (memcpy (x.handle.position % 512) (bytesAt e 0 32))
    handle := x.handle.forward 32
    stale := none }

/-- Cluster `c` linked behind the handle's and cleared. -/
def grown (x : Trail) (c : Nat) : Trail :=
  let label := entryEnd x.vol (x.vol.numFats - 1) x.handle.curCluster
  { vol := { x.vol with lastClusterAlloc := c }
    disk := growNext x.vol x.handle.curCluster c x.disk
    handle := { x.handle with curCluster := c }
    stale := if x.vol.InCluster c label then none else some label }

/-- The step at the end of a cluster: a link to 0 and a full volume lead nowhere. -/
def behind (x : Trail) : Trail :=
  let next := fatNext x.vol x.disk x.handle.curCluster
  if x.handle.position % x.vol.clusterBytes ≠ 0 then x
  else if next = fatEoc x.vol then
    if freeCluster x.vol x.disk = 0 then x else x.grown (freeCluster x.vol x.disk)
  else if next = 0 then x
  else { x with handle := { x.handle with curCluster := next } }

def store (x : Trail) (e : Sector) : Trail := (x.stored e).behind

def lay (x : Trail) (es : List Sector) : Trail := es.foldl store x

/-- Where the first entry is stored: a handle in cluster 0 takes a cluster before, if there is one. -/
def begin (x : Trail) : Option Trail :=
  let c := freeCluster x.vol x.disk
  if x.handle.curCluster ≠ 0 then some x
  else if c = 0 then none
  else some
    { vol := { x.vol with lastClusterAlloc := c }
      disk := setNext x.vol c (fatEoc x.vol) x.disk
      handle := { x.handle with firstCluster := c, curCluster := c }
      stale := none }

end Trail

/-- The cluster whose entry the search reads first. -/
def FatVolHandle.probe (v : FatVolHandle) : Nat :=
  if v.lastClusterAlloc < v.clusterCount then v.lastClusterAlloc else 2

/-- The search begins with an entry inside the sector that is zeroed in the buffer. -/
def Trail.Misled (x : Trail) : Prop :=
  x.stale = some (fatNextSector x.vol x.vol.probe) ∧
    ¬ (x.vol.type = .fat12 ∧ fatOffset x.vol.type x.vol.probe % 512 = 511)

instance (x : Trail) : Decidable x.Misled := inferInstanceAs (Decidable (_ ∧ _))

/-- The volume as the search for a cluster sees it. -/
def Trail.searched (x : Trail) : Disk :=
  if x.Misled then x.disk.edit (fatNextSector x.vol x.vol.probe) wipe else x.disk

/-- The cluster of a new directory, and the volume with it marked. -/
def Trail.dirCluster (x : Trail) : Option (Nat × Trail) :=
  let c := freeCluster x.vol x.searched
  if c = 0 then none
  else some (c,
    { x with
      vol := { x.vol with lastClusterAlloc := c }
      disk := setNext x.vol c (fatEoc x.vol) x.searched
      stale := none })

/-- A look-up of the name comes to an end without it, or to the zeroed buffer. -/
def Trail.Misses (name : List UInt8) (x : Trail) : Prop :=
  x.stale = some x.firstSector ∨ ∃ es, Stops name x.vol x.disk x.handle.start {} es .missing

/-- A look-up of the name comes to a long entry that stores outside. -/
def Trail.Oversteps (name : List UInt8) (x : Trail) : Prop :=
  x.stale ≠ some x.firstSector ∧ ∃ es, Stops name x.vol x.disk x.handle.start {} es .outside

/-- The handle of the current directory where the entries of a new name begin. -/
def FatState.newHandle (s : FatState) (name : List UInt8) (es : List Sector) : FatFileHandle :=
  (s.handle .cwd).seek s.vol s.disk (newPlace name es)

def FatState.trail (s : FatState) (name : List UInt8) (es : List Sector) : Trail :=
  { vol := s.vol, disk := s.disk, handle := s.newHandle name es, stale := none }

/-- The handle of a chained directory, at some entry. -/
structure ChainHandle (h : FatFileHandle) : Prop where
  fat : h.fat = true
  root : h.rootFlag = false
  size : h.size = 0
  dirent : h.direntSector = 0
  slot : h.position % 32 = 0

/-- The state has come as far as the trail. -/
structure FatState.On (s : FatState) (x : Trail) : Prop where
  mounted : s.Mounted
  quiet : s.Quiet
  layout : x.vol.Layout
  hint : x.vol.HintOk
  chain : ChainHandle x.handle
  standing : x.handle.curCluster ≠ 0
  vol : s.vol = x.vol
  disk : s.disk = x.disk
  handle : s.handle .cwd = x.handle
  coherent : x.stale = none → s.Coherent
  wiped : ∀ n, x.stale = some n → s.Wiped n
  here : x.stale ≠ some x.sector
  mark : x.stale = some (fatNextSector x.vol x.vol.probe) → x.vol.type = .fat12 →
    fatOffset x.vol.type x.vol.probe % 512 = 511 →
    fatNext x.vol (x.disk.edit (fatNextSector x.vol x.vol.probe) wipe) x.vol.probe ≠ 0

variable {s t u : FatState} {v : FatVolHandle} {d : Disk} {h : FatFileHandle} {x : Trail} {es : List Sector}
  {name sname : List UInt8} {mem : Nat → UInt8} {bs : List UInt8}

-- ---------------------------------------------------------------------------
-- One entry
-- ---------------------------------------------------------------------------

theorem ChainHandle.forward (hc : ChainHandle h) : ChainHandle (h.forward 32) where
  fat := hc.fat
  root := hc.root
  size := hc.size
  dirent := hc.dirent
  slot := by
    have := hc.slot
    simp only [FatFileHandle.forward, u32]
    omega

theorem ChainHandle.at (hc : ChainHandle h) (c : Nat) : ChainHandle { h with curCluster := c } :=
  ⟨hc.fat, hc.root, hc.size, hc.dirent, hc.slot⟩

theorem ChainHandle.seek (hc : ChainHandle h.start) (p : Nat) : ChainHandle (h.seek v d p) :=
  ⟨hc.fat, hc.root, hc.size, hc.dirent, Nat.mul_mod_right ..⟩

theorem bytesAt_structOf (hlen : bs.length = 32) : bytesAt (structOf bs) 0 32 = bs := by
  refine List.ext_getElem ((bytesAt_length ..).trans hlen.symm) fun i hi hi' => ?_
  simp [bytesAt, structOf, List.getElem?_eq_getElem hi']

theorem sector_lt (v : FatVolHandle) (h : FatFileHandle) : (fatFileSectorOffset v h).1 < 2 ^ 32 := by
  simp only [fatFileSectorOffset]
  split
  · exact Nat.mod_lt _ (by decide)
  · exact Nat.mod_lt _ (by decide)

theorem FatState.On.cacheOk (hx : s.On x) (hn : x.stale ≠ some n) : s.CacheOk n := by
  cases hst : x.stale with
  | none => exact hx.coherent hst n
  | some m => exact (hx.wiped m hst).cacheOk fun h => hn (hst.trans (congrArg some h.symm))

/-- On a coherent state nothing is asked of the buffer. -/
theorem FatState.On.of_coherent (hs : s.Mounted) (hq : s.Quiet) (hv : x.vol.Layout) (hh : x.vol.HintOk)
    (hc : ChainHandle x.handle) (hcur : x.handle.curCluster ≠ 0) (hvol : s.vol = x.vol)
    (hdisk : s.disk = x.disk) (hself : s.handle .cwd = x.handle) (hst : x.stale = none) (hco : s.Coherent) :
    s.On x where
  mounted := hs
  quiet := hq
  layout := hv
  hint := hh
  chain := hc
  standing := hcur
  vol := hvol
  disk := hdisk
  handle := hself
  coherent := fun _ => hco
  wiped := fun n hn => absurd (hst.symm.trans hn) (by simp)
  here := by simp [hst]
  mark := fun hn => absurd (hst.symm.trans hn) (by simp)

theorem FatState.On.kept (hx : s.On x) (hst : x.stale = none) (hk : Kept P s t) (hco : t.Coherent) : t.On x :=
  .of_coherent hk.mounted (hk.quiet hx.quiet) hx.layout hx.hint hx.chain hx.standing (hk.vol.trans hx.vol)
    (hk.disk.trans hx.disk) (by rw [hk.handle, hx.handle]) hst hco

theorem FatState.Wiped.coherent (hw : s.Wiped n) (hzero : wipe (s.disk n) = s.disk n) :
    s.Coherent := fun m => by
  by_cases hm : m = n
  · subst hm
    exact fun _ _ => hw.buf.trans hzero
  · exact hw.cacheOk hm

theorem sector_start (hv : v.Shape) (hc : v.IsCluster c) (hr : h.rootFlag = false)
    (hpos : h.position % v.clusterBytes = 0) :
    (fatFileSectorOffset v { h with curCluster := c }).1 = v.clusterSector c := by
  have hzero : h.position / 512 % v.sectorsPerCluster = 0 := by
    rw [← Nat.mod_mul_right_div_self, ← FatVolHandle.clusterBytes, hpos]
  have hle := clusterSector_le hv hc
  have hspc := spc_pos hv
  simp only [fatFileSectorOffset, hr, hv.bytes, Bool.false_eq_true, if_false, hzero,
    fatFirstSectorOfCluster_eq hv hc, Nat.add_zero]
  exact Nat.mod_eq_of_lt (by omega)

theorem probe_straddles (ht : v.type = .fat12) (hstr : fatOffset v.type v.probe % 512 = 511) :
    v.probe = v.lastClusterAlloc := by
  rw [FatVolHandle.probe] at hstr ⊢
  split at hstr
  next h => rw [if_pos h]
  next h =>
    rw [ht] at hstr
    exact absurd hstr (by decide)

/-- A cluster taken at the end of a cluster. -/
theorem alloc_on (hx : s.On x) (hst : x.stale = none) (hpos : x.handle.position % x.vol.clusterBytes = 0)
    (he : fatNext x.vol x.disk x.handle.curCluster = fatEoc x.vol) (hf : freeCluster x.vol x.disk ≠ 0) :
    ∃ t, fatAllocNextCluster x.handle.curCluster true s = .ok (freeCluster x.vol x.disk) t ∧
      t.handle = s.handle ∧
      (t.withHandle .cwd (x.grown (freeCluster x.vol x.disk)).handle).On
        (x.grown (freeCluster x.vol x.disk)) := by
  have hv := hx.layout.toShape
  have hcl := (freeCluster_spec hx.hint hf).1
  obtain ⟨t, hrun, hran, hvol, hhandle, hdisk, hw⟩ :=
    alloc_grow x.handle.curCluster hx.mounted hx.quiet (hx.vol ▸ hv)
    (hx.vol ▸ hx.hint) (hx.coherent hst) (by rw [hx.vol, hx.disk]; exact he) (by rw [hx.vol, hx.disk]; exact hf)
  have hmark := fun hc ht hstr hend => growNext_mark (s := s) (c := freeCluster x.vol x.disk)
    x.handle.curCluster hx.mounted hx.quiet (hx.vol ▸ hv) (hx.coherent hst) hc ht hstr hend
  rw [hx.vol, hx.disk] at hrun hvol hdisk hmark
  rw [hx.vol] at hw
  refine ⟨t, hrun, hhandle, ?_⟩
  generalize freeCluster x.vol x.disk = c at *
  have hran' : Ran (fun _ => True) s (t.withHandle .cwd (x.grown c).handle) := hran.withHandle
  have hsector : (x.grown c).sector = x.vol.clusterSector c := sector_start (hv.hint c) hcl hx.chain.root hpos
  have hspc := spc_pos hv
  -- the label that stays
  have hstale : ∀ n, (x.grown c).stale = some n →
      n = entryEnd x.vol (x.vol.numFats - 1) x.handle.curCluster ∧ ¬ x.vol.InCluster c n := fun n hn => by
    simp only [Trail.grown] at hn
    split at hn
    next => exact absurd hn (by simp)
    next hout =>
      obtain rfl := Option.some.inj hn
      exact ⟨rfl, hout⟩
  have hw' :
      (t.withHandle .cwd (x.grown c).handle).Wiped (entryEnd x.vol (x.vol.numFats - 1) x.handle.curCluster) :=
    ⟨hw.bldev, hw.label, hw.clean, hw.buf⟩
  exact
    { mounted := hran'.mounted
      quiet := hran'.quiet hx.quiet
      layout := ⟨hv.hint c, hx.layout.aligned⟩
      hint := ⟨hcl.1, Nat.le_of_lt hcl.2⟩
      chain := hx.chain.at c
      standing := hf
      vol := hvol
      disk := hdisk
      handle := withHandle_handle
      coherent := fun hn => hw'.coherent (by
        simp only [Trail.grown] at hn
        split at hn
        next hin =>
          rw [withHandle_disk, hdisk, growNext, if_pos hin]
          exact wipe_wipe _
        next => exact absurd hn (by simp))
      wiped := fun n hn => (hstale n hn).1 ▸ hw'
      here := fun hn => (hstale _ hn).2 (by
        rw [hsector]
        exact ⟨Nat.le_refl _, by omega⟩)
      mark := fun hn ht hstr => by
        have hprobe : (x.grown c).vol.probe = c := probe_straddles ht hstr
        obtain ⟨hend, -⟩ := hstale _ hn
        rw [hprobe] at hstr hend ⊢
        exact hmark hcl ht hstr hend.symm }

/-- The end of the round: the step at the end of a cluster, and none inside one. -/
theorem writeAdvance_on (hx : s.On x) (hst : x.stale = none) (hc : ChainHandle h)
    (hself : x.handle = h.forward 32) :
    ∃ o t, writeAdvance .cwd x.vol (fatFileSectorOffset x.vol h).1 s = .ok o t ∧ t.On x.behind := by
  have hv := hx.layout
  have hco := hx.coherent hst
  have hroot : (s.handle .cwd).rootFlag = false := by
    rw [hx.handle]
    exact hx.chain.root
  have hsize : (decide ((s.handle .cwd).size = 0)) = true := by
    rw [hx.handle]
    exact decide_eq_true hx.chain.size
  have hpos : x.handle.position = u32 (h.position + 32) := by
    rw [hself]
    rfl
  have hcur : x.handle.curCluster = h.curCluster := by
    rw [hself]
    rfl
  have hbehind : x.behind = if x.handle.position % x.vol.clusterBytes ≠ 0 then x
      else if fatNext x.vol x.disk x.handle.curCluster = fatEoc x.vol then
        if freeCluster x.vol x.disk = 0 then x else x.grown (freeCluster x.vol x.disk)
      else if fatNext x.vol x.disk x.handle.curCluster = 0 then x
      else { x with handle := { x.handle with curCluster := fatNext x.vol x.disk x.handle.curCluster } } := rfl
  by_cases h0 : x.handle.position % 512 = 0
  · have hsec := sector_boundary hv h.curCluster hc.slot (hpos ▸ h0)
    have hsector : (fatFileSectorOffset x.vol h).1 =
        u32 (fatFirstSectorOfCluster x.vol h.curCluster + h.position / 512 % x.vol.sectorsPerCluster) := by
      simp only [fatFileSectorOffset, hc.root, hv.bytes, Bool.false_eq_true, if_false]
    rw [← hsector, ← hpos] at hsec
    by_cases hend : x.handle.position % x.vol.clusterBytes = 0
    · -- the end of a cluster
      have hadv : writeAdvance .cwd x.vol (fatFileSectorOffset x.vol h).1 s =
          (fatAllocNextCluster x.handle.curCluster true >>= fun next =>
            if next = 0 then pure none
            else modifyHandle .cwd (fun h => { h with curCluster := next }) >>= fun _ =>
              pure (some (fatFirstSectorOfCluster x.vol next))) s := by
        rw [writeAdvance, getHandle_bind, hv.bytes, hsize, hroot, hx.handle, if_neg (not_not.mpr h0),
          if_neg (by simp), if_pos (hsec.mpr hend)]
      by_cases he : fatNext x.vol x.disk x.handle.curCluster = fatEoc x.vol
      · by_cases hf : freeCluster x.vol x.disk = 0
        · obtain ⟨t, hal, hk, hco'⟩ :=
            alloc_full (P := fun _ => True) true x.handle.curCluster hx.mounted hx.quiet
            (hx.vol ▸ hv.toShape) (hx.vol ▸ hx.hint) trivial (hco _) (by rw [hx.vol, hx.disk]; exact he)
            (by rw [hx.vol, hx.disk]; exact hf)
          refine ⟨none, t, by rw [hadv, bind_ok hal, if_pos rfl]; rfl, ?_⟩
          rw [hbehind, if_neg (not_not.mpr hend), if_pos he, if_pos hf]
          exact hx.kept hst hk hco'
        · obtain ⟨t, hal, hhandle, hon⟩ := alloc_on hx hst hend he hf
          refine ⟨some (fatFirstSectorOfCluster x.vol (freeCluster x.vol x.disk)), _,
            by rw [hadv, bind_ok hal, if_neg hf, modifyHandle_bind]; rfl, ?_⟩
          rw [hbehind, if_neg (not_not.mpr hend), if_pos he, if_neg hf, hhandle, hx.handle]
          exact hon
      · obtain ⟨t, hal, hk, hco'⟩ :=
          alloc_next (P := fun _ => True) true x.handle.curCluster hx.mounted hx.quiet
          (by rw [hx.vol]; exact hv.bytes) trivial (hco _) (by rw [hx.vol, hx.disk]; exact he)
        rw [hx.vol, hx.disk] at hal
        by_cases hz : fatNext x.vol x.disk x.handle.curCluster = 0
        · refine ⟨none, t, by rw [hadv, bind_ok hal, if_pos hz]; rfl, ?_⟩
          rw [hbehind, if_neg (not_not.mpr hend), if_neg he, if_pos hz]
          exact hx.kept hst hk hco'
        · refine ⟨some (fatFirstSectorOfCluster x.vol (fatNext x.vol x.disk x.handle.curCluster)), _,
            by rw [hadv, bind_ok hal, if_neg hz, modifyHandle_bind]; rfl, ?_⟩
          rw [hbehind, if_neg (not_not.mpr hend), if_neg he, if_neg hz, hk.handle, hx.handle]
          have hran : Ran (fun _ => True) s (t.withHandle .cwd
              { x.handle with curCluster := fatNext x.vol x.disk x.handle.curCluster }) := hk.toRan.withHandle
          exact .of_coherent hran.mounted (hran.quiet hx.quiet) hx.layout hx.hint (hx.chain.at _) hz
            (hk.vol.trans hx.vol)
            (hk.disk.trans hx.disk) withHandle_handle hst fun n => (hco' n).withHandle
    · refine ⟨some (u32 ((fatFileSectorOffset x.vol h).1 + 1)), s, ?_, ?_⟩
      · rw [writeAdvance, getHandle_bind, hv.bytes, hx.handle, if_neg (not_not.mpr h0),
          if_neg (by simp [hx.chain.root]),
          if_neg fun h => hend (hsec.mp h)]
        rfl
      · rw [hbehind, if_pos hend]
        exact hx
  · have hend : ¬ x.handle.position % x.vol.clusterBytes = 0 := fun hend => h0 (by
      rw [FatVolHandle.clusterBytes] at hend
      exact Nat.mod_eq_zero_of_dvd ((Nat.dvd_mul_right 512 _).trans (Nat.dvd_of_mod_eq_zero hend)))
    refine ⟨none, s, ?_, ?_⟩
    · rw [← hx.vol]
      exact writeAdvance_inside (hx.vol ▸ hv.toShape) (by rw [hx.handle]; exact h0)
    · rw [hbehind, if_pos hend]
      exact hx

theorem fatWrite_on (hx : s.On x) (hlen : bs.length = 32) :
    ∃ t, fatWrite .cwd bs s = .ok 32 t ∧ t.On (x.store (structOf bs)) := by
  have hv := hx.layout
  have hc := hx.chain
  have hslot := hc.slot
  have hdisk : (x.stored (structOf bs)).disk = x.disk.edit x.sector (memcpy (x.handle.position % 512) bs) := by
    rw [Trail.stored, bytesAt_structOf hlen]
  have hoff : (fatFileSectorOffset x.vol x.handle).2 = x.handle.position % 512 := by
    simp only [fatFileSectorOffset, hv.bytes]
  rcases writeRound_cases (P := fun _ => True) (r := .cwd) bs 31 0 (x.handle.position % 512) 32 hx.mounted
    (hx.vol ▸ hv.toShape) trivial (by rw [hx.handle]; exact hc.fat) (show 0 < 32 by decide)
    (sector_lt x.vol x.handle)
    (hx.cacheOk hx.here) (by omega) (by decide) with ⟨w, hrun, hb, hl⟩ | ⟨hnq, -⟩
  · rw [List.drop_zero, List.take_of_length_le (Nat.le_of_eq hlen), hx.disk] at hb
    rw [hx.handle, hx.vol] at hrun
    have hran : Ran (fun _ => True) s (w.withHandle .cwd (x.handle.forward 32)) := hb.toRan.withHandle
    have hon : (w.withHandle .cwd (x.handle.forward 32)).On (x.stored (structOf bs)) :=
      .of_coherent hran.mounted (hran.quiet hx.quiet) hv hx.hint hc.forward hx.standing (hb.vol.trans hx.vol)
        (hb.disk.trans hdisk.symm) withHandle_handle rfl fun n => hl.withHandle.coherent n
    obtain ⟨o, t, hadv, ht⟩ := writeAdvance_on hon rfl hc rfl
    change writeAdvance .cwd x.vol (fatFileSectorOffset x.vol x.handle).1 _ = _ at hadv
    refine ⟨t, returning_ok ?_, ht⟩
    have hcur : (s.handle .cwd).curCluster ≠ 0 := by
      rw [hx.handle]
      exact hx.standing
    rw [bind_ok (allocFirst_standing hcur), if_pos rfl, getHandle_bind, hx.handle]
    simp only [hc.root, Bool.false_eq_true, false_and, if_false, hlen]
    rw [fatOf_bind hc.fat, hx.vol]
    have hloop : writeLoop .cwd bs 32 32 0 (fatFileSectorOffset x.vol x.handle).1 (x.handle.position % 512) s =
        .ok 32 t := by
      rw [hrun, bind_ok hadv]
      cases o with
      | none => rfl
      | some sector => exact writeLoop_done (Nat.le_refl _)
    have hdirent : (t.handle .cwd).direntSector = 0 := by
      rw [ht.handle]
      exact ht.chain.dirent
    rw [hoff, bind_ok hloop, bind_ok (growSize_none hdirent)]
    rfl
  · exact absurd hx.quiet hnq

theorem lay_append (x : Trail) (es fs : List Sector) : x.lay (es ++ fs) = (x.lay es).lay fs := List.foldl_append

theorem writeLongEntries_on (mem : Nat → UInt8) (sname : List UInt8) (i : Nat) (last : Bool) (hx : s.On x) :
    ∃ t, writeLongEntries mem sname i last s = .ok true t ∧ t.On (x.lay (newLongs mem sname i last)) := by
  induction i generalizing s x last with
  | zero =>
    obtain ⟨t, hrun, ht⟩ := fatWrite_on hx (longDirent_length mem sname 0 last)
    refine ⟨t, ?_, ht⟩
    rw [writeLongEntries, bind_ok hrun]
    rfl
  | succ i ih =>
    obtain ⟨t, hrun, ht⟩ := fatWrite_on hx (longDirent_length mem sname (i + 1) last)
    obtain ⟨u, hrun', hu⟩ := ih false ht
    refine ⟨u, ?_, hu⟩
    rw [writeLongEntries, bind_ok hrun]
    exact hrun'

-- ---------------------------------------------------------------------------
-- The first entry
-- ---------------------------------------------------------------------------

theorem fatWrite_begun (bs : List UInt8) (hfirst : allocFirst .cwd bs.length s = .ok true t)
    (hcur : (t.handle .cwd).curCluster ≠ 0) : fatWrite .cwd bs s = fatWrite .cwd bs t := by
  have hstand : allocFirst .cwd bs.length t = .ok true t := allocFirst_standing hcur
  simp only [fatWrite, returning, tryCatch, tryCatchThe, MonadExceptOf.tryCatch, EStateM.tryCatch,
    bind_ok hfirst,
    bind_ok hstand]

theorem writeLongEntries_begun (mem : Nat → UInt8) (sname : List UInt8) (i : Nat) (last : Bool)
    (h : ∀ bs : List UInt8, bs.length = 32 → fatWrite .cwd bs s = fatWrite .cwd bs t) :
    writeLongEntries mem sname i last s = writeLongEntries mem sname i last t := by
  have hfirst := h _ (longDirent_length mem sname i last)
  cases i with
  | zero => simp only [writeLongEntries, bind, EStateM.bind, hfirst]
  | succ i => simp only [writeLongEntries, bind, EStateM.bind, hfirst]

theorem begin_on (hs : s.Mounted) (hq : s.Quiet) (hv : s.vol.Layout) (hh : s.vol.HintOk)
    (hc : ChainHandle (s.handle .cwd)) (hco : s.Coherent) (hx : x = ⟨s.vol, s.disk, s.handle .cwd, none⟩) :
    x.begin = none ∧
      (∀ bs : List UInt8, bs.length = 32 → ∃ t, fatWrite .cwd bs s = .ok 0 t ∧ t.disk = s.disk) ∨
    ∃ y t, x.begin = some y ∧ t.On y ∧
      ∀ bs : List UInt8, bs.length = 32 → fatWrite .cwd bs s = fatWrite .cwd bs t := by
  subst hx
  by_cases hcur : (s.handle .cwd).curCluster = 0
  · by_cases hf : freeCluster s.vol s.disk = 0
    · refine .inl ⟨by rw [Trail.begin, if_neg (not_not.mpr hcur), if_pos hf], fun bs hlen => ?_⟩
      obtain ⟨t, hrun, hk, -⟩ := allocFirst_none (P := fun _ => True) (n := 32) hs hq hv.toShape hh hc.fat hcur
        (by decide) trivial hco hf
      refine ⟨t.withHandle .cwd { s.handle .cwd with firstCluster := 0 }, returning_ok ?_, hk.disk⟩
      rw [hlen, bind_ok hrun]
      rfl
    · have hcl := (freeCluster_spec hh hf).1
      obtain ⟨t, hrun, hran, hvol, hhandle, hset, hco'⟩ := allocFirst_run (P := fun _ => True) (n := 32) hs hq
        hv.toShape hh hc.fat hcur (by decide) hco hf fun _ _ => trivial
      have hdisk : t.disk = setNext s.vol (freeCluster s.vol s.disk) (fatEoc s.vol) s.disk :=
        hset.unique (setNext_entrySet hs hq hv.toShape hcl.2 (fatEoc_lt s.vol hv.toShape) hco)
      have hself : t.handle .cwd = { s.handle .cwd with
          firstCluster := freeCluster s.vol s.disk, curCluster := freeCluster s.vol s.disk } := by
        rw [hhandle, Function.update_self]
        rfl
      refine .inr ⟨_, t, by rw [Trail.begin, if_neg (not_not.mpr hcur), if_neg hf], ?_, fun bs hlen => ?_⟩
      · exact .of_coherent hran.mounted (hran.quiet hq) ⟨hv.toShape.hint _, hv.aligned⟩
          ⟨hcl.1, Nat.le_of_lt hcl.2⟩ ⟨hc.fat, hc.root, hc.size, hc.dirent, hc.slot⟩ hf hvol hdisk hself rfl
          hco'
      · refine fatWrite_begun bs (by rw [hlen]; exact hrun) ?_
        rw [hself]
        exact hf
  · refine .inr ⟨_, s, by rw [Trail.begin, if_pos hcur], ?_, fun _ _ => rfl⟩
    exact .of_coherent hs hq hv hh hc hcur rfl rfl rfl rfl hco

-- ---------------------------------------------------------------------------
-- The cluster of a directory
-- ---------------------------------------------------------------------------

theorem wipe_le16 (b : Sector) (ho : o + 1 < 512) : le16 (wipe b) o = 0 := by
  rw [le16, wipe, wipe, if_pos (by omega), if_pos ho]
  rfl

theorem wipe_le32 (b : Sector) (ho : o + 3 < 512) : le32 (wipe b) o = 0 := by
  rw [le32, wipe_le16 b (by omega), wipe_le16 b (by omega)]

/-- The entry that lies whole in the zeroed buffer reads as free. -/
theorem fatGetNextCluster_wiped (hs : s.Mounted) (hv : s.vol.Shape) (hw : s.Wiped (fatNextSector s.vol c))
    (hin : ¬ (s.vol.type = .fat12 ∧ fatOffset s.vol.type c % 512 = 511)) :
    fatGetNextCluster c s = .ok 0 s ∧ fatNext s.vol (s.disk.edit (fatNextSector s.vol c) wipe) c = 0 := by
  have hget := getSector_hit hs.dev hw.bldev hw.label
  have hedit : s.disk.edit (fatNextSector s.vol c) wipe (fatNextSector s.vol c) = s.buf := by
    rw [Disk.edit_self, hw.buf]
  have hsec : u32 (s.vol.reservedSectorCount + fatOffset s.vol.type c / 512) = fatNextSector s.vol c := rfl
  rw [fatNext, hedit, hw.buf]
  cases ht : s.vol.type with
  | none => exact absurd ht hv.type
  | fat12 =>
    rw [ht] at hsec hin
    have hstr : ¬ fatOffset .fat12 c % 512 = 511 := fun h => hin ⟨rfl, h⟩
    have hzero := wipe_le16 (s.disk (fatNextSector s.vol c)) (o := fatOffset .fat12 c % 512) (by omega)
    refine ⟨returning_ok ?_, ?_⟩
    · rw [getVol_bind, hv.bytes, ht, hsec, bind_ok hget, get_bind]
      simp only [hstr, if_false, hw.buf, hzero]
      split
      · rfl
      · rfl
    · simp only [hstr, if_false, hzero]
      split
      · rfl
      · rfl
  | fat16 =>
    rw [ht] at hsec
    have hlt : fatOffset .fat16 c % 512 + 1 < 512 := by
      simp only [fatOffset, u32]
      omega
    have hzero := wipe_le16 (s.disk (fatNextSector s.vol c)) hlt
    refine ⟨returning_ok ?_, hzero⟩
    rw [getVol_bind, hv.bytes, ht, hsec, bind_ok hget, get_bind]
    simp only [hw.buf, hzero]
    rfl
  | fat32 =>
    rw [ht] at hsec
    have hlt : fatOffset .fat32 c % 512 + 3 < 512 := by
      simp only [fatOffset, u32]
      omega
    have hzero := wipe_le32 (s.disk (fatNextSector s.vol c)) hlt
    refine ⟨returning_ok ?_, by simp only [hzero, Nat.zero_mod]⟩
    rw [getVol_bind, hv.bytes, ht, hsec, bind_ok hget, get_bind]
    simp only [hw.buf, hzero]
    rfl

/-- Of an entry on the boundary behind it the first half reads as zero. -/
theorem fatGetNextCluster_half (hs : s.Mounted) (hq : s.Quiet) (hv : s.vol.Shape)
    (hw : s.Wiped (fatNextSector s.vol c)) (ht : s.vol.type = .fat12)
    (hstr : fatOffset s.vol.type c % 512 = 511)
    (hne : fatNext s.vol (s.disk.edit (fatNextSector s.vol c) wipe) c ≠ 0) :
    ∃ val t, fatGetNextCluster c s = .ok val t ∧ Kept (fun _ => True) s t ∧ t.Coherent ∧ val ≠ 0 ∧
      fatNext s.vol s.disk c ≠ 0 := by
  have hget := getSector_hit hs.dev hw.bldev hw.label
  have hsec : u32 (s.vol.reservedSectorCount + fatOffset s.vol.type c / 512) = fatNextSector s.vol c := rfl
  have hother : u32 (fatNextSector s.vol c + 1) ≠ fatNextSector s.vol c := by
    have hlt : fatNextSector s.vol c < 2 ^ 32 := Nat.mod_lt _ (by decide)
    rw [u32]
    omega
  obtain ⟨t, hget', hk, hl⟩ := get_run (P := fun _ => True) hs hq trivial
    (show u32 (fatNextSector s.vol c + 1) < 2 ^ 32 from Nat.mod_lt _ (by decide)) (hw.cacheOk hother)
  rw [ht] at hsec hstr
  have hzero : s.buf 511 = 0 := by
    rw [hw.buf]
    rfl
  have hfirst : (s.disk.edit (fatNextSector s.vol c) wipe) (fatNextSector s.vol c) 511 = 0 := by
    rw [Disk.edit_self]
    rfl
  have hsecond : (s.disk.edit (fatNextSector s.vol c) wipe) (u32 (fatNextSector s.vol c + 1)) =
      s.disk (u32 (fatNextSector s.vol c + 1)) := Disk.edit_of_ne _ hother
  simp only [fatNext, ht, hstr, if_true, hfirst, hsecond] at hne ⊢
  refine ⟨_, t, returning_ok (by
    rw [getVol_bind, hv.bytes, ht, hsec, bind_ok hget, get_bind]
    simp only [hstr, if_true]
    rw [bind_ok hget', get_bind, pure_run]), hk, hl.coherent, ?_, ?_⟩
  · rw [hzero, hl.buf, hk.disk]
    exact hne
  · have hlow := (s.disk (fatNextSector s.vol c) 511).toNat_lt
    change (if c % 2 = 1 then (0 + 256 * _) / 16 else (0 + 256 * _) % 4096) ≠ 0 at hne
    split at hne
    next h => rw [if_pos h]; omega
    next h => rw [if_neg h]; omega

/-- The first entry of a search is read as it is, or at least not as free. -/
def Probed (s : FatState) (c : Nat) : Prop :=
  ∃ val t, fatGetNextCluster c s = .ok val t ∧ Kept (fun _ => True) s t ∧ t.Coherent ∧
    (val = 0 ↔ fatEntry s.vol s.disk 0 c = 0)

theorem findFreeFrom_probed (n i : Nat) (hq : s.Quiet) (hv : s.vol.Shape) (hp : Probed s i) (hi : 0 < i)
    (hn : i + (n + 1) ≤ s.vol.clusterCount + 2) :
    ∃ t, findFreeFrom (n + 1) i s = .ok (firstFree s.vol s.disk (n + 1) i) t ∧
      Found (fun _ => True) (firstFree s.vol s.disk (n + 1) i) s t ∧ t.Coherent := by
  obtain ⟨val, t, hrun, hk, hco, hval⟩ := hp
  simp only [findFreeFrom, bind_ok hrun, firstFree]
  by_cases h0 : val = 0
  · rw [if_pos h0, if_pos (hval.mp h0)]
    refine ⟨_, rfl,
      ⟨⟨hk.part, ⟨hk.mounted.ready, hk.mounted.dev, hk.mounted.label, hk.mounted.bldev, hk.mounted.reads⟩,
      hk.quiet, hk.writes⟩, hk.disk, hk.handle, ?_⟩, fun m => hco m⟩
    rw [if_neg (by omega)]
    simp only [hk.vol]
  · rw [if_neg h0, if_neg fun h => h0 (hval.mpr h)]
    obtain ⟨u, hrun', hf, -, hco'⟩ := findFreeFrom_run (P := fun _ => True) n (i + 1) hk.mounted (hk.quiet hq)
      (hk.vol ▸ hv) trivial (by omega) (by rw [hk.vol]; omega) hco.tableOk
    rw [hk.vol, hk.disk] at hrun' hf hco'
    refine ⟨u, hrun', ⟨hk.toRan.trans hf.toRan, hf.disk.trans hk.disk, hf.handle.trans hk.handle, ?_⟩,
      hco' (.inl hco)⟩
    rw [hf.vol, hk.vol]

theorem fatFindFreeCluster_probed (hs : s.Mounted) (hq : s.Quiet) (hv : s.vol.Shape) (hh : s.vol.HintOk)
    (hp : s.vol.lastClusterAlloc < s.vol.clusterCount ∨ 2 < s.vol.lastClusterAlloc → Probed s s.vol.probe) :
    ∃ t, fatFindFreeCluster s = .ok (freeCluster s.vol s.disk) t ∧
      Found (fun _ => True) (freeCluster s.vol s.disk) s t ∧ (freeCluster s.vol s.disk ≠ 0 → t.Coherent) := by
  obtain ⟨hl, hl'⟩ := hh
  rw [FatVolHandle.probe] at hp
  by_cases hlt : s.vol.lastClusterAlloc < s.vol.clusterCount
  · rw [if_pos hlt] at hp
    obtain ⟨n, hn⟩ : ∃ n, s.vol.clusterCount - s.vol.lastClusterAlloc = n + 1 :=
      ⟨s.vol.clusterCount - s.vol.lastClusterAlloc - 1, by omega⟩
    obtain ⟨t, hrun, hf, hco⟩ :=
      findFreeFrom_probed n s.vol.lastClusterAlloc hq hv (hp (.inl hlt)) (by omega) (by omega)
    simp only [fatFindFreeCluster, getVol_bind, hn, bind_ok hrun, freeCluster]
    split
    next hi => exact ⟨t, rfl, hf, fun _ => hco⟩
    next hi =>
      have hvol : t.vol = s.vol := by rw [hf.vol, if_pos (not_not.mp hi)]
      obtain ⟨u, hrun', hf', -, hco'⟩ := findFreeFrom_run (P := fun _ => True) (s.vol.lastClusterAlloc - 2) 2
        hf.mounted (hf.quiet hq) (hvol ▸ hv) trivial (by omega) (by rw [hvol]; omega) hco.tableOk
      rw [hvol, hf.disk] at hrun' hf' hco'
      refine ⟨u, hrun', ⟨hf.toRan.trans hf'.toRan, hf'.disk.trans hf.disk, hf'.handle.trans hf.handle, ?_⟩,
        fun _ => hco' (.inl hco)⟩
      rw [hf'.vol, hvol]
  · rw [if_neg hlt] at hp
    have h0 : s.vol.clusterCount - s.vol.lastClusterAlloc = 0 := by omega
    simp only [fatFindFreeCluster, getVol_bind, h0, freeCluster, firstFree]
    have hpure : findFreeFrom 0 s.vol.lastClusterAlloc s = .ok 0 s := rfl
    rw [bind_ok hpure, if_neg (not_not.mpr rfl), if_neg (not_not.mpr rfl)]
    by_cases htwo : 2 < s.vol.lastClusterAlloc
    · obtain ⟨n, hn⟩ : ∃ n, s.vol.lastClusterAlloc - 2 = n + 1 := ⟨s.vol.lastClusterAlloc - 3, by omega⟩
      obtain ⟨t, hrun, hf, hco⟩ := findFreeFrom_probed n 2 hq hv (hp (.inr htwo)) (by omega) (by omega)
      rw [hn]
      exact ⟨t, hrun, hf, fun _ => hco⟩
    · have hn : s.vol.lastClusterAlloc - 2 = 0 := by omega
      rw [hn]
      exact ⟨s, rfl, ⟨.refl hs, rfl, rfl, rfl⟩, fun h => absurd rfl h⟩

theorem fatEntryAt_zero (hv : v.Shape) (hc : v.HasEntry c) : (fatEntryAt v 0 c).1 = fatNextSector v c := by
  have hcount := hv.count
  have hc' : c < v.clusterCount + 2 := hc
  have hsame : (if v.type = .fat32 then c else u16 c) = c := by
    split
    next => rfl
    next h =>
      refine Nat.mod_eq_of_lt ?_
      cases ht : v.type with
      | none => exact absurd ht hv.type
      | fat32 => exact absurd ht h
      | _ =>
        simp only [ht, FatType.maxClusters] at hcount
        omega
  rw [fatEntryAt, hsame, fatEntrySector, fatNextSector, hv.bytes, Nat.zero_mul, Nat.add_zero]

theorem FatState.On.probed (hx : s.On x) (hmis : ¬ x.Misled) (hc : x.vol.HasEntry x.vol.probe) :
    Probed s x.vol.probe := by
  have hv := hx.layout.toShape
  have hentry : fatEntry s.vol s.disk 0 x.vol.probe = fatNext s.vol s.disk x.vol.probe := by
    rw [hx.vol]
    exact (fatNext_eq hv hc).symm
  rw [Probed, hentry]
  by_cases hst : x.stale = some (fatNextSector x.vol x.vol.probe)
  · have hstr := not_not.mp fun h => hmis ⟨hst, h⟩
    have hmark := hx.mark hst hstr.1 hstr.2
    have hw := hx.wiped _ hst
    obtain ⟨val, t, hrun, hk, hco, hval, hne⟩ := fatGetNextCluster_half (c := x.vol.probe) hx.mounted hx.quiet
      (hx.vol ▸ hv) (by rw [hx.vol]; exact hw) (by rw [hx.vol]; exact hstr.1) (by rw [hx.vol]; exact hstr.2)
      (by rw [hx.vol, hx.disk]; exact hmark)
    exact ⟨val, t, hrun, hk, hco, iff_of_false hval hne⟩
  · obtain ⟨t, hrun, hk, hco⟩ := fatGetNextCluster_next (P := fun _ => True) hx.mounted hx.quiet
      (by rw [hx.vol]; exact hv.bytes) trivial (by rw [hx.vol]; exact hx.cacheOk hst)
    exact ⟨_, t, hrun, hk, hco, Iff.rfl⟩

/-- There is a cluster that the search looks at. -/
def FatVolHandle.Probes (v : FatVolHandle) : Prop :=
  v.lastClusterAlloc < v.clusterCount ∨ 2 < v.lastClusterAlloc

theorem FatVolHandle.Probes.isCluster (h : v.Probes) (hh : v.HintOk) : v.IsCluster v.probe := by
  have h1 := hh.1
  have h2 := hh.2
  rw [FatVolHandle.Probes] at h
  rw [FatVolHandle.probe, FatVolHandle.IsCluster]
  split
  · omega
  · omega

theorem freeCluster_probe (h : v.Probes) (hh : v.HintOk) (hzero : fatEntry v d 0 v.probe = 0) :
    freeCluster v d = v.probe := by
  have h1 := hh.1
  rw [FatVolHandle.probe] at hzero ⊢
  by_cases hlt : v.lastClusterAlloc < v.clusterCount
  · rw [if_pos hlt] at hzero ⊢
    obtain ⟨n, hn⟩ : ∃ n, v.clusterCount - v.lastClusterAlloc = n + 1 :=
      ⟨v.clusterCount - v.lastClusterAlloc - 1, by omega⟩
    simp only [freeCluster, hn, firstFree, hzero, if_true]
    exact if_pos (by omega)
  · rw [if_neg hlt] at hzero ⊢
    obtain ⟨n, hn⟩ : ∃ n, v.lastClusterAlloc - 2 = n + 1 := ⟨v.lastClusterAlloc - 3, by
      have := h.resolve_left hlt
      omega⟩
    have h0 : v.clusterCount - v.lastClusterAlloc = 0 := by omega
    simp only [freeCluster, h0, hn, firstFree, hzero, if_true, ne_eq, not_true_eq_false, if_false]

theorem fatFindFreeCluster_hit (h : s.vol.Probes) (hh : s.vol.HintOk)
    (hnext : fatGetNextCluster s.vol.probe s = .ok 0 s) :
    fatFindFreeCluster s =
      .ok s.vol.probe { s with vol := { s.vol with lastClusterAlloc := s.vol.probe } } := by
  have h1 := hh.1
  by_cases hlt : s.vol.lastClusterAlloc < s.vol.clusterCount
  · have hp : s.vol.probe = s.vol.lastClusterAlloc := if_pos hlt
    obtain ⟨n, hn⟩ : ∃ n, s.vol.clusterCount - s.vol.lastClusterAlloc = n + 1 :=
      ⟨s.vol.clusterCount - s.vol.lastClusterAlloc - 1, by omega⟩
    have hfind : findFreeFrom (n + 1) s.vol.lastClusterAlloc s =
        .ok s.vol.lastClusterAlloc
          { s with vol := { s.vol with lastClusterAlloc := s.vol.lastClusterAlloc } } := by
      rw [← hp, findFreeFrom, bind_ok hnext, if_pos rfl]
      rfl
    rw [fatFindFreeCluster, getVol_bind, hn, bind_ok hfind, if_pos (by omega), hp]
    rfl
  · have hp : s.vol.probe = 2 := if_neg hlt
    obtain ⟨n, hn⟩ : ∃ n, s.vol.lastClusterAlloc - 2 = n + 1 := ⟨s.vol.lastClusterAlloc - 3, by
      have := h.resolve_left hlt
      omega⟩
    have h0 : s.vol.clusterCount - s.vol.lastClusterAlloc = 0 := by omega
    have hpure : findFreeFrom 0 s.vol.lastClusterAlloc s = .ok 0 s := rfl
    rw [hp] at hnext ⊢
    rw [fatFindFreeCluster, getVol_bind, h0, bind_ok hpure, if_neg (not_not.mpr rfl), hn, findFreeFrom,
      bind_ok hnext,
      if_pos rfl]
    rfl

theorem fatFindFreeCluster_blind (h : ¬ s.vol.Probes) :
    fatFindFreeCluster s = .ok 0 s ∧ ∀ d, freeCluster s.vol d = 0 := by
  obtain ⟨h1, h2⟩ := not_or.mp h
  have h0 : s.vol.clusterCount - s.vol.lastClusterAlloc = 0 := by omega
  have hn : s.vol.lastClusterAlloc - 2 = 0 := by omega
  refine ⟨?_, fun d => ?_⟩
  · rw [fatFindFreeCluster, getVol_bind, h0, hn]
    rfl
  · rw [freeCluster, h0, hn]
    rfl

/-- The cluster a directory gets from a search that may see the zeroed buffer. -/
theorem allocDirCluster_on (hx : s.On x) :
    x.dirCluster = none ∧ (∃ t, allocDirCluster attrDirectory s = .ok none t ∧ t.disk = x.disk) ∨
    ∃ c y t, x.dirCluster = some (c, y) ∧ allocDirCluster attrDirectory s = .ok (some c) t ∧ t.On y := by
  have hv := hx.layout.toShape
  have hsv : s.vol.Shape := hx.vol ▸ hv
  have hsh : s.vol.HintOk := hx.vol ▸ hx.hint
  -- no cluster found
  have full : ∀ {t}, freeCluster x.vol x.searched = 0 → fatFindFreeCluster s = .ok 0 t → t.disk = x.disk →
      x.dirCluster = none ∧ ∃ t, allocDirCluster attrDirectory s = .ok none t ∧ t.disk = x.disk :=
    fun {t} h0 hfind hdisk => ⟨if_pos h0, t, by
      rw [allocDirCluster, if_pos rfl, getVol_bind, bind_ok hfind, if_pos rfl, pure_run], hdisk⟩
  -- a cluster found and marked, on what the search saw
  have taken : ∀ {c t u}, c = freeCluster x.vol x.searched → c ≠ 0 → x.vol.IsCluster c →
      fatFindFreeCluster s = .ok c t → fatSetNextCluster c (fatEoc x.vol) t = .ok 0 u →
      Ran (fun _ => True) s u →
      u.vol = { x.vol with lastClusterAlloc := c } → u.handle = s.handle →
      u.disk = setNext x.vol c (fatEoc x.vol) x.searched → u.Coherent →
      ∃ c y t, x.dirCluster = some (c, y) ∧ allocDirCluster attrDirectory s = .ok (some c) t ∧ t.On y := by
    intro c t u hc hne hcl hfind hset hran hvol huh hdisk hco
    subst hc
    refine ⟨_, _, u, if_neg hne, ?_, ?_⟩
    · rw [allocDirCluster, if_pos rfl, getVol_bind, bind_ok hfind, if_neg hne, hx.vol, bind_ok hset, pure_run]
    · exact .of_coherent hran.mounted (hran.quiet hx.quiet) ⟨hv.hint _, hx.layout.aligned⟩
        ⟨hcl.1, Nat.le_of_lt hcl.2⟩ hx.chain hx.standing hvol hdisk (by rw [huh, hx.handle]) rfl hco
  by_cases hrange : x.vol.Probes
  swap
  · obtain ⟨hfind, hfree⟩ := fatFindFreeCluster_blind (s := s) (by rw [hx.vol]; exact hrange)
    rw [hx.vol] at hfree
    exact .inl (full (hfree _) hfind hx.disk)
  have hcl := hrange.isCluster hx.hint
  by_cases hmis : x.Misled
  · have hsearched : x.searched = x.disk.edit (fatNextSector x.vol x.vol.probe) wipe := if_pos hmis
    have hne : x.vol.probe ≠ 0 := by
      have := hcl.1
      omega
    have hw := hx.wiped _ hmis.1
    obtain ⟨hnext, hzero⟩ :=
      fatGetNextCluster_wiped (c := x.vol.probe) hx.mounted hsv (by rw [hx.vol]; exact hw)
      (by rw [hx.vol]; exact hmis.2)
    rw [hx.vol, hx.disk, fatNext_eq hv hcl.2, ← hsearched] at hzero
    have hfree := freeCluster_probe hrange hx.hint hzero
    have hfind :=
      fatFindFreeCluster_hit (s := s) (by rw [hx.vol]; exact hrange) hsh (by rw [hx.vol]; exact hnext)
    rw [hx.vol] at hfind
    have hat : (fatEntryAt { x.vol with lastClusterAlloc := x.vol.probe } 0 x.vol.probe).1 =
        fatNextSector x.vol x.vol.probe :=
      fatEntryAt_zero (v := { x.vol with lastClusterAlloc := x.vol.probe }) (hv.hint _) hcl.2
    obtain ⟨u, hset, hran, huvol, huh, hudisk, hco⟩ := fatSetNextCluster_wiped
      (s := { s with vol := { x.vol with lastClusterAlloc := x.vol.probe } }) x.vol.probe (fatEoc x.vol)
      ⟨hx.mounted.ready, by rw [← hx.vol]; exact hx.mounted.dev, hx.mounted.label, hx.mounted.bldev,
        hx.mounted.reads⟩
      hx.quiet (hv.hint _) (by rw [hat]; exact ⟨hw.bldev, hw.label, hw.clean, hw.buf⟩)
    refine .inr
      (taken hfree.symm hne hcl hfind hset ⟨hran.part, hran.mounted, hran.quiet, hran.writes⟩ huvol huh ?_ hco)
    rw [hudisk, setNext_hint, hat, hsearched, ← hx.disk]
    rfl
  · have hsearched : x.searched = x.disk := if_neg hmis
    obtain ⟨t, hfind, hfd, hco⟩ := fatFindFreeCluster_probed hx.mounted hx.quiet hsv hsh fun _ => by
      rw [hx.vol]
      exact hx.probed hmis hcl.2
    rw [hx.vol, hx.disk] at hfind hfd hco
    by_cases hf : freeCluster x.vol x.disk = 0
    · rw [hf] at hfind hfd
      exact .inl (full (by rw [hsearched]; exact hf) hfind (hfd.disk.trans hx.disk))
    · have hcl := (freeCluster_spec hx.hint hf).1
      have htvol : t.vol = { x.vol with lastClusterAlloc := freeCluster x.vol x.disk } := by
        rw [hfd.vol, if_neg hf, hx.vol]
      obtain ⟨u, hset, hb, hl⟩ := fatSetNextCluster_any (freeCluster x.vol x.disk) (fatEoc x.vol) hfd.mounted
        (hfd.quiet hx.quiet) (htvol ▸ hv.hint _) (hco hf _)
      refine .inr (taken (by rw [hsearched]) hf hcl hfind hset (hfd.toRan.trans hb.toRan) (hb.vol.trans htvol)
        (hb.handle.trans hfd.handle) ?_ hl.coherent)
      rw [hb.disk, htvol, setNext_hint, hfd.disk, hx.disk, hsearched]

-- ---------------------------------------------------------------------------
-- The last look-up
-- ---------------------------------------------------------------------------

/-- A state that looks names up in `d` from the start of `h` on. -/
structure LooksAt (v : FatVolHandle) (d : Disk) (h : FatFileHandle) (t : FatState) : Prop
    extends ScanReady t where
  vol : t.vol = v
  disk : t.disk = d
  start : (t.handle .cwd).start = h.start

theorem LooksAt.stops (hl : LooksAt v d h t) (hst : Stops name v d h.start {} es b) (dst : HandleRef)
    (hdot : name ≠ [46]) : b.Answers dst t (fatOpen name 0 dst t) := by
  rw [← hl.vol, ← hl.disk, ← hl.start] at hst
  exact hst.fatOpen_run 0 dst hl.toScanReady hdot

theorem LooksAt.endless (hl : LooksAt v d h t) (hno : ¬ ∃ es b, Stops name v d h.start {} es b)
    (dst : HandleRef) (hdot : name ≠ [46]) : ∃ u, fatOpen name 0 dst t = .error .noReturn u := by
  rw [← hl.vol, ← hl.disk, ← hl.start] at hno
  have hrun : ¬ Ended (fatOpen name 0 dst t) := fun h => hno (fatOpen_stops 0 dst hl.toScanReady hdot h)
  obtain ⟨u, hu⟩ := not_forall.mp hrun
  exact ⟨u, not_not.mp hu⟩

theorem ChainHandle.start_onEntry (hc : ChainHandle h) : h.start.OnEntry where
  fat := hc.fat
  slot := rfl
  word := Nat.two_pow_pos 32
  size := by
    show h.size < 2 ^ 32
    rw [hc.size]
    exact Nat.two_pow_pos 32
  inside := .inl hc.size
  root := fun hr => absurd (hc.root.symm.trans hr) (by decide)

theorem FatState.On.looksAt (hx : s.On x) (hst : x.stale ≠ some x.firstSector) :
    LooksAt x.vol x.disk x.handle s where
  mounted := hx.mounted
  quiet := hx.quiet
  layout := hx.vol ▸ hx.layout
  ready := by
    refine .inr ⟨.inl ?_, ?_⟩
    · rw [hx.handle]
      exact hx.chain.size
    · rw [hx.handle, hx.vol]
      exact hx.cacheOk hst
  dir := by
    rw [hx.handle]
    exact hx.chain.start_onEntry
  vol := hx.vol
  disk := hx.disk
  start := by rw [hx.handle]

/-- A look-up that begins in the zeroed buffer finds the end there. -/
theorem FatState.On.misled (hx : s.On x) (hst : x.stale = some x.firstSector) (dst : HandleRef)
    (hdot : name ≠ [46]) :
    ∃ t, fatOpen name 0 dst s = .ok (-2) t ∧ t.Mounted ∧ t.Quiet ∧ t.disk = x.disk := by
  have hv := hx.layout.toShape
  have hw := hx.wiped _ hst
  let h := x.handle.start
  let t := s.withHandle .cwd h
  have hself : t.handle .cwd = h := withHandle_handle
  have hget : getSector (fatFileSectorOffset x.vol h).1 t = .ok ⟨⟩ t :=
    getSector_hit hx.mounted.dev hw.bldev hw.label
  have hran : Ran (fun _ => True) s (t.withHandle .cwd { h with position := 32 }) :=
    ((Ran.refl hx.mounted).withHandle (r := .cwd) (h := h)).withHandle
  have hsize : h.size = 0 := hx.chain.size
  have hfat : h.fat = true := hx.chain.fat
  have hchunk : u16 (min (512 - 0) (32 - ([] : List UInt8).length)) = 32 := rfl
  have hread :
      fatRead .cwd 32 t = .ok (some (bytesAt t.buf 0 32)) (t.withHandle .cwd { h with position := 32 }) := by
    refine returning_ok ?_
    have hvol : t.vol = x.vol := hx.vol
    have hoff : (fatFileSectorOffset x.vol h).2 = 0 := by
      simp only [fatFileSectorOffset, hv.bytes]
      rfl
    rw [getHandle_bind, hself, fatOf_bind hfat, hvol]
    dsimp only
    rw [if_neg fun hn => hn.1 hsize]
    refine map_ok ?_
    rw [readLoop, if_neg (by simp), getHandle_bind, hself, fatOf_bind hfat, hvol, hv.bytes, hoff, hchunk,
      bind_ok hget, get_bind, modifyHandle_bind, List.nil_append, hself]
    rw [readAdvance, bind_assoc, getHandle_bind, withHandle_handle, hv.bytes]
    have hin : u32 (h.position + 32) % 512 ≠ 0 := show u32 (0 + 32) % 512 ≠ 0 by decide
    rw [if_pos hin]
    rfl
  refine ⟨t.withHandle .cwd { h with position := 32 }, ?_, hran.mounted, hran.quiet hx.quiet, hx.disk⟩
  rw [fatOpen_scan_start (hx.vol ▸ hv) (by rw [hx.handle]; exact hx.chain.fat) hdot, hx.handle]
  refine scan_end 0 dst _ _ {} hread fun _ => ?_
  show (structOf (bytesAt s.buf 0 32)) 0 = 0
  rw [hw.buf]
  rfl

end Stm32Logger
