import Stm32Logger.Fat.Create
import Stm32Logger.Fat.Walk

/-!
# `fat_open` on a directory that may be damaged

With a card that does all it is asked, `fat_open` returns exactly where the
walk along the links comes to the name or to an end, and stores outside
`d_name` exactly where it comes to an entry that does.
-/

namespace Stm32Logger

/-- An entry read through `h` is the one on the disk. -/
def FatState.Readable (s : FatState) (h : FatFileHandle) : Prop :=
  s.Coherent ∨ h.More ∧ s.CacheOk (fatFileSectorOffset s.vol h).1

/-- Mounted, nothing fails, and the current directory is a handle that can be read from its start. -/
structure ScanReady (s : FatState) : Prop where
  mounted : s.Mounted
  quiet : s.Quiet
  layout : s.vol.Layout
  ready : s.Readable (s.handle .cwd).start
  dir : (s.handle .cwd).start.OnEntry

/-- A call that read the current directory, and made of the handle `dst` what it liked. -/
structure Scanned (dst : HandleRef) (s t : FatState) : Prop extends Ran (fun d => d = s.disk) s t where
  disk : t.disk = s.disk
  vol : t.vol = s.vol
  cwd : (t.handle .cwd).start = (s.handle .cwd).start
  others : ∀ r, r ≠ .cwd → r ≠ dst → t.handle r = s.handle r
  coherent : t.Coherent

variable {s t u : FatState} {v : FatVolHandle} {d : Disk} {h : FatFileHandle} {es : List Sector}
  {name : List UInt8}
  {n : LongName} {dst : HandleRef} {b : ScanEnd}

theorem Scanned.refl (hs : ScanReady s) (hco : s.Coherent) : Scanned dst s s :=
  ⟨.refl hs.mounted, rfl, rfl, rfl, fun _ _ _ => rfl, hco⟩

theorem Scanned.trans (h1 : Scanned dst s t) (h2 : Scanned dst t u) : Scanned dst s u where
  toRan := h1.toRan.trans (h1.disk ▸ h2.toRan)
  disk := h2.disk.trans h1.disk
  vol := h2.vol.trans h1.vol
  cwd := h2.cwd.trans h1.cwd
  others := fun r hr hr' => (h2.others r hr hr').trans (h1.others r hr hr')
  coherent := h2.coherent

theorem Scanned.mono (dst : HandleRef) (h1 : Scanned .cwd s t) : Scanned dst s t :=
  ⟨h1.toRan, h1.disk, h1.vol, h1.cwd, fun r hr _ => h1.others r hr hr, h1.coherent⟩

theorem Scanned.withHandle (hdst : dst ≠ .cwd) (h1 : Scanned .cwd s t) (hd : FatFileHandle) :
    Scanned dst s (t.withHandle dst hd) where
  toRan := h1.toRan.withHandle
  disk := h1.disk
  vol := h1.vol
  cwd := by
    rw [withHandle_of_ne hdst.symm]
    exact h1.cwd
  others := fun r hr hr' => by
    rw [withHandle_of_ne hr']
    exact h1.others r hr hr
  coherent := fun n => (h1.coherent n).withHandle

theorem ScanReady.scanned (hs : ScanReady s) (h1 : Scanned dst s t) : ScanReady t :=
  ⟨h1.mounted, h1.quiet hs.quiet, h1.vol ▸ hs.layout, .inl h1.coherent, h1.cwd ▸ hs.dir⟩

theorem Moved.scanned (hm : Moved (fun d => d = s.disk) .cwd h s t) (hh : h.start = (s.handle .cwd).start)
    (hco : t.Coherent) : Scanned dst s t :=
  ⟨hm.toRan, hm.disk, hm.vol, by rw [hm.self, hh], fun _ hr _ => hm.other hr, hco⟩

-- ---------------------------------------------------------------------------
-- One entry
-- ---------------------------------------------------------------------------

theorem ScanReady.read (hs : ScanReady s) (ho : (s.handle .cwd).OnEntry) (hc : s.Readable (s.handle .cwd))
    (hm : (s.handle .cwd).More) :
    ∃ bs t, fatRead .cwd 32 s = .ok (some bs) t ∧ bs.length = 32 ∧
      structOf bs = (s.handle .cwd).entry s.vol s.disk ∧
      Moved (fun d => d = s.disk) .cwd ((s.handle .cwd).step s.vol s.disk) s t ∧ t.Coherent := by
  obtain ⟨t, hrun, hmv, hco⟩ := fatRead_step (P := fun d => d = s.disk)
    (r := .cwd) hs.mounted hs.quiet hs.layout ho.fat ho.slot hm
    (hc.elim (fun h => h _) And.right) rfl
  exact ⟨_, t, hrun, bytesAt_length .., rfl, hmv, hco⟩

theorem ScanReady.read_short (hs : ScanReady s) (ho : (s.handle .cwd).OnEntry) (hc : s.Readable (s.handle .cwd))
    (hm : ¬ (s.handle .cwd).More) :
    ∃ bs t p, fatRead .cwd 32 s = .ok (some bs) t ∧ bs.length ≠ 32 ∧
      Moved (fun d => d = s.disk) .cwd { s.handle .cwd with position := p } s t ∧ t.Coherent := by
  have hco : s.Coherent := hc.resolve_right fun h => hm h.1
  obtain ⟨h0, hgt⟩ := not_or.mp hm
  have hin := ho.inside.resolve_left h0
  have hslot := ho.slot
  have hword := ho.word
  have hsize := ho.size
  generalize hh : s.handle .cwd = h at *
  rw [u32] at hgt
  have hshort :
      (if h.size ≠ 0 ∧ u32 (h.position + 32) > h.size then (i32 (sub32 h.size h.position)).toNat else 32) =
      h.size - h.position := by
    have hcast : ((h.size + (2 ^ 32 - h.position)) % 2 ^ 32 : Nat) = h.size - h.position := by omega
    rw [u32, if_pos ⟨h0, by omega⟩, sub32, u32, u32, Nat.mod_eq_of_lt hword, hcast, i32, Int.bmod]
    omega
  have hn : h.size - h.position < 32 := by omega
  have hread : ∀ t bs, readLoop .cwd (h.size - h.position) (h.size - h.position) (fatFileSectorOffset s.vol h).1
      (fatFileSectorOffset s.vol h).2 [] s = .ok bs t → fatRead .cwd 32 s = .ok (some bs) t := by
    intro t bs hrun
    refine returning_ok ?_
    rw [getHandle_bind, hh, fatOf_bind ho.fat]
    simp only [hshort]
    exact map_ok hrun
  generalize h.size - h.position = k at hread hn
  cases k with
  | zero =>
    refine ⟨[], s, h.position, hread s [] ?_, by decide, ?_, hco⟩
    · rw [readLoop, if_pos (Nat.zero_le _)]
      rfl
    · have := Moved.refl (P := fun d => d = s.disk) (r := .cwd) hs.mounted
      rwa [hh] at this
  | succ k =>
    have hlt : (fatFileSectorOffset s.vol h).1 < 2 ^ 32 := by
      simp only [fatFileSectorOffset]
      split
      · exact Nat.mod_lt _ (by decide)
      · exact Nat.mod_lt _ (by decide)
    have hoff : (fatFileSectorOffset s.vol h).2 = h.position % 512 := by
      simp only [fatFileSectorOffset, hs.layout.bytes]
    obtain ⟨t, hget, hk, hl⟩ := get_run (P := fun d => d = s.disk) hs.mounted hs.quiet rfl hlt (hco _)
    have hchunk : u16 (min (512 - h.position % 512) (k + 1 - ([] : List UInt8).length)) = k + 1 := by
      rw [List.length_nil, u16]
      omega
    have hmv := hk.moved .cwd { h with position := u32 (h.position + (k + 1)) }
    refine ⟨_, t.withHandle .cwd { h with position := u32 (h.position + (k + 1)) }, u32 (h.position + (k + 1)),
      hread _ (bytesAt t.buf (h.position % 512) (k + 1)) ?_, ?_, hmv, hl.withHandle.coherent⟩
    · have hstop : u32 (h.position + (k + 1)) % 512 ≠ 0 := by
        rw [u32]
        omega
      rw [readLoop, if_neg (by simp), getHandle_bind, hh, fatOf_bind ho.fat, hs.layout.bytes, hoff, hchunk,
        bind_ok hget,
        get_bind, modifyHandle_bind, List.nil_append, hk.handle, hh]
      rw [readAdvance, bind_assoc, getHandle_bind, withHandle_handle, hs.layout.bytes]
      rw [if_pos hstop]
      rfl
    · rw [bytesAt_length]
      omega

-- ---------------------------------------------------------------------------
-- Seeking
-- ---------------------------------------------------------------------------

theorem fatLseek_start (hv : s.vol.Shape) (hfat : (s.handle .cwd).fat = true) :
    fatLseek .cwd 0 .set s = .ok 0 (s.withHandle .cwd (s.handle .cwd).start) := by
  have hpos := clusterBytes_pos hv
  have hseek : Whence.set.target (s.handle .cwd) 0 = 0 := rfl
  rw [fatLseek_eq 0 hseek (fun h => Nat.not_lt_zero _ h.2)]
  split
  · rfl
  · have hwalk : lseekWalk .cwd (0 : Int).toNat 0 (s.withHandle .cwd (s.handle .cwd).start) =
        .ok ⟨⟩ (s.withHandle .cwd (s.handle .cwd).start) := by
      rw [Int.toNat_zero, lseekWalk, getHandle_bind, fatOf_bind (by rw [withHandle_handle]; exact hfat),
        withHandle_vol,
        bytesPerCluster_eq hv, if_pos (by omega)]
      rfl
    exact bind_ok hwalk

theorem openFound_returns (flags : Nat) (dst : HandleRef) (hs : ScanReady s) (hco : s.Coherent) (ho : h.OnEntry)
    (hm : h.More) (hh : s.handle .cwd = h.step s.vol s.disk) :
    ∃ m hd, openFound flags dst s = .ok 0 (m.withHandle dst hd) ∧ Scanned .cwd s m := by
  have hslot := ho.slot
  have hword := ho.word
  have hfat : (s.handle .cwd).fat = true := by
    rw [hh]
    exact ho.fat
  have hback : u32OfInt (Whence.cur.target (s.handle .cwd) (-32)) = h.position := by
    rw [hh, Whence.target, FatFileHandle.step, u32OfInt, i32, Int.bmod, u32]
    dsimp only
    omega
  have hsize : ¬ ((s.handle .cwd).size ≠ 0 ∧ u32OfInt (Whence.cur.target (s.handle .cwd) (-32)) >
    (s.handle .cwd).size) := by
    rw [hback, hh]
    have hin := ho.inside
    simp only [FatFileHandle.step]
    omega
  have hseek := fatLseek_eq _ rfl hsize
  rw [hback] at hseek
  -- the handle is at the entry again, in whatever cluster
  have hback' : ∃ c k t, fatLseek .cwd (-32) .cur s = .ok k t ∧
      Moved (fun d => d = s.disk) .cwd { h with curCluster := c } s t ∧
      t.Coherent := by
    have hm0 := (Kept.refl (P := fun d => d = s.disk) hs.mounted).moved .cwd
      { s.handle .cwd with curCluster := (s.handle .cwd).firstCluster, position := h.position }
    rw [hseek]
    split
    · refine ⟨h.firstCluster, _, _, rfl, ?_, fun n => (hco n).withHandle⟩
      rw [hh] at hm0 ⊢
      exact hm0
    · obtain ⟨t, hrun, hmv, hco⟩ := lseekWalk_iterate (P := fun d => d = s.disk) (r := .cwd)
        (s := s.withHandle .cwd
          { s.handle .cwd with curCluster := (s.handle .cwd).firstCluster, position := h.position })
        _ _ hm0.mounted (hm0.quiet hs.quiet) hs.layout.toShape (fun n => (hco n).withHandle)
        (by rw [withHandle_handle]; exact hfat)
          (Nat.le_refl (Whence.cur.target (s.handle .cwd) (-32)).toNat) rfl
      have hall := hm0.trans hmv
      rw [withHandle_handle, hh] at hall
      exact ⟨_, _, t, bind_ok hrun, hall, hco⟩
  obtain ⟨c, k, t, hrun, hmv, hco'⟩ := hback'
  have h1 : Scanned .cwd s t := hmv.scanned (by rw [hh]; rfl) hco'
  have ht := hs.scanned h1
  have ho' : (t.handle .cwd).OnEntry := by
    rw [hmv.self]
    exact ⟨ho.fat, ho.slot, ho.word, ho.size, ho.inside, ho.root⟩
  have hm' : (t.handle .cwd).More := by
    rw [hmv.self]
    exact hm
  obtain ⟨bs, u, hread, hlen, -, hmv2, hco2⟩ := ht.read ho' (.inl hco') hm'
  have h2 : Scanned .cwd t u := hmv2.scanned rfl hco2
  exact ⟨u, _, openFound_ends flags dst hrun ho'.fat hread hlen (by rw [hmv2.self]; exact ho'.fat), h1.trans h2⟩

-- ---------------------------------------------------------------------------
-- The look-up
-- ---------------------------------------------------------------------------

theorem ScanReady.read_end (hs : ScanReady s) (ho : (s.handle .cwd).OnEntry) (hc : s.Readable (s.handle .cwd))
    (hend : (s.handle .cwd).More → (s.handle .cwd).entry s.vol s.disk 0 = 0) :
    ∃ bs t, fatRead .cwd 32 s = .ok (some bs) t ∧ (bs.length = 32 → structOf bs 0 = 0) ∧ Scanned .cwd s t := by
  by_cases hm : (s.handle .cwd).More
  · obtain ⟨bs, t, hread, -, hbs, hmv, hco⟩ := hs.read ho hc hm
    exact ⟨bs, t, hread, fun _ => by rw [hbs, hend hm], hmv.scanned rfl hco⟩
  · obtain ⟨bs, t, p, hread, hlen, hmv, hco⟩ := hs.read_short ho hc hm
    exact ⟨bs, t, hread, fun h => absurd h hlen, hmv.scanned rfl hco⟩

theorem scan_end (flags : Nat) (dst : HandleRef) (fuel fuel' : Nat) (n : LongName)
    (hread : fatRead .cwd 32 s = .ok (some bs) t) (hend : bs.length = 32 → structOf bs 0 = 0) :
    scan name flags dst (fuel + 1) fuel' n s = .ok (-2) t := by
  rw [scan, bind_ok (readdirLoop_end fuel hread hend)]
  rfl

/-- What a look-up that stops so makes of `s`. -/
def ScanEnd.Answers (dst : HandleRef) (s : FatState) (r : EStateM.Result Fault FatState Int) : ScanEnd → Prop
  | missing => ∃ t, r = .ok (-2) t ∧ Scanned .cwd s t
  | found => ∃ t hd, r = .ok 0 (t.withHandle dst hd) ∧ Scanned .cwd s t
  | outside => ∃ t, r = .error .outOfBounds t

theorem ScanEnd.Answers.after {r : EStateM.Result Fault FatState Int} (h1 : Scanned .cwd s t)
    (h : b.Answers dst t r) : b.Answers dst s r := by
  cases b with
  | missing =>
    obtain ⟨u, hr, h2⟩ := h
    exact ⟨u, hr, h1.trans h2⟩
  | found =>
    obtain ⟨u, hd, hr, h2⟩ := h
    exact ⟨u, hd, hr, h1.trans h2⟩
  | outside => exact h

theorem Named.not_halts_of (hin : StoresInside e) (hn : ¬ Named e) : ¬ Halts e :=
  fun h => h.elim hn fun h => h hin

theorem Stops.scan_run (flags fuel fuel' : Nat) (dst : HandleRef) (hst : Stops name v d h n es b)
    (hs : ScanReady s) (ho : h.OnEntry) (hc : s.Readable h) (hvol : s.vol = v) (hdisk : s.disk = d)
    (hh : s.handle .cwd = h) (hfuel : ∀ m, Skips v d h m → m < fuel) (hfuel' : namedCount es ≤ fuel') :
    b.Answers dst s (scan name flags dst fuel fuel' n s) := by
  induction hst generalizing s fuel fuel' with
  | @missing h n hend =>
    subst hvol hdisk hh
    obtain ⟨fuel, rfl⟩ : ∃ k, fuel = k + 1 :=
      ⟨fuel - 1, by have := hfuel 0 (.done fun hm h0 => absurd (hend hm) h0); omega⟩
    obtain ⟨bs, t, hread, hz, hsc⟩ := hs.read_end ho hc hend
    exact ⟨t, scan_end flags dst fuel fuel' n hread hz, hsc⟩
  | @found h n hm h0 hscan =>
    subst hvol hdisk hh
    obtain ⟨hn, hmatch⟩ := scanEntry_none hscan
    obtain ⟨fuel, rfl⟩ : ∃ k, fuel = k + 1 :=
      ⟨fuel - 1, by have := hfuel 0 (.done fun _ _ => .inl hn); omega⟩
    obtain ⟨bs, t, hread, hlen, hbs, hmv, hco⟩ := hs.read ho hc hm
    have h1 : Scanned .cwd s t := hmv.scanned rfl hco
    obtain ⟨m, hd, hopen, h2⟩ :=
      openFound_returns flags dst (hs.scanned h1) hco ho hm (by rw [hmv.self, hmv.vol, hmv.disk])
    refine ⟨m, hd, ?_, h1.trans h2⟩
    rw [scan_named name flags dst fuel fuel' n hread hlen hbs h0 hn, if_pos hmatch]
    exact hopen
  | @outside h n hm h0 hout =>
    subst hvol hdisk hh
    obtain ⟨fuel, rfl⟩ : ∃ k, fuel = k + 1 :=
      ⟨fuel - 1, by have := hfuel 0 (.done fun _ _ => .inr hout); omega⟩
    obtain ⟨bs, t, hread, hlen, hbs, -, -⟩ := hs.read ho hc hm
    exact ⟨t, scan_outside name flags dst fuel fuel' n hread hlen hbs h0 hout⟩
  | @next h n n1 es b hm h0 hin hscan hrest ih =>
    subst hvol hdisk hh
    obtain ⟨bs, t, hread, hlen, hbs, hmv, hco⟩ := hs.read ho hc hm
    have h1 : Scanned .cwd s t := hmv.scanned rfl hco
    rw [namedCount, List.countP_cons] at hfuel'
    by_cases hn : Named ((s.handle .cwd).entry s.vol s.disk)
    · obtain ⟨fuel, rfl⟩ : ∃ k, fuel = k + 1 :=
        ⟨fuel - 1, by have := hfuel 0 (.done fun _ _ => .inl hn); omega⟩
      rw [if_pos (decide_eq_true hn)] at hfuel'
      obtain ⟨fuel', rfl⟩ : ∃ k, fuel' = k + 1 := ⟨fuel' - 1, by omega⟩
      have hno : ¬ Matches name ((s.handle .cwd).entry s.vol s.disk) n := fun hm' => by
        rw [scanEntry_named hn, if_pos hm'] at hscan
        exact absurd hscan (by simp)
      rw [scanEntry_named hn, if_neg hno] at hscan
      obtain rfl := Option.some.inj hscan
      have hgo := ih scanLimit fuel' (hs.scanned h1) (ho.step hm) (.inl hco) hmv.vol hmv.disk hmv.self
        (fun m hskip => hskip.lt hs.layout.toShape (ho.step hm)) (Nat.le_of_succ_le_succ hfuel')
      rw [scan_named name flags dst fuel (fuel' + 1) n hread hlen hbs h0 hn, if_neg hno]
      exact hgo.after h1
    · have hhalt := Named.not_halts_of hin hn
      obtain ⟨m0, hskip0⟩ := hrest.skips
      obtain ⟨fuel, rfl⟩ : ∃ k, fuel = k + 1 :=
        ⟨fuel - 1, by have := hfuel _ (.skip hm h0 hhalt hskip0); omega⟩
      obtain ⟨n2, hscan2, hstep⟩ := scan_skip name flags dst fuel fuel' n hread hlen hbs h0 hin hn
      obtain rfl := Option.some.inj (hscan.symm.trans hscan2)
      have hless : ∀ m, Skips s.vol s.disk ((s.handle .cwd).step s.vol s.disk) m → m < fuel := fun m hskip =>
        Nat.lt_of_succ_lt_succ (hfuel _ (.skip hm h0 hhalt hskip))
      rw [if_neg (by simp [hn])] at hfuel'
      have hgo := ih fuel fuel' (hs.scanned h1) (ho.step hm) (.inl hco) hmv.vol hmv.disk hmv.self hless hfuel'
      rw [hstep]
      exact hgo.after h1

/-- A run that is not out of fuel. -/
def Ended (r : EStateM.Result Fault FatState Int) : Prop := ∀ t, r ≠ .error .noReturn t

theorem scan_step (flags fuel fuel' : Nat) (dst : HandleRef) (hs : ScanReady s) (ho : (s.handle .cwd).OnEntry)
    (hc : s.Readable (s.handle .cwd)) (hrun : Ended (scan name flags dst (fuel + 1) fuel' n s))
    (hskip : ∀ (u : FatState) (n : LongName), ScanReady u → (u.handle .cwd).OnEntry → u.Readable (u.handle
    .cwd) → Ended (scan name flags dst fuel fuel' n u) → ∃ es b, Stops name u.vol u.disk (u.handle .cwd) n es b)
    (hopen : ∀ u : FatState, ScanReady u → (u.handle .cwd).OnEntry → u.Readable (u.handle .cwd) →
    Ended (openLoop name flags dst fuel' u) → ∃ es b, Stops name u.vol u.disk (u.handle .cwd) {} es b) :
    ∃ es b, Stops name s.vol s.disk (s.handle .cwd) n es b := by
  by_cases hend : (s.handle .cwd).More → (s.handle .cwd).entry s.vol s.disk 0 = 0
  · exact ⟨[], .missing, .missing hend⟩
  obtain ⟨hm, h0⟩ := Classical.not_imp.mp hend
  obtain ⟨bs, u, hread, hlen, hbs, hmv, hco⟩ := hs.read ho hc hm
  have hu : ScanReady u := hs.scanned (hmv.scanned rfl hco : Scanned dst s u)
  have hou : (u.handle .cwd).OnEntry := by
    rw [hmv.self]
    exact ho.step hm
  by_cases hin : StoresInside ((s.handle .cwd).entry s.vol s.disk)
  swap
  · exact ⟨[], .outside, .outside hm h0 hin⟩
  by_cases hn : Named ((s.handle .cwd).entry s.vol s.disk)
  · rw [scan_named name flags dst fuel fuel' n hread hlen hbs h0 hn] at hrun
    by_cases hmatch : Matches name ((s.handle .cwd).entry s.vol s.disk) n
    · exact ⟨[], .found, .found hm h0 (by rw [scanEntry_named hn, if_pos hmatch])⟩
    · rw [if_neg hmatch] at hrun
      obtain ⟨es, b, hst⟩ := hopen u hu hou (.inl hco) hrun
      rw [hmv.self, hmv.vol, hmv.disk] at hst
      exact ⟨_, b, .next hm h0 hin (by rw [scanEntry_named hn, if_neg hmatch]) hst⟩
  · obtain ⟨n1, hscan, hstep⟩ := scan_skip name flags dst fuel fuel' n hread hlen hbs h0 hin hn
    rw [hstep] at hrun
    obtain ⟨es, b, hst⟩ := hskip u n1 hu hou (.inl hco) hrun
    rw [hmv.self, hmv.vol, hmv.disk] at hst
    exact ⟨_, b, .next hm h0 hin hscan hst⟩

theorem scan_stops (flags fuel fuel' : Nat) (dst : HandleRef) (hs : ScanReady s) (ho : (s.handle .cwd).OnEntry)
    (hc : s.Readable (s.handle .cwd)) (hrun : Ended (scan name flags dst fuel fuel' n s)) :
    ∃ es b, Stops name s.vol s.disk (s.handle .cwd) n es b := by
  induction fuel' generalizing s n fuel with
  | zero =>
    induction fuel generalizing s n with
    | zero => exact absurd rfl (hrun s)
    | succ fuel ih =>
      exact scan_step flags fuel 0 dst hs ho hc hrun (fun _ _ hs ho hc hrun => ih hs ho hc hrun)
        fun u _ _ _ hrun => absurd rfl (hrun u)
  | succ fuel' ih' =>
    induction fuel generalizing s n with
    | zero => exact absurd rfl (hrun s)
    | succ fuel ih =>
      exact scan_step flags fuel (fuel' + 1) dst hs ho hc hrun (fun _ _ hs ho hc hrun => ih hs ho hc hrun)
        fun _ hs ho hc hrun => ih' scanLimit hs ho hc hrun

theorem fatOpen_scan_start (hv : s.vol.Shape) (hfat : (s.handle .cwd).fat = true) (hname : name ≠ [46]) :
    fatOpen name flags dst s = scan name flags dst scanLimit (scanLimit - 1) {}
      (s.withHandle .cwd (s.handle .cwd).start) := by
  rw [fatOpen, if_neg hname, bind_ok (fatLseek_start hv hfat)]
  rfl

theorem ScanReady.started (hs : ScanReady s) : ScanReady (s.withHandle .cwd (s.handle .cwd).start) where
  mounted := ((Kept.refl (P := fun _ => True) hs.mounted).moved .cwd _).mounted
  quiet := hs.quiet
  layout := hs.layout
  ready := by
    rw [withHandle_handle]
    exact hs.ready
  dir := by
    rw [withHandle_handle]
    exact hs.dir

theorem ScanEnd.Answers.started {r : EStateM.Result Fault FatState Int} (hs : ScanReady s)
    (h : b.Answers dst (s.withHandle .cwd (s.handle .cwd).start) r) : b.Answers dst s r := by
  have hstart : ∀ t, Scanned .cwd (s.withHandle .cwd (s.handle .cwd).start) t → Scanned .cwd s t :=
      fun t h => by
    refine ⟨((Ran.refl hs.mounted).withHandle).trans h.toRan, h.disk, h.vol, h.cwd.trans ?_, fun r hr hr' => ?_,
      h.coherent⟩
    · rw [withHandle_handle]
      rfl
    · rw [h.others r hr hr', withHandle_of_ne hr]
  cases b with
  | missing =>
    obtain ⟨t, hr, h⟩ := h
    exact ⟨t, hr, hstart t h⟩
  | found =>
    obtain ⟨t, hd, hr, h⟩ := h
    exact ⟨t, hd, hr, hstart t h⟩
  | outside => exact h

/-- A look-up that stops is answered so. -/
theorem Stops.fatOpen_run (flags : Nat) (dst : HandleRef) (hs : ScanReady s) (hname : name ≠ [46])
    (hst : Stops name s.vol s.disk (s.handle .cwd).start {} es b) :
    b.Answers dst s (fatOpen name flags dst s) := by
  have hrounds := hst.rounds hs.layout.toShape hs.dir
  rw [fatOpen_scan_start hs.layout.toShape hs.dir.fat hname]
  refine ScanEnd.Answers.started hs ?_
  refine hst.scan_run flags scanLimit (scanLimit - 1) dst hs.started hs.dir ?_ rfl rfl withHandle_handle
    (fun m hskip => hskip.lt hs.layout.toShape hs.dir) (by omega)
  exact hs.ready

theorem fatOpen_stops (flags : Nat) (dst : HandleRef) (hs : ScanReady s) (hname : name ≠ [46])
    (hrun : Ended (fatOpen name flags dst s)) :
    ∃ es b, Stops name s.vol s.disk (s.handle .cwd).start {} es b := by
  rw [fatOpen_scan_start hs.layout.toShape hs.dir.fat hname] at hrun
  have hst := scan_stops flags scanLimit (scanLimit - 1) dst hs.started
    (by rw [withHandle_handle]; exact hs.dir) (by rw [withHandle_handle]; exact hs.ready) hrun
  rwa [withHandle_handle] at hst

end Stm32Logger
