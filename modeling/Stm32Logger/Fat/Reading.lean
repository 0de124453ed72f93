import Stm32Logger.Cursor
import Stm32Logger.Fat.LogFile
import Stm32Logger.Fat.Lookup

/-!
# Reading a file

A handle on a file that is not empty reads and seeks as a cursor in the file's
bytes does, wherever its clusters are and whatever ends its chain.
-/

namespace Stm32Logger

/-- The clusters `cs`, each linked to the next, hold `log` from their start on. -/
structure Content (v : FatVolHandle) (d : Disk) (cs : List Nat) (log : List UInt8) : Prop where
  cluster : ∀ c ∈ cs, v.IsCluster c
  link : ∀ i, i + 1 < cs.length → fatEntry v d 0 (cs.getD i 0) = cs.getD (i + 1) 0
  fits : log.length ≤ cs.length * v.clusterBytes
  data : ∀ q < log.length, chainByte v d cs q = log.getD q 0

/-- The handle stands at position `p` of the bytes `log`. At their end the cluster it has is no matter. -/
structure ReadsAt (v : FatVolHandle) (cs : List Nat) (log : List UInt8) (p : Nat) (h : FatFileHandle) :
    Prop where
  fat : h.fat = true
  root : h.rootFlag = false
  size : h.size = log.length
  first : h.firstCluster = cs.getD 0 0
  position : h.position = p
  inside : p ≤ log.length
  cluster : p < log.length → h.curCluster = cs.getD (p / v.clusterBytes) 0

/-- The handle `r` reads a file of the volume. -/
structure Reading (s : FatState) (r : HandleRef) (cs : List Nat) (log : List UInt8) (p : Nat) : Prop where
  mounted : s.Mounted
  quiet : s.Quiet
  layout : s.vol.Layout
  coherent : s.Coherent
  content : Content s.vol s.disk cs log
  reads : ReadsAt s.vol cs log p (s.handle r)
  nonempty : log ≠ []
  small : log.length < 2 ^ 31

/-- A call that did nothing but move the handle `r`. -/
structure OnlyMoved (r : HandleRef) (s t : FatState) : Prop extends Ran (fun _ => True) s t where
  disk : t.disk = s.disk
  vol : t.vol = s.vol
  others : ∀ r', r' ≠ r → t.handle r' = s.handle r'

variable {s t u : FatState} {v : FatVolHandle} {d : Disk} {r : HandleRef} {h : FatFileHandle} {cs : List Nat}
    {log : List UInt8}
  {p : Nat}

theorem OnlyMoved.trans (h1 : OnlyMoved r s t) (h2 : OnlyMoved r t u) : OnlyMoved r s u where
  toRan := h1.toRan.trans h2.toRan
  disk := h2.disk.trans h1.disk
  vol := h2.vol.trans h1.vol
  others := fun r' hr => (h2.others r' hr).trans (h1.others r' hr)

theorem OnlyMoved.refl (hs : s.Mounted) : OnlyMoved r s s := ⟨.refl hs, rfl, rfl, fun _ _ => rfl⟩

theorem Moved.onlyMoved (hm : Moved (fun _ => True) r h s t) : OnlyMoved r s t :=
  ⟨hm.toRan, hm.disk, hm.vol, fun _ hr => hm.other hr⟩

theorem Reading.moved (hr : Reading s r cs log p) (hm : Moved (fun _ => True) r h s t) (hco : t.Coherent)
    (hh : ReadsAt s.vol cs log q h) : Reading t r cs log q where
  mounted := hm.mounted
  quiet := hm.quiet hr.quiet
  layout := hm.vol ▸ hr.layout
  coherent := hco
  content := by
    rw [hm.vol, hm.disk]
    exact hr.content
  reads := by
    rw [hm.vol, hm.self]
    exact hh
  nonempty := hr.nonempty
  small := hr.small

-- ---------------------------------------------------------------------------
-- The bytes
-- ---------------------------------------------------------------------------

theorem Content.index (hc : Content v d cs log) (hv : v.Shape) (hp : p < log.length) :
    p / v.clusterBytes < cs.length :=
  div_lt_of_lt hv (Nat.lt_of_lt_of_le hp hc.fits)

theorem Content.chunk (hc : Content v d cs log) (hk : p % 512 + k ≤ 512) (hlen : p + k ≤ log.length) :
    bytesAt (d (chainSector v cs p)) (p % 512) k = (log.drop p).take k := by
  refine List.ext_getElem (by simp [bytesAt_length]; omega) fun j hj hj' => ?_
  rw [bytesAt_length] at hj
  have hdiv : (p + j) / 512 = p / 512 := by omega
  have hsector : chainSector v cs (p + j) = chainSector v cs p := by
    rw [chainSector, chainSector, div_clusterBytes, div_clusterBytes, hdiv]
  have hbyte := hc.data (p + j) (by omega)
  rw [chainByte, hsector, List.getD_eq_getElem _ _ (by omega)] at hbyte
  have hoff : (p + j) % 512 = p % 512 + j := by omega
  simp only [bytesAt, List.getElem_map, List.getElem_range, List.getElem_take, List.getElem_drop]
  rw [← hbyte, hoff]

theorem ReadsAt.sectorOffset (hh : ReadsAt v cs log p h) (hv : v.Shape) (hc : Content v d cs log)
    (hp : p < log.length) :
    fatFileSectorOffset v h = (chainSector v cs p, p % 512) := by
  have hcl := hc.cluster _ (getD_mem (hc.index hv hp))
  have hlt := inCluster_lt hv hcl (chainSector_inCluster hv cs p)
  simp only [fatFileSectorOffset, hh.root, Bool.false_eq_true, if_false, hh.position, hh.cluster hp,
    fatFirstSectorOfCluster_eq hv hcl, hv.bytes]
  exact congrArg (·, _) (Nat.mod_eq_of_lt hlt)

-- ---------------------------------------------------------------------------
-- One round of fat_read
-- ---------------------------------------------------------------------------

theorem readAdvance_content (hr : Reading s r cs log p) (hp : p < log.length) (hk : 0 < k)
    (hk' : p % 512 + k ≤ 512) (hlen : p + k ≤ log.length) (ht : OnlyMoved r s t) (hco : t.Coherent)
    (hh : t.handle r = { s.handle r with position := p + k }) :
    ∃ o u, readAdvance r s.vol (chainSector s.vol cs p) t = .ok o u ∧ OnlyMoved r s u ∧
      Reading u r cs log (p + k) ∧
      (o = none → p + k < log.length → p % 512 + k < 512) ∧
      ∀ sector, o = some sector → p + k < log.length → sector = chainSector s.vol cs (p + k) ∧
        (p + k) % 512 = 0 := by
  have hv := hr.layout.toShape
  have hc := hr.content
  have hidx := hc.index hv hp
  have hcl := hc.cluster _ (getD_mem hidx)
  have hbase := hr.reads
  have reading : ∀ u, OnlyMoved r s u → u.Coherent → ReadsAt s.vol cs log (p + k) (u.handle r) →
    Reading u r cs log (p + k) :=
    fun u hm hco hh =>
      ⟨hm.mounted, hm.quiet hr.quiet, hm.vol ▸ hr.layout, hco, by rw [hm.vol, hm.disk]; exact hc,
      by rw [hm.vol]; exact hh, hr.nonempty, hr.small⟩
  have stay : (p + k < log.length → (p + k) / s.vol.clusterBytes = p / s.vol.clusterBytes) →
      Reading t r cs log (p + k) := fun hsame => by
    refine reading t ht hco ?_
    rw [hh]
    refine ⟨hbase.fat, hbase.root, hbase.size, hbase.first, rfl, hlen, fun hlt => ?_⟩
    rw [hsame hlt]
    exact hbase.cluster hp
  rw [readAdvance, getHandle_bind, hh, hv.bytes]
  dsimp only
  by_cases hsec : (p + k) % 512 = 0
  · have hnext : (p + k) / 512 = p / 512 + 1 := by omega
    have hbound := chainSector_boundary cs hv hnext (hr.layout.tests (p + k))
    rw [if_neg (not_not_intro hsec), hbase.root, if_neg (by decide), u32_mod_spc hv]
    by_cases hb : (chainSector s.vol cs p + 1) % s.vol.sectorsPerCluster = 0
    · obtain ⟨w, hrun, hkept, hco'⟩ := fatGetNextCluster_run (P := fun _ => True)
        (c := cs.getD (p / s.vol.clusterBytes) 0)
        ht.mounted (ht.quiet hr.quiet) (ht.vol ▸ hv) (ht.vol ▸ hcl.2) trivial (hco _)
      rw [ht.vol, ht.disk] at hrun
      have hm := hkept.moved r { s.handle r with
        position := p + k, curCluster := fatEntry s.vol s.disk 0 (cs.getD (p / s.vol.clusterBytes) 0) }
      have hmore : p + k < log.length → (p + k) / s.vol.clusterBytes < cs.length ∧
          fatEntry s.vol s.disk 0 (cs.getD (p / s.vol.clusterBytes) 0) =
            cs.getD ((p + k) / s.vol.clusterBytes) 0 :=
              fun hlt => by
        have hin := hc.index hv hlt
        rw [hbound.mp hb] at hin ⊢
        exact ⟨hin, hc.link _ hin⟩
      have hread := reading _ (ht.trans hm.onlyMoved) (fun n => (hco' n).withHandle) (by
        rw [hm.self]
        exact ⟨hbase.fat, hbase.root, hbase.size, hbase.first, rfl, hlen, fun hlt => (hmore hlt).2⟩)
      rw [if_pos hb, hbase.cluster hp, bind_ok hrun, modifyHandle_bind, hkept.handle, hh]
      split
      next heoc =>
        refine ⟨none, _, rfl, ht.trans hm.onlyMoved, hread, fun _ hlt => ?_, fun _ h => absurd h (by simp)⟩
        obtain ⟨hin, he⟩ := hmore hlt
        have := hasEntry_lt_eoc hv (hc.cluster _ (getD_mem hin)).2
        omega
      next =>
        refine ⟨some _, _, rfl, ht.trans hm.onlyMoved, hread, fun h => absurd h (by simp), fun sector h hlt =>
            ⟨?_, hsec⟩⟩
        obtain ⟨hin, he⟩ := hmore hlt
        rw [← Option.some.inj h, he]
        exact chainSector_start cs hv hnext (hbound.mp hb) (hc.cluster _ (getD_mem hin))
    · have hsame : (p + k) / s.vol.clusterBytes = p / s.vol.clusterBytes := by
        have hne : ¬ (p + k) / s.vol.clusterBytes = p / s.vol.clusterBytes + 1 := fun h => hb (hbound.mpr h)
        rw [div_clusterBytes, div_clusterBytes, hnext, Nat.succ_div] at hne ⊢
        split at hne
        · exact absurd rfl hne
        next hdvd => rw [if_neg hdvd]; rfl
      rw [if_neg hb]
      refine ⟨some _, t, rfl, ht, stay fun _ => hsame, fun h => absurd h (by simp),
        fun sector h hlt => ⟨?_, hsec⟩⟩
      have hlt32 :=
        inCluster_lt hv (hc.cluster _ (getD_mem (hc.index hv hlt))) (chainSector_inCluster hv cs (p + k))
      rw [← Option.some.inj h, chainSector_succ cs hv hnext hsame, u32, Nat.mod_eq_of_lt]
      rw [← chainSector_succ cs hv hnext hsame]
      exact hlt32
  · rw [if_pos hsec]
    refine ⟨none, t, rfl, ht, stay fun _ => ?_, fun _ _ => by omega, fun _ h => absurd h (by simp)⟩
    have hsame : (p + k) / 512 = p / 512 := by omega
    rw [div_clusterBytes, div_clusterBytes, hsame]

-- ---------------------------------------------------------------------------
-- fat_read
-- ---------------------------------------------------------------------------

theorem readLoop_done (fuel sector off : Nat) {acc : List UInt8} (h : size ≤ acc.length) :
    readLoop r size fuel sector off acc s = .ok acc s := by
  cases fuel with
  | _ =>
    rw [readLoop, if_pos h]
    rfl

theorem readLoop_content (fuel m : Nat) (acc : List UInt8) (hr : Reading s r cs log p)
    (hm : p + m ≤ log.length) (hfuel : m ≤ fuel)
    (hsec : 0 < m → sector = chainSector s.vol cs p ∧ off = p % 512) :
    ∃ t, readLoop r (acc.length + m) fuel sector off acc s = .ok (acc ++ (log.drop p).take m) t ∧
      OnlyMoved r s t ∧
      Reading t r cs log (p + m) := by
  induction fuel generalizing s m acc p sector off with
  | zero =>
    obtain rfl := Nat.le_zero.mp hfuel
    rw [List.take_zero, List.append_nil]
    exact ⟨s, readLoop_done 0 sector off (Nat.le_refl _), .refl hr.mounted, hr⟩
  | succ fuel ih =>
    rcases Nat.eq_zero_or_pos m with rfl | hpos
    · rw [List.take_zero, List.append_nil]
      exact ⟨s, readLoop_done (fuel + 1) sector off (Nat.le_refl _), .refl hr.mounted, hr⟩
    obtain ⟨rfl, rfl⟩ := hsec hpos
    have hv := hr.layout.toShape
    have hp : p < log.length := by omega
    have hcl := hr.content.cluster _ (getD_mem (hr.content.index hv hp))
    obtain ⟨t, hget, hkept, hl⟩ := get_run (P := fun _ => True) hr.mounted hr.quiet trivial
      (inCluster_lt hv hcl (chainSector_inCluster hv cs p)) (hr.coherent _)
    obtain ⟨k, hk⟩ : ∃ k, k = min (512 - p % 512) m := ⟨_, rfl⟩
    have hchunk : u16 (min (512 - p % 512) (acc.length + m - acc.length)) = k := by
      rw [Nat.add_sub_cancel_left, ← hk, u16]
      omega
    have hbytes : bytesAt t.buf (p % 512) k = (log.drop p).take k := by
      rw [hl.buf, hkept.disk]
      exact hr.content.chunk (by omega) (by omega)
    have hsmall := hr.small
    have hposition : u32 (p + k) = p + k := Nat.mod_eq_of_lt (by omega)
    have hmv := hkept.moved r { s.handle r with position := p + k }
    obtain ⟨o, u, hadv, hmu, hru, hnone, hsome⟩ := readAdvance_content
      (t := t.withHandle r { s.handle r with position := p + k })
      hr hp (by omega : 0 < k) (by omega) (by omega) hmv.onlyMoved hl.withHandle.coherent withHandle_handle
    have hrun : readLoop r (acc.length + m) (fuel + 1) (chainSector s.vol cs p) (p % 512) acc s =
        o.elim (pure (acc ++ (log.drop p).take k))
          (fun sector => readLoop r (acc.length + m) fuel sector 0 (acc ++ (log.drop p).take k)) u := by
      rw [readLoop, if_neg (by omega), getHandle_bind, fatOf_bind hr.reads.fat, hv.bytes, hchunk, bind_ok hget,
        get_bind,
        hbytes, modifyHandle_bind, hkept.handle, hr.reads.position, hposition, bind_ok hadv]
      cases o <;> rfl
    have hlen : (acc ++ (log.drop p).take k).length = acc.length + k := by
      rw [List.length_append, List.length_take, List.length_drop]
      omega
    have hall : acc ++ (log.drop p).take m = acc ++ (log.drop p).take k ++ (log.drop (p + k)).take (m - k) := by
      rw [List.append_assoc, ← List.drop_drop, ← List.take_add, Nat.add_sub_cancel' (by omega)]
    rw [hrun, hall]
    cases o with
    | none =>
      -- the chunk was the last one, in its sector or at the end of the file
      have hdone : m - k = 0 := by
        by_cases hlt : p + k < log.length
        · have := hnone rfl hlt
          omega
        · omega
      rw [hdone, List.take_zero, List.append_nil, show m = k by omega]
      exact ⟨u, rfl, hmu, hru⟩
    | some sector =>
      have hnext : 0 < m - k → sector = chainSector u.vol cs (p + k) ∧ 0 = (p + k) % 512 := by
        intro hpos
        obtain ⟨h1, h2⟩ := hsome sector rfl (by omega)
        exact ⟨hmu.vol ▸ h1, h2.symm⟩
      obtain ⟨t', hrun', hmt, hrt⟩ := ih (m - k) (acc ++ (log.drop p).take k) hru (by omega) (by omega) hnext
      rw [hlen, Nat.add_assoc, Nat.add_sub_cancel' (by omega)] at hrun'
      rw [Nat.add_assoc, Nat.add_sub_cancel' (by omega)] at hrt
      exact ⟨t', hrun', hmu.trans hmt, hrt⟩

theorem fatRead_content (hr : Reading s r cs log p) (hn : n < 2 ^ 31) :
    ∃ t, fatRead r n s = .ok (some ((log.drop p).take n)) t ∧ OnlyMoved r s t ∧
        Reading t r cs log (min (p + n) log.length) := by
  have hsmall := hr.small
  have hin := hr.reads.inside
  have hlen : log.length ≠ 0 := fun h => hr.nonempty (List.length_eq_zero_iff.mp h)
  obtain ⟨m, hm⟩ : ∃ m, m = min n (log.length - p) := ⟨_, rfl⟩
  have hsize :
      (if log.length ≠ 0 ∧ u32 (p + n) > log.length then (i32 (sub32 log.length p)).toNat else n) = m := by
    rw [u32, Nat.mod_eq_of_lt (by omega)]
    split
    next h =>
      have hcast : ((log.length + (2 ^ 32 - p)) % 2 ^ 32 : Nat) = log.length - p := by omega
      rw [sub32, u32, u32, Nat.mod_eq_of_lt (by omega : p < 2 ^ 32), hcast, i32, Int.bmod]
      omega
    next h => omega
  have hsec : 0 < m → (fatFileSectorOffset s.vol (s.handle r)).1 = chainSector s.vol cs p ∧
      (fatFileSectorOffset s.vol (s.handle r)).2 = p % 512 := by
    intro hpos
    rw [hr.reads.sectorOffset hr.layout.toShape hr.content (by omega)]
    exact ⟨rfl, rfl⟩
  obtain ⟨t, hrun, hmv, hrt⟩ := readLoop_content m m [] hr (by omega) (Nat.le_refl m) hsec
  have htake : (log.drop p).take m = (log.drop p).take n := by
    rw [hm, ← List.length_drop, ← List.take_eq_take_min]
  rw [List.length_nil, Nat.zero_add, List.nil_append, htake] at hrun
  refine ⟨t, returning_ok ?_, hmv, ?_⟩
  · rw [getHandle_bind, fatOf_bind hr.reads.fat]
    simp only [hr.reads.position, hr.reads.size, hsize]
    exact map_ok hrun
  · rw [show min (p + n) log.length = p + m by omega]
    exact hrt

-- ---------------------------------------------------------------------------
-- fat_lseek
-- ---------------------------------------------------------------------------

theorem Content.iterate (hc : Content v d cs log) (hv : v.Shape) (hk : k < cs.length) :
    (fatNext v d)^[k] (cs.getD 0 0) = cs.getD k 0 := by
  induction k with
  | zero => rfl
  | succ k ih =>
    rw [Function.iterate_succ_apply', ih (Nat.lt_of_succ_lt hk),
      fatNext_eq hv (hc.cluster _ (getD_mem (Nat.lt_of_succ_lt hk))).2,
      hc.link k hk]

/-- An offset an `off_t` can have. -/
def IsOffset (offset : Int) : Prop := -2 ^ 31 ≤ offset ∧ offset < 2 ^ 31

def whenceOf : Cursor.Origin → Whence
  | .start => .set
  | .here => .cur
  | .theEnd => .fromEnd

theorem i32_of_lt {x : Int} (hlo : -2 ^ 31 ≤ x) (hhi : x < 2 ^ 31) : i32 x = x := by
  rw [i32, Int.bmod]
  omega

theorem u32OfInt_i32 (x : Int) : u32OfInt (i32 x) = u32OfInt x := by
  have hmod : Int.bmod x (2 ^ 32) % 2 ^ 32 = x % 2 ^ 32 := Int.bmod_emod (m := 2 ^ 32)
  rw [u32OfInt, i32, hmod, u32OfInt]

/-- The comparison with the size, made on a `uint32_t`, takes a place before the start for
one behind the end. -/
theorem clip_eq {o : Int} (hlo : -2 ^ 31 ≤ o) (hhi : o < 2 ^ 32) (hlen : 0 < len) (hsmall : len < 2 ^ 31) :
    (if len ≠ 0 ∧ u32OfInt (i32 o) > len then i32 len else i32 o) = (Cursor.clip len o : Nat) := by
  rw [u32OfInt_i32, Cursor.clip]
  by_cases hin : 0 ≤ o ∧ o ≤ len
  · have hle : ¬ u32OfInt o > len := by
      rw [u32OfInt]
      omega
    rw [if_neg fun h => hle h.2, if_pos hin, i32_of_lt (by omega) (by omega)]
    omega
  · have hgt : u32OfInt o > len := by
      rw [u32OfInt]
      omega
    rw [if_pos ⟨by omega, hgt⟩, if_neg hin, i32_of_lt (by omega) (by omega)]

theorem target_eq (offset : Int) (origin : Cursor.Origin) (hh : ReadsAt v cs log p h) (ho : IsOffset offset) :
    (whenceOf origin).target h offset = i32 (Cursor.target log.length p offset origin) := by
  cases origin with
  | start => exact (i32_of_lt ho.1 ho.2).symm
  | here => rw [whenceOf, Whence.target, Cursor.target, hh.position, Int.add_comm]
  | theEnd => rw [whenceOf, Whence.target, Cursor.target, hh.size, Int.add_comm]

theorem fatLseek_eq_clip (offset : Int) (origin : Cursor.Origin) (hr : Reading s r cs log p)
    (ho : IsOffset offset) (hq : q = Cursor.clip log.length (Cursor.target log.length p offset origin)) :
    fatLseek r offset (whenceOf origin) s = (lseekWalk r q q >>= fun _ => pure q)
      (s.withHandle r { s.handle r with curCluster := (s.handle r).firstCluster, position := q }) := by
  have hsmall := hr.small
  have hin := hr.reads.inside
  have hlen : 0 < log.length := List.length_pos_of_ne_nil hr.nonempty
  have htarget := target_eq offset origin hr.reads ho
  have hlo : -2 ^ 31 ≤ Cursor.target log.length p offset origin := by
    cases origin <;> simp only [Cursor.target, IsOffset] at ho ⊢ <;> omega
  have hhi : Cursor.target log.length p offset origin < 2 ^ 32 := by
    cases origin <;> simp only [Cursor.target, IsOffset] at ho ⊢ <;> omega
  have hclip := clip_eq hlo hhi hlen hsmall
  rw [← htarget, ← hq] at hclip
  have hword : u32OfInt (q : Int) = q := by
    have := Cursor.clip_le log.length (Cursor.target log.length p offset origin)
    rw [u32OfInt]
    omega
  rw [← hr.reads.size] at hclip
  have hroot : ¬ (s.handle r).rootFlag = true := by simp [hr.reads.root]
  clear htarget
  generalize whenceOf origin = whence at hclip ⊢
  rw [fatLseek, getHandle_bind]
  by_cases hout : (s.handle r).size ≠ 0 ∧ u32OfInt (whence.target (s.handle r) offset) > (s.handle r).size
  · rw [if_pos hout] at hclip
    cases whence with
    | _ =>
      simp only [Whence.target] at hout hclip ⊢
      rw [if_pos hout, hclip, setHandle_bind, if_neg hroot, Int.toNat_natCast, hword]
  · rw [if_neg hout] at hclip
    cases whence with
    | _ =>
      simp only [Whence.target] at hout hclip ⊢
      rw [if_neg hout, hclip, setHandle_bind, if_neg hroot, Int.toNat_natCast, hword]

theorem fatLseek_content (offset : Int) (origin : Cursor.Origin) (hr : Reading s r cs log p)
    (ho : IsOffset offset) :
    ∃ t, fatLseek r offset (whenceOf origin) s =
        .ok (Cursor.clip log.length (Cursor.target log.length p offset origin)) t ∧ OnlyMoved r s t ∧
      Reading t r cs log (Cursor.clip log.length (Cursor.target log.length p offset origin)) := by
  have hle := Cursor.clip_le log.length (Cursor.target log.length p offset origin)
  have hseek := fatLseek_eq_clip offset origin hr ho rfl
  generalize Cursor.clip log.length (Cursor.target log.length p offset origin) = q at hle hseek ⊢
  have hv := hr.layout.toShape
  have hm0 := (Kept.refl (P := fun _ => True) hr.mounted).moved r
    { s.handle r with curCluster := (s.handle r).firstCluster, position := q }
  obtain ⟨t, hrun, hm, hco⟩ := lseekWalk_iterate (P := fun _ => True) (r := r)
    (s := s.withHandle r { s.handle r with curCluster := (s.handle r).firstCluster, position := q }) q
    q hm0.mounted
    (hm0.quiet hr.quiet) hv (fun n => (hr.coherent n).withHandle)
    (by rw [withHandle_handle]; exact hr.reads.fat)
    (Nat.le_of_eq (Int.toNat_natCast q)) trivial
  rw [withHandle_handle, withHandle_vol, withHandle_disk, Int.toNat_natCast] at hm
  have hall := hm0.trans hm
  refine ⟨t, hseek.trans (bind_ok hrun), hall.onlyMoved, hr.moved hall hco ?_⟩
  have hbase := hr.reads
  refine ⟨hbase.fat, hbase.root, hbase.size, hbase.first, rfl, hle, fun hlt => ?_⟩
  dsimp only
  rw [hbase.first]
  exact hr.content.iterate hv (hr.content.index hv hlt)

-- ---------------------------------------------------------------------------
-- Runs of calls
-- ---------------------------------------------------------------------------

/-- The operations of a cursor, as calls on a handle. -/
def runOp (r : HandleRef) : Cursor.Op → FatM (Cursor.Answer UInt8)
  | .read n => do
    match ← fatRead r n with
    | some bs => pure (.items bs)
    | none => throw .eio
  | .seek offset origin => do pure (.position (← fatLseek r offset (whenceOf origin)))

def runOps (r : HandleRef) : List Cursor.Op → FatM (List (Cursor.Answer UInt8))
  | [] => pure []
  | op :: ops => do
    let a ← runOp r op
    let rest ← runOps r ops
    pure (a :: rest)

/-- The arguments are what an `int` and an `off_t` can be. -/
def InRange : Cursor.Op → Prop
  | .read n => n < 2 ^ 31
  | .seek offset _ => IsOffset offset

theorem runOp_content (hr : Reading s r cs log p) (hop : InRange op) :
    ∃ t, runOp r op s = .ok (op.answer log p) t ∧ OnlyMoved r s t ∧
      Reading t r cs log (op.move log.length p) := by
  cases op with
  | read n =>
    obtain ⟨t, hrun, hm, hrt⟩ := fatRead_content hr hop
    exact ⟨t, by rw [runOp, bind_ok hrun]; rfl, hm, hrt⟩
  | seek offset origin =>
    obtain ⟨t, hrun, hm, hrt⟩ := fatLseek_content offset origin hr hop
    exact ⟨t, by rw [runOp, bind_ok hrun]; rfl, hm, hrt⟩

theorem runOps_content (ops : List Cursor.Op) (hr : Reading s r cs log p) (hops : ∀ op ∈ ops, InRange op) :
    ∃ t q, runOps r ops s = .ok (Cursor.answers log p ops) t ∧ OnlyMoved r s t ∧ Reading t r cs log q := by
  induction ops generalizing s p with
  | nil => exact ⟨s, p, rfl, .refl hr.mounted, hr⟩
  | cons op ops ih =>
    obtain ⟨t, hrun, hm, hrt⟩ := runOp_content hr (hops op List.mem_cons_self)
    obtain ⟨u, q, hrest, hmu, hru⟩ := ih hrt fun op' h => hops op' (List.mem_cons_of_mem op h)
    refine ⟨u, q, ?_, hm.trans hmu, hru⟩
    rw [runOps, bind_ok hrun, bind_ok hrest]
    rfl

-- ---------------------------------------------------------------------------
-- A file opened by its name
-- ---------------------------------------------------------------------------

theorem chainFrom_inv (h : chainFrom v d n c = some cs) :
    cs.length = n ∧ (∀ c ∈ cs, v.IsCluster c) ∧ (∀ i, i + 1 < cs.length →
      fatEntry v d 0 (cs.getD i 0) = cs.getD (i + 1) 0) ∧
      (0 < n → cs.getD 0 0 = c) := by
  induction n generalizing c cs with
  | zero =>
    obtain rfl := Option.some.inj h
    exact ⟨rfl, fun _ h => absurd h List.not_mem_nil, fun i hi => absurd hi (Nat.not_lt_zero _), fun h =>
        absurd h (Nat.lt_irrefl 0)⟩
  | succ n ih =>
    rw [chainFrom] at h
    split at h
    next hc =>
      obtain ⟨cs', hrest, rfl⟩ := Option.map_eq_some_iff.mp h
      obtain ⟨hlen, hcl, hlink, hfirst⟩ := ih hrest
      refine ⟨by rw [List.length_cons, hlen], fun a ha => ?_, fun i hi => ?_, fun _ => rfl⟩
      · rcases List.mem_cons.mp ha with rfl | ha
        · exact hc
        · exact hcl a ha
      · rw [List.length_cons] at hi
        cases i with
        | zero => exact (hfirst (by omega)).symm
        | succ i => exact hlink i (by omega)
    next => exact absurd h (by simp)

theorem readFile_content (hv : v.Shape) (h : readFile v d e = some log) :
    slotSize d e = log.length ∧ ∃ cs, Content v d cs log ∧ (log ≠ [] → slotCluster d e = cs.getD 0 0) := by
  obtain ⟨cs, hchain, hbytes⟩ := Option.map_eq_some_iff.mp h
  obtain ⟨hlen, hcl, hlink, hfirst⟩ := chainFrom_inv hchain
  have hpos := clusterBytes_pos hv
  have hsize : slotSize d e = log.length := by rw [← hbytes, List.length_map, List.length_range]
  have hceil : slotSize d e ≤ (slotSize d e + v.clusterBytes - 1) / v.clusterBytes * v.clusterBytes := by
    have h1 := Nat.div_add_mod (slotSize d e + v.clusterBytes - 1) v.clusterBytes
    have h2 := Nat.mod_lt (slotSize d e + v.clusterBytes - 1) hpos
    rw [Nat.mul_comm] at h1
    omega
  refine ⟨hsize, cs, ⟨hcl, hlink, ?_, fun q hq => ?_⟩, fun hne => ?_⟩
  · rw [hlen, ← hsize]
    exact hceil
  · subst hbytes
    rw [List.length_map, List.length_range] at hq
    rw [List.getD_eq_getElem _ _ (by rwa [List.length_map, List.length_range]), List.getElem_map,
      List.getElem_range]
  · refine (hfirst ?_).symm
    have hlog := List.length_pos_of_ne_nil hne
    by_contra h0
    rw [Nat.eq_zero_of_not_pos h0] at hceil
    omega

/-- The entry in slot `j` of the directory is a file's. -/
def IsFile (es : List Sector) (j : Nat) : Prop := ∃ e, es[j]? = some e ∧ (e 11).toNat / attrDirectory % 2 = 0

theorem slotSize_entry (d : Disk) (e : Slot) : slotSize d e = le32 (entryAt d e) 28 := by
  simp only [slotSize, le32, le16, entryAt_apply]
  rfl

theorem slotCluster_entry (d : Disk) (e : Slot) : slotCluster d e = 65536 * le16 (entryAt d e) 20 + le16
    (entryAt d e) 26 := by
  simp only [slotCluster, le16, entryAt_apply]
  rfl

theorem fatOpen_reading (flags : Nat) (h : Shown s dir es) (hname : name ≠ [46]) (hin : ScanInside name es {})
    (hfound : lookup name es 0 {} = some j) (hfile : IsFile es j)
    (hread : readFile s.vol s.disk (dir.slot s.vol j) = some log) (hne : log ≠ [])
    (hsmall : log.length < 2 ^ 31) :
    ∃ t cs, fatOpen name flags dst s = .ok 0 t ∧ t.disk = s.disk ∧ Reading t dst cs log 0 := by
  obtain ⟨a, m, t, hrun, hw, hans⟩ := fatOpen_run (P := fun _ => True) name flags dst hname h trivial hin
    fun hnone => by
    rw [hfound] at hnone
    exact nomatch hnone
  rw [hfound] at hans
  obtain ⟨rfl, e, he, rfl⟩ := hans
  obtain ⟨e', he', hattr⟩ := hfile
  obtain rfl := Option.some.inj (he.symm.trans he')
  obtain ⟨hsize, cs, hc, hfirst⟩ := readFile_content h.layout.toShape hread
  have hentry : entryAt s.disk (dir.slot s.vol j) = e := h.shows.entry j e he
  rw [slotSize_entry, hentry] at hsize
  rw [slotCluster_entry, hentry] at hfirst
  have hran := hw.toRan.withHandle (r := dst) (h := openedHandle s.vol e (dir.slot s.vol j) flags)
  refine ⟨_, cs, hrun, hw.disk, hran.mounted, hran.quiet h.quiet, hw.vol ▸ h.layout, fun n =>
    (hw.coherent n).withHandle, ?_, ?_, hne,
    hsmall⟩
  · rw [withHandle_vol, withHandle_disk, hw.vol, hw.disk]
    exact hc
  · rw [withHandle_handle, withHandle_vol, openedHandle, if_pos hattr]
    refine ⟨rfl, rfl, hsize, hfirst hne, rfl, Nat.zero_le _, fun _ => ?_⟩
    rw [Nat.zero_div]
    exact hfirst hne

end Stm32Logger
