import Stm32Logger.Fat.NewDir

/-!
# Calls on a card without faults

While no access to the card fails, no call returns `-EIO`, whatever the volume
and the handles are.
-/

namespace Stm32Logger

/-- No access still to come fails. -/
structure FatState.Faultless (s : FatState) : Prop where
  reads : ∀ b ∈ s.card.readFaults, b = false
  writes : ∀ b ∈ s.card.writeFaults, b = false

/-- On such a card the call returns a value in `Q`, if it returns, and not over `-EIO`. -/
abbrev Calm (m : FatM α) (Q : α → Prop) : Prop := Keeps FatState.Faultless (· ≠ .eio) m Q

theorem FatState.Mounted.faultless {s : FatState} (hs : s.Mounted) (hq : s.Quiet) : s.Faultless :=
  ⟨hs.reads, hq⟩

theorem headD_false {bs : List Bool} (h : ∀ b ∈ bs, b = false) : bs.headD false = false := by
  cases bs with
  | nil => rfl
  | cons b bs => exact h b List.mem_cons_self

-- ---------------------------------------------------------------------------
-- The card and the cache
-- ---------------------------------------------------------------------------

section
variable {α : Type} {m : FatM α} {Q : α → Prop}

theorem Calm.returning (h : Calm m Q) (v : α) : Calm (returning v m) Q := by
  intro s hs
  cases hrun : m s with
  | ok a t =>
    rw [returning_ok hrun]
    exact h.ok hs hrun
  | error e t =>
    have he := h.error hs hrun
    simp only [Stm32Logger.returning, tryCatch, tryCatchThe, MonadExceptOf.tryCatch, EStateM.tryCatch, hrun]
    cases e with
    | eio => exact absurd rfl he
    | nullPointer => exact he
    | outOfBounds => exact he
    | noReturn => exact he

end

theorem mbrReadSectors_calm (dev : BlockDev) (n : Nat) : Calm (mbrReadSectors dev n) fun b => b ≠ none := by
  intro s hs
  rw [mbrReadSectors, get_bind]
  split
  next h =>
    split at h
    · cases h
    · rw [sdDrvReadSector, get_bind, set_bind, headD_false hs.reads] at h
      cases h
      exact ⟨⟨fun b hb => hs.reads b (List.mem_of_mem_tail hb), hs.writes⟩, by simp⟩
  next h =>
    split at h
    · cases h
      decide
    · rw [sdDrvReadSector, get_bind, set_bind] at h
      cases h

theorem mbrWriteSectors_calm (dev : BlockDev) (n : Nat) (b : Sector) :
    Calm (mbrWriteSectors dev n b) fun ok => ok = true := by
  intro s hs
  rw [mbrWriteSectors, get_bind]
  split
  next h =>
    split at h
    · cases h
    · rw [sdDrvWriteSector, get_bind, headD_false hs.writes] at h
      cases h
      exact ⟨⟨hs.reads, fun b hb => hs.writes b (List.mem_of_mem_tail hb)⟩, rfl⟩
  next h =>
    split at h
    · cases h
      decide
    · rw [sdDrvWriteSector, get_bind, headD_false hs.writes] at h
      cases h

theorem flushSector_calm : Calm flushSector fun _ => True := by
  refine Keeps.get.bind fun s hs => ?_
  have hclean : Calm (modify fun s => { s with cache := { s.cache with dirty := false } }) fun _ => True :=
    Keeps.modify fun s hs => ⟨hs.reads, hs.writes⟩
  split
  · refine (mbrWriteSectors_calm _ _ _).bind fun ok hok => ?_
    rw [hok]
    exact hclean
  · exact hclean

theorem getSector_calm (n : Nat) : Calm (getSector n) fun _ => True := by
  refine Keeps.get.bind fun s hs => ?_
  split
  · exact Keeps.pure trivial
  · refine flushSector_calm.bind fun _ _ => ?_
    refine (Keeps.modify fun s hs => ⟨hs.reads, hs.writes⟩).bind fun _ _ => ?_
    refine (mbrReadSectors_calm _ _).bind fun b hb => ?_
    cases b with
    | none => exact absurd rfl hb
    | some b => exact Keeps.modify fun s hs => ⟨hs.reads, hs.writes⟩

theorem putSector_calm (n : Nat) : Calm (putSector n) fun _ => True := by
  refine Keeps.get.bind fun s hs => ?_
  have hput : Calm (modify fun t => { t with cache := { bldev := s.vol.dev, sector := n, dirty := true } })
      fun _ => True := Keeps.modify fun s hs => ⟨hs.reads, hs.writes⟩
  split
  · exact flushSector_calm.bind fun _ _ => hput
  · exact hput

-- ---------------------------------------------------------------------------
-- The table
-- ---------------------------------------------------------------------------

theorem getVol_calm : Calm getVol fun _ => True := Keeps.get.bind fun _ _ => Keeps.pure trivial

theorem getHandle_calm (r : HandleRef) : Calm (getHandle r) fun _ => True :=
  Keeps.get.bind fun _ _ => Keeps.pure trivial

theorem modifyHandle_calm (r : HandleRef) (f : FatFileHandle → FatFileHandle) :
    Calm (modifyHandle r f) fun _ => True :=
  Keeps.modify fun _ hs => ⟨hs.reads, hs.writes⟩

theorem modifyBuf_calm (f : Sector → Sector) : Calm (modifyBuf f) fun _ => True :=
  Keeps.modify fun _ hs => ⟨hs.reads, hs.writes⟩

theorem fatOf_calm (h : FatFileHandle) : Calm (fatOf h) fun _ => True := by
  rw [fatOf]
  split
  · exact getVol_calm
  · exact Keeps.throw (by decide)

theorem fatGetNextCluster_calm (c : Nat) : Calm (fatGetNextCluster c) fun _ => True := by
  refine Calm.returning (getVol_calm.bind fun v _ => ?_) _
  refine (getSector_calm _).bind fun _ _ => Keeps.get.bind fun s _ => ?_
  cases v.type with
  | fat12 =>
    dsimp only
    split
    · exact (getSector_calm _).bind fun _ _ => Keeps.get.bind fun _ _ => Keeps.pure trivial
    · exact Keeps.pure trivial
  | _ => exact Keeps.pure trivial

theorem findFreeFrom_calm (n i : Nat) : Calm (findFreeFrom n i) fun _ => True := by
  induction n generalizing i with
  | zero => exact Keeps.pure trivial
  | succ n ih =>
    refine (fatGetNextCluster_calm i).bind fun next _ => ?_
    split
    · exact (Keeps.modify fun _ hs => ⟨hs.reads, hs.writes⟩).bind fun _ _ => Keeps.pure trivial
    · exact ih (i + 1)

theorem fatFindFreeCluster_calm : Calm fatFindFreeCluster fun _ => True := by
  refine getVol_calm.bind fun v _ => (findFreeFrom_calm _ _).bind fun i _ => ?_
  split
  · exact Keeps.pure trivial
  · exact findFreeFrom_calm _ _

/-- One sector fetched, changed and marked. -/
theorem edit_calm (n m : Nat) (f : Sector → Sector) {β : Type} {k : FatM β} {Q : β → Prop} (hk : Calm k Q) :
    Calm (getSector n >>= fun _ => modifyBuf f >>= fun _ => putSector m >>= fun _ => k) Q :=
  (getSector_calm n).bind fun _ _ => (modifyBuf_calm f).bind fun _ _ => (putSector_calm m).bind fun _ _ => hk

theorem fatSetNextOne_calm (fat c next : Nat) : Calm (fatSetNextOne fat c next) fun _ => True := by
  refine getVol_calm.bind fun v _ => ?_
  cases v.type with
  | none => exact Keeps.pure trivial
  | fat12 =>
    refine Calm.returning (getVol_calm.bind fun v _ => ?_) _
    dsimp only
    refine (getSector_calm _).bind fun _ _ => ?_
    split
    · split
      · refine (modifyBuf_calm _).bind fun _ _ => (putSector_calm _).bind fun _ _ => ?_
        exact edit_calm _ _ _ (Keeps.pure trivial)
      · refine (modifyBuf_calm _).bind fun _ _ => (putSector_calm _).bind fun _ _ => ?_
        exact edit_calm _ _ _ (Keeps.pure trivial)
    · exact (modifyBuf_calm _).bind fun _ _ => (putSector_calm _).bind fun _ _ => Keeps.pure trivial
  | fat16 => exact Calm.returning (getVol_calm.bind fun v _ => edit_calm _ _ _ (Keeps.pure trivial)) _
  | fat32 => exact Calm.returning (getVol_calm.bind fun v _ => edit_calm _ _ _ (Keeps.pure trivial)) _

theorem fatSetNextCluster_calm (c next : Nat) : Calm (fatSetNextCluster c next) fun _ => True := by
  have hloop : ∀ (n fat : Nat) (ret : Int), Calm (setNextLoop c next n fat ret) fun _ => True := by
    intro n
    induction n with
    | zero => exact fun _ _ => Keeps.pure trivial
    | succ n ih => exact fun fat _ => (fatSetNextOne_calm fat c next).bind fun _ _ => ih _ _
  exact getVol_calm.bind fun v _ => hloop _ _ _

theorem clearLoop_calm (n sector : Nat) : Calm (clearLoop n sector) fun _ => True := by
  induction n generalizing sector with
  | zero => exact Keeps.pure trivial
  | succ n ih => exact Keeps.get.bind fun s _ => (mbrWriteSectors_calm _ _ _).bind fun _ _ => ih _

theorem fatAllocNextCluster_calm (c : Nat) (clear : Bool) :
    Calm (fatAllocNextCluster c clear) fun _ => True := by
  refine Calm.returning (getVol_calm.bind fun v _ => (fatGetNextCluster_calm c).bind fun next _ => ?_) _
  split
  · exact Keeps.pure trivial
  · refine fatFindFreeCluster_calm.bind fun next _ => ?_
    split
    · exact Keeps.pure trivial
    · refine (fatSetNextCluster_calm _ _).bind fun _ _ => (fatSetNextCluster_calm _ _).bind fun _ _ => ?_
      dsimp only
      split
      · refine flushSector_calm.bind fun _ _ => (modifyBuf_calm _).bind fun _ _ => ?_
        exact (clearLoop_calm _ _).bind fun _ _ => Keeps.pure trivial
      · exact Keeps.pure trivial

-- ---------------------------------------------------------------------------
-- fat_write and fat_mkdir
-- ---------------------------------------------------------------------------

theorem fatFileSync_calm (r : HandleRef) : Calm (fatFileSync r) fun _ => True := by
  refine Calm.returning ((getHandle_calm r).bind fun h _ => (fatOf_calm h).bind fun _ _ => ?_) _
  exact edit_calm _ _ _ (flushSector_calm.bind fun _ _ => Keeps.pure trivial)

theorem writeAdvance_calm (r : HandleRef) (v : FatVolHandle) (sector : Nat) :
    Calm (writeAdvance r v sector) fun _ => True := by
  refine (getHandle_calm r).bind fun h _ => ?_
  split
  · exact Keeps.pure trivial
  · split
    · exact Keeps.pure trivial
    · split
      · refine (fatAllocNextCluster_calm _ _).bind fun next _ => ?_
        split
        · exact Keeps.pure trivial
        · exact (modifyHandle_calm r _).bind fun _ _ => Keeps.pure trivial
      · exact Keeps.pure trivial

theorem writeLoop_calm (r : HandleRef) (buf : List UInt8) (size fuel i sector offset : Nat) :
    Calm (writeLoop r buf size fuel i sector offset) fun _ => True := by
  induction fuel generalizing i sector offset with
  | zero =>
    rw [writeLoop]
    split
    · exact Keeps.pure trivial
    · exact Keeps.throw (by decide)
  | succ fuel ih =>
    rw [writeLoop]
    split
    · exact Keeps.pure trivial
    · refine (getHandle_calm r).bind fun h _ => (fatOf_calm h).bind fun v _ => ?_
      dsimp only
      split
      case' isTrue => refine (getSector_calm _).bind fun _ _ => ?_
      case' isFalse => refine flushSector_calm.bind fun _ _ => ?_
      all_goals
        refine (modifyBuf_calm _).bind fun _ _ => (putSector_calm _).bind fun _ _ => ?_
        refine (modifyHandle_calm r _).bind fun _ _ => (writeAdvance_calm r v sector).bind fun o _ => ?_
        cases o with
        | none => exact Keeps.pure trivial
        | some sector => exact ih _ _ _

theorem fatWrite_calm (r : HandleRef) (buf : List UInt8) : Calm (fatWrite r buf) fun n => 0 ≤ n := by
  have hfirst : Calm (allocFirst r buf.length) fun _ => True := by
    refine (getHandle_calm r).bind fun h _ => ?_
    split
    · refine (fatOf_calm h).bind fun v _ => fatFindFreeCluster_calm.bind fun first _ => ?_
      refine (modifyHandle_calm r _).bind fun _ _ => ?_
      split
      · exact Keeps.pure trivial
      · refine (modifyHandle_calm r _).bind fun _ _ => (fatSetNextCluster_calm _ _).bind fun _ _ => ?_
        exact Keeps.pure trivial
    · exact Keeps.pure trivial
  have hgrow : Calm (growSize r) fun _ => True := by
    refine (getHandle_calm r).bind fun h _ => ?_
    split
    · refine (modifyHandle_calm r _).bind fun _ _ => ?_
      split
      · exact (fatFileSync_calm r).bind fun _ _ => Keeps.pure trivial
      · exact Keeps.pure trivial
    · exact Keeps.pure trivial
  refine Calm.returning (hfirst.bind fun ok _ => ?_) _
  split
  · refine (getHandle_calm r).bind fun h _ => (fatOf_calm h).bind fun v _ => ?_
    refine (writeLoop_calm _ _ _ _ _ _ _).bind fun i _ => hgrow.bind fun _ _ => ?_
    exact Keeps.pure (Int.natCast_nonneg i)
  · exact Keeps.pure (Int.le_refl 0)

theorem putLoop_calm (n sector : Nat) : Calm (putLoop n sector) fun _ => True := by
  induction n generalizing sector with
  | zero => exact Keeps.pure trivial
  | succ n ih => exact (putSector_calm _).bind fun _ _ => ih _

theorem fillDir_calm : Calm fillDir fun ret => ret = 0 := by
  refine Calm.returning (flushSector_calm.bind fun _ _ => getVol_calm.bind fun v _ => ?_) _
  refine (modifyBuf_calm _).bind fun _ _ => (getHandle_calm .dir).bind fun dir _ => ?_
  refine (putLoop_calm _ _).bind fun _ _ => (fatWrite_calm .dir _).bind fun ret hret => ?_
  rw [if_neg (Int.not_lt.mpr hret)]
  refine (getHandle_calm .cwd).bind fun cwd _ => (fatWrite_calm .dir _).bind fun ret hret => ?_
  rw [if_neg (Int.not_lt.mpr hret)]
  exact Keeps.pure rfl

end Stm32Logger
