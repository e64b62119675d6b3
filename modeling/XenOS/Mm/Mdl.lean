import XenOS.Mm.PageWalk
import XenOS.Mm.TransitionRound

/-! Locking the pages of an MDL. The first pass walks the pages and writes down their frames,
the second pins them; where a walk fails, the first pass unpins the frames found so far,
which nothing has pinned. -/

namespace XenOS.Mm

open PfnState Option

def mdlPagesLocked : BitVec 16 := 0x0002#16
def mdlWriteOperation : BitVec 16 := 0x0080#16

inductive LockOperation where
  | ioReadAccess | ioWriteAccess | ioModifyAccess
  deriving DecidableEq

/-- `MDL`, with the array behind it. -/
structure Mdl where
  mdlFlags : BitVec 16
  startVa : ℕ
  byteCount : ℕ
  byteOffset : ℕ
  pfnArray : List ℕ

namespace Mdl

def pageCount (mdl : Mdl) : ℕ := (mdl.byteCount + mdl.byteOffset + (pageSize - 1)) / pageSize

def locked (mdl : Mdl) : Bool := mdl.mdlFlags &&& mdlPagesLocked ≠ 0

end Mdl

/-- The first pass from page `i` on: the frames in order, and the status of the walk that failed.
`none` is a page fault of the kernel. -/
def probeLoop (walk : ℕ → Option (Except Ntstatus ℕ)) : ℕ → ℕ → Option (List ℕ × Option Ntstatus)
  | 0, _ => some ([], none)
  | left + 1, i =>
    match walk i with
    | none => none
    | some (.error status) => some ([], some status)
    | some (.ok pfn) => (probeLoop walk left (i + 1)).map fun r => (pfn :: r.1, r.2)

/-- `operation == IoWriteAccess || operation == IoModifyAccess`. -/
def LockOperation.needWrite (operation : LockOperation) : Bool := operation = .ioWriteAccess || operation = .ioModifyAccess

/-- The walk of page `i` of an MDL. Addresses wrap, as without overflow checks. -/
def walkPage (t : PhysicalTables) (mdl : Mdl) (accessMode : AccessMode) (operation : LockOperation) (i : ℕ) :
    Option (Except Ntstatus ℕ) :=
  miPageWalk t ((mdl.startVa + i * pageSize) % 2 ^ 64) accessMode operation.needWrite

def mmProbeAndLockPages (t : PhysicalTables) (σ : PfnState) (mdl : Mdl) (accessMode : AccessMode) (operation : LockOperation) :
    Option (Ntstatus × PfnState × Mdl) :=
  if mdl.locked then some (.invalidParameter, σ, mdl)
  else do
    let (frames, failed) ← probeLoop (walkPage t mdl accessMode operation) mdl.pageCount 0
    match failed with
    | some status => some (status, frames.foldl miUnpinPfn σ, { mdl with pfnArray := frames })
    | none =>
      let flags := mdl.mdlFlags ||| mdlPagesLocked
      let flags := if operation.needWrite then flags ||| mdlWriteOperation else flags
      some (.success, frames.foldl miPinPfn σ, { mdl with mdlFlags := flags, pfnArray := frames })

def mmUnlockPages (σ : PfnState) (mdl : Mdl) : PfnState × Mdl :=
  if mdl.locked then
    ((mdl.pfnArray.take mdl.pageCount).foldl miUnpinPfn σ,
      { mdl with mdlFlags := mdl.mdlFlags &&& ~~~mdlPagesLocked &&& ~~~mdlWriteOperation })
  else (σ, mdl)

/-- After a refusal nothing has changed; after a success each count rose by the uses in the MDL, and
the unlock takes it back. -/
def AllOrNothing (σ : PfnState) (mdl : Mdl) : Ntstatus × PfnState × Mdl → Prop
  | (.success, σ', mdl') => ∀ pfn, ∀ count ∈ σ.referenceCount pfn,
    σ'.referenceCount pfn = some (count + mdl'.pfnArray.count pfn) ∧
      (mmUnlockPages σ' mdl').1.referenceCount pfn = some count
  | (_, σ', mdl') => (∀ pfn, σ'.referenceCount pfn = σ.referenceCount pfn) ∧ mdl'.mdlFlags = mdl.mdlFlags

/-- The frames found before the first failure have no count to lose; if there is no failure, none has so many that it
saturates. -/
def Undisturbed (σ : PfnState) (frames : List ℕ) (failed : Option Ntstatus) : Prop :=
  ∀ pfn ∈ frames, ∀ count ∈ σ.referenceCount pfn,
    if failed.isSome then count = 0 else count + frames.count pfn ≤ 0xFFFF

def framesOf (t : PhysicalTables) (mdl : Mdl) (accessMode : AccessMode) (operation : LockOperation) :
    Option (List ℕ × Option Ntstatus) :=
  probeLoop (walkPage t mdl accessMode operation) mdl.pageCount 0

section Counts
variable {σ : PfnState}

theorem referenceCount_modifyEntry (p q : ℕ) (f : Mmpfn → Mmpfn) : (σ.modifyEntry p f).referenceCount q =
    if q = p then (σ.getPfnEntry q).map fun e => (f e).referenceCount else σ.referenceCount q := by
  have hvalid : (σ.modifyEntry p f).isValidPfn q ↔ σ.isValidPfn q := (SamePages.modifyEntry σ p f).valid_iff
  unfold PfnState.referenceCount getPfnEntry
  by_cases hq : σ.isValidPfn q
  · rw [if_pos hq, if_pos (hvalid.2 hq)]
    by_cases hqp : q = p
    · subst hqp
      rw [if_pos rfl, entries_modifyEntry hq, Function.update_self]
      rfl
    · rw [if_neg hqp, entries_modifyEntry_of_ne hqp]
  · rw [if_neg hq, if_neg (mt hvalid.1 hq)]
    simp

theorem Mmpfn.referenceCount_pin (e : Mmpfn) : e.pin.referenceCount = min (e.referenceCount + 1) 0xFFFF := by
  unfold Mmpfn.pin
  dsimp only
  split
  · rfl
  · rfl

theorem referenceCount_miPinPfn (p q : ℕ) : (miPinPfn σ p).referenceCount q =
    if q = p then (σ.referenceCount q).map fun count => min (count + 1) 0xFFFF else σ.referenceCount q := by
  rw [miPinPfn, referenceCount_modifyEntry, PfnState.referenceCount, map_map]
  simp only [Mmpfn.referenceCount_pin]
  rfl

theorem referenceCount_miUnpinPfn (p q : ℕ) : (miUnpinPfn σ p).referenceCount q =
    if q = p then (σ.referenceCount q).map fun count => count - 1 else σ.referenceCount q := by
  rw [miUnpinPfn, referenceCount_modifyEntry, PfnState.referenceCount, map_map]
  rfl

theorem referenceCount_pins (frames : List ℕ) (σ : PfnState) (q : ℕ) : (frames.foldl miPinPfn σ).referenceCount q =
    (σ.referenceCount q).map fun count => if q ∈ frames then min (count + frames.count q) 0xFFFF else count := by
  induction frames generalizing σ with
  | nil => simp
  | cons p frames ih =>
    rw [List.foldl_cons, ih, referenceCount_miPinPfn]
    by_cases hq : q = p
    · subst hq
      rw [if_pos rfl, map_map]
      congr 1
      funext count
      simp only [Function.comp_apply, List.mem_cons_self, if_true, List.count_cons_self]
      by_cases hmem : q ∈ frames
      · rw [if_pos hmem]
        omega
      · rw [if_neg hmem, List.count_eq_zero_of_not_mem hmem]
    · rw [if_neg hq]
      congr 1
      funext count
      simp only [List.mem_cons, hq, false_or, List.count_cons_of_ne (Ne.symm hq)]

theorem referenceCount_unpins (frames : List ℕ) (σ : PfnState) (q : ℕ) : (frames.foldl miUnpinPfn σ).referenceCount q =
    (σ.referenceCount q).map fun count => count - frames.count q := by
  induction frames generalizing σ with
  | nil => simp
  | cons p frames ih =>
    rw [List.foldl_cons, ih, referenceCount_miUnpinPfn]
    by_cases hq : q = p
    · subst hq
      rw [if_pos rfl, map_map, List.count_cons_self]
      congr 1
      funext count
      simp only [Function.comp_apply]
      omega
    · rw [if_neg hq, List.count_cons_of_ne (Ne.symm hq)]

end Counts

variable {frames : List ℕ}

theorem probeLoop_length {walk : ℕ → Option (Except Ntstatus ℕ)} {left i : ℕ}
    (h : probeLoop walk left i = some (frames, none)) : frames.length = left := by
  induction left generalizing i frames with
  | zero =>
    cases h
    rfl
  | succ left ih =>
    unfold probeLoop at h
    cases hwalk : walk i with
    | none =>
      rw [hwalk] at h
      cases h
    | some answer =>
      rw [hwalk] at h
      cases answer with
      | error status => cases h
      | ok pfn =>
        obtain ⟨⟨rest, failed⟩, hrest, heq⟩ := map_eq_some_iff.1 h
        cases heq
        rw [List.length_cons, ih hrest]

theorem miPageWalk_error {t : PhysicalTables} {va : ℕ} {accessMode : AccessMode} {needWrite : Bool} {status : Ntstatus}
    (h : miPageWalk t va accessMode needWrite = some (.error status)) : status = .accessViolation := by
  unfold miPageWalk at h
  split_ifs at h
  · cases h
  obtain ⟨word, -, hword⟩ := bind_eq_some_iff.1 h
  unfold walkEntry at hword
  split_ifs at hword
  all_goals first
    | (cases hword; rfl)
    | skip
  · cases hword
  · obtain ⟨pte, -, hpte⟩ := bind_eq_some_iff.1 hword
    split_ifs at hpte
    all_goals first
      | (cases hpte; rfl)
      | cases hpte

theorem probeLoop_error {t : PhysicalTables} {mdl : Mdl} {accessMode : AccessMode}
    {operation : LockOperation} {left i : ℕ} {status : Ntstatus}
    (h : probeLoop (walkPage t mdl accessMode operation) left i = some (frames, some status)) :
    status = .accessViolation := by
  induction left generalizing i frames with
  | zero => cases h
  | succ left ih =>
    unfold probeLoop at h
    cases hwalk : walkPage t mdl accessMode operation i with
    | none =>
      rw [hwalk] at h
      cases h
    | some answer =>
      rw [hwalk] at h
      cases answer with
      | error status' =>
        cases h
        exact miPageWalk_error hwalk
      | ok pfn =>
        obtain ⟨⟨rest, failed⟩, hrest, heq⟩ := map_eq_some_iff.1 h
        cases heq
        exact ih hrest

theorem Mdl.locked_of_flags (mdl : Mdl) (flags : BitVec 16) (frames : List ℕ) (operation : LockOperation) :
    Mdl.locked { mdl with
      mdlFlags := if operation.needWrite then flags ||| mdlPagesLocked ||| mdlWriteOperation else flags ||| mdlPagesLocked
      pfnArray := frames } = true := by
  have hbit : (flags ||| mdlPagesLocked) &&& mdlPagesLocked = mdlPagesLocked := by
    rw [BitVec.and_or_distrib_right, BitVec.and_self]
    apply BitVec.eq_of_getLsbD_eq
    intro i hi
    simp only [BitVec.getLsbD_or, BitVec.getLsbD_and]
    cases mdlPagesLocked.getLsbD i <;> simp
  have hbit' : (flags ||| mdlPagesLocked ||| mdlWriteOperation) &&& mdlPagesLocked = mdlPagesLocked := by
    rw [BitVec.and_or_distrib_right, hbit]
    rfl
  unfold Mdl.locked
  dsimp only
  split
  · rw [hbit']
    decide
  · rw [hbit]
    decide

theorem unpins_iff {σ : PfnState} :
    (∀ pfn, (frames.foldl miUnpinPfn σ).referenceCount pfn = σ.referenceCount pfn) ↔
      ∀ pfn ∈ frames, ∀ count ∈ σ.referenceCount pfn, count = 0 := by
  constructor
  · intro h pfn hmem count hcount
    have heq := h pfn
    rw [referenceCount_unpins, hcount] at heq
    have hsub : count - frames.count pfn = count := some.inj heq
    have hpos := List.count_pos_iff.2 hmem
    omega
  · intro h pfn
    rw [referenceCount_unpins]
    cases hcount : σ.referenceCount pfn with
    | none => rfl
    | some count =>
      by_cases hmem : pfn ∈ frames
      · rw [h pfn hmem count hcount]
        simp
      · rw [List.count_eq_zero_of_not_mem hmem]
        rfl

theorem pins_iff {σ : PfnState} :
    (∀ pfn, ∀ count ∈ σ.referenceCount pfn,
      (frames.foldl miPinPfn σ).referenceCount pfn = some (count + frames.count pfn) ∧
        (frames.foldl miUnpinPfn (frames.foldl miPinPfn σ)).referenceCount pfn = some count) ↔
      ∀ pfn ∈ frames, ∀ count ∈ σ.referenceCount pfn, count + frames.count pfn ≤ 0xFFFF := by
  constructor
  · intro h pfn hmem count hcount
    have heq := (h pfn count hcount).1
    rw [referenceCount_pins, hcount, map_some, if_pos hmem] at heq
    have hmin : min (count + frames.count pfn) 0xFFFF = count + frames.count pfn := some.inj heq
    omega
  · intro h pfn count hcount
    have hpin : (frames.foldl miPinPfn σ).referenceCount pfn = some (count + frames.count pfn) := by
      rw [referenceCount_pins, hcount, map_some]
      by_cases hmem : pfn ∈ frames
      · rw [if_pos hmem, Nat.min_eq_left (h pfn hmem count hcount)]
      · rw [if_neg hmem, List.count_eq_zero_of_not_mem hmem]
        rfl
    refine ⟨hpin, ?_⟩
    rw [referenceCount_unpins, hpin, map_some, Nat.add_sub_cancel]

/-- Locking is all or nothing exactly if no frame found before a failed walk has a count, and no count saturates. -/
theorem allOrNothing_iff (t : PhysicalTables) (σ : PfnState) (mdl : Mdl) (accessMode : AccessMode) (operation : LockOperation)
    {result : Ntstatus × PfnState × Mdl} (hreturns : mmProbeAndLockPages t σ mdl accessMode operation = some result) :
    AllOrNothing σ mdl result ↔
      (mdl.locked = false → ∀ r ∈ framesOf t mdl accessMode operation, Undisturbed σ r.1 r.2) := by
  unfold mmProbeAndLockPages at hreturns
  by_cases hlocked : mdl.locked
  · rw [if_pos hlocked] at hreturns
    cases hreturns
    exact iff_of_true ⟨fun _ => rfl, rfl⟩ fun h => absurd h (by simp [hlocked])
  rw [if_neg hlocked] at hreturns
  obtain ⟨⟨frames, failed⟩, hframes, hresult⟩ := bind_eq_some_iff.1 hreturns
  have hcondition : (mdl.locked = false → ∀ r ∈ framesOf t mdl accessMode operation, Undisturbed σ r.1 r.2) ↔
      Undisturbed σ frames failed := by
    unfold framesOf
    rw [hframes]
    constructor
    · intro h
      exact h (by simpa using hlocked) _ rfl
    · rintro h - r hr
      cases hr
      exact h
  rw [hcondition]
  cases failed with
  | some status =>
    cases hresult
    rw [probeLoop_error hframes]
    show (_ ∧ _) ↔ _
    rw [unpins_iff]
    unfold Undisturbed
    simp
  | none =>
    cases hresult
    have hlength := probeLoop_length hframes
    have hunlock := Mdl.locked_of_flags mdl mdl.mdlFlags frames operation
    unfold AllOrNothing mmUnlockPages
    dsimp only
    rw [if_pos hunlock, show frames.take (Mdl.pageCount { mdl with
      mdlFlags := if operation.needWrite then mdl.mdlFlags ||| mdlPagesLocked ||| mdlWriteOperation
        else mdl.mdlFlags ||| mdlPagesLocked
      pfnArray := frames }) = frames from List.take_of_length_le (Nat.le_of_eq hlength)]
    refine pins_iff.trans ?_
    unfold Undisturbed
    simp

/-- An MDL for user memory from `0x10000` on. -/
def userMdl (byteCount : ℕ) : Mdl := ⟨0, 0x10000, byteCount, 0, []⟩

def userPage : PfnState := (PfnState.init 0 8).modifyEntry 7 fun e => { e with referenceCount := 1 }

/-- Three pages from `0x12000` on; the first and the last have the same frame. -/
def sharedFrameMdl : Mdl := ⟨0, 0x12000, 12288, 0, []⟩

theorem framesOf_sharedFrame : framesOf documentedTables sharedFrameMdl .userMode .ioWriteAccess = some ([7, 3, 7], none) := by decide

theorem allOrNothing_sharedFrame :
    ∃ result, mmProbeAndLockPages documentedTables userPage sharedFrameMdl .userMode .ioWriteAccess = some result ∧
      AllOrNothing userPage sharedFrameMdl result := by
  have hsome : (mmProbeAndLockPages documentedTables userPage sharedFrameMdl .userMode .ioWriteAccess).isSome = true := by decide
  obtain ⟨result, hresult⟩ := isSome_iff_exists.1 hsome
  refine ⟨result, hresult, (allOrNothing_iff documentedTables userPage sharedFrameMdl .userMode .ioWriteAccess hresult).2 ?_⟩
  intro _ r hr
  rw [framesOf_sharedFrame] at hr
  cases hr
  have hcounts : ∀ pfn ∈ [7, 3, 7], ∀ count ∈ userPage.referenceCount pfn, count + [7, 3, 7].count pfn ≤ 0xFFFF := by decide
  exact hcounts

/-- The second page is not mapped; the first one loses the reference it had. -/
theorem refused_lock_unpins : ∃ result, mmProbeAndLockPages documentedTables userPage (userMdl 8192) .userMode .ioReadAccess =
    some result ∧ ¬ AllOrNothing userPage (userMdl 8192) result := by
  have hframes : probeLoop (walkPage documentedTables (userMdl 8192) .userMode .ioReadAccess) (userMdl 8192).pageCount 0 =
      some ([7], some .accessViolation) := by decide
  refine ⟨(.accessViolation, [7].foldl miUnpinPfn userPage, { userMdl 8192 with pfnArray := [7] }), ?_, fun h => ?_⟩
  · unfold mmProbeAndLockPages
    rw [if_neg (by decide), hframes]
    rfl
  · have hcount := h.1 7
    rw [referenceCount_unpins] at hcount
    exact absurd hcount (by decide)

end XenOS.Mm
