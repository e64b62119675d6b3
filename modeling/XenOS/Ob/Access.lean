import XenOS.Ob.Tables

/-! Where the access of a handle comes from. An open checks the security descriptor; a duplication,
and an insertion that finds an existing object, take the access asked for. -/

namespace XenOS.Ob

open General Ex

/-- All of `access` is in `granted`. -/
def Within (access granted : Se.AccessMask) : Prop := access &&& ~~~granted = 0#32

instance (access granted : Se.AccessMask) : Decidable (Within access granted) := inferInstanceAs (Decidable (_ = _))

theorem Within.refl (access : Se.AccessMask) : Within access access := BitVec.and_not_self access

namespace ObState

variable {P : Type} {s : ObState P} {c : Caller P}

def HasDescriptor (s : ObState P) (object : ℕ) : Prop :=
  ∃ header, s.headers object = some header ∧ header.securityDescriptor.isSome

def Handleless (s : ObState P) (object : ℕ) : Prop := ∀ id handle y, s.handleEntry id handle = some y → y.1 ≠ object

/-- `se_access_check` grants the access `granted` to the object. -/
def CheckGrants (s : ObState P) (object : ℕ) (accessState : AccessState) (desiredAccess granted : Se.AccessMask) : Prop :=
  ∃ header, s.headers object = some header ∧
    Se.seAccessCheck header.securityDescriptor (some accessState.subjectSecurityContext) desiredAccess
      accessState.previouslyGrantedAccess (some (s.types header.typePtr).genericMapping) = (true, granted)

theorem checkGrants_of_openAccess {object : ℕ} {header : ObjectHeader} {accessState : AccessState}
    {desiredAccess granted : Se.AccessMask} (hheader : s.headers object = some header) (hsd : s.HasDescriptor object)
    (h : s.openAccess header accessState desiredAccess true = some granted) :
    s.CheckGrants object accessState desiredAccess granted := by
  obtain ⟨header', hheader', hsome⟩ := hsd
  rw [hheader] at hheader'
  cases hheader'
  obtain ⟨sd, hsd⟩ := Option.isSome_iff_exists.1 hsome
  refine ⟨header, hheader, ?_⟩
  simp only [openAccess, obpCheckObjectAccess, hsd, Option.isSome_some, Bool.true_or, Bool.and_self, if_true] at h
  rw [hsd]
  split at h
  · rename_i hallowed
    exact Prod.ext hallowed (Option.some.inj h)
  · cases h

variable [DecidableEq P]

/-- The access is granted by the check of this open, or carried by the duplicated handle, or the
handle is the creating one of a new object. -/
def Earned (s : ObState P) (object : ℕ) (access : Se.AccessMask) : ObOp P → Prop
  | .openByName c found _ accessState desiredAccess _ userMode
  | .openByPointer c found _ accessState desiredAccess _ userMode =>
    userMode = true → ∃ granted,
      s.CheckGrants found (accessState.getD ⟨c.subject, 0⟩) desiredAccess granted ∧ object = found ∧ Within access granted
  | .duplicate c sourceProcess _ sourceHandle _ _ _ => ∃ sourceAccess sourceAttributes,
    s.handleMeaning (sourceProcess.or c.process) sourceHandle = some (object, sourceAccess, sourceAttributes) ∧
      Within access sourceAccess
  | .insertObject c inserted desiredAccess wantObject wantHandle entryAllocated assigned =>
    ((s.obInsertObject c inserted desiredAccess wantObject wantHandle entryAllocated assigned).1.status = statusSuccess ∧
      object = inserted ∧ s.Handleless object) ∨ access = 0
  | _ => False

def HandlesEarned (s : ObState P) (op : ObOp P) : Prop :=
  ∀ id handle object access flags, (s.step op).handleEntry id handle = some (object, access, flags) →
    s.handleEntry id handle = some (object, access, flags) ∨ (s.HasDescriptor object → s.Earned object access op)

/-- A duplicate to an object with a descriptor asks for no more than its source carries; an
insertion that finds such an object asks for no access. -/
def KeepsAccess (s : ObState P) : ObOp P → Prop
  | .duplicate c sourceProcess targetProcess sourceHandle desiredAccess _ options =>
    ∀ object sourceAccess sourceAttributes id table,
      s.handleMeaning (sourceProcess.or c.process) sourceHandle = some (object, sourceAccess, sourceAttributes) →
      s.tableFor (isKernelHandle sourceHandle) (targetProcess.or c.process) = some (id, table) →
      s.AddsEntry c table object → s.HasDescriptor object → options &&& duplicateSameAccess = 0 →
      Within desiredAccess sourceAccess
  | .insertObject c object desiredAccess wantObject wantHandle entryAllocated _ =>
    ∀ header target new kernelHandle id table, wantHandle = true → s.headers object = some header →
      s.insertTarget object entryAllocated = some (target, new) →
      s.insertTable c (createAttributes header) wantObject = some (kernelHandle, id, table) →
      s.AddsEntry c table target → s.HasDescriptor target → (new = true ∧ s.Handleless target) ∨ desiredAccess = 0
  | _ => True

theorem NoNew.handlesEarned {op : ObOp P} (h : NoNew s (s.step op)) : s.HandlesEarned op :=
  fun id handle _ _ _ hentry => Or.inl (h id handle _ hentry)

theorem Adds.handlesEarned {op : ObOp P} {x : ℕ × Se.AccessMask × BitVec 32} (h : Adds s (s.step op) x)
    (hearned : s.HasDescriptor x.1 → s.Earned x.1 x.2.1 op) : s.HandlesEarned op := by
  intro id handle object access flags hentry
  rcases h id handle _ hentry with hold | heq
  · exact Or.inl hold
  · cases heq
    exact Or.inr hearned

theorem openByPointer_earned (hs : s.Sound) (c : Caller P) (object : ℕ) (attributes : BitVec 32)
    (accessState : Option AccessState) (desiredAccess : Se.AccessMask) (objectType : Option ℕ) (userMode : Bool) :
    s.HandlesEarned (.openByPointer c object attributes accessState desiredAccess objectType userMode) := by
  rcases openByPointer_entries hs c object attributes accessState desiredAccess objectType userMode with
    htame | ⟨-, header, granted, flags, hheader, haccess, hadds⟩
  · exact NoNew.handlesEarned htame.noNew
  · refine Adds.handlesEarned hadds fun hsd huser => ⟨granted, ?_, rfl, .refl granted⟩
    subst huser
    exact checkGrants_of_openAccess hheader hsd haccess

theorem openByName_earned (hs : s.Sound) (c : Caller P) (found : ℕ) (attributes : BitVec 32)
    (accessState : Option AccessState) (desiredAccess : Se.AccessMask) (objectType : Option ℕ) (userMode : Bool) :
    s.HandlesEarned (.openByName c found attributes accessState desiredAccess objectType userMode) :=
  openByPointer_earned hs c found attributes (some (accessState.getD ⟨c.subject, 0⟩)) desiredAccess objectType userMode

theorem duplicate_earned_iff (hs : s.Sound) (c : Caller P) (sourceProcess targetProcess : Option P) (sourceHandle : ℕ)
    (desiredAccess : Se.AccessMask) (handleAttributes options : BitVec 32) :
    s.HandlesEarned (.duplicate c sourceProcess targetProcess sourceHandle desiredAccess handleAttributes options) ↔
      s.KeepsAccess (.duplicate c sourceProcess targetProcess sourceHandle desiredAccess handleAttributes options) := by
  cases hmeaning : s.handleMeaning (sourceProcess.or c.process) sourceHandle with
  | none =>
    refine ⟨fun _ object sourceAccess sourceAttributes id table h => ?_, fun _ => NoNew.handlesEarned ?_⟩
    · rw [hmeaning] at h
      cases h
    · intro id handle y hy
      rwa [step, call, duplicate_none (Or.inl hmeaning)] at hy
  | some entry =>
    obtain ⟨object, sourceAccess, sourceAttributes⟩ := entry
    cases htarget : s.tableFor (isKernelHandle sourceHandle) (targetProcess.or c.process) with
    | none =>
      refine ⟨fun _ object sourceAccess sourceAttributes id table _ h => ?_, fun _ => NoNew.handlesEarned ?_⟩
      · rw [htarget] at h
        cases h
      · intro id handle y hy
        rwa [step, call, duplicate_none (Or.inr htarget)] at hy
    | some target =>
      obtain ⟨targetId, targetTable⟩ := target
      obtain ⟨⟨sourceId, sourceTable⟩, hsource, hlookup⟩ := Option.bind_eq_some_iff.1 hmeaning
      obtain ⟨flags, hadded⟩ := duplicate_entries hs c desiredAccess handleAttributes options hsource hlookup htarget
      constructor
      · intro hearned object' sourceAccess' sourceAttributes' id table hmeaning' htable hadds hsd hoption
        rw [hmeaning] at hmeaning'
        cases hmeaning'
        rw [htarget] at htable
        cases htable
        obtain ⟨hnew, hnone⟩ := hadded.new hadds
        rw [if_neg (not_not.2 hoption)] at hnew
        rcases hearned _ _ _ _ _ hnew with hold | hearned
        · rw [hnone] at hold
          cases hold
        · obtain ⟨access, attributes, hmeaning', hwithin⟩ := hearned hsd
          rw [hmeaning] at hmeaning'
          cases hmeaning'
          exact hwithin
      · intro hkeeps
        by_cases hadds : s.AddsEntry c targetTable object
        · refine Adds.handlesEarned (hadded.only hadds) fun hsd => ⟨sourceAccess, sourceAttributes, hmeaning, ?_⟩
          by_cases hoption : options &&& duplicateSameAccess = 0
          · rw [if_neg (not_not.2 hoption)]
            exact hkeeps object sourceAccess sourceAttributes targetId targetTable hmeaning htarget hadds hsd hoption
          · rw [if_pos hoption]
            exact .refl sourceAccess
        · exact NoNew.handlesEarned (hadded.noNew hadds)

/-- An insertion makes an earned handle if and only if the handle is the creating handle of
a new object or carries no access. -/
theorem insert_earned_iff (hs : s.Sound) (c : Caller P) (object : ℕ) (desiredAccess : Se.AccessMask)
    (wantObject wantHandle entryAllocated : Bool) (assigned : Option Se.SecurityDescriptor) :
    s.HandlesEarned (.insertObject c object desiredAccess wantObject wantHandle entryAllocated assigned) ↔
      s.KeepsAccess (.insertObject c object desiredAccess wantObject wantHandle entryAllocated assigned) := by
  have hsteady {op : ObOp P} (h : Steady s (s.step op)) : s.HandlesEarned op := NoNew.handlesEarned (.of_tables h.tables)
  cases htarget : s.insertTarget object entryAllocated with
  | none =>
    refine ⟨fun _ header target new kernelHandle id table _ _ h => ?_, fun _ => hsteady ?_⟩
    · rw [htarget] at h
      cases h
    · exact insert_refused s c desiredAccess wantObject wantHandle assigned htarget
  | some found =>
    obtain ⟨target, new⟩ := found
    obtain ⟨header, hheader⟩ := insertTarget_header htarget
    obtain ⟨haddress, placed, parent, hplaced, hopen, heq⟩ :=
      insert_eq hs c hheader desiredAccess wantObject wantHandle assigned htarget
    have hstep : s.step (.insertObject c object desiredAccess wantObject wantHandle entryAllocated assigned) = _ :=
      congrArg Prod.snd heq
    by_cases htable : wantHandle = true → s.insertTable c (createAttributes header) wantObject = none
    · refine ⟨fun _ header' target' new' kernelHandle id table hwant h _ h' => ?_, fun _ => hsteady ?_⟩
      · rw [hheader] at h
        cases h
        rw [htable hwant] at h'
        cases h'
      · rw [hstep]
        refine hplaced.trans (insertHandle_steady placed c object target parent _ desiredAccess _ wantObject wantHandle
          fun hwant => ?_)
        rw [insertTable_congr hplaced.tables, htable hwant]
    · rw [Classical.not_imp] at htable
      obtain ⟨rfl, htable⟩ := htable
      obtain ⟨⟨kernelHandle, id, table⟩, htable⟩ := Option.ne_none_iff_exists'.1 htable
      have hplacedTable := (insertTable_congr hplaced.tables c (createAttributes header) wantObject).trans htable
      have hadded := (insertHandle_added (hs.steady hplaced) c object haddress parent desiredAccess
        (if new then statusSuccess else statusObjectNameExists) hplacedTable).congr_left hplaced.tables
      rw [addsEntry_congr hopen] at hadded
      have hstatus (hadds : s.AddsEntry c table target) :
          (s.obInsertObject c object desiredAccess wantObject true entryAllocated assigned).1.status =
            if new then statusSuccess else statusObjectNameExists := by
        rw [heq]
        refine insertHandle_status c object haddress parent desiredAccess _ hplacedTable ?_
        rwa [addsEntry_congr hopen]
      constructor
      · intro hearned header' target' new' kernelHandle' id' table' _ h h' h'' hadds hsd
        rw [hheader] at h
        cases h
        rw [htarget] at h'
        cases h'
        rw [htable] at h''
        cases h''
        obtain ⟨hnew, hnone⟩ := hadded.new hadds
        rw [← hstep] at hnew
        rcases hearned _ _ _ _ _ hnew with hold | hearned
        · rw [hnone] at hold
          cases hold
        · rcases hearned hsd with ⟨hsuccess, -, hless⟩ | hzero
          · rw [hstatus hadds] at hsuccess
            cases new with
            | true => exact Or.inl ⟨rfl, hless⟩
            | false => exact absurd hsuccess (by decide)
          · exact Or.inr hzero
      · intro hkeeps
        rw [← hstep] at hadded
        by_cases hadds : s.AddsEntry c table target
        · refine Adds.handlesEarned (hadded.only hadds) fun hsd => ?_
          rcases hkeeps header target new kernelHandle id table rfl hheader htarget htable hadds hsd with
            ⟨rfl, hless⟩ | hzero
          · exact Or.inl ⟨(hstatus hadds).trans rfl, insertTarget_new htarget, hless⟩
          · exact Or.inr hzero
        · exact NoNew.handlesEarned (hadded.noNew hadds)

theorem handlesEarned_iff (hs : s.Sound) (op : ObOp P) : s.HandlesEarned op ↔ s.KeepsAccess op := by
  have htame {op : ObOp P} (h : Tame s (s.step op)) : s.HandlesEarned op ↔ True :=
    iff_of_true (NoNew.handlesEarned h.noNew) trivial
  cases op with
  | createTable id block => exact htame (tame_createTable hs id block)
  | createRootDirectory pool => exact htame (tame_createRootDirectory hs pool)
  | createObject objectType objectAttributes pool => exact htame (tame_createObject hs objectType objectAttributes pool)
  | insertObject c object desiredAccess wantObject wantHandle entryAllocated assigned =>
    exact insert_earned_iff hs c object desiredAccess wantObject wantHandle entryAllocated assigned
  | insertIntoDirectory parent object entryAllocated =>
    exact htame (.of_steady hs (steady_insertIntoDirectory s parent object entryAllocated))
  | openByName c found attributes accessState desiredAccess objectType userMode =>
    exact iff_of_true (openByName_earned hs c found attributes accessState desiredAccess objectType userMode) trivial
  | openByPointer c object attributes accessState desiredAccess objectType userMode =>
    exact iff_of_true (openByPointer_earned hs c object attributes accessState desiredAccess objectType userMode) trivial
  | duplicate c sourceProcess targetProcess sourceHandle desiredAccess handleAttributes options =>
    exact duplicate_earned_iff hs c sourceProcess targetProcess sourceHandle desiredAccess handleAttributes options
  | close process handle => exact htame (tame_ntClose hs process handle)
  | reference object => exact htame (.of_steady hs (.of_quiet (.reference s object) (reference_tables s object)))
  | dereference object => exact htame (.of_steady hs (.dereference s object))
  | reap => exact htame (.of_steady hs (steady_reapObject s))
  | setTables upcase => exact htame (.of_steady hs ⟨rfl, fun _ ho => ho⟩)

/-- In every run, every handle to an object with a descriptor is earned if and only if no step asks
for more than its source carries. -/
theorem access_earned_iff (types : ℕ → ObjectType) (directoryType : ℕ) (ops : List (ObOp P)) :
    EveryStep step HandlesEarned (start types directoryType) ops ↔
      EveryStep step KeepsAccess (start types directoryType) ops :=
  everyStep_iff (I := Sound) (G := fun _ _ => True) (fun _ op hs _ _ => hs.step op)
    (fun _ op hs _ hc => (handlesEarned_iff hs op).2 hc) (fun _ op hs _ hc hd => hc ((handlesEarned_iff hs op).1 hd))
    (sound_start types directoryType) (everyStep_of_forall fun _ _ => trivial)

/-- A handle with one right, to an object whose list of rights is empty, is duplicated with another one. -/
theorem duplicate_widens :
    ¬ EveryStep step HandlesEarned (start (fun _ => { securityRequired := true }) 0 : ObState Unit)
      [.createTable (some ()) ⟨fun _ => ⟨0, 0, 0⟩, fun _ => Nat.two_pow_pos 64⟩,
        .createObject 8 none ⟨some (2 ^ 63), true, true⟩,
        .insertObject ⟨some (), ⟨none, none⟩, fun _ => none, statusSuccess⟩ (2 ^ 63) 1 false true true
          (some ⟨Se.seDaclPresent, none, none, none, some ⟨[]⟩⟩),
        .duplicate ⟨some (), ⟨none, none⟩, fun _ => none, statusSuccess⟩ none none 4 2 0 0] := by
  rintro ⟨-, -, -, h, -⟩
  rcases h (some ()) 8 (2 ^ 63) 2 0 (by decide) with hold | hearned
  · exact absurd hold (by decide)
  · obtain ⟨access, attributes, hmeaning, hwithin⟩ := hearned ⟨_, rfl, rfl⟩
    have hsource : some (2 ^ 63, 1, 0) = some (2 ^ 63, access, attributes) := hmeaning
    cases hsource
    exact absurd hwithin (by decide)

end ObState

end XenOS.Ob
