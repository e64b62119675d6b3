import XenOS.Io.IrpBuilders

/-! What a path owes for its IRP: each allocation released once, no access after the release, the
final status and the bytes of a buffered input. A completion releases all a ready IRP has, so a path
is right where the IRP is completed and not touched again. -/

namespace XenOS.Io

open IrpLife IrpPath

/-- A call that was handled. `callerIosb` says that the caller gave a status block, `owes` is the size of its buffer
for buffered input. -/
structure Handles (callerIosb : Bool) (owes : ℕ) (r : Returned) : Prop where
  irp : r.life.irpFrees = r.life.irpAllocs
  buffer : r.life.bufferFrees = r.life.bufferAllocs
  mdl : r.life.mdlFrees = r.life.mdlAllocs
  unused : r.life.usesAfterFree = 0
  told : ∀ status, r.status = some status → status ≠ irpPending →
    (∀ final, r.life.final = some final → status = final) ∧ (callerIosb = true → r.life.iosb = some status)
  written : callerIosb = true → ∀ final, r.life.final = some final → r.life.iosb = some final
  signalled : r.life.signalledFirst = false
  copied : ∀ final, r.life.final = some final → 0 ≤ final → min r.life.information owes ≤ r.life.copied

namespace IrpPath

def callerIosb : IrpPath → Bool
  | readWrite .. | deviceIoControl .. | create _ => true
  | _ => false

def owes : IrpPath → ℕ
  | readWrite false _ .buffered length true => length
  | deviceIoControl .buffered _ outputLength _ true => outputLength
  | _ => 0

end IrpPath

def Lower.OwesNothing (owes : ℕ) : Lower → Prop
  | .rejected => False
  | .completed status information | .pended _ status information => 0 ≤ status → information = 0 ∨ owes = 0

def IrpEnv.Builds (env : IrpEnv) (bufferPresent : Bool) : Prop :=
  bufferPresent = true ∧ env.mdl.allocated = true ∧ env.mdl.lockStatus = irpSuccess ∧ env.mdl.mapped = true

def IrpPath.Prepared (env : IrpEnv) : IrpPath → Prop
  | readWrite _ _ .buffered length _ => 0 < length → env.bufferAllocated = true
  | readWrite _ _ .direct length bufferPresent => 0 < length → env.Builds bufferPresent
  | deviceIoControl .buffered inputLength outputLength _ _ => 0 < max inputLength outputLength → env.bufferAllocated = true
  | deviceIoControl .direct inputLength outputLength inputPresent outputPresent =>
    (0 < inputLength → inputPresent = true → env.bufferAllocated = true) ∧
      (0 < outputLength → outputPresent = true → env.Builds outputPresent)
  | _ => True

/-- What a create leaves in the status block while its IRP is pending. -/
def reported (handleStatus : ℤ) : ℤ := if handleStatus = irpSuccess then irpPending else handleStatus

/-- The status block of a create has the status that its IRP ends with. -/
def Lower.Tells (handleStatus : ℤ) : Lower → Prop
  | .rejected => False
  | .completed status _ => status = irpSuccess ∨ status = irpPending ∧ reported handleStatus = irpPending
  | .pended _ status _ => status = reported handleStatus

def IrpPath.Spares (env : IrpEnv) : IrpPath → Prop
  | create handleStatus => env.irpAllocated = true ∧ env.lower.Tells handleStatus
  | path => env.irpAllocated = false ∨
    match path with
    | readWrite .. | deviceIoControl .. => ¬ path.Prepared env ∨ env.lower.OwesNothing path.owes
    | cleanup | close => env.lower ≠ .rejected
    | create _ | mountVolume | verifyVolume | busRelations => False
    | scsi => env.lower = .rejected

structure Ready (s : IrpLife) : Prop where
  live : s.live = true
  irp : s.irpAllocs = 1 ∧ s.irpFrees = 0
  buffer : s.bufferAllocs = s.bufferFrees + s.systemBuffer.toNat
  mdl : s.mdlAllocs = s.mdlFrees + s.mdl.toNat
  unused : s.usesAfterFree = 0
  unsent : s.final = none ∧ s.pended = none
  event : s.userEvent = false ∧ s.signalledFirst = false
  nothing : s.information = 0 ∧ s.copied = 0

variable {s : IrpLife} {callerIosb : Bool} {owes : ℕ} {status : ℤ} {information : ℕ} {env : IrpEnv}

theorem Ready.complete (h : Ready s) (status : ℤ) (information : ℕ) :
    let s' := s.complete status information
    s'.irpFrees = s'.irpAllocs ∧ s'.bufferFrees = s'.bufferAllocs ∧ s'.mdlFrees = s'.mdlAllocs ∧ s'.usesAfterFree = 0 ∧
      s'.final = some status ∧ s'.pended = none ∧ s'.signalledFirst = false ∧ s'.information = information ∧
      s'.copied = 0 ∧ (s.userIosb = true → s'.iosb = some status) := by
  obtain ⟨hlive, ⟨hallocs, hfrees⟩, hbuffer, hmdl, hunused, ⟨hfinal, hpended⟩, ⟨hevent, hfirst⟩, hnothing, hcopied⟩ := h
  simp only [IrpLife.complete, IrpLife.useIrp, hlive, if_true, IrpLife.finish, IrpLife.iopCleanupMdl,
    IrpLife.iopFreeSystemBuffer, IrpLife.ioFreeIrp, hevent]
  by_cases hiosb : s.userIosb = true <;> by_cases hsystem : s.systemBuffer = true <;> by_cases hmapped : s.mdl = true <;>
    simp_all

variable {returned : Option ℤ}

theorem Ready.handles_complete (h : Ready s) (hiosb : callerIosb = true → s.userIosb = true)
    (hreturned : ∀ st, returned = some st → st ≠ irpPending → st = status) :
    Handles callerIosb owes { life := s.complete status information, status := returned } ↔
      (0 ≤ status → information = 0 ∨ owes = 0) := by
  obtain ⟨hirp, hbuffer, hmdl, hunused, hfinal, -, hfirst, hinformation, hcopied, hwritten⟩ :=
    h.complete status information
  constructor
  · intro hhandles hsuccess
    have hcopy := hhandles.copied status hfinal hsuccess
    dsimp only at hcopy
    rw [hinformation, hcopied] at hcopy
    omega
  · intro hnothing
    refine ⟨hirp, hbuffer, hmdl, hunused, ?_, ?_, hfirst, ?_⟩
    · intro st hst hpending
      have hsame := hreturned st hst hpending
      refine ⟨fun final hf => ?_, fun hcaller => ?_⟩
      · rw [hsame]
        exact Option.some.inj (hfinal.symm.trans hf)
      · rw [hsame]
        exact hwritten (hiosb hcaller)
    · intro hcaller final hf
      rw [← hf]
      exact (hwritten (hiosb hcaller)).trans hfinal.symm
    · intro final hf hsuccess
      have hsame : status = final := Option.some.inj (hfinal.symm.trans hf)
      have hnone := hnothing (hsame ▸ hsuccess)
      dsimp only
      rw [hinformation, hcopied]
      omega

theorem completeLate_of_none (h : s.pended = none) : s.completeLate = s := by
  unfold completeLate
  rw [h]

theorem Ready.handles_iff (h : Ready s) (hiosb : callerIosb = true → s.userIosb = true)
    (hreturned : ∀ st, returned = some st → (s.ioCallDriver env.lower).2 = st) :
    Handles callerIosb owes { life := (s.ioCallDriver env.lower).1.completeLate, status := returned } ↔
      env.lower.OwesNothing owes := by
  cases hlower : env.lower with
  | rejected =>
    refine iff_of_false (fun hhandles => ?_) id
    have hlate : ({ s with final := some irpInvalidDeviceRequest } : IrpLife).completeLate =
        { s with final := some irpInvalidDeviceRequest } := completeLate_of_none h.unsent.2
    have hirp : ({ s with final := some irpInvalidDeviceRequest } : IrpLife).completeLate.irpFrees =
      ({ s with final := some irpInvalidDeviceRequest } : IrpLife).completeLate.irpAllocs := hhandles.irp
    rw [hlate] at hirp
    change s.irpFrees = s.irpAllocs at hirp
    rw [h.irp.1, h.irp.2] at hirp
    cases hirp
  | completed status information =>
    have hsent : (s.ioCallDriver (.completed status information)).1.completeLate = s.complete status information :=
      completeLate_of_none (h.complete status information).2.2.2.2.2.1
    rw [hsent]
    refine h.handles_complete hiosb fun st hst _ => ?_
    rw [hlower] at hreturned
    exact (hreturned st hst).symm
  | pended early status information =>
    rw [hlower] at hreturned
    have hsent : (s.ioCallDriver (.pended early status information)).1.completeLate = s.complete status information := by
      cases early with
      | true => exact completeLate_of_none (h.complete status information).2.2.2.2.2.1
      | false =>
        have hsame : ({ s with pended := none } : IrpLife) = s := by
          rw [← h.unsent.2]
        exact congrArg (fun t => IrpLife.complete t status information) hsame
    rw [hsent]
    refine h.handles_complete hiosb fun st hst hpending => ?_
    exact absurd (hreturned st hst).symm hpending

theorem handles_of_unsent (hirp : s.irpFrees = s.irpAllocs) (hbuffer : s.bufferFrees = s.bufferAllocs)
    (hmdl : s.mdlFrees = s.mdlAllocs) (hunused : s.usesAfterFree = 0) (hunsent : s.final = none ∧ s.pended = none)
    (hfirst : s.signalledFirst = false) (hiosb : callerIosb = true → s.iosb = some status) :
    Handles callerIosb owes { life := s.completeLate, status := some status } := by
  rw [completeLate_of_none hunsent.2]
  refine ⟨hirp, hbuffer, hmdl, hunused, ?_, ?_, hfirst, ?_⟩
  · rintro st ⟨⟩ -
    exact ⟨fun final hf => absurd (hunsent.1.symm.trans hf) (by simp), hiosb⟩
  · exact fun _ final hf => absurd (hunsent.1.symm.trans hf) (by simp)
  · exact fun final hf => absurd (hunsent.1.symm.trans hf) (by simp)

def forCaller : IrpLife := { allocated with userIosb := true }

structure GaveUp (s : IrpLife) : Prop where
  irp : s.irpAllocs = 1 ∧ s.irpFrees = 0
  buffer : s.bufferFrees = s.bufferAllocs
  mdl : s.mdlFrees = s.mdlAllocs
  unused : s.usesAfterFree = 0
  unsent : s.final = none ∧ s.pended = none
  first : s.signalledFirst = false

def Prepares (prepared : Prop) (result : IrpLife × ℤ) : Prop :=
  (prepared ∧ result.2 = irpSuccess ∧ Ready result.1 ∧ result.1.userIosb = true) ∨
    (¬ prepared ∧ result.2 ≠ irpSuccess ∧ GaveUp result.1)

theorem iopBuildMdlForBuffer_spec (s : IrpLife) (bufferPresent : Bool) :
    (env.Builds bufferPresent ∧ s.iopBuildMdlForBuffer bufferPresent env.mdl =
        ({ s with mdl := true, mdlAllocs := s.mdlAllocs + 1 }, irpSuccess)) ∨
      (¬ env.Builds bufferPresent ∧ ∃ status ≠ irpSuccess, ∃ k, s.iopBuildMdlForBuffer bufferPresent env.mdl =
        ({ s with mdlAllocs := s.mdlAllocs + k, mdlFrees := s.mdlFrees + k }, status)) := by
  unfold IrpEnv.Builds iopBuildMdlForBuffer
  by_cases hpresent : bufferPresent = true
  · by_cases hallocated : env.mdl.allocated = true
    · by_cases hlocked : env.mdl.lockStatus = irpSuccess
      · by_cases hmapped : env.mdl.mapped = true
        · exact .inl ⟨⟨hpresent, hallocated, hlocked, hmapped⟩, by simp [hpresent, hallocated, hlocked, hmapped]⟩
        · exact .inr ⟨fun h => hmapped h.2.2.2, irpInsufficientResources, by decide, 1,
            by simp [hpresent, hallocated, hlocked, hmapped]⟩
      · exact .inr ⟨fun h => hlocked h.2.2.1, env.mdl.lockStatus, hlocked, 1,
          by simp [hpresent, hallocated, hlocked]⟩
    · exact .inr ⟨fun h => hallocated h.2.1, irpInsufficientResources, by decide, 0, by simp [hpresent, hallocated]⟩
  · exact .inr ⟨fun h => hpresent h.1, irpInvalidParameter, by decide, 0, by simp [hpresent]⟩

theorem ready_forCaller : Ready forCaller := by
  refine ⟨rfl, ⟨rfl, rfl⟩, rfl, rfl, rfl, ⟨rfl, rfl⟩, ⟨rfl, rfl⟩, rfl, rfl⟩

theorem gaveUp_forCaller : GaveUp forCaller := ⟨⟨rfl, rfl⟩, rfl, rfl, rfl, ⟨rfl, rfl⟩, rfl⟩

theorem prepareReadWrite_spec (isWrite synchronous : Bool) (buffering : Buffering) (length : ℕ) (bufferPresent : Bool) :
    Prepares ((readWrite isWrite synchronous buffering length bufferPresent).Prepared env)
      (prepareReadWrite forCaller isWrite buffering length bufferPresent env) := by
  cases buffering with
  | buffered =>
    unfold prepareReadWrite
    dsimp only
    by_cases hlength : 0 < length
    · by_cases hpool : env.bufferAllocated = true
      · refine .inl ⟨fun _ => hpool, ?_⟩
        rw [if_neg (by simp [hpool]), if_pos hlength]
        exact ⟨rfl, ⟨rfl, ⟨rfl, rfl⟩, rfl, rfl, rfl, ⟨rfl, rfl⟩, ⟨rfl, rfl⟩, rfl, rfl⟩, rfl⟩
      · refine .inr ⟨fun h => hpool (h hlength), ?_⟩
        rw [if_pos ⟨hlength, hpool⟩]
        exact ⟨by decide, gaveUp_forCaller⟩
    · refine .inl ⟨fun h => absurd h hlength, ?_⟩
      rw [if_neg (fun h => hlength h.1), if_neg hlength]
      exact ⟨rfl, ⟨rfl, ⟨rfl, rfl⟩, rfl, rfl, rfl, ⟨rfl, rfl⟩, ⟨rfl, rfl⟩, rfl, rfl⟩, rfl⟩
  | direct =>
    unfold prepareReadWrite
    dsimp only
    by_cases hlength : 0 < length
    · rw [if_pos hlength]
      rcases iopBuildMdlForBuffer_spec forCaller bufferPresent with ⟨hbuilds, heq⟩ | ⟨hnot, status, hstatus, k, heq⟩
      · rw [heq]
        exact .inl ⟨fun _ => hbuilds, rfl, ⟨rfl, ⟨rfl, rfl⟩, rfl, rfl, rfl, ⟨rfl, rfl⟩, ⟨rfl, rfl⟩, rfl, rfl⟩, rfl⟩
      · rw [heq]
        exact .inr ⟨fun h => hnot (h hlength), hstatus, ⟨rfl, rfl⟩, rfl, rfl, rfl, ⟨rfl, rfl⟩, rfl⟩
    · rw [if_neg hlength]
      exact .inl ⟨fun h => absurd h hlength, rfl, ready_forCaller, rfl⟩
  | neither => exact .inl ⟨trivial, rfl, ready_forCaller, rfl⟩

theorem prepareControl_spec (method : Buffering) (inputLength outputLength : ℕ) (inputPresent outputPresent : Bool) :
    Prepares ((deviceIoControl method inputLength outputLength inputPresent outputPresent).Prepared env)
      (prepareControl forCaller method inputLength outputLength inputPresent outputPresent env) := by
  cases method with
  | buffered =>
    unfold prepareControl
    dsimp only
    by_cases hlength : 0 < max inputLength outputLength
    · rw [if_pos hlength]
      by_cases hpool : env.bufferAllocated = true
      · rw [if_pos hpool]
        exact .inl ⟨fun _ => hpool, rfl, ⟨rfl, ⟨rfl, rfl⟩, rfl, rfl, rfl, ⟨rfl, rfl⟩, ⟨rfl, rfl⟩, rfl, rfl⟩, rfl⟩
      · rw [if_neg hpool]
        exact .inr ⟨fun h => hpool (h hlength), by decide, gaveUp_forCaller⟩
    · rw [if_neg hlength]
      exact .inl ⟨fun h => absurd h hlength, rfl, ready_forCaller, rfl⟩
  | direct =>
    unfold prepareControl
    dsimp only
    by_cases hpool : 0 < inputLength ∧ inputPresent = true ∧ ¬ env.bufferAllocated = true
    · obtain ⟨hinput, hpresent, hnot⟩ := hpool
      rw [if_pos (by simp [hinput, hpresent, hnot])]
      exact .inr ⟨fun h => hnot (h.1 hinput hpresent), by decide, gaveUp_forCaller⟩
    · have htaken : 0 < inputLength → inputPresent = true → env.bufferAllocated = true :=
        fun hinput hpresent => not_not.1 fun hnot => hpool ⟨hinput, hpresent, hnot⟩
      rw [if_neg (by simpa using htaken)]
      obtain ⟨s, hs, hready, hcaller, hmdl⟩ : ∃ s, s = (if (decide (0 < inputLength) && inputPresent) = true then
          forCaller.allocateSystemBuffer else forCaller) ∧ Ready s ∧ s.userIosb = true ∧ s.mdl = false := by
        refine ⟨_, rfl, ?_⟩
        split
        · exact ⟨⟨rfl, ⟨rfl, rfl⟩, rfl, rfl, rfl, ⟨rfl, rfl⟩, ⟨rfl, rfl⟩, rfl, rfl⟩, rfl, rfl⟩
        · exact ⟨ready_forCaller, rfl, rfl⟩
      rw [← hs]
      by_cases houtput : 0 < outputLength ∧ outputPresent = true
      · rw [if_pos houtput]
        obtain ⟨hlive, hirp, hbuffer, hcount, hunused, hunsent, hevent, hnothing⟩ := hready
        rw [hmdl] at hcount
        rcases iopBuildMdlForBuffer_spec s outputPresent with ⟨hbuilds, heq⟩ | ⟨hnot, status, hstatus, k, heq⟩
        · rw [heq]
          dsimp only
          rw [if_neg (by simp)]
          exact .inl ⟨⟨htaken, fun _ _ => hbuilds⟩, rfl,
            ⟨hlive, hirp, hbuffer, congrArg (· + 1) hcount, hunused, hunsent, hevent, hnothing⟩, hcaller⟩
        · rw [heq]
          dsimp only
          rw [if_pos hstatus]
          refine .inr ⟨fun h => hnot (h.2 houtput.1 houtput.2), hstatus, ?_⟩
          have hmdls : s.mdlFrees + k = s.mdlAllocs + k := congrArg (· + k) hcount.symm
          unfold iopFreeSystemBuffer
          dsimp only
          split
          · rename_i hsystem
            rw [hsystem] at hbuffer
            exact ⟨hirp, hbuffer.symm, hmdls, hunused, hunsent, hevent.2⟩
          · rename_i hsystem
            rw [Bool.eq_false_iff.2 hsystem] at hbuffer
            exact ⟨hirp, hbuffer.symm, hmdls, hunused, hunsent, hevent.2⟩
      · rw [if_neg houtput]
        exact .inl ⟨⟨htaken, fun hlength hpresent => absurd ⟨hlength, hpresent⟩ houtput⟩, rfl, hready, hcaller⟩
  | neither => exact .inl ⟨trivial, rfl, ready_forCaller, rfl⟩

theorem Prepares.handles_iff {prepared : Prop} {result : IrpLife × ℤ} {call : Returned} (h : Prepares prepared result)
    (hfailed : result.2 ≠ irpSuccess →
      ∃ status, call = { life := { result.1.ioFreeIrp with iosb := some status }, status := some status })
    (hsent : result.2 = irpSuccess → call.life = (result.1.ioCallDriver env.lower).1 ∧
      ∀ status, call.status = some status → (result.1.ioCallDriver env.lower).2 = status) :
    Handles true owes { call with life := call.life.completeLate } ↔ ¬ prepared ∨ env.lower.OwesNothing owes := by
  rcases h with ⟨hprepared, hsuccess, hready, hcaller⟩ | ⟨hnot, hfails, hgaveUp⟩
  · obtain ⟨hlife, hstatus⟩ := hsent hsuccess
    rw [hlife, or_iff_right (not_not.2 hprepared)]
    exact hready.handles_iff (fun _ => hcaller) hstatus
  · obtain ⟨status, hcall⟩ := hfailed hfails
    refine iff_of_true ?_ (.inl hnot)
    rw [hcall]
    have hfrees : result.1.irpFrees + 1 = result.1.irpAllocs := by rw [hgaveUp.irp.1, hgaveUp.irp.2]
    exact handles_of_unsent hfrees hgaveUp.buffer hgaveUp.mdl hgaveUp.unused hgaveUp.unsent hgaveUp.first fun _ => rfl

theorem handles_of_no_irp {path : IrpPath} (hirp : env.irpAllocated = false) (hpath : ∀ handleStatus, path ≠ .create handleStatus) :
    Handles path.callerIosb path.owes (path.run env) := by
  have hnot : ¬ env.irpAllocated = true := Bool.eq_false_iff.1 hirp
  unfold run
  cases path
  case create handleStatus => exact absurd rfl (hpath handleStatus)
  all_goals
    simp only [call, iopReadWriteFile, iopDeviceIoControl, iopSendCleanupIrp, iopSendCloseIrp,
      sendIrp, iopSendMountVolumeIrp, iopSendVerifyVolumeIrp, sendVolumeIrp, pnpQueryBusRelations, scsiReadWriteIrp,
      if_pos hnot]
    refine handles_of_unsent rfl rfl rfl rfl ⟨rfl, rfl⟩ rfl ?_
  case readWrite => exact fun _ => rfl
  case deviceIoControl => exact fun _ => rfl
  all_goals exact fun hcaller => absurd hcaller Bool.false_ne_true

section
variable (hirp : env.irpAllocated = true)
include hirp

theorem iopReadWriteFile_eq (isWrite synchronous : Bool) (buffering : Buffering)
    (length : ℕ) (bufferPresent : Bool) :
    iopReadWriteFile isWrite synchronous buffering length bufferPresent env =
      let result := prepareReadWrite forCaller isWrite buffering length bufferPresent env
      if result.2 ≠ irpSuccess then { life := { result.1.ioFreeIrp with iosb := some result.2 }, status := some result.2 }
      else
        let sent := result.1.ioCallDriver env.lower
        { life := sent.1, status := if synchronous ∧ sent.2 = irpPending then none else some sent.2 } := by
  unfold iopReadWriteFile
  rw [if_neg (not_not.2 hirp)]
  rfl

theorem iopDeviceIoControl_eq (method : Buffering) (inputLength outputLength : ℕ)
    (inputPresent outputPresent : Bool) :
    iopDeviceIoControl method inputLength outputLength inputPresent outputPresent env =
      let result := prepareControl forCaller method inputLength outputLength inputPresent outputPresent env
      if result.2 ≠ irpSuccess then
        { life := { result.1.ioFreeIrp with iosb := some irpInsufficientResources }, status := some irpInsufficientResources }
      else
        let sent := result.1.ioCallDriver env.lower
        { life := sent.1, status := some sent.2 } := by
  unfold iopDeviceIoControl
  dsimp only
  rw [if_neg (not_not.2 hirp)]
  rfl

theorem handles_readWrite_iff (isWrite synchronous : Bool) (buffering : Buffering)
    (length : ℕ) (bufferPresent : Bool) :
    let path := readWrite isWrite synchronous buffering length bufferPresent
    Handles true path.owes (path.run env) ↔ ¬ path.Prepared env ∨ env.lower.OwesNothing path.owes := by
  intro path
  unfold run
  refine (prepareReadWrite_spec isWrite synchronous buffering length bufferPresent).handles_iff (fun hfailed => ?_) fun hsuccess => ?_
  all_goals
    simp only [path, call]
    rw [iopReadWriteFile_eq hirp]
    dsimp only
  · rw [if_pos hfailed]
    exact ⟨_, rfl⟩
  · rw [if_neg (not_not.2 hsuccess)]
    refine ⟨rfl, fun status hstatus => ?_⟩
    dsimp only at hstatus
    split at hstatus
    · cases hstatus
    · exact Option.some.inj hstatus

theorem handles_deviceIoControl_iff (method : Buffering) (inputLength outputLength : ℕ)
    (inputPresent outputPresent : Bool) :
    let path := deviceIoControl method inputLength outputLength inputPresent outputPresent
    Handles true path.owes (path.run env) ↔ ¬ path.Prepared env ∨ env.lower.OwesNothing path.owes := by
  intro path
  unfold run
  refine (prepareControl_spec method inputLength outputLength inputPresent outputPresent).handles_iff (fun hfailed => ?_) fun hsuccess => ?_
  all_goals
    simp only [path, call]
    rw [iopDeviceIoControl_eq hirp]
    dsimp only
  · rw [if_pos hfailed]
    exact ⟨_, rfl⟩
  · rw [if_neg (not_not.2 hsuccess)]
    exact ⟨rfl, fun status hstatus => Option.some.inj hstatus⟩

end

theorem ready_allocated : Ready allocated := by
  refine ⟨rfl, ⟨rfl, rfl⟩, rfl, rfl, rfl, ⟨rfl, rfl⟩, ⟨rfl, rfl⟩, rfl, rfl⟩

theorem handles_sendIrp_iff (hirp : env.irpAllocated = true) :
    Handles false 0 { sendIrp env with life := (sendIrp env).life.completeLate } ↔ env.lower ≠ .rejected := by
  have hsend : sendIrp env = { life := (allocated.ioCallDriver env.lower).1
                               status := some (allocated.ioCallDriver env.lower).2 } := by
    unfold sendIrp
    rw [if_neg (not_not.2 hirp)]
  rw [hsend]
  have hno : false = true → allocated.userIosb = true := fun h => by cases h
  refine (ready_allocated.handles_iff hno fun st hst => Option.some.inj hst).trans ?_
  cases env.lower <;> simp [Lower.OwesNothing]

/-- The IRP of a create, completed and freed. -/
def createdLife (iosb : Option ℤ) (status final : ℤ) (information : ℕ) : IrpLife :=
  { allocated with live := false, irpFrees := 1, status, information, iosb, final := some final }

theorem handles_createdLife_iff {iosb : Option ℤ} {final returned : ℤ} :
    Handles true 0 { life := createdLife iosb status final information, status := some returned } ↔
      iosb = some final ∧ (returned ≠ irpPending → returned = final) := by
  constructor
  · exact fun h => ⟨h.written rfl _ rfl, fun hpending => (h.told _ rfl hpending).1 _ rfl⟩
  · rintro ⟨hiosb, hreturned⟩
    refine ⟨rfl, rfl, rfl, rfl, ?_, fun _ _ hf => hiosb.trans hf, rfl, fun _ _ _ => Nat.le_of_eq (Nat.min_zero _)⟩
    rintro st ⟨⟩ hpending
    obtain rfl := hreturned hpending
    exact ⟨fun _ hf => Option.some.inj hf, fun _ => hiosb⟩

theorem handles_create_iff (handleStatus : ℤ) :
    Handles true 0 ((create handleStatus).run env) ↔ env.irpAllocated = true ∧ env.lower.Tells handleStatus := by
  unfold run call iopCreateFile iopSendCreateIrp sendIrp
  dsimp only
  by_cases hirp : env.irpAllocated = true
  swap
  · rw [if_pos hirp]
    refine iff_of_false (fun h => ?_) fun h => hirp h.1
    cases (h.told irpInsufficientResources rfl (by decide)).2 rfl
  rw [if_neg (not_not.2 hirp), and_iff_right hirp]
  cases hlower : env.lower with
  | rejected =>
    have hstatus : (allocated.ioCallDriver .rejected).2 = irpInvalidDeviceRequest := rfl
    rw [hstatus, if_pos (by decide)]
    exact iff_of_false (fun h => absurd h.irp (by decide)) id
  | completed status information =>
    have hsent : allocated.ioCallDriver (.completed status information) = (createdLife none status status information, status) := rfl
    rw [hsent]
    dsimp only [Lower.Tells]
    by_cases hsuccess : status = irpSuccess
    · subst hsuccess
      rw [if_neg (by simp)]
      refine iff_of_true ?_ (.inl rfl)
      by_cases hhandle : handleStatus = irpSuccess
      · rw [if_neg (not_not.2 hhandle)]
        exact handles_createdLife_iff.2 ⟨rfl, fun _ => rfl⟩
      · rw [if_pos hhandle, if_neg (by decide)]
        exact handles_createdLife_iff.2 ⟨rfl, fun _ => rfl⟩
    rw [or_iff_right hsuccess]
    by_cases hpending : status = irpPending
    · subst hpending
      rw [if_neg (by simp), and_iff_right rfl, if_pos rfl]
      unfold reported
      by_cases hhandle : handleStatus = irpSuccess
      · rw [if_neg (not_not.2 hhandle), if_pos hhandle]
        exact iff_of_true (handles_createdLife_iff.2 ⟨rfl, fun h => absurd rfl h⟩) rfl
      · rw [if_pos hhandle, if_neg hhandle]
        refine handles_createdLife_iff.trans ⟨fun h => Option.some.inj h.1, ?_⟩
        rintro rfl
        exact ⟨rfl, fun h => absurd rfl h⟩
    · rw [if_pos (by simp [hsuccess, hpending])]
      refine iff_of_false (fun h => ?_) fun h => hpending h.1
      cases (handles_createdLife_iff.1 h).1
  | pended early status information =>
    have hstatus : (allocated.ioCallDriver (.pended early status information)).2 = irpPending := rfl
    rw [hstatus, if_neg (by simp), if_pos rfl]
    dsimp only [Lower.Tells]
    unfold reported
    by_cases hhandle : handleStatus = irpSuccess
    · rw [if_neg (not_not.2 hhandle), if_pos hhandle]
      cases early
      all_goals
        refine handles_createdLife_iff.trans ⟨fun h => (Option.some.inj h.1).symm, ?_⟩
        rintro rfl
        exact ⟨rfl, fun h => absurd rfl h⟩
    · rw [if_pos hhandle, if_neg hhandle]
      cases early
      all_goals
        refine handles_createdLife_iff.trans ⟨fun h => (Option.some.inj h.1).symm, ?_⟩
        rintro rfl
        exact ⟨rfl, fun _ => rfl⟩

theorem useIrp_counts (s : IrpLife) :
    s.useIrp.irpAllocs = s.irpAllocs ∧ s.useIrp.irpFrees = s.irpFrees ∧ s.useIrp.pended = s.pended := by
  unfold useIrp
  split <;> exact ⟨rfl, rfl, rfl⟩

theorem complete_counts (s : IrpLife) (status : ℤ) (information : ℕ) :
    (s.complete status information).irpAllocs = s.irpAllocs ∧
      (s.complete status information).irpFrees = s.irpFrees + 1 ∧ (s.complete status information).pended = s.pended := by
  obtain ⟨hallocs, hfrees, hpended⟩ := useIrp_counts s
  unfold complete finish iopCleanupMdl iopFreeSystemBuffer ioFreeIrp
  dsimp only
  rw [← hallocs, ← hfrees, ← hpended]
  split <;> split <;> split <;> exact ⟨rfl, rfl, rfl⟩

structure Passed (s : IrpLife) : Prop where
  allocs : s.irpAllocs = 1
  frees : (s.irpFrees = 1 ∧ s.pended = none) ∨ (s.irpFrees = 0 ∧ s.pended ≠ none)

theorem Passed.useIrp (h : Passed s) : Passed s.useIrp := by
  obtain ⟨hallocs, hfrees, hpended⟩ := useIrp_counts s
  refine ⟨hallocs.trans h.allocs, ?_⟩
  rw [hfrees, hpended]
  exact h.frees

theorem Passed.useIrpIf (h : Passed s) (P : Prop) [Decidable P] : Passed (if P then s.useIrp else s) := by
  split
  · exact h.useIrp
  · exact h

theorem Passed.completeLate (h : Passed s) : Passed s.completeLate := by
  cases hpended : s.pended with
  | none =>
    rw [completeLate_of_none hpended]
    exact h
  | some held =>
    obtain ⟨status, information⟩ := held
    obtain ⟨hallocs, hfrees, hnone⟩ := complete_counts { s with pended := none } status information
    have hzero : s.irpFrees = 0 := by
      rcases h.frees with ⟨-, hnone⟩ | ⟨hzero, -⟩
      · rw [hpended] at hnone
        cases hnone
      · exact hzero
    unfold IrpLife.completeLate
    rw [hpended]
    refine ⟨hallocs.trans h.allocs, .inl ⟨?_, hnone⟩⟩
    rw [hfrees]
    exact congrArg (· + 1) hzero

theorem passed_callDriver (hallocs : s.irpAllocs = 1) (hfrees : s.irpFrees = 0) (hpended : s.pended = none)
    {lower : Lower} (hlower : lower ≠ .rejected) (notCalled : ℤ) : Passed (s.callDriver lower notCalled).1 := by
  have hcomplete (status : ℤ) (information : ℕ) : Passed (s.complete status information) := by
    obtain ⟨hsame, hone, hnone⟩ := complete_counts s status information
    exact ⟨hsame.trans hallocs, .inl ⟨by rw [hone, hfrees], hnone.trans hpended⟩⟩
  cases lower with
  | rejected => exact absurd rfl hlower
  | completed status information => exact hcomplete status information
  | pended early status information =>
    cases early with
    | true => exact hcomplete status information
    | false => exact ⟨hallocs, .inr ⟨hfrees, by simp [callDriver]⟩⟩

theorem Passed.not_handles (h : Passed s) :
    ¬ Handles callerIosb owes { life := s.ioFreeIrp.completeLate, status := returned } := by
  intro hhandles
  have hreleased : s.ioFreeIrp.completeLate.irpFrees = s.ioFreeIrp.completeLate.irpAllocs := hhandles.irp
  have hallocs : s.ioFreeIrp.irpAllocs = 1 := h.allocs
  rcases h.frees with ⟨hone, hnone⟩ | ⟨hzero, hheld⟩
  · rw [completeLate_of_none (show s.ioFreeIrp.pended = none from hnone), hallocs] at hreleased
    change s.irpFrees + 1 = 1 at hreleased
    omega
  · obtain ⟨⟨status, information⟩, hpended⟩ := Option.ne_none_iff_exists'.1 hheld
    have hlate : s.ioFreeIrp.completeLate = ({ s.ioFreeIrp with pended := none } : IrpLife).complete status information := by
      unfold IrpLife.completeLate
      rw [show s.ioFreeIrp.pended = some (status, information) from hpended]
    obtain ⟨hsame, hfrees, -⟩ := complete_counts { s.ioFreeIrp with pended := none } status information
    rw [hlate, hsame, hfrees] at hreleased
    change s.irpFrees + 1 + 1 = s.irpAllocs at hreleased
    rw [h.allocs] at hreleased
    omega

section
variable (hirp : env.irpAllocated = true)
include hirp

theorem not_handles_sendVolumeIrp :
    ¬ Handles false 0 { sendVolumeIrp env with life := (sendVolumeIrp env).life.completeLate } := by
  unfold sendVolumeIrp
  rw [if_neg (not_not.2 hirp)]
  by_cases hlower : env.lower = .rejected
  · intro h
    have htold := h.told
    rw [hlower] at htold
    exact absurd ((htold 0 rfl (by decide)).1 irpInvalidDeviceRequest rfl) (by decide)
  · have hpassed : Passed ({ allocated with userEvent := true }.ioCallDriver env.lower).1 :=
      passed_callDriver rfl rfl rfl hlower _
    dsimp only
    split
    · exact hpassed.completeLate.useIrp.not_handles
    · exact hpassed.useIrp.not_handles

theorem not_handles_pnpQueryBusRelations :
    ¬ Handles false 0 { pnpQueryBusRelations env with life := (pnpQueryBusRelations env).life.completeLate } := by
  unfold pnpQueryBusRelations
  rw [if_neg (not_not.2 hirp)]
  by_cases hlower : env.lower = .rejected
  · intro h
    have htold := h.told
    rw [hlower] at htold
    exact absurd ((htold irpSuccess rfl (by decide)).1 irpNotSupported rfl) (by decide)
  · have hpassed : Passed ({ allocated with status := irpNotSupported }.callDriver env.lower irpNotSupported).1 :=
      passed_callDriver rfl rfl rfl hlower _
    exact (hpassed.useIrpIf _).not_handles

theorem handles_scsi_iff :
    Handles false 0 { scsiReadWriteIrp env with life := (scsiReadWriteIrp env).life.completeLate } ↔
      env.lower = .rejected := by
  unfold scsiReadWriteIrp
  rw [if_neg (not_not.2 hirp)]
  by_cases hlower : env.lower = .rejected
  · rw [hlower]
    refine iff_of_true ⟨rfl, rfl, rfl, rfl, ?_, ?_, rfl, ?_⟩ rfl
    · rintro status ⟨⟩ -
      exact ⟨fun final hfinal => Option.some.inj hfinal, fun hcaller => by cases hcaller⟩
    · rintro ⟨⟩
    · rintro final ⟨⟩ hsuccess
      exact absurd hsuccess (by decide)
  · refine iff_of_false ?_ hlower
    have hpassed : Passed ({ allocated with status := irpNotSupported }.ioCallDriver env.lower).1 :=
      passed_callDriver rfl rfl rfl hlower _
    exact ((hpassed.useIrpIf _).useIrpIf _).not_handles

end

/-- A path handles its IRP exactly if it gets none, gives up before it is sent, or sends it to a
driver whose completion ends it; a create exactly if its status block tells how the IRP ends. -/
theorem path_handles_iff (path : IrpPath) (env : IrpEnv) :
    Handles path.callerIosb path.owes (path.run env) ↔ path.Spares env := by
  by_cases hirp : env.irpAllocated = true
  · have hnone : ¬ env.irpAllocated = false := by simp [hirp]
    cases path with
    | readWrite isWrite synchronous buffering length bufferPresent =>
      exact (handles_readWrite_iff hirp isWrite synchronous buffering length bufferPresent).trans (or_iff_right hnone).symm
    | deviceIoControl method inputLength outputLength inputPresent outputPresent =>
      exact (handles_deviceIoControl_iff hirp method inputLength outputLength inputPresent outputPresent).trans (or_iff_right hnone).symm
    | create handleStatus => exact handles_create_iff handleStatus
    | cleanup | close => exact (handles_sendIrp_iff hirp).trans (or_iff_right hnone).symm
    | mountVolume | verifyVolume => exact iff_of_false (not_handles_sendVolumeIrp hirp) fun h => h.elim hnone id
    | busRelations => exact iff_of_false (not_handles_pnpQueryBusRelations hirp) fun h => h.elim hnone id
    | scsi => exact (handles_scsi_iff hirp).trans (or_iff_right hnone).symm
  · have hfailed := Bool.eq_false_iff.2 hirp
    cases path
    case create handleStatus => exact handles_create_iff handleStatus
    all_goals exact iff_of_true (handles_of_no_irp hfailed nofun) (.inl hfailed)

def completedAtOnce (status : ℤ) (information : ℕ) : IrpEnv where
  irpAllocated := true
  bufferAllocated := true
  mdl := { allocated := true, lockStatus := irpSuccess, mapped := true }
  lower := .completed status information

/-- A completed mount request is read after it was freed, and freed again. -/
theorem mount_read_after_free : ¬ Handles false 0 (mountVolume.run (completedAtOnce irpSuccess 0)) := by
  intro h
  have hunused := h.unused
  revert hunused
  decide

end XenOS.Io
