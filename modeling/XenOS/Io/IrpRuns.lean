import XenOS.General.Run
import XenOS.Io.Irp
import Mathlib.Tactic.Linarith

/-! An IRP on its way through a device stack. Each driver that has it copies or skips its location
and calls down, marks it pending or completes it. A run keeps who registered which routine and where
the IRP was marked pending, and so which routines a completion owes. -/

namespace XenOS.Io

open General Irp
open Function (update update_self update_of_ne update_idem)

inductive IrpOp
  | copyAndCall (registration : Option Registration)
  | skipAndCall
  | markPending
  | cancel
  | complete (status : ℤ) (more : ℤ → Bool)

structure Registered where
  registration : Registration
  registrar : ℕ

/-- An IRP with the devices below it. `holder` is the depth of the driver's device, `registered` and
`marked` speak of a location, `calls` of the last completion. -/
structure IrpRun where
  irp : Irp
  holder : ℕ
  registered : ℤ → Option Registered
  marked : ℤ → Bool
  calls : List Call
  freed : Bool
  panicked : Bool

namespace IrpRun

/-! ### Steps -/

def callDown (s : IrpRun) (irp : Irp) : IrpRun :=
  { s with irp := irp.iofCallDriver (s.holder + 1), holder := s.holder + 1 }

def copied (irp : Irp) (registration : Option Registration) : Option Irp := do
  let irp ← irp.ioCopyCurrentIrpStackLocationToNext
  match registration with
  | some r => irp.ioSetCompletionRoutine r
  | none => return irp

/-- The driver that has the IRP after a completion: the one that registered the routine of the location the
walk stopped at. -/
def holderAfter (s : IrpRun) (calls : List Call) : ℕ :=
  match calls.getLast? with
  | some call => ((s.registered call.location).map Registered.registrar).getD s.holder
  | none => s.holder

def step (s : IrpRun) : IrpOp → IrpRun
  | .copyAndCall registration =>
    let below := s.irp.currentLocation - 1
    match copied s.irp registration with
    | some irp =>
      { s.callDown irp with
        registered := update s.registered below (registration.map fun r => ⟨r, s.holder⟩)
        marked := update s.marked below false }
    | none => { s with panicked := true }
  | .skipAndCall => s.callDown s.irp.ioSkipCurrentIrpStackLocation
  | .markPending =>
    { s with irp := s.irp.ioMarkIrpPending, marked := update s.marked s.irp.currentLocation true }
  | .cancel => { s with irp := { s.irp with cancel := true } }
  | .complete status more =>
    match ({ s.irp with status } : Irp).iofCompleteRequest more with
    | some completion =>
      { s with
        irp := completion.irp
        calls := completion.calls
        freed := completion.freed
        holder := s.holderAfter completion.calls }
    | none => { s with panicked := true }

/-- The IRP of `n` locations when the top driver has got it. -/
def start (irp : Irp) : IrpRun where
  irp := irp.iofCallDriver 0
  holder := 0
  registered := fun _ => none
  marked := fun _ => false
  calls := []
  freed := false
  panicked := false

/-- Calling down needs a device below, and nothing is done to an IRP that is gone. -/
def Admits (n : ℕ) (s : IrpRun) : IrpOp → Prop
  | .copyAndCall _ | .skipAndCall => s.freed = false ∧ s.holder + 1 < n
  | .markPending | .cancel | .complete _ _ => s.freed = false

/-! ### What a completion owes -/

def Matches (s : IrpRun) (status : ℤ) (r : Registration) : Prop :=
  (0 ≤ status ∧ r.onSuccess) ∨ (status < 0 ∧ r.onError) ∨ (s.irp.cancel ∧ r.onCancel)

instance (s : IrpRun) (status : ℤ) (r : Registration) : Decidable (s.Matches status r) := by
  unfold Matches
  infer_instance

/-- The call owed for a location: the registered routine, its device, and whether that driver marked
the IRP pending. -/
def owedCall (s : IrpRun) (status : ℤ) (location : ℤ) : Option Call :=
  match s.registered location with
  | some r =>
    if s.Matches status r.registration then
      some
        { routine := r.registration.routine
          deviceObject := some r.registrar
          context := r.registration.context
          pendingReturned := s.marked location
          location }
    else none
  | none => none

/-- The calls owed for `count` locations from `location` upward, the last one being the first that asks for
more processing. -/
def owedCalls (s : IrpRun) (status : ℤ) (more : ℤ → Bool) : ℕ → ℤ → List Call
  | 0, _ => []
  | count + 1, location =>
    match s.owedCall status location with
    | some call => if more location then [call] else call :: s.owedCalls status more count (location + 1)
    | none => s.owedCalls status more count (location + 1)

/-- The location number stays on the stack, one below the end at the most, and the pointer is that of the location it numbers. -/
structure Points (s : IrpRun) : Prop where
  running : s.panicked = false
  lower : 1 ≤ s.irp.currentLocation
  upper : s.irp.currentLocation ≤ s.irp.stackCount + 1
  fits : s.irp.currentLocation ≤ 127
  pointer : s.irp.currentStackLocation = s.irp.currentLocation - 1

/-- A completion makes the owed calls and stops above a routine that asked for more, or passes the
top and frees the IRP. -/
structure Completes (s : IrpRun) (status : ℤ) (more : ℤ → Bool) (s' : IrpRun) : Prop where
  calls : s'.calls =
    s.owedCalls status more (s.irp.stackCount + 1 - s.irp.currentLocation).toNat s.irp.currentLocation
  stops : ∀ call, s'.calls.getLast? = some call → more call.location →
    s'.freed = false ∧ s'.irp.currentLocation = call.location + 1
  frees : (∀ call ∈ s'.calls, more call.location = false) →
    s'.freed = true ∧ s'.irp.currentLocation = s'.irp.stackCount + 1

def WalksCorrectly (s : IrpRun) (op : IrpOp) : Prop :=
  (s.step op).Points ∧
    match op with
    | .complete status more => s.Completes status more (s.step op)
    | _ => True

def NoneDue (s : IrpRun) : IrpOp → Prop
  | .complete status _ => ∀ location, s.irp.currentLocation ≤ location → ∀ r ∈ s.registered location,
    ¬ s.Matches status r.registration
  | _ => True

/-! ### One step -/

variable {n : ℕ} {s : IrpRun} {status : ℤ} {more : ℤ → Bool}

theorem hasFlag_controlOf (r : Registration) :
    hasFlag (controlOf r) slInvokeOnSuccess = r.onSuccess ∧ hasFlag (controlOf r) slInvokeOnError = r.onError ∧
      hasFlag (controlOf r) slInvokeOnCancel = r.onCancel := by
  have hbits : ∀ a b c : Bool,
      let control := (if a then slInvokeOnSuccess else 0#8) ||| (if b then slInvokeOnError else 0#8) |||
        (if c then slInvokeOnCancel else 0#8)
      hasFlag control slInvokeOnSuccess = a ∧ hasFlag control slInvokeOnError = b ∧
        hasFlag control slInvokeOnCancel = c := by decide
  exact hbits r.onSuccess r.onError r.onCancel

theorem hasFlag_pending (control : BitVec 8) :
    hasFlag (control ||| slPendingReturned) slInvokeOnSuccess = hasFlag control slInvokeOnSuccess ∧
      hasFlag (control ||| slPendingReturned) slInvokeOnError = hasFlag control slInvokeOnError ∧
      hasFlag (control ||| slPendingReturned) slInvokeOnCancel = hasFlag control slInvokeOnCancel := by
  unfold hasFlag
  simp only [BitVec.and_comm _ slInvokeOnSuccess, BitVec.and_comm _ slInvokeOnError,
    BitVec.and_comm _ slInvokeOnCancel, BitVec.and_or_distrib_left]
  refine ⟨?_, ?_, ?_⟩
  · rw [show slInvokeOnSuccess &&& slPendingReturned = 0#8 from by decide, BitVec.or_zero]
  · rw [show slInvokeOnError &&& slPendingReturned = 0#8 from by decide, BitVec.or_zero]
  · rw [show slInvokeOnCancel &&& slPendingReturned = 0#8 from by decide, BitVec.or_zero]

/-- A location that holds a registered routine. The device it names is deeper than the one whose driver
registered the routine. -/
structure Holds (location : IoStackLocation) (r : Registered) : Prop where
  routine : location.completionRoutine = some r.registration.routine
  onSuccess : hasFlag location.control slInvokeOnSuccess = r.registration.onSuccess
  onError : hasFlag location.control slInvokeOnError = r.registration.onError
  onCancel : hasFlag location.control slInvokeOnCancel = r.registration.onCancel
  device : ∃ d, location.deviceObject = some d ∧ r.registrar < d

def Agrees (location : IoStackLocation) : Option Registered → Prop
  | some r => Holds location r
  | none => location.completionRoutine = none

/-- The run of an IRP that no completion has reached yet. The number of the location bounds the number of
devices still below. -/
structure Going (n : ℕ) (s : IrpRun) : Prop where
  depth : s.holder < n
  room : (n : ℤ) ≤ s.irp.currentLocation + s.holder
  upper : s.irp.currentLocation ≤ n
  device : (s.irp.stack (s.irp.currentLocation - 1)).deviceObject = some s.holder
  agrees : ∀ l, s.irp.currentLocation ≤ l → Agrees (s.irp.stack (l - 1)) (s.registered l)
  unused : ∀ l, l < s.irp.currentLocation → Agrees (s.irp.stack (l - 1)) none ∧ s.registered l = none
  top : ∀ l : ℤ, (n : ℤ) < l → s.registered l = none

structure Sound (n : ℕ) (s : IrpRun) : Prop where
  points : s.Points
  count : s.irp.stackCount = n
  small : n ≤ 126
  pending : s.irp.pendingReturned = false
  going : s.freed = false → Going n s

theorem Agrees.setDevice {location : IoStackLocation} {r : Option Registered} {d : ℕ} (h : Agrees location r)
    (hd : ∀ d', location.deviceObject = some d' → d' ≤ d) : Agrees { location with deviceObject := some d } r := by
  cases r with
  | none => exact h
  | some r =>
    obtain ⟨d', hd', hlt⟩ := h.device
    exact ⟨h.routine, h.onSuccess, h.onError, h.onCancel, d, rfl, hlt.trans_le (hd d' hd')⟩

theorem copied_spec {irp : Irp} (hroom : 1 < irp.currentLocation) (registration : Option Registration) {k : ℕ}
    (hnone : (irp.stack (irp.currentStackLocation - 1)).completionRoutine = none) :
    ∃ location, copied irp registration = some (irp.setLocation (irp.currentStackLocation - 1) location) ∧
      Agrees { location with deviceObject := some (k + 1) } (registration.map fun r => ⟨r, k⟩) := by
  have hnext : irp.ioGetNextIrpStackLocation = some (irp.currentStackLocation - 1) := if_neg (not_le.2 hroom)
  cases registration with
  | none =>
    refine ⟨{ irp.stack (irp.currentStackLocation - 1) with
      parameters := (irp.stack irp.currentStackLocation).parameters
      deviceObject := (irp.stack irp.currentStackLocation).deviceObject }, ?_, hnone⟩
    unfold copied ioCopyCurrentIrpStackLocationToNext
    rw [hnext]
    rfl
  | some r =>
    obtain ⟨honSuccess, honError, honCancel⟩ := hasFlag_controlOf r
    refine ⟨{ irp.stack (irp.currentStackLocation - 1) with
      parameters := (irp.stack irp.currentStackLocation).parameters
      deviceObject := (irp.stack irp.currentStackLocation).deviceObject
      completionRoutine := some r.routine, context := r.context, control := controlOf r }, ?_,
      rfl, honSuccess, honError, honCancel, k + 1, rfl, Nat.lt_succ_self k⟩
    unfold copied ioCopyCurrentIrpStackLocationToNext
    rw [hnext]
    change (setLocation irp _ _).ioSetCompletionRoutine r = _
    unfold ioSetCompletionRoutine
    rw [show (setLocation irp _ _).ioGetNextIrpStackLocation = _ from hnext]
    simp only [setLocation, update_self, update_idem, Option.bind_eq_bind, Option.bind_some,
      pure]
    rfl

theorem sound_start {irp : Irp} (hirp : ioAllocateIrp n = some irp) (hn : n ≤ 126) : Sound n (start irp) := by
  unfold ioAllocateIrp at hirp
  split at hirp
  · cases hirp
  · rename_i hpos
    have hirp := (Option.some.inj hirp).symm
    subst hirp
    have hcurrent : (n : ℤ) + 1 - 1 = n := by omega
    refine ⟨⟨rfl, ?_, ?_, ?_, ?_⟩, rfl, hn, rfl, fun _ => ⟨?_, ?_, ?_, ?_, ?_, ?_, fun _ _ => rfl⟩⟩
    all_goals simp only [start, iofCallDriver, ioSetNextIrpStackLocation, setLocation, hcurrent,
      ioGetCurrentIrpStackLocation]
    · omega
    · omega
    · omega
    · omega
    · omega
    · simp
    · simp
    · intro l hl
      by_cases hat : l = n
      · rw [hat, update_self]
        rfl
      · rw [update_of_ne (by omega)]
        rfl
    · intro l hl
      rw [update_of_ne (by omega)]
      exact ⟨rfl, trivial⟩

theorem Sound.copyAndCall (h : Sound n s) {registration : Option Registration}
    (hadmits : Admits n s (.copyAndCall registration)) : Sound n (s.step (.copyAndCall registration)) := by
  obtain ⟨hfreed, hbelow⟩ := hadmits
  obtain ⟨hdepth, hroom, hupper, hdevice, hagrees, hunused, htop⟩ := h.going hfreed
  have hpointer := h.points.pointer
  have hone : 1 < s.irp.currentLocation := by omega
  have hnext : s.irp.currentStackLocation - 1 = s.irp.currentLocation - 1 - 1 := by omega
  obtain ⟨location, hcopied, hlocation⟩ := copied_spec hone registration (k := s.holder)
    (by
      rw [hnext]
      exact (hunused (s.irp.currentLocation - 1) (by omega)).1)
  unfold step
  dsimp only
  rw [hcopied]
  refine ⟨⟨h.points.running, ?_, ?_, ?_, ?_⟩, h.count, h.small, h.pending,
    fun _ => ⟨hbelow, ?_, ?_, ?_, ?_, ?_, ?_⟩⟩
  all_goals simp only [callDown, iofCallDriver, ioSetNextIrpStackLocation, setLocation,
    ioGetCurrentIrpStackLocation, hnext, update_self, update_idem]
  · omega
  · have := h.points.upper
    omega
  · have := h.points.fits
    omega
  · push_cast
    omega
  · omega
  · intro l hl
    by_cases hat : l = s.irp.currentLocation - 1
    · rw [hat, update_self, update_self]
      exact hlocation
    · rw [update_of_ne (by omega), update_of_ne hat]
      exact hagrees l (by omega)
  · intro l hl
    rw [update_of_ne (by omega), update_of_ne (by omega)]
    exact hunused l (by omega)
  · intro l hl
    rw [update_of_ne (by omega)]
    exact htop l hl

theorem Sound.skipAndCall (h : Sound n s) (hadmits : Admits n s .skipAndCall) : Sound n (s.step .skipAndCall) := by
  obtain ⟨hfreed, hbelow⟩ := hadmits
  obtain ⟨hdepth, hroom, hupper, hdevice, hagrees, hunused, htop⟩ := h.going hfreed
  have hpointer := h.points.pointer
  have hback : s.irp.currentLocation + 1 - 1 = s.irp.currentLocation := by omega
  have hstack : s.irp.currentStackLocation + 1 - 1 = s.irp.currentLocation - 1 := by omega
  refine ⟨⟨h.points.running, ?_, ?_, ?_, ?_⟩, h.count, h.small, h.pending,
    fun _ => ⟨hbelow, ?_, ?_, ?_, ?_, ?_, ?_⟩⟩
  all_goals simp only [step, callDown, iofCallDriver, ioSetNextIrpStackLocation, setLocation,
    ioGetCurrentIrpStackLocation, ioSkipCurrentIrpStackLocation, hback, hstack, update_self]
  · exact h.points.lower
  · exact h.points.upper
  · exact h.points.fits
  · push_cast
    omega
  · exact hupper
  · intro l hl
    by_cases hat : l = s.irp.currentLocation
    · rw [hat, update_self]
      refine (hagrees s.irp.currentLocation (le_refl _)).setDevice ?_
      intro d hd
      rw [hdevice] at hd
      have := Option.some.inj hd
      omega
    · rw [update_of_ne (by omega)]
      exact hagrees l hl
  · intro l hl
    rw [update_of_ne (by omega)]
    exact hunused l hl
  · exact htop

theorem Agrees.mark {location : IoStackLocation} {r : Option Registered} (h : Agrees location r) :
    Agrees { location with control := location.control ||| slPendingReturned } r := by
  obtain ⟨honSuccess, honError, honCancel⟩ := hasFlag_pending location.control
  cases r with
  | none => exact h
  | some r =>
    exact ⟨h.routine, honSuccess.trans h.onSuccess, honError.trans h.onError, honCancel.trans h.onCancel, h.device⟩

theorem Sound.markPending (h : Sound n s) (hadmits : Admits n s .markPending) : Sound n (s.step .markPending) := by
  obtain ⟨hdepth, hroom, hupper, hdevice, hagrees, hunused, htop⟩ := h.going hadmits
  refine ⟨⟨h.points.running, h.points.lower, h.points.upper, h.points.fits, h.points.pointer⟩, h.count, h.small,
    h.pending, fun _ => ⟨hdepth, hroom, hupper, ?_, ?_, ?_, ?_⟩⟩
  all_goals simp only [step, ioMarkIrpPending, setLocation, ioGetCurrentIrpStackLocation,
    h.points.pointer, update_self]
  · exact hdevice
  · intro l hl
    by_cases hat : l = s.irp.currentLocation
    · rw [hat, update_self]
      exact (hagrees s.irp.currentLocation (le_refl _)).mark
    · rw [update_of_ne (by omega)]
      exact hagrees l hl
  · intro l hl
    rw [update_of_ne (by omega)]
    exact hunused l hl
  · exact htop

theorem Sound.cancel (h : Sound n s) : Sound n (s.step .cancel) :=
  ⟨⟨h.points.running, h.points.lower, h.points.upper, h.points.fits, h.points.pointer⟩, h.count, h.small, h.pending,
    fun hfreed =>
      let going := h.going hfreed
      ⟨going.depth, going.room, going.upper, going.device, going.agrees, going.unused, going.top⟩⟩

/-! ### A completion -/

theorem Going.not_shouldCall (h : Going n s) (hnone : s.NoneDue (.complete status more)) (l : ℤ)
    (hl : s.irp.currentLocation ≤ l) (routine : ℕ) (hroutine : routine ∈ (s.irp.stack (l - 1)).completionRoutine) :
    ({ s.irp with status } : Irp).shouldCall (s.irp.stack (l - 1)).control = false := by
  have hagrees := h.agrees l hl
  cases hregistered : s.registered l with
  | none =>
    rw [hregistered] at hagrees
    rw [show (s.irp.stack (l - 1)).completionRoutine = none from hagrees] at hroutine
    cases hroutine
  | some r =>
    rw [hregistered] at hagrees
    have hdue := hnone l hl r hregistered
    unfold Matches at hdue
    rw [shouldCall, hagrees.onSuccess, hagrees.onError, hagrees.onCancel, Bool.eq_false_iff]
    simpa [and_comm, or_assoc] using hdue

theorem Going.iofCompleteRequest_of_noneDue (h : Going n s) (hs : Sound n s)
    (hnone : s.NoneDue (.complete status more)) :
    ({ s.irp with status } : Irp).iofCompleteRequest more = some
      { irp := ({ s.irp with status } : Irp).movedUp (s.irp.stackCount + 1 - s.irp.currentLocation).toNat
        calls := []
        freed := true } := by
  unfold iofCompleteRequest
  dsimp only
  rw [if_neg, completeLoop_of_none]
  · exact hs.pending
  · exact h.not_shouldCall hnone
  · have := hs.points.lower
    have := hs.points.upper
    omega

theorem owedCalls_of_noneDue (hnone : s.NoneDue (.complete status more)) (count : ℕ) (l : ℤ)
    (hl : s.irp.currentLocation ≤ l) : s.owedCalls status more count l = [] := by
  induction count generalizing l with
  | zero => rfl
  | succ count ih =>
    have howed : s.owedCall status l = none := by
      unfold owedCall
      split
      · rename_i r hregistered
        exact if_neg (hnone l hl r hregistered)
      · rfl
    unfold owedCalls
    rw [howed]
    exact ih (l + 1) (by omega)

theorem Sound.complete (h : Sound n s) (hadmits : Admits n s (.complete status more))
    (hnone : s.NoneDue (.complete status more)) :
    Sound n (s.step (.complete status more)) ∧ s.Completes status more (s.step (.complete status more)) := by
  have hgoing := h.going hadmits
  have hupper := h.points.upper
  have hpointer := h.points.pointer
  have hcount := h.count
  have hlast : s.irp.currentLocation + ((s.irp.stackCount + 1 - s.irp.currentLocation).toNat : ℤ) =
      s.irp.stackCount + 1 := by omega
  have hfits : s.irp.stackCount + 1 ≤ 127 := by
    have := h.small
    omega
  have hstep : s.step (.complete status more) =
      { s with
        irp := ({ s.irp with status } : Irp).movedUp (s.irp.stackCount + 1 - s.irp.currentLocation).toNat
        calls := []
        freed := true
        holder := s.holder } := by
    unfold step
    dsimp only
    rw [hgoing.iofCompleteRequest_of_noneDue h hnone]
    rfl
  rw [hstep]
  refine ⟨⟨⟨h.points.running, ?_, ?_, ?_, ?_⟩, hcount, h.small, h.pending, fun hfreed => by cases hfreed⟩, ?_, ?_, ?_⟩
  all_goals simp only [movedUp, hlast]
  · omega
  · exact le_refl _
  · exact hfits
  · omega
  · exact (owedCalls_of_noneDue hnone _ _ (le_refl _)).symm
  · rintro call ⟨⟩
  · exact fun _ => ⟨trivial, trivial⟩

theorem owedCalls_device {count : ℕ} {l : ℤ} {call : Call} (hcall : call ∈ s.owedCalls status more count l) :
    ∃ r, s.registered call.location = some r ∧ call.deviceObject = some r.registrar ∧ l ≤ call.location := by
  induction count generalizing l with
  | zero => cases hcall
  | succ count ih =>
    have hfirst : ∀ c ∈ s.owedCall status l,
        ∃ r, s.registered c.location = some r ∧ c.deviceObject = some r.registrar ∧ l ≤ c.location := by
      intro c hc
      unfold owedCall at hc
      split at hc
      · rename_i r hregistered
        split at hc
        · cases hc
          exact ⟨r, hregistered, rfl, le_refl _⟩
        · cases hc
      · cases hc
    have hrest : call ∈ s.owedCalls status more count (l + 1) →
        ∃ r, s.registered call.location = some r ∧ call.deviceObject = some r.registrar ∧ l ≤ call.location := by
      intro hlater
      obtain ⟨r, hregistered, hdevice, hle⟩ := ih hlater
      exact ⟨r, hregistered, hdevice, by omega⟩
    unfold owedCalls at hcall
    split at hcall
    · rename_i c howed
      split at hcall
      · rw [List.mem_singleton] at hcall
        rw [hcall]
        exact hfirst c howed
      · rcases List.mem_cons.1 hcall with heq | hlater
        · rw [heq]
          exact hfirst c howed
        · exact hrest hlater
    · exact hrest hcall

theorem owedCalls_ne_nil {count : ℕ} {l target : ℤ} {r : Registered} (hregistered : s.registered target = some r)
    (hmatches : s.Matches status r.registration) (hle : l ≤ target) (hlt : target < l + count) :
    s.owedCalls status more count l ≠ [] := by
  induction count generalizing l with
  | zero => simp at hlt; omega
  | succ count ih =>
    unfold owedCalls
    split
    · split <;> simp
    · rename_i howed
      have hne : l ≠ target := by
        rintro rfl
        unfold owedCall at howed
        rw [hregistered] at howed
        dsimp only at howed
        rw [if_pos hmatches] at howed
        cases howed
      refine ih ?_ ?_
      · omega
      · push_cast at hlt
        omega

theorem Sound.not_completes (h : Sound n s) (hadmits : Admits n s (.complete status more))
    (hdue : ¬ s.NoneDue (.complete status more)) :
    ¬ s.Completes status more (s.step (.complete status more)) := by
  have hgoing := h.going hadmits
  have hlower := h.points.lower
  have hupper := h.points.upper
  intro hcompletes
  simp only [NoneDue, not_forall, not_not] at hdue
  obtain ⟨target, hle, r, hregistered, hmatches⟩ := hdue
  have htarget : target ≤ s.irp.stackCount := by
    by_contra hgt
    have hcount := h.count
    rw [hgoing.top target (by omega)] at hregistered
    cases hregistered
  have howed := hcompletes.calls
  have hsome : s.owedCalls status more (s.irp.stackCount + 1 - s.irp.currentLocation).toNat s.irp.currentLocation ≠ [] :=
    owedCalls_ne_nil hregistered hmatches hle (by omega)
  obtain ⟨call, hcall⟩ := List.exists_mem_of_ne_nil _ hsome
  obtain ⟨owner, howner, hdevice, hcurrent⟩ := owedCalls_device hcall
  have hmade : (s.step (.complete status more)).calls =
      (completeLoop more (s.irp.stackCount + 1 - s.irp.currentLocation).toNat { s.irp with status }
        s.irp.currentLocation).calls := by
    unfold step iofCompleteRequest
    dsimp only
    rw [if_neg (by omega)]
  have hagrees := hgoing.agrees call.location hcurrent
  rw [howner] at hagrees
  obtain ⟨d, hd, hdeeper⟩ := Holds.device hagrees
  -- the location names the device below the one whose driver registered the routine
  have hpassed : call.deviceObject = (s.irp.stack (call.location - 1)).deviceObject := by
    rw [← howed, hmade] at hcall
    have hpending : ({ s.irp with status } : Irp).pendingReturned = false := h.pending
    exact completeLoop_device hpending hcall
  rw [hdevice, hd] at hpassed
  have := Option.some.inj hpassed
  omega

/-! ### Runs -/

theorem Sound.step (h : Sound n s) {op : IrpOp} (hadmits : Admits n s op) (hnone : s.NoneDue op) :
    Sound n (s.step op) ∧ s.WalksCorrectly op := by
  cases op with
  | copyAndCall registration =>
    have hsound := h.copyAndCall hadmits
    exact ⟨hsound, hsound.points, trivial⟩
  | skipAndCall =>
    have hsound := h.skipAndCall hadmits
    exact ⟨hsound, hsound.points, trivial⟩
  | markPending =>
    have hsound := h.markPending hadmits
    exact ⟨hsound, hsound.points, trivial⟩
  | cancel => exact ⟨h.cancel, h.cancel.points, trivial⟩
  | complete status more =>
    obtain ⟨hsound, hcompletes⟩ := h.complete hadmits hnone
    exact ⟨hsound, hsound.points, hcompletes⟩

theorem Sound.not_walksCorrectly (h : Sound n s) {op : IrpOp} (hadmits : Admits n s op) (hdue : ¬ s.NoneDue op) :
    ¬ s.WalksCorrectly op := by
  cases op with
  | complete status more => exact fun hwalks => h.not_completes hadmits hdue hwalks.2
  | _ => exact absurd trivial hdue

/-- The way of an IRP through its device stack is correct exactly as long as no completion finds a registered
routine that is due. -/
theorem walksCorrectly_iff {irp : Irp} (hirp : ioAllocateIrp n = some irp) (hn : n ≤ 126) (ops : List IrpOp)
    (hops : EveryStep step (Admits n) (start irp) ops) :
    EveryStep step WalksCorrectly (start irp) ops ↔ EveryStep step NoneDue (start irp) ops := by
  refine everyStep_iff (I := Sound n) ?_ ?_ ?_ (sound_start hirp hn) hops
  · intro s op h hadmits hnone
    exact (h.step hadmits hnone).1
  · intro s op h hadmits hnone
    exact (h.step hadmits hnone).2
  · intro s op h hadmits hdue
    exact h.not_walksCorrectly hadmits hdue

def forErrors : Registration := { routine := 7, context := 0, onSuccess := false, onError := true, onCancel := false }

def twoLocations : Irp :=
  { stackCount := 2, currentLocation := 3, currentStackLocation := 2
    stack := fun _ => { parameters := 0, control := 0#8, deviceObject := none, completionRoutine := none, context := 0 }
    pendingReturned := false, cancel := false, status := 0 }

/-- The lower driver succeeds, so the routine for errors is not due. -/
theorem walksCorrectly_success :
    EveryStep step WalksCorrectly (start twoLocations)
      [.copyAndCall (some forErrors), .markPending, .complete 0 fun _ => false] := by
  have hops : EveryStep step (Admits 2) (start twoLocations)
      [.copyAndCall (some forErrors), .markPending, .complete 0 fun _ => false] :=
    ⟨⟨rfl, by decide⟩, rfl, rfl, trivial⟩
  refine (walksCorrectly_iff (n := 2) rfl (by decide) _ hops).2 ⟨trivial, trivial, ?_, trivial⟩
  intro l hl r hr
  change update (fun _ => none) (2 - 1) (some (⟨forErrors, 0⟩ : Registered)) l = some r at hr
  by_cases hat : l = 2 - 1
  · rw [hat, update_self] at hr
    cases hr
    decide
  · rw [update_of_ne hat] at hr
    cases hr

/-- The lower driver fails: the routine of device 0 is called with device 1. -/
theorem routine_with_lower_device :
    ¬ EveryStep step WalksCorrectly (start twoLocations)
      [.copyAndCall (some forErrors), .complete (-1) fun _ => false] := by
  rintro ⟨-, ⟨-, hcompletes⟩, -⟩
  have hcalls := hcompletes.calls
  revert hcalls
  decide

end IrpRun

end XenOS.Io
