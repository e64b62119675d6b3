import Mathlib.Data.Int.Notation
import Mathlib.Tactic.Common

/-! An IRP and its stack locations. Location numbers count from 1 for the lowest driver; a stack
location pointer is an index into the array behind the IRP. `none` is a panic. -/

namespace XenOS.Io

def slPendingReturned : BitVec 8 := 0x01#8
def slInvokeOnCancel : BitVec 8 := 0x20#8
def slInvokeOnSuccess : BitVec 8 := 0x40#8
def slInvokeOnError : BitVec 8 := 0x80#8

/-- `control & flag != 0`. -/
def hasFlag (control flag : BitVec 8) : Bool := control &&& flag != 0#8

/-- A completion routine and the conditions it is registered with. A routine is named by a number, its
context too. -/
structure Registration where
  routine : ℕ
  context : ℕ
  onSuccess : Bool
  onError : Bool
  onCancel : Bool
  deriving DecidableEq

/-- `IO_STACK_LOCATION`. `parameters` stands for what is copied as a whole. A device is named by its
depth in the stack, 0 at the top. -/
structure IoStackLocation where
  parameters : ℕ
  control : BitVec 8
  deviceObject : Option ℕ
  completionRoutine : Option ℕ
  context : ℕ

structure Irp where
  stackCount : ℤ
  currentLocation : ℤ
  currentStackLocation : ℤ
  stack : ℤ → IoStackLocation
  pendingReturned : Bool
  cancel : Bool
  status : ℤ

def ioAllocateIrp (stackSize : ℤ) : Option Irp :=
  if stackSize ≤ 0 then none
  else some
    { stackCount := stackSize
      currentLocation := stackSize + 1
      currentStackLocation := stackSize
      stack := fun _ => { parameters := 0, control := 0#8, deviceObject := none, completionRoutine := none, context := 0 }
      pendingReturned := false
      cancel := false
      status := 0 }

namespace Irp

def setLocation (irp : Irp) (index : ℤ) (location : IoStackLocation) : Irp :=
  { irp with stack := Function.update irp.stack index location }

def ioGetCurrentIrpStackLocation (irp : Irp) : ℤ := irp.currentStackLocation

def ioGetNextIrpStackLocation (irp : Irp) : Option ℤ :=
  if irp.currentLocation ≤ 1 then none else some (irp.currentStackLocation - 1)

def ioSetNextIrpStackLocation (irp : Irp) : Irp :=
  { irp with currentLocation := irp.currentLocation - 1, currentStackLocation := irp.currentStackLocation - 1 }

def ioSkipCurrentIrpStackLocation (irp : Irp) : Irp :=
  { irp with currentLocation := irp.currentLocation + 1, currentStackLocation := irp.currentStackLocation + 1 }

/-- `io_copy_current_irp_stack_location_to_next`, which keeps the completion routine, its context
and the control bits. -/
def ioCopyCurrentIrpStackLocationToNext (irp : Irp) : Option Irp := do
  let next ← irp.ioGetNextIrpStackLocation
  let current := irp.stack irp.ioGetCurrentIrpStackLocation
  return irp.setLocation next
    { irp.stack next with parameters := current.parameters, deviceObject := current.deviceObject }

/-- The control bits `io_set_completion_routine` writes. -/
def controlOf (r : Registration) : BitVec 8 :=
  (if r.onSuccess then slInvokeOnSuccess else 0#8) ||| (if r.onError then slInvokeOnError else 0#8) |||
    (if r.onCancel then slInvokeOnCancel else 0#8)

def ioSetCompletionRoutine (irp : Irp) (r : Registration) : Option Irp := do
  let next ← irp.ioGetNextIrpStackLocation
  return irp.setLocation next
    { irp.stack next with completionRoutine := some r.routine, context := r.context, control := controlOf r }

def ioMarkIrpPending (irp : Irp) : Irp :=
  let stack := irp.stack irp.ioGetCurrentIrpStackLocation
  irp.setLocation irp.ioGetCurrentIrpStackLocation { stack with control := stack.control ||| slPendingReturned }

/-- `iof_call_driver`, up to the dispatch routine of the device. -/
def iofCallDriver (irp : Irp) (deviceObject : ℕ) : Irp :=
  let irp := irp.ioSetNextIrpStackLocation
  let stack := irp.ioGetCurrentIrpStackLocation
  irp.setLocation stack { irp.stack stack with deviceObject := some deviceObject }

/-- A call of a completion routine: what it is passed, what it reads in `pending_returned`, and the location
whose routine it is. -/
structure Call where
  routine : ℕ
  deviceObject : Option ℕ
  context : ℕ
  pendingReturned : Bool
  location : ℤ
  deriving DecidableEq

/-- How a walk over the locations ends: on a routine that returned `STATUS_MORE_PROCESSING_REQUIRED`, or past
the top with the IRP freed. -/
structure Completion where
  irp : Irp
  calls : List Call
  freed : Bool

def shouldCall (irp : Irp) (control : BitVec 8) : Bool :=
  (decide (0 ≤ irp.status) && hasFlag control slInvokeOnSuccess) ||
    (decide (irp.status < 0) && hasFlag control slInvokeOnError) || (irp.cancel && hasFlag control slInvokeOnCancel)

/-- The start of a round of the loop: one location up, and the pending bit passed to the location below. -/
def moveUp (irp : Irp) (location : ℤ) : Irp :=
  let irp := irp.ioSkipCurrentIrpStackLocation
  if irp.pendingReturned ∧ 1 < location then
    let prevStack := irp.stack (location - 2)
    irp.setLocation (location - 2) { prevStack with control := prevStack.control ||| slPendingReturned }
  else irp

/-- The loop of `iof_complete_request`. `more location` says that the routine of that location returns
`STATUS_MORE_PROCESSING_REQUIRED`. -/
def completeLoop (more : ℤ → Bool) : ℕ → Irp → ℤ → Completion
  | 0, irp, _ => { irp, calls := [], freed := true }
  | fuel + 1, irp, location =>
    let irp := irp.moveUp location
    let stack := irp.stack (location - 1)
    let cleared := { irp with pendingReturned := false }
    match stack.completionRoutine with
    | some routine =>
      if irp.shouldCall stack.control then
        let call : Call :=
          { routine, deviceObject := stack.deviceObject, context := stack.context
            pendingReturned := cleared.pendingReturned, location }
        if more location then { irp := cleared, calls := [call], freed := false }
        else
          let rest := completeLoop more fuel cleared (location + 1)
          { rest with calls := call :: rest.calls }
      else completeLoop more fuel cleared (location + 1)
    | none => completeLoop more fuel cleared (location + 1)

variable {more : ℤ → Bool} {irp : Irp} {location : ℤ} {fuel : ℕ}

theorem moveUp_eq (hpending : irp.pendingReturned = false) :
    irp.moveUp location = irp.ioSkipCurrentIrpStackLocation := by
  unfold moveUp
  dsimp only
  rw [if_neg]
  rintro ⟨h, -⟩
  rw [show irp.ioSkipCurrentIrpStackLocation.pendingReturned = false from hpending] at h
  cases h

def movedUp (irp : Irp) (count : ℕ) : Irp :=
  { irp with
    currentLocation := irp.currentLocation + count
    currentStackLocation := irp.currentStackLocation + count }

theorem completeLoop_of_none (hpending : irp.pendingReturned = false)
    (hnone : ∀ l, location ≤ l → ∀ routine ∈ (irp.stack (l - 1)).completionRoutine,
      irp.shouldCall (irp.stack (l - 1)).control = false) :
    completeLoop more fuel irp location = { irp := irp.movedUp fuel, calls := [], freed := true } := by
  induction fuel generalizing irp location with
  | zero => simp [completeLoop, movedUp]
  | succ fuel ih =>
    have hcleared : ({ irp.ioSkipCurrentIrpStackLocation with pendingReturned := false } : Irp) =
        irp.ioSkipCurrentIrpStackLocation := by
      rw [← hpending]
      rfl
    have hrest : completeLoop more fuel irp.ioSkipCurrentIrpStackLocation (location + 1) =
        { irp := irp.movedUp (fuel + 1), calls := [], freed := true } := by
      have hskipped : irp.ioSkipCurrentIrpStackLocation.pendingReturned = false := hpending
      rw [ih hskipped fun l hl => hnone l (by omega)]
      simp only [movedUp, ioSkipCurrentIrpStackLocation, Completion.mk.injEq, and_true, Irp.mk.injEq, true_and]
      push_cast
      omega
    unfold completeLoop
    rw [moveUp_eq hpending]
    dsimp only
    rw [hcleared]
    split
    · rename_i routine hroutine
      rw [if_neg]
      · exact hrest
      · have hnot : irp.ioSkipCurrentIrpStackLocation.shouldCall
            (irp.ioSkipCurrentIrpStackLocation.stack (location - 1)).control = false :=
          hnone location (Int.le_refl _) routine hroutine
        rw [hnot]
        decide
    · exact hrest

theorem completeLoop_device (hpending : irp.pendingReturned = false) {call : Call}
    (hcall : call ∈ (completeLoop more fuel irp location).calls) :
    call.deviceObject = (irp.stack (call.location - 1)).deviceObject := by
  induction fuel generalizing irp location with
  | zero => cases hcall
  | succ fuel ih =>
    have hrest : call ∈ (completeLoop more fuel { irp.ioSkipCurrentIrpStackLocation with pendingReturned := false }
        (location + 1)).calls → call.deviceObject = (irp.stack (call.location - 1)).deviceObject := by
      intro h
      have hskipped : ({ irp.ioSkipCurrentIrpStackLocation with pendingReturned := false } : Irp).pendingReturned = false := rfl
      have hdevice := ih hskipped h
      exact hdevice
    unfold completeLoop at hcall
    rw [moveUp_eq hpending] at hcall
    dsimp only at hcall
    split at hcall
    · split at hcall
      · split at hcall
        · rw [List.mem_singleton] at hcall
          rw [hcall]
          rfl
        · rcases List.mem_cons.1 hcall with hfirst | hlater
          · rw [hfirst]
            rfl
          · exact hrest hlater
      · exact hrest hcall
    · exact hrest hcall

/-- `iof_complete_request`. The loop makes one round for each location from the current one to the top. -/
def iofCompleteRequest (irp : Irp) (more : ℤ → Bool) : Option Completion :=
  let location := irp.currentLocation
  if location < 1 ∨ irp.stackCount + 1 < location then none
  else some (completeLoop more (irp.stackCount + 1 - location).toNat irp location)

end Irp

end XenOS.Io
