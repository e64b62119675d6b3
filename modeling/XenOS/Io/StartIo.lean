import Mathlib.Algebra.Group.Nat.Defs
import Mathlib.Tactic.Common

/-! The device queue of a device object and the three calls that work on it. A call takes one step
for each lock it holds, so that others may come between. `none` is a null link that is followed. -/

namespace XenOS.Io

open Function (update)

/-- Where a link of the device queue points: nowhere, to the list head in the device object, or to the queue
entry that overlays an IRP. -/
inductive Link
  | null
  | head
  | entry (irp : ℕ)
  deriving DecidableEq

inductive Pc
  | setCancelRoutine (irp : ℕ) (key : Option (BitVec 32))
  | insert (irp : ℕ) (key : Option (BitVec 32))
  | startIo (irp : ℕ)
  | clearCurrent (cancelable : Bool)
  | remove (cancelable : Bool)
  | checkCancel (irp : ℕ)
  | callCancelRoutine (irp : ℕ)

/-- A device object, its IRPs and the calls under way. The lists below `faulted` record a run: the
IRPs given to `io_start_packet`, started, started and current, the calls of cancel routines with the
lock, the completed IRPs, and the queue in the order it is to start. -/
structure StartIoState where
  busy : Bool
  flink : Link → Link
  blink : Link → Link
  currentIrp : Option ℕ
  cancel : ℕ → Bool
  cancelRoutine : ℕ → Bool
  pointer : ℕ → ℕ
  threads : ℕ → Option Pc
  faulted : Bool
  given : List ℕ
  started : List ℕ
  active : List ℕ
  cancelled : List (ℕ × Bool)
  completed : List ℕ
  queue : List (ℕ × BitVec 32)

namespace StartIoState

def insertTail (s : StartIoState) (list entry : Link) : Option StartIoState :=
  if list = .null then none
  else
    let blink := s.blink list
    let s := { s with flink := update s.flink entry list, blink := update s.blink entry blink }
    if blink = .null then none
    else some { s with flink := update s.flink blink entry, blink := update s.blink list entry }

def removeEntry (s : StartIoState) (entry : Link) : Option StartIoState :=
  if entry = .null then none
  else
    let flink := s.flink entry
    let blink := s.blink entry
    if blink = .null ∨ flink = .null then none
    else some { s with flink := update s.flink blink flink, blink := update s.blink flink blink }

/-! ### Queue entries

`KDEVICE_QUEUE_ENTRY` overlays `list_entry` of the IRP. Its `sort_key` lies over the low half of the pointer that
follows, its `inserted` over byte 4 of it. -/

/-- The pointer after a write of `sort_key`. -/
def withSortKey (pointer : ℕ) (key : BitVec 32) : ℕ := pointer / 2 ^ 32 * 2 ^ 32 + key.toNat

/-- The pointer after a write of `inserted`. -/
def withInserted (pointer : ℕ) (inserted : Bool) : ℕ :=
  pointer / 2 ^ 40 * 2 ^ 40 + inserted.toNat * 2 ^ 32 + pointer % 2 ^ 32

def setSortKey (s : StartIoState) (irp : ℕ) (key : BitVec 32) : StartIoState :=
  { s with pointer := update s.pointer irp (withSortKey (s.pointer irp) key) }

def setInserted (s : StartIoState) (irp : ℕ) (inserted : Bool) : StartIoState :=
  { s with pointer := update s.pointer irp (withInserted (s.pointer irp) inserted) }

/-- The `sort_key` of the entry in an IRP. -/
def sortKey (s : StartIoState) (irp : ℕ) : ℕ := s.pointer irp % 2 ^ 32

def enqueue (queue : List (ℕ × BitVec 32)) (irp : ℕ) (key : BitVec 32) : List (ℕ × BitVec 32) :=
  queue.takeWhile (fun q => decide (q.2 ≤ key)) ++ (irp, key) :: queue.dropWhile (fun q => decide (q.2 ≤ key))

def keInsertDeviceQueue (s : StartIoState) (irp : ℕ) : Option (Bool × StartIoState) := do
  if s.busy then
    let s ← s.insertTail .head (.entry irp)
    return (true, { s.setInserted irp true with queue := s.queue ++ [(irp, 0#32)] })
  else return (false, { s.setInserted irp false with busy := true })

/-- The search for the first entry with a greater key; a queue holds each IRP once at most, which
bounds its rounds. -/
def findGreater (s : StartIoState) (key : BitVec 32) : ℕ → Link → Option Link
  | 0, _ => none
  | fuel + 1, current =>
    match current with
    | .head => some .head
    | .null => none
    | .entry irp => if key.toNat < s.sortKey irp then some current else s.findGreater key fuel (s.flink current)

def keInsertByKeyDeviceQueue (s : StartIoState) (irp : ℕ) (key : BitVec 32) : Option (Bool × StartIoState) := do
  let s := s.setSortKey irp key
  if s.busy then
    let current ← s.findGreater key (s.given.length + 1) (s.flink .head)
    let s ← s.insertTail current (.entry irp)
    return (true, { s.setInserted irp true with queue := enqueue s.queue irp key })
  else return (false, { s.setInserted irp false with busy := true })

/-- `ke_remove_device_queue`, with the IRP that `containing_record` finds around the entry. -/
def keRemoveDeviceQueue (s : StartIoState) : Option (Option ℕ × StartIoState) :=
  match s.flink .head with
  | .head => some (none, { s with busy := false })
  | .null => none
  | .entry irp => do
    let s ← s.removeEntry (.entry irp)
    return (some irp, { s.setInserted irp false with queue := s.queue.filter fun q => q.1 ≠ irp })

/-- The next step of a call, and what the call does after it. -/
def advance (s : StartIoState) : Pc → Option (Option Pc × StartIoState)
  -- `io_start_packet`
  | .setCancelRoutine irp key => some
      (some (.insert irp key), { s with cancelRoutine := update s.cancelRoutine irp true })
  | .insert irp key => do
    let (inserted, s) ← match key with
      | none => s.keInsertDeviceQueue irp
      | some key => s.keInsertByKeyDeviceQueue irp key
    return (if inserted then none else some (.startIo irp), s)
  | .startIo irp => some
      (none, { s with currentIrp := some irp, started := irp :: s.started, active := irp :: s.active })
  -- `io_start_next_packet`
  | .clearCurrent cancelable => some
      (some (.remove cancelable),
        { s with currentIrp := none, active := s.active.filter fun irp => some irp ≠ s.currentIrp })
  | .remove cancelable => do
    let (irp, s) ← s.keRemoveDeviceQueue
    return (irp.map fun irp => if cancelable then .checkCancel irp else .startIo irp, s)
  | .checkCancel irp =>
    if s.cancel irp then
      let routine := s.cancelRoutine irp
      some (some (if routine then .callCancelRoutine irp else .clearCurrent true),
        { s with cancelRoutine := update s.cancelRoutine irp false })
    else some (some (.startIo irp), s)
  -- the cancel lock is released before the routine is called
  | .callCancelRoutine irp => some (some (.clearCurrent true), { s with cancelled := (irp, false) :: s.cancelled })

/-- `io_cancel_irp`. It holds the cancel lock until its cancel routine releases it. -/
def ioCancelIrp (s : StartIoState) (irp : ℕ) : StartIoState :=
  let routine := s.cancelRoutine irp
  let s := { s with
    cancel := update s.cancel irp true
    cancelRoutine := update s.cancelRoutine irp false }
  if routine then { s with cancelled := (irp, true) :: s.cancelled } else s

/-- The device object of `io_create_device`: a zeroed queue with links that point nowhere. -/
def ioCreateDevice (pointer : ℕ → ℕ) : StartIoState where
  busy := false
  flink := fun _ => .null
  blink := fun _ => .null
  currentIrp := none
  cancel := fun _ => false
  cancelRoutine := fun _ => false
  pointer := pointer
  threads := fun _ => none
  faulted := false
  given := []
  started := []
  active := []
  cancelled := []
  completed := []
  queue := []

/-- A call begins, a call under way takes its next step, or a driver clears the cancel routine of an IRP or
completes one. -/
inductive Action
  | ioStartPacket (thread irp : ℕ) (key : Option (BitVec 32)) (cancelFunction : Bool)
  | ioStartNextPacket (thread : ℕ) (cancelable : Bool)
  | advance (thread : ℕ)
  | ioCancelIrp (irp : ℕ)
  | clearCancelRoutine (irp : ℕ)
  | complete (irp : ℕ)

def step (s : StartIoState) : Action → StartIoState
  | .ioStartPacket thread irp key cancelFunction =>
    { s with
      threads := update s.threads thread
        (some (if cancelFunction then .setCancelRoutine irp key else .insert irp key))
      given := irp :: s.given }
  | .ioStartNextPacket thread cancelable =>
    { s with threads := update s.threads thread (some (.clearCurrent cancelable)) }
  | .advance thread =>
    match s.threads thread with
    | none => s
    | some pc =>
      match s.advance pc with
      | some (next, s') => { s' with threads := update s.threads thread next }
      | none => { s with faulted := true }
  | .ioCancelIrp irp => s.ioCancelIrp irp
  | .clearCancelRoutine irp => { s with cancelRoutine := update s.cancelRoutine irp false }
  | .complete irp => { s with completed := irp :: s.completed }

end StartIoState

end XenOS.Io
