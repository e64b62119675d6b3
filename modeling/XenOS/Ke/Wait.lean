import Mathlib.Algebra.Group.Nat.Defs
import Mathlib.Data.List.Dedup
import Mathlib.Order.Basic

/-! Dispatcher objects and the threads that wait for them. A blocked wait resumes when its thread
leaves the deferred-ready list. -/

namespace XenOS.Ke

open Function (update)

/-- `KOBJECT_TYPE`, as far as waits tell the types apart. -/
inductive KObjectType where
  | eventNotification
  | eventSynchronization
  | mutant
  | process
  | queue
  | semaphore
  | thread
  | timerNotification
  | timerSynchronization
  deriving DecidableEq

inductive ObjectId where
  | object (n : ℕ)
  | threadTimer (t : ℕ)
  deriving DecidableEq

inductive Slot where
  | object (i : ℕ)
  | timer
  deriving DecidableEq

/-- `WAIT_ANY` and `WAIT_ALL`. -/
inductive WaitType where
  | waitAny
  | waitAll
  deriving DecidableEq

def statusSuccess : ℕ := 0x00000000
def statusKernelApc : ℕ := 0x00000100
def statusTimeout : ℕ := 0x00000102

def threadWaitObjects : ℕ := 3

def maximumWaitObjects : ℕ := 64

/-- `DISPATCHER_HEADER`; the wait list holds wait blocks. -/
structure DispatcherHeader where
  type : KObjectType
  signalState : ℤ
  waitListHead : List (ℕ × Slot) := []

/-- `KWAIT_BLOCK`; `linked` says that its list entry is not null. -/
structure KWaitBlock where
  object : ObjectId
  waitKey : ℕ := 0
  waitType : WaitType := .waitAny
  linked : Bool := false

/-- `KTHREAD_STATE`: a thread that is not waiting and not deferred is with the scheduler. -/
inductive KThreadState where
  | scheduled
  | waiting
  | deferredReady
  deriving DecidableEq

inductive WaitCall where
  | single (object : ℕ) (deadline : Option ℕ)
  | multiple (waitType : WaitType) (objects : List ℕ) (deadline : Option ℕ)
  | delay (deadline : ℕ)

/-- `KTHREAD`; the ring of wait blocks is a list, empty where `wait_block_list` is null. -/
structure KThread where
  state : KThreadState := .scheduled
  waitStatus : ℕ := statusSuccess
  waitBlock : Slot → KWaitBlock := fun _ => { object := .object 0 }
  waitBlockList : List Slot := []
  call : Option WaitCall := none

/-- Objects and threads. Beside them: the satisfied threads, latest first, and how often each object
was consumed and set. `hung`: `ki_wait_test` does not end, or a call stops the kernel. -/
structure WaitState where
  headers : ObjectId → DispatcherHeader
  threads : ℕ → KThread
  limit : ℕ → ℤ
  ownerThread : ℕ → Option ℕ
  inserted : ObjectId → Bool
  period : ℕ → ℤ
  deferred : List ℕ
  interruptTime : ℕ
  baseTime : ℤ
  acquired : ObjectId → List ℕ
  consumed : ObjectId → ℕ
  sets : ℕ → ℕ
  released : ℕ → ℤ
  hung : Bool

namespace WaitState

variable (s : WaitState)

def setHeader (o : ObjectId) (header : DispatcherHeader) : WaitState :=
  { s with headers := update s.headers o header }

def setThread (t : ℕ) (thread : KThread) : WaitState := { s with threads := update s.threads t thread }

def setSignal (o : ObjectId) (signalState : ℤ) : WaitState :=
  s.setHeader o { s.headers o with signalState := signalState }

def block (b : ℕ × Slot) : KWaitBlock := (s.threads b.1).waitBlock b.2

def setBlock (b : ℕ × Slot) (block : KWaitBlock) : WaitState :=
  s.setThread b.1 { s.threads b.1 with waitBlock := update (s.threads b.1).waitBlock b.2 block }

def acquire (o : ObjectId) (t : ℕ) : WaitState :=
  { s with acquired := update s.acquired o (t :: s.acquired o) }

/-- `signal_state.fetch_sub(1)` where the type of the object asks for it. -/
def satisfy (o : ObjectId) : WaitState :=
  if (s.headers o).type = .eventSynchronization ∨ (s.headers o).type = .semaphore then
    { s.setSignal o ((s.headers o).signalState - 1) with
      consumed := update s.consumed o (s.consumed o + 1) }
  else s

/-- `ki_wait_satisfy_any`, of the wake-up loop. -/
def kiWaitSatisfyAny (o : ObjectId) : WaitState := s.satisfy o

/-- `ki_wait_satisfy_object`, of the multiple wait. -/
def kiWaitSatisfyObject (o : ObjectId) : WaitState := s.satisfy o

/-- `insert_tail` of a block into the wait list of its object. -/
def linkBlock (b : ℕ × Slot) : WaitState :=
  let o := (s.block b).object
  (s.setBlock b { s.block b with linked := true }).setHeader o
    { s.headers o with waitListHead := (s.headers o).waitListHead ++ [b] }

/-- `remove_entry` of a block that is linked. -/
def unlinkBlock (b : ℕ × Slot) : WaitState :=
  if (s.block b).linked then
    let o := (s.block b).object
    (s.setBlock b { s.block b with linked := false }).setHeader o
      { s.headers o with waitListHead := (s.headers o).waitListHead.erase b }
  else s

def kiUnlinkThread (t : ℕ) : WaitState :=
  let s := (s.threads t).waitBlockList.foldl (fun s slot => s.unlinkBlock (t, slot)) s
  let s := s.setThread t { s.threads t with waitBlockList := [] }
  { s with inserted := update s.inserted (.threadTimer t) false }

/-- `ki_unwait_thread` and `ki_insert_deferred_ready_list`. -/
def kiUnwaitThread (t waitStatus : ℕ) : WaitState :=
  let s := s.kiUnlinkThread t
  let s := s.setThread t { s.threads t with waitStatus := waitStatus, state := .deferredReady }
  { s with deferred := t :: s.deferred }

/-- The wake of one thread in `ki_wait_test`. -/
def wakeFirst (o : ObjectId) (b : ℕ × Slot) : WaitState :=
  let block := s.block b
  match block.waitType with
  | .waitAny => ((s.kiWaitSatisfyAny o).acquire o b.1).kiUnwaitThread b.1 block.waitKey
  | .waitAll =>
    if block.waitKey = statusTimeout then s.kiUnwaitThread b.1 block.waitKey
    else s.kiUnwaitThread b.1 statusKernelApc

/-- The loop of `ki_wait_test`, for at most `fuel` rounds. -/
def waitTestLoop (o : ObjectId) : ℕ → WaitState → WaitState
  | fuel, s =>
    if 0 < (s.headers o).signalState then
      match (s.headers o).waitListHead, fuel with
      | [], _ => s
      | _ :: _, 0 => { s with hung := true }
      | b :: _, fuel + 1 => waitTestLoop o fuel (s.wakeFirst o b)
    else s

/-- `ki_wait_test`. Every round takes its block out of the list. -/
def kiWaitTest (o : ObjectId) : WaitState := waitTestLoop o (s.headers o).waitListHead.length s

/-- `i64::MIN`, which has no negation: the call that negates it stops the kernel. -/
def i64Min : ℤ := -0x8000000000000000

/-- `compute_deadline_interrupt` of another timeout than `i64Min`. -/
def computeDeadlineInterrupt (timeout : ℤ) : ℕ :=
  if timeout < 0 then min (s.interruptTime + (-timeout).toNat) (2 ^ 64 - 1)
  else if timeout ≤ s.baseTime then 0 else (timeout - s.baseTime).toNat

def startTimer (t : ℕ) : WaitState :=
  let s := s.linkBlock (t, .timer)
  { s with inserted := update s.inserted (.threadTimer t) true }

/-- The thread goes to sleep. -/
def blockOn (t : ℕ) (call : WaitCall) : WaitState :=
  s.setThread t { s.threads t with waitStatus := statusSuccess, state := .waiting, call := some call }

def returnFrom (t : ℕ) : WaitState :=
  s.setThread t { s.threads t with state := .scheduled, call := none }

def timerBlock (t waitKey : ℕ) : KWaitBlock := { object := .threadTimer t, waitKey := waitKey }

/-- The loop of `ke_wait_for_single_object`: the status, if it returns. -/
def waitForSingle (t object : ℕ) (deadline : Option ℕ) : Option ℕ × WaitState :=
  if 0 < (s.headers (.object object)).signalState then
    (some statusSuccess, (s.acquire (.object object) t).returnFrom t)
  else
    let s := s.setBlock (t, .object 0) { s.block (t, .object 0) with
      object := .object object, waitKey := 0, waitType := .waitAny }
    match deadline with
    | none =>
      let s := s.setThread t { s.threads t with waitBlockList := [.object 0] }
      (none, (s.linkBlock (t, .object 0)).blockOn t (.single object deadline))
    | some deadline =>
      if deadline ≤ s.interruptTime then (some statusTimeout, s.returnFrom t)
      else
        let s := s.setBlock (t, .timer) { timerBlock t statusTimeout with linked := (s.block (t, .timer)).linked }
        let s := s.startTimer t
        let s := s.setThread t { s.threads t with waitBlockList := [.object 0, .timer] }
        (none, (s.linkBlock (t, .object 0)).blockOn t (.single object (some deadline)))

def setBlocks (t : ℕ) (waitType : WaitType) (objects : List ℕ) : WaitState :=
  s.setThread t { s.threads t with waitBlock := fun slot =>
    match slot with
    | .object i =>
      match objects[i]? with
      | some object => { object := .object object, waitKey := i, waitType := waitType }
      | none => (s.threads t).waitBlock slot
    | .timer => (s.threads t).waitBlock slot }

def objectSlots (objects : List ℕ) : List Slot := (List.range objects.length).map Slot.object

/-- The blocking part of the loop of `ke_wait_for_multiple_objects`. -/
def blockOnMultiple (t : ℕ) (waitType : WaitType) (objects : List ℕ) (deadline : Option ℕ) : Option ℕ × WaitState :=
  let s := s.setBlocks t waitType objects
  match deadline with
  | none =>
    let s := s.setThread t { s.threads t with waitBlockList := objectSlots objects }
    (none, ((objectSlots objects).foldl (fun s slot => s.linkBlock (t, slot)) s).blockOn t
      (.multiple waitType objects none))
  | some deadline =>
    if deadline ≤ s.interruptTime then (some statusTimeout, s.returnFrom t)
    else
      let s := s.setBlock (t, .timer) (timerBlock t statusTimeout)
      let s := s.startTimer t
      let s := s.setThread t { s.threads t with waitBlockList := objectSlots objects ++ [.timer] }
      (none, ((objectSlots objects).foldl (fun s slot => s.linkBlock (t, slot)) s).blockOn t
        (.multiple waitType objects (some deadline)))

/-- The loop of `ke_wait_for_multiple_objects`. A wait for all of its objects is satisfied by
each of them once. -/
def waitForMultiple (t : ℕ) (waitType : WaitType) (objects : List ℕ) (deadline : Option ℕ) : Option ℕ × WaitState :=
  let signaled := fun object => decide (0 < (s.headers (.object object)).signalState)
  match waitType with
  | .waitAny =>
    match objects.findIdx? signaled with
    | some first =>
      let object := ObjectId.object (objects.getD first 0)
      (some first, ((s.kiWaitSatisfyObject object).acquire object t).returnFrom t)
    | none => s.blockOnMultiple t .waitAny objects deadline
  | .waitAll =>
    if objects.all signaled then
      let s := objects.foldl (fun s object => s.kiWaitSatisfyObject (.object object)) s
      let s := objects.dedup.foldl (fun s object => s.acquire (.object object) t) s
      (some statusSuccess, s.returnFrom t)
    else s.blockOnMultiple t .waitAll objects deadline

/-- The loop of `ke_delay_execution_thread`. The block is linked before the deadline is looked at. -/
def delay (t deadline : ℕ) : Option ℕ × WaitState :=
  let s := s.setBlock (t, .timer) { timerBlock t statusSuccess with linked := (s.block (t, .timer)).linked }
  let s := s.setThread t { s.threads t with waitBlockList := [.timer] }
  let s := s.linkBlock (t, .timer)
  if deadline ≤ s.interruptTime then (some statusSuccess, s.returnFrom t)
  else
    let s := { s with inserted := update s.inserted (.threadTimer t) true }
    (none, s.blockOn t (.delay deadline))

def waitLoop (t : ℕ) : WaitCall → Option ℕ × WaitState
  | .single object deadline => s.waitForSingle t object deadline
  | .multiple waitType objects deadline => s.waitForMultiple t waitType objects deadline
  | .delay deadline => s.delay t deadline

/-- A call, the end of a timer, or a woken thread that runs again. -/
inductive WaitOp where
  | waitSingle (t object : ℕ) (timeout : Option ℤ) (late : ℕ)
  | waitMultiple (t : ℕ) (waitType : WaitType) (objects : List ℕ) (waitBlockArray : Bool) (timeout : Option ℤ) (late : ℕ)
  | resume (t : ℕ)
  | setEvent (object : ℕ)
  | pulseEvent (object : ℕ)
  | resetEvent (object : ℕ)
  | releaseSemaphore (object : ℕ) (adjustment : BitVec 32)
  | releaseMutex (t object : ℕ)
  | setTimer (object : ℕ) (dueTime period : ℤ)
  | cancelTimer (object : ℕ)
  | expireTimer (o : ObjectId)
  | advance (time : ℕ)

def isEvent (object : ℕ) : Bool :=
  (s.headers (.object object)).type = .eventNotification ∨ (s.headers (.object object)).type = .eventSynchronization

def isTimer (object : ℕ) : Bool :=
  (s.headers (.object object)).type = .timerNotification ∨ (s.headers (.object object)).type = .timerSynchronization

/-- `ke_wait_for_single_object`; time may pass before its loop looks at the deadline. -/
def keWaitForSingleObject (t object : ℕ) (timeout : Option ℤ) (late : ℕ) : Option ℕ × WaitState :=
  if timeout = some 0 then (some statusTimeout, s)
  else if timeout = some i64Min then (none, s)
  else
    let deadline := timeout.map s.computeDeadlineInterrupt
    { s with interruptTime := s.interruptTime + late }.waitForSingle t object deadline

def statusInvalidParameter : ℕ := 0xC000000D

def keWaitForMultipleObjects (t : ℕ) (waitType : WaitType) (objects : List ℕ) (waitBlockArray : Bool)
    (timeout : Option ℤ) (late : ℕ) : Option ℕ × WaitState :=
  if objects = [] ∨ maximumWaitObjects < objects.length then (some statusInvalidParameter, s)
  else if threadWaitObjects < objects.length ∧ !waitBlockArray then (some statusInvalidParameter, s)
  else if timeout = some 0 then (some statusTimeout, s)
  else if timeout = some i64Min then (none, s)
  else
    let deadline := timeout.map s.computeDeadlineInterrupt
    { s with interruptTime := s.interruptTime + late }.waitForMultiple t waitType objects deadline

def keDelayExecutionThread (t : ℕ) (interval : ℤ) (late : ℕ) : Option ℕ × WaitState :=
  if interval = 0 then (some statusSuccess, s)
  else if interval = i64Min then (none, s)
  else
    let deadline := s.computeDeadlineInterrupt interval
    { s with interruptTime := s.interruptTime + late }.delay t deadline

def resumeThread (t : ℕ) : WaitState :=
  let thread := s.threads t
  let s := { s with deferred := s.deferred.erase t }
  let s := s.setThread t { thread with state := .scheduled }
  if thread.waitStatus = statusKernelApc then
    match thread.call with
    | some call => (s.waitLoop t call).2
    | none => s
  else s.returnFrom t

def signalObject (object : ℕ) : WaitState :=
  { s.setSignal (.object object) 1 with sets := update s.sets object (s.sets object + 1) }

def keSetEvent (object : ℕ) : WaitState := (s.signalObject object).kiWaitTest (.object object)

def kePulseEvent (object : ℕ) : WaitState :=
  ((s.signalObject object).kiWaitTest (.object object)).setSignal (.object object) 0

/-- A sum of two values of `i32`. It wraps, as without overflow checks; with them it panics. -/
def addLong (a b : ℤ) : ℤ := Int.bmod (a + b) (2 ^ 32)

def keReleaseSemaphore (object : ℕ) (adjustment : ℤ) : Bool × WaitState :=
  let previous := (s.headers (.object object)).signalState
  let newValue := addLong previous adjustment
  if s.limit object < newValue then (false, s)
  else
    let s := { s.setSignal (.object object) newValue with
      released := update s.released object (s.released object + adjustment) }
    (true, if previous = 0 ∧ 0 < newValue then s.kiWaitTest (.object object) else s)

/-- `ke_release_mutex`, by any thread. -/
def keReleaseMutex (object : ℕ) : WaitState :=
  let newState := addLong (s.headers (.object object)).signalState 1
  let s := s.setSignal (.object object) newState
  if 0 < newState then
    { s with ownerThread := update s.ownerThread object none }.kiWaitTest (.object object)
  else s

def signalTimer (o : ObjectId) : WaitState :=
  match o with
  | .threadTimer _ => (s.setSignal o 1).kiWaitTest o
  | .object object =>
    let s := (s.signalObject object).kiWaitTest o
    if 0 < s.period object then
      { s.setSignal o 0 with inserted := update s.inserted o true }
    else s

/-- `ke_set_timer_ex` on a timer object. -/
def keSetTimerEx (object : ℕ) (dueTime period : ℤ) : WaitState :=
  let s := { s with
    inserted := update s.inserted (.object object) false
    period := update s.period object period }
  if dueTime = i64Min then s
  else if s.computeDeadlineInterrupt dueTime ≤ s.interruptTime then s.signalTimer (.object object)
  else { s with inserted := update s.inserted (.object object) true }

/-- One call. A thread waits and releases only while it runs, and each kind of call is made on
its kind of object. -/
def step : WaitOp → WaitState
  | .waitSingle t object timeout late =>
    if (s.threads t).state = .scheduled then (s.keWaitForSingleObject t object timeout late).2 else s
  | .waitMultiple t waitType objects waitBlockArray timeout late =>
    if (s.threads t).state = .scheduled then
      (s.keWaitForMultipleObjects t waitType objects waitBlockArray timeout late).2
    else s
  | .resume t => if (s.threads t).state = .deferredReady then s.resumeThread t else s
  | .setEvent object => if s.isEvent object then s.keSetEvent object else s
  | .pulseEvent object => if s.isEvent object then s.kePulseEvent object else s
  | .resetEvent object => if s.isEvent object then s.setSignal (.object object) 0 else s
  | .releaseSemaphore object adjustment =>
    if (s.headers (.object object)).type = .semaphore then (s.keReleaseSemaphore object adjustment.toInt).2 else s
  | .releaseMutex _ object =>
    if (s.headers (.object object)).type = .mutant then s.keReleaseMutex object else s
  | .setTimer object dueTime period => if s.isTimer object then s.keSetTimerEx object dueTime period else s
  | .cancelTimer object =>
    if s.isTimer object then { s with inserted := update s.inserted (.object object) false } else s
  | .expireTimer o =>
    if s.inserted o then { s with inserted := update s.inserted o false }.signalTimer o else s
  | .advance time => { s with interruptTime := s.interruptTime + time }

def start (type : ℕ → KObjectType) (signalState limit : ℕ → ℤ) (interruptTime : ℕ) (baseTime : ℤ) : WaitState where
  headers
    | .object n => { type := type n, signalState := signalState n }
    | .threadTimer _ => { type := .timerNotification, signalState := 0 }
  threads _ := {}
  limit := limit
  ownerThread _ := none
  inserted _ := false
  period _ := 0
  deferred := []
  interruptTime := interruptTime
  baseTime := baseTime
  acquired _ := []
  consumed _ := 0
  sets _ := 0
  released _ := 0
  hung := false

end WaitState

end XenOS.Ke
