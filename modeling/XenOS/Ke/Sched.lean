import Mathlib.Data.Int.Notation
import Mathlib.Data.List.Basic
import Mathlib.Order.Basic

/-! The scheduler of one processor: the ready lists with their summary, the thread that runs, the
one that runs next, and the threads whose readiness is deferred. -/

namespace XenOS.Ke.Sched

open Function

/-- `KTHREAD_STATE`. -/
inductive State where
  | initialized
  | ready
  | running
  | standby
  | terminated
  | waiting
  | deferredReady
  deriving DecidableEq

/-- `KADJUST_REASON`. -/
inductive AdjustReason where
  | none
  | boost
  | unwait
  deriving DecidableEq

def lowRealtimePriority : ℤ := 16

/-- `LOW_PRIORITY` and `HIGH_PRIORITY`. -/
def lowPriority : ℤ := 0
def highPriority : ℤ := 31

def threadQuantum : ℤ := 6

def clockQuantumDecrement : ℤ := 3

def psPrioritySeparation : ℤ := 2

/-- What the scheduler reads of `KTHREAD`; `queued` says that the queue entry is not null. -/
structure Thread where
  state : State := .initialized
  priority : ℤ
  basePriority : ℤ
  priorityDecrement : ℤ := 0
  quantum : ℤ := 6
  quantumReset : ℤ := 6
  preempted : Bool := false
  adjustReason : AdjustReason := .none
  adjustIncrement : ℤ := 0
  disableBoost : Bool := false
  kernelApc : Bool := false
  processBase : ℤ := 8
  foregroundBoost : Option ℤ := none
  queued : Bool := false

/-- `KPRCB` and its threads. `dispatchDepth` is `DISPATCH_DEPTH`, and `inDispatch` has the threads that
were switched from inside a dispatch, which they leave when they run again. `linkedTwice` says that a
thread was put on a list while it was on one, `hung` that a call did not return. -/
structure Prcb where
  threads : ℕ → Thread
  currentThread : ℕ
  nextThread : Option ℕ
  idleThread : ℕ
  ready : ℤ → List ℕ
  readySummary : ℤ → Bool
  deferred : List ℕ
  quantumEnd : Bool
  dispatchDepth : ℕ
  inDispatch : ℕ → Bool
  linkedTwice : Bool
  hung : Bool

namespace Prcb

variable (s : Prcb)

def setThread (t : ℕ) (thread : Thread) : Prcb := { s with threads := update s.threads t thread }

def setState (t : ℕ) (state : State) : Prcb := s.setThread t { s.threads t with state := state }

/-- A thread goes to the head or the tail of the list of its priority. -/
def enqueue (t : ℕ) (front : Bool) : Prcb :=
  let p := (s.threads t).priority
  let twice := (s.threads t).queued
  let s := s.setThread t { s.threads t with state := .ready, queued := true }
  { s with
    ready := update s.ready p (if front then t :: s.ready p else s.ready p ++ [t])
    readySummary := update s.readySummary p true
    linkedTwice := s.linkedTwice || twice }

/-- A thread leaves the list of its priority. -/
def dequeue (t : ℕ) : Prcb :=
  let p := (s.threads t).priority
  let list := (s.ready p).erase t
  let s := s.setThread t { s.threads t with queued := false }
  { s with
    ready := update s.ready p list
    readySummary := if list = [] then update s.readySummary p false else s.readySummary }

def priorities (low : ℤ) : List ℤ := ((List.range 32).reverse.map Int.ofNat).filter fun p => decide (low ≤ p)

/-- `ki_find_ready_thread`: the first thread of the highest list. -/
def kiFindReadyThread (low : ℤ) : Option ℕ × Prcb :=
  match (priorities low).find? fun p => s.readySummary p && !(s.ready p).isEmpty with
  | some p =>
    match s.ready p with
    | t :: _ =>
      let list := (s.ready p).tail
      let s := s.setThread t { s.threads t with queued := false }
      (some t, { s with
        ready := update s.ready p list
        readySummary := if list = [] then update s.readySummary p false else s.readySummary })
    | [] => (none, s)
  | none => (none, s)

def setNext (t : ℕ) : Prcb := { s.setState t .standby with nextThread := some t }

def displaceNext (next : ℕ) : Prcb :=
  ({ s with nextThread := none }.setThread next { s.threads next with preempted := false }).enqueue next false

def kiReadyThread (t : ℕ) : Prcb :=
  let current := s.currentThread
  let above (t' : ℕ) := decide ((s.threads t').priority < (s.threads t).priority)
  if current = s.idleThread then
    match s.nextThread with
    | none => s.setNext t
    | some next => if above next then (s.displaceNext next).setNext t else s.enqueue t false
  else
    let preempt (s : Prcb) : Prcb := s.setThread current { s.threads current with preempted := true }
    let later : Prcb :=
      let front := (s.threads t).preempted
      (if front then s.setThread t { s.threads t with preempted := false } else s).enqueue t front
    if above current then
      match s.nextThread with
      | none => preempt (s.setNext t)
      | some next => if above next then preempt ((s.displaceNext next).setNext t) else later
    else later

def kiInsertDeferredReadyList (t : ℕ) : Prcb :=
  { s.setState t .deferredReady with
    deferred := t :: s.deferred
    linkedTwice := s.linkedTwice || (s.threads t).queued || decide (t ∈ s.deferred) }

/-- `saturating_add` of `i8`. -/
def saturating (a : ℤ) : ℤ := max (-128) (min 127 a)

/-- `ki_compute_new_priority`: the priority, and what is left of the decrement. -/
def kiComputeNewPriority (thread : Thread) (adjustment : ℤ) : Thread :=
  let p := thread.priority
  let base := thread.basePriority
  if lowRealtimePriority ≤ p then thread
  else if 0 < thread.priorityDecrement then
    { thread with
      priorityDecrement := max (thread.priorityDecrement - adjustment) 0
      priority := max (p - adjustment) base }
  else if base < p then { thread with priority := max (p - adjustment) base }
  else { thread with priority := base }

def adjustBoost (thread : Thread) : Thread :=
  let inc := thread.adjustIncrement
  let limit := lowRealtimePriority - 3
  let thread :=
    if !thread.disableBoost && decide (thread.priority < limit ∧ 0 < inc ∧ thread.priority ≤ inc) then
      let priority := min (saturating (inc + 1)) limit
      { thread with
        priorityDecrement := saturating (thread.priorityDecrement + max (saturating (priority - thread.priority)) 0)
        priority := priority }
    else thread
  { thread with quantum := saturating ((if thread.quantum < 4 then 4 else thread.quantum) - 1) }

def unwaitBoost (thread : Thread) (inc : ℤ) : Thread :=
  if decide (thread.priorityDecrement = 0) && !thread.disableBoost && decide (0 < inc) then
    let baseBoost := saturating (thread.basePriority + inc)
    let foreground := match thread.foregroundBoost with
      | some boost => if boost = 0 then psPrioritySeparation else boost
      | none => 0
    let sum := saturating (baseBoost + foreground)
    let priority := if lowRealtimePriority ≤ sum then lowRealtimePriority - 1 else sum
    if thread.priority < priority then
      { thread with
        priorityDecrement := if 0 < foreground ∧ baseBoost < priority then saturating (priority - baseBoost)
          else thread.priorityDecrement
        priority := priority }
    else thread
  else thread

def adjustUnwait (thread : Thread) : Thread :=
  let inc := thread.adjustIncrement
  if thread.priority < lowRealtimePriority then
    if lowRealtimePriority - 2 ≤ thread.basePriority then { thread with quantum := thread.quantumReset }
    else
      let thread := if thread.priorityDecrement = 0 ∧ 0 < inc then { thread with quantum := thread.quantumReset } else thread
      let thread :=
        if thread.kernelApc then thread
        else
          let quantum := saturating (thread.quantum - 1)
          if quantum ≤ 0 then kiComputeNewPriority { thread with quantum := thread.quantumReset } 1
          else { thread with quantum := quantum }
      unwaitBoost thread inc
  else { thread with quantum := thread.quantumReset }

def adjust (thread : Thread) : Thread :=
  let thread := match thread.adjustReason with
    | .none => thread
    | .boost => adjustBoost thread
    | .unwait => adjustUnwait thread
  if thread.adjustReason = .none then thread else { thread with adjustReason := .none, adjustIncrement := 0 }

def kiDeferredReadyThread (t : ℕ) : Prcb := (s.setThread t (adjust (s.threads t))).kiReadyThread t

def kiProcessDeferredReadyList : Prcb :=
  s.deferred.foldl (fun s t => s.kiDeferredReadyThread t) { s with deferred := [] }

/-- `ki_unwait_thread`, as far as it concerns the scheduler. -/
def kiUnwaitThread (t : ℕ) (kernelApc : Bool) (increment : ℤ) : Prcb :=
  let thread := { s.threads t with kernelApc := kernelApc }
  let thread :=
    if thread.priority < lowRealtimePriority then { thread with adjustReason := .unwait, adjustIncrement := increment }
    else thread
  (s.setThread t thread).kiInsertDeferredReadyList t

/-- The thread that `ki_find_ready_thread` yields is to run next. -/
def findNext (low : ℤ) : Prcb :=
  match s.kiFindReadyThread low with
  | (some t, s) => s.setNext t
  | (none, s) => s

def resetQuantum (thread : Thread) : Thread :=
  if thread.quantum ≤ 0 then
    { thread with quantum := if 0 < thread.quantumReset then thread.quantumReset else threadQuantum }
  else thread

def decay (thread : Thread) : Thread :=
  if 0 < thread.priorityDecrement then kiComputeNewPriority thread 1 else thread

def anyReady (low : ℤ) : Bool := (priorities low).any fun p => s.readySummary p

def kiQuantumEnd : Prcb :=
  let s := { s with quantumEnd := false }
  let current := s.currentThread
  if s.nextThread.isSome then s
  else if current = s.idleThread then s.findNext 0
  else
    let thread := resetQuantum (s.threads current)
    if lowRealtimePriority ≤ thread.priority then (s.setThread current thread).findNext (thread.priority + 1)
    else
      let thread := decay thread
      let s := s.setThread current thread
      if s.anyReady thread.priority then (s.kiReadyThread current).findNext thread.priority else s

def resume (next : ℕ) : Prcb := { s.setState next .running with currentThread := next, nextThread := none }

def leaveDispatch (t : ℕ) : Prcb :=
  if s.inDispatch t then { s with dispatchDepth := s.dispatchDepth - 1, inDispatch := update s.inDispatch t false } else s

/-- `ki_swap_context_resume`, and what is left of the dispatch that the new thread was switched from. -/
def switch (next : ℕ) : Prcb :=
  let old := s.currentThread
  let s := s.resume next
  (if (s.threads old).state = .running then s.setState old .ready else s).leaveDispatch next

def kiSelectNextThread : ℕ × Prcb :=
  match s.kiFindReadyThread 0 with
  | (some t, s) => (t, s)
  | (none, s) => (s.idleThread, s)

/-- The thread that a dispatch goes to, chosen from the ready lists where none is set. -/
def chooseNext : Option ℕ × Prcb :=
  match s.nextThread with
  | some next => (some next, s)
  | none =>
    if s.anyReady 0 then
      let (next, s) := s.kiSelectNextThread
      (some next, { s with nextThread := some next })
    else (none, s)

/-- `DISPATCH_DEPTH` is raised here and lowered at the end, which lies behind the switch. -/
def kiDispatchOnCurrentProcessor : Prcb :=
  if 0 < s.dispatchDepth then s else
  let s := if s.quantumEnd then s.kiQuantumEnd else s
  let s := s.kiProcessDeferredReadyList
  match s.chooseNext with
  | (none, s) => s
  | (some next, s) =>
    let old := s.currentThread
    if old = next then { s with nextThread := none }
    else
      let s := s.setState next .standby
      let s :=
        if old = s.idleThread then s
        else if (s.threads old).state = .running then
          if (s.threads old).queued then s.setState old .ready else s.kiReadyThread old
        else s
      { s with dispatchDepth := s.dispatchDepth + 1, inDispatch := update s.inDispatch old true }.switch next

/-- A wait of the thread that runs, with `ki_swap_thread`. -/
def kiSwapThread : Prcb :=
  let old := s.currentThread
  let s := s.setState old .waiting
  let (next, s) := match s.nextThread with
    | some next => (next, s)
    | none => s.kiSelectNextThread
  if next = old then s else (s.setNext next).switch next

def kiSetPriorityThread (t : ℕ) (priority : ℤ) : Prcb :=
  let thread := s.threads t
  if thread.priority = priority then s
  else
    let lowered := decide (priority < thread.priority)
    match thread.state with
    | .ready =>
      let s := if thread.queued then s.dequeue t else s
      (s.setThread t { s.threads t with priority := priority }).kiInsertDeferredReadyList t
    | .standby =>
      if s.nextThread = some t then
        let s := s.setThread t { thread with priority := priority }
        if lowered then
          match s.kiFindReadyThread (priority + 1) with
          | (some next, s) => (s.setNext next).kiInsertDeferredReadyList t
          | (none, s) => s
        else s
      else { s with hung := true }
    | .running =>
      if s.currentThread = t then
        let s := s.setThread t { thread with priority := priority }
        if lowered && s.nextThread.isNone then s.findNext (priority + 1) else s
      else { s with hung := true }
    | _ => s.setThread t { thread with priority := priority }

def normalPriority (thread : Thread) (priority : ℤ) : ℤ :=
  if thread.basePriority ≠ 0 ∧ priority = 0 then 1 else priority

def keSetPriorityThread (t : ℕ) (priority : ℤ) : Prcb :=
  let changed := decide (priority ≠ (s.threads t).priority)
  let s := s.setThread t { s.threads t with
    priorityDecrement := 0
    quantum := if changed then (s.threads t).quantumReset else (s.threads t).quantum }
  if changed then
    s.kiSetPriorityThread t (normalPriority (s.threads t) priority)
  else s

def newBase (thread : Thread) (increment : ℤ) : ℤ :=
  max lowPriority (min highPriority (saturating (thread.processBase + Int.bmod increment 256)))

def rebased (thread : Thread) (increment : ℤ) : ℤ :=
  if thread.priority ≤ thread.basePriority then newBase thread increment
  else min highPriority (saturating (newBase thread increment + (thread.priority - thread.basePriority)))

def keSetBasePriorityThread (t : ℕ) (increment : ℤ) : Prcb :=
  let thread := s.threads t
  let newPriority := rebased thread increment
  let s := s.setThread t { thread with basePriority := newBase thread increment, priorityDecrement := 0 }
  if newPriority ≠ thread.priority then s.kiSetPriorityThread t newPriority else s

def kiQuantumTick : Prcb :=
  let current := s.currentThread
  let thread := s.threads current
  if current = s.idleThread then
    if s.anyReady 0 then { s with quantumEnd := true } else s
  else if lowRealtimePriority ≤ thread.priority then s
  else if 0 < thread.quantum then
    let quantum := thread.quantum - clockQuantumDecrement
    { s.setThread current { thread with quantum := quantum } with
      quantumEnd := if quantum ≤ 0 then true else s.quantumEnd }
  else s

inductive SchedOp where
  | ready (t : ℕ)
  | insertDeferred (t : ℕ)
  | unwait (t : ℕ) (kernelApc : Bool) (increment : ℤ)
  | processDeferred
  | findReady (low : ℤ)
  | tick
  | quantumEnd
  | setPriority (t : ℕ) (priority : ℤ)
  | setBasePriority (t : ℕ) (increment : ℤ)
  | dispatch
  | wait

def step (s : Prcb) : SchedOp → Prcb
  | .ready t => if (s.threads t).state = .initialized then s.kiReadyThread t else s
  | .insertDeferred t => if (s.threads t).state = .initialized then s.kiInsertDeferredReadyList t else s
  | .unwait t kernelApc increment =>
    if (s.threads t).state = .waiting then s.kiUnwaitThread t kernelApc increment else s
  | .processDeferred => s.kiProcessDeferredReadyList
  | .findReady low => (s.kiFindReadyThread low).2
  | .tick => s.kiQuantumTick
  | .quantumEnd => s.kiQuantumEnd
  | .setPriority t priority => s.keSetPriorityThread t priority
  | .setBasePriority t increment => s.keSetBasePriorityThread t increment
  | .dispatch => s.kiDispatchOnCurrentProcessor
  | .wait =>
    if s.currentThread ≠ s.idleThread ∧ (s.threads s.currentThread).state = .running then s.kiSwapThread else s

def start (idle : ℕ) (threads : ℕ → Thread) : Prcb where
  threads t := { threads t with state := if t = idle then .running else .initialized, queued := false }
  currentThread := idle
  nextThread := none
  idleThread := idle
  ready _ := []
  readySummary _ := false
  deferred := []
  quantumEnd := false
  dispatchDepth := 0
  inDispatch _ := false
  linkedTwice := false
  hung := false

end Prcb

end XenOS.Ke.Sched
