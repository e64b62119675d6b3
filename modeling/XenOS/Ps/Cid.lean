import Mathlib.Algebra.Group.Nat.Defs
import Mathlib.Data.Set.Finite.Basic

/-! Client IDs and thread counts. Processes and threads are numbered by their addresses, which stay
theirs. The CID table is a map from IDs to addresses; whether it has memory for an entry is up to
the pool. -/

namespace XenOS.Ps

/-- `EPROCESS`. The thread list is that of its `KPROCESS`; `exitRuns` counts the runs of the body of
`psp_exit_process`. -/
structure Eprocess where
  processId : ℕ
  activeThreads : ℕ
  threadList : List ℕ
  active : Bool
  exiting : Bool
  references : ℕ
  exitRuns : ℕ
  deleted : Bool

/-- The fields of `ETHREAD`. -/
structure Ethread where
  threadId : ℕ
  threadProcess : ℕ
  stack : Bool
  terminated : Bool
  deleted : Bool

structure PsSpace where
  nextProcessId : ℕ
  nextThreadId : ℕ
  cidTable : ℕ → Option ℕ
  processes : ℕ → Option Eprocess
  threads : ℕ → Option Ethread
  readyList : List ℕ
  nextAddress : ℕ

namespace PsSpace

/-- `PS_IDLE_PROCESS` and `PS_INITIAL_SYSTEM_PROCESS`. -/
def idleProcess : ℕ := 1
def systemProcess : ℕ := 2

/-- `AtomicUsize::fetch_add` of 4. -/
def nextId (id : ℕ) : ℕ := (id + 4) % 2 ^ 64

/-- `AtomicU32::fetch_sub` of one. -/
def decrement (n : ℕ) : ℕ := (n + (2 ^ 32 - 1)) % 2 ^ 32

def setProcess (s : PsSpace) (p : ℕ) (process : Eprocess) : PsSpace :=
  { s with processes := Function.update s.processes p (some process) }

def setThread (s : PsSpace) (t : ℕ) (thread : Ethread) : PsSpace :=
  { s with threads := Function.update s.threads t (some thread) }

/-- `psp_create_process_cid` and `psp_create_thread_cid`: `ex_create_handle_at` refuses ID 0
and an ID whose entry is taken. -/
def createCid (s : PsSpace) (id object : ℕ) (granted : Bool) : PsSpace :=
  if id = 0 ∨ ¬ granted ∨ (s.cidTable id).isSome then s
  else { s with cidTable := Function.update s.cidTable id (some object) }

/-- `psp_delete_process_cid` and `psp_delete_thread_cid`: whatever the entry holds. -/
def deleteCid (s : PsSpace) (id : ℕ) : PsSpace := { s with cidTable := Function.update s.cidTable id none }

def pspLookupProcessById (s : PsSpace) (processId : ℕ) : Option ℕ :=
  if processId = 0 then some idleProcess
  else if processId = 4 then some systemProcess
  else s.cidTable processId

def pspLookupThreadById (s : PsSpace) (threadId : ℕ) : Option ℕ := s.cidTable threadId

/-- `psp_create_process` and `psp_insert_process`. A refused CID entry does not fail the call. -/
def createProcess (s : PsSpace) (processGranted tableGranted cidGranted : Bool) : PsSpace :=
  if ¬ processGranted then s
  else
    let pid := s.nextProcessId
    let s := { s with nextProcessId := nextId s.nextProcessId }
    if ¬ tableGranted then s
    else
      let p := s.nextAddress
      let process : Eprocess :=
        { processId := pid
          activeThreads := 0
          threadList := []
          active := true
          exiting := false
          references := 1
          exitRuns := 0
          deleted := false }
      let s := { s with nextAddress := p + 1 }.setProcess p process
      s.createCid pid p cidGranted

def pspRemoveProcess (s : PsSpace) (p : ℕ) (process : Eprocess) : PsSpace :=
  let s := s.setProcess p { process with active := false }
  if process.processId ≠ 0 then s.deleteCid process.processId else s

def pspExitProcess (s : PsSpace) (p : ℕ) : PsSpace :=
  match s.processes p with
  | none => s
  | some process =>
    if process.exiting then s
    else s.pspRemoveProcess p { process with exiting := true, exitRuns := process.exitRuns + 1 }

def pspProcessDelete (s : PsSpace) (p : ℕ) : PsSpace :=
  match s.processes p with
  | none => s
  | some process =>
    let s := if process.processId ≠ 0 then s.deleteCid process.processId else s
    s.setProcess p { process with active := false, deleted := true }

/-- Take the thread out of the list of its process and count it out; the process and its
count from before are the result. -/
def leaveProcess (s : PsSpace) (t : ℕ) (thread : Ethread) : PsSpace × Option ℕ :=
  match s.processes thread.threadProcess with
  | none => (s, none)
  | some process =>
    (s.setProcess thread.threadProcess
      { process with
        threadList := process.threadList.erase t
        activeThreads := decrement process.activeThreads }, some process.activeThreads)

def joinProcess (s : PsSpace) (t p : ℕ) : PsSpace :=
  match s.processes p with
  | none => s
  | some process => s.setProcess p { process with threadList := process.threadList ++ [t] }

def pspExitThread (s : PsSpace) (t : ℕ) : PsSpace :=
  match s.threads t with
  | none => s
  | some thread =>
    let s := s.setThread t { thread with terminated := true }
    let s := if thread.threadId ≠ 0 then s.deleteCid thread.threadId else s
    let (s, oldCount) := s.leaveProcess t thread
    if oldCount = some 1 then s.pspExitProcess thread.threadProcess else s

def pspThreadDelete (s : PsSpace) (t : ℕ) : PsSpace :=
  match s.threads t with
  | none => s
  | some thread =>
    let s := if thread.threadId ≠ 0 then s.deleteCid thread.threadId else s
    let s := s.setThread t { thread with stack := false, deleted := true }
    (s.leaveProcess t thread).1

structure ThreadEnv where
  objectGranted : Bool
  stackGranted : Bool
  cidGranted : Bool
  handleGranted : Bool

/-- The process of `ps_create_system_thread`: the System process, or the one behind a handle,
which is referenced. -/
def targetProcess (s : PsSpace) (processHandle : Option (Option ℕ)) : PsSpace × Option ℕ :=
  match processHandle with
  | none => (s, some systemProcess)
  | some none => (s, none)
  | some (some p) =>
    match s.processes p with
    | none => (s, none)
    | some process => (s.setProcess p { process with references := process.references + 1 }, some p)

/-- `ps_create_system_thread`, and its success. No handle is the System process. A handle that
cannot be inserted costs the object its only reference. -/
def psCreateSystemThread (s : PsSpace) (processHandle : Option (Option ℕ)) (wantsHandle : Bool) (env : ThreadEnv) :
    PsSpace × Bool :=
  match s.targetProcess processHandle with
  | (s, none) => (s, false)
  | (s, some p) =>
    if ¬ env.objectGranted then (s, false)
    else if ¬ env.stackGranted then (s, false)
    else
      let tid := s.nextThreadId
      let t := s.nextAddress
      let s := { s with nextThreadId := nextId s.nextThreadId, nextAddress := t + 1 }
      let thread : Ethread := { threadId := tid, threadProcess := p, stack := true, terminated := false, deleted := false }
      let s := ((s.setThread t thread).createCid tid t env.cidGranted).joinProcess t p
      let s := if wantsHandle ∧ ¬ env.handleGranted then s.pspThreadDelete t else s
      ({ s with readyList := s.readyList ++ [t] }, true)

end PsSpace

/-- What happens to processes and threads; a closed handle matters when it was the last
reference, which is a deletion. -/
inductive PsOp where
  | createProcess (processGranted tableGranted cidGranted : Bool)
  | createSystemThread (processHandle : Option (Option ℕ)) (wantsHandle : Bool) (env : PsSpace.ThreadEnv)
  | exitThread (t : ℕ)
  | deleteProcess (p : ℕ)
  | deleteThread (t : ℕ)

namespace PsSpace

def step (s : PsSpace) : PsOp → PsSpace
  | .createProcess processGranted tableGranted cidGranted => s.createProcess processGranted tableGranted cidGranted
  | .createSystemThread processHandle wantsHandle env => (s.psCreateSystemThread processHandle wantsHandle env).1
  | .exitThread t => s.pspExitThread t
  | .deleteProcess p => s.pspProcessDelete p
  | .deleteThread t => s.pspThreadDelete t

def startProcess (processId : ℕ) : Eprocess :=
  { processId
    activeThreads := 0
    threadList := []
    active := true
    exiting := false
    references := 1
    exitRuns := 0
    deleted := false }

/-- After `create_system_process`. -/
def boot : PsSpace :=
  { nextProcessId := 8
    nextThreadId := 8
    cidTable := fun _ => none
    processes := fun p => if p = idleProcess then some (startProcess 0) else if p = systemProcess then some (startProcess 4) else none
    threads := fun _ => none
    readyList := []
    nextAddress := 3 }

/-- After `psp_init_phase0` with the Phase 1 thread and `psp_init_phase1` with the System process,
if there was memory for its entry. -/
def init (env : ThreadEnv) (cidGranted : Bool) : PsSpace :=
  ((boot.psCreateSystemThread none false env).1).createCid 4 systemProcess cidGranted

end PsSpace

end XenOS.Ps
