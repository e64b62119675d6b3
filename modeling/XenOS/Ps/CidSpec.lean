import XenOS.General.Run
import XenOS.Ps.Cid

/-! Why no run keeps the promise of client IDs and thread counts. The lookup of a thread returns
whatever its entry holds, and the System process has one. The count of active threads only goes
down. -/

namespace XenOS.Ps

open General

namespace PsSpace

variable {s : PsSpace} {p t id : ℕ} {process : Eprocess} {thread : Ethread}

def LiveProcess (s : PsSpace) (p : ℕ) (process : Eprocess) : Prop :=
  s.processes p = some process ∧ process.exiting = false ∧ process.deleted = false

def LiveThread (s : PsSpace) (t : ℕ) (thread : Ethread) : Prop :=
  s.threads t = some thread ∧ thread.terminated = false ∧ thread.deleted = false

def createdIn (s : PsSpace) (p : ℕ) : ℕ :=
  (List.range s.nextAddress).countP fun t => (s.threads t).any fun thread => thread.threadProcess = p

def runningIn (s : PsSpace) (p : ℕ) : ℕ :=
  (List.range s.nextAddress).countP fun t =>
    (s.threads t).any fun thread => thread.threadProcess = p ∧ thread.terminated = false

structure Exact (s : PsSpace) : Prop where
  processMapped : ∀ p process, s.LiveProcess p process → p ≠ idleProcess → s.cidTable process.processId = some p
  threadMapped : ∀ t thread, s.LiveThread t thread → s.cidTable thread.threadId = some t
  processIds : ∀ p p' process process', s.LiveProcess p process → s.LiveProcess p' process' →
    process.processId = process'.processId → p = p'
  threadIds : ∀ t t' thread thread', s.LiveThread t thread → s.LiveThread t' thread' →
    thread.threadId = thread'.threadId → t = t'
  apart : ∀ p t process thread, s.LiveProcess p process → s.LiveThread t thread → process.processId ≠ thread.threadId
  lookupProcess : ∀ id p, s.pspLookupProcessById id = some p → ∃ process, s.LiveProcess p process
  lookupThread : ∀ id t, s.pspLookupThreadById id = some t → ∃ thread, s.LiveThread t thread
  counted : ∀ p process, s.LiveProcess p process → p ≠ idleProcess → process.activeThreads = s.runningIn p
  exits : ∀ p process, s.processes p = some process → p ≠ idleProcess →
    process.exitRuns = if 0 < s.createdIn p ∧ s.runningIn p = 0 then 1 else 0

/-- A failing thread creation leaves the processes, their threads and references, the CID table and
the ready list alone. -/
def FailsCleanly (s : PsSpace) : PsOp → Prop
  | .createSystemThread processHandle wantsHandle env =>
    let (s', created) := s.psCreateSystemThread processHandle wantsHandle env
    created = false → s'.processes = s.processes ∧ s'.cidTable = s.cidTable ∧ s'.readyList = s.readyList
  | _ => True

def ExactRun (s : PsSpace) (ops : List PsOp) : Prop := EveryState step Exact s ops ∧ EveryStep step FailsCleanly s ops

@[simp] theorem processes_createCid (id object : ℕ) (granted : Bool) : (s.createCid id object granted).processes = s.processes := by
  unfold createCid
  split <;> rfl

@[simp] theorem threads_createCid (id object : ℕ) (granted : Bool) : (s.createCid id object granted).threads = s.threads := by
  unfold createCid
  split <;> rfl

theorem Exact.not_liveProcess (h : s.Exact) (hp : s.LiveProcess p process) (hidle : p ≠ idleProcess)
    (hthread : s.threads p = none) : False := by
  obtain ⟨thread, hlive⟩ := h.lookupThread process.processId p (h.processMapped p process hp hidle)
  rw [hlive.1] at hthread
  cases hthread

theorem system_of_init (env : ThreadEnv) (cidGranted : Bool) :
    ∃ process, (init env cidGranted).LiveProcess systemProcess process ∧ (init env cidGranted).threads systemProcess = none := by
  obtain ⟨objectGranted, stackGranted, tableGranted, handleGranted⟩ := env
  simp only [init, LiveProcess, processes_createCid, threads_createCid]
  cases objectGranted <;> cases stackGranted <;> cases tableGranted <;> exact ⟨_, ⟨rfl, rfl, rfl⟩, rfl⟩

/-- No run keeps the promise: the System process is not in the CID table, or its ID finds it as a
thread. -/
theorem not_exactRun (env : ThreadEnv) (cidGranted : Bool) (ops : List PsOp) : ¬ ExactRun (init env cidGranted) ops := by
  rintro ⟨hstates, -⟩
  obtain ⟨process, hlive, hthread⟩ := system_of_init env cidGranted
  exact hstates.first.not_liveProcess hlive (by decide) hthread

/-- The ID of the System process finds it as a thread. -/
theorem lookup_system_as_thread : (init ⟨true, true, true, true⟩ true).pspLookupThreadById 4 = some systemProcess ∧
    ¬ ExactRun (init ⟨true, true, true, true⟩ true) [] := by
  refine ⟨by decide, fun ⟨hstates, _⟩ => ?_⟩
  obtain ⟨thread, hlive⟩ := hstates.first.lookupThread 4 systemProcess (by decide)
  have hnone : (init ⟨true, true, true, true⟩ true).threads systemProcess = none := by decide
  rw [hlive.1] at hnone
  cases hnone

end PsSpace

end XenOS.Ps
