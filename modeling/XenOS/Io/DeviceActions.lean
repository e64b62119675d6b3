import XenOS.General.Run

/-! The device action queue (`io/pnpmgr/devaction.rs`). Any number of threads queue actions, one
worker drains the queue and resets its event afterwards, outside the lock. The steps interleave. -/

namespace XenOS.Io

open General Function

inductive DeviceAction where
  | enumDeviceTree
  | enumRootDevices
  | resetDevice
  | addBootDevices
  | startDevice
  | queryState
  | stopDevice
  | removeDevice
  | surpriseRemoval
  | invalidateRelations
  | invalidateState
  deriving DecidableEq

/-- Node 0 is the null pointer. -/
structure DeviceActionRequest where
  deviceNode : ℕ
  action : DeviceAction
  flags : ℕ
  deriving DecidableEq

/-- Where a thread is in `pi_queue_device_action`: with the lock and no duplicate, with the idle
event reset, or behind the lock. -/
inductive QueuePc where
  | outside
  | checked (request : DeviceActionRequest)
  | resetIdle (request : DeviceActionRequest)
  | queued
  deriving DecidableEq

/-- The worker: at the wait, in the loop of `pi_process_device_actions`, with a request, at the two
steps behind the loop, at the reset behind the call. -/
inductive WorkerPc where
  | waiting
  | draining
  | processing (request : DeviceActionRequest)
  | drained
  | signalling
  | resetting
  deriving DecidableEq

/-- The queue, its lock and the two events; `idleWaiters` threads are blocked on the idle event. For
the record: the requests queued and processed, those refused with the queue at the time, the queue each
time the idle event was set, and the nodes that were freed. -/
structure ActionQueue (T : Type*) where
  queue : List DeviceActionRequest
  locked : Bool
  enumerationEvent : Bool
  enumerationLock : Bool
  idleWaiters : ℕ
  callers : T → QueuePc
  worker : WorkerPc
  queued : List DeviceActionRequest
  processed : List DeviceActionRequest
  refused : List (DeviceActionRequest × List DeviceActionRequest)
  idled : List (List DeviceActionRequest)
  freed : List ℕ

inductive ActionStep (T : Type*) where
  | enter (t : T) (request : DeviceActionRequest)
  | advance (t : T)
  | work
  | waitForIdle
  | freeNode (node : ℕ)

namespace ActionQueue

variable {T : Type*} [DecidableEq T]

def init : ActionQueue T where
  queue := []
  locked := false
  enumerationEvent := false
  enumerationLock := true
  idleWaiters := 0
  callers := fun _ => .outside
  worker := .waiting
  queued := []
  processed := []
  refused := []
  idled := []
  freed := []

/-- The lock is taken and the queue searched for the same action on the same node. -/
def enter (s : ActionQueue T) (t : T) (request : DeviceActionRequest) : ActionQueue T :=
  if s.locked = true ∨ s.callers t ≠ .outside then s
  else if s.queue.any fun r => r.deviceNode == request.deviceNode && r.action == request.action then
    { s with refused := (request, s.queue) :: s.refused }
  else { s with locked := true, callers := update s.callers t (.checked request) }

def advance (s : ActionQueue T) (t : T) : ActionQueue T :=
  match s.callers t with
  | .outside => s
  | .checked request => { s with enumerationLock := false, callers := update s.callers t (.resetIdle request) }
  | .resetIdle request =>
    { s with
      queue := s.queue ++ [request]
      queued := s.queued ++ [request]
      locked := false
      callers := update s.callers t .queued }
  | .queued => { s with enumerationEvent := true, callers := update s.callers t .outside }

/-- `ke_set_event` for the idle event, a synchronization event: the first thread that is blocked on it
takes the signal with it. -/
def setIdle (s : ActionQueue T) : ActionQueue T :=
  { s with enumerationLock := s.idleWaiters == 0, idleWaiters := s.idleWaiters - 1, idled := s.queue :: s.idled }

def work (s : ActionQueue T) : ActionQueue T :=
  match s.worker with
  | .waiting => if s.enumerationEvent then { s with worker := .draining } else s
  | .draining =>
    if s.locked then s
    else match s.queue with
      | [] => { s with worker := .drained }
      | request :: queue => { s with queue := queue, worker := .processing request }
  | .processing request => { s with processed := s.processed ++ [request], worker := .draining }
  | .drained => { s with enumerationEvent := false, worker := .signalling }
  | .signalling => { s.setIdle with worker := .resetting }
  | .resetting => { s with enumerationEvent := false, worker := .waiting }

/-- `pi_wait_for_enumeration_idle`: a wait for an event that is set returns and leaves it set. -/
def waitForIdle (s : ActionQueue T) : ActionQueue T :=
  if s.enumerationLock then s else { s with idleWaiters := s.idleWaiters + 1 }

def step (s : ActionQueue T) : ActionStep T → ActionQueue T
  | .enter t request => s.enter t request
  | .advance t => s.advance t
  | .work => s.work
  | .waitForIdle => s.waitForIdle
  | .freeNode node => if node = 0 then s else { s with freed := node :: s.freed }

/-! ### What the queue promises -/

def inHand (s : ActionQueue T) : List DeviceActionRequest :=
  match s.worker with
  | .processing request => [request]
  | _ => []

/-- A thread has queued an action and not yet signalled the event. -/
def Signals (s : ActionQueue T) : Prop := ∃ t, s.callers t = .queued

/-- To the letter a worker about to wait finds the event signalled when the queue is not empty; otherwise a thread
that is about to signal it will do. -/
structure Sound (toTheLetter : Prop) (s : ActionQueue T) : Prop where
  once : s.queued = s.processed ++ s.inHand ++ s.queue
  refused : ∀ x ∈ s.refused, ∃ r ∈ x.2, r.deviceNode = x.1.deviceNode ∧ r.action = x.1.action
  woken : s.worker = .waiting → s.queue ≠ [] → s.enumerationEvent = true ∨ ¬ toTheLetter ∧ s.Signals
  idle : s.enumerationLock = true → s.queue = [] ∧ s.inHand = []
  idled : ∀ queue ∈ s.idled, queue = []
  nodes : ∀ r ∈ s.inHand ++ s.queue, r.deviceNode ∉ s.freed

/-- An action is appended while the idle event is reset and its node is there; the worker signals the idle event
with an empty queue, and resets its own event a last time with an empty queue, or before a thread that has
queued an action signals it; no node of an action that waits or is processed is freed. -/
def Spaced (toTheLetter : Prop) (s : ActionQueue T) : ActionStep T → Prop
  | .advance t => ∀ r, s.callers t = .resetIdle r → s.enumerationLock = false ∧ r.deviceNode ∉ s.freed ∧
      (toTheLetter → s.worker = .waiting → s.enumerationEvent = true)
  | .work => (s.worker = .signalling → s.queue = []) ∧
      (s.worker = .resetting → s.queue = [] ∨ ¬ toTheLetter ∧ s.Signals)
  | .freeNode node => node ≠ 0 → ∀ r ∈ s.inHand ++ s.queue, r.deviceNode ≠ node
  | _ => True

variable {toTheLetter : Prop} {s : ActionQueue T}

omit [DecidableEq T] in
theorem Sound.init : (init : ActionQueue T).Sound toTheLetter :=
  ⟨rfl, fun _ h => (List.not_mem_nil h).elim, fun _ h => absurd rfl h, fun _ => ⟨rfl, rfl⟩, fun _ h => (List.not_mem_nil h).elim,
    fun _ h => (List.not_mem_nil h).elim⟩

namespace Sound

variable (h : s.Sound toTheLetter)
include h

theorem enter (t : T) (request : DeviceActionRequest) : (s.enter t request).Sound toTheLetter := by
  unfold ActionQueue.enter
  split_ifs with hbusy hsame
  · exact h
  · refine ⟨h.once, fun x hx => ?_, h.woken, h.idle, h.idled, h.nodes⟩
    rcases List.mem_cons.1 hx with rfl | hx
    · obtain ⟨r, hr, heq⟩ := List.any_eq_true.1 hsame
      rw [Bool.and_eq_true, beq_iff_eq, beq_iff_eq] at heq
      exact ⟨r, hr, heq⟩
    · exact h.refused x hx
  · refine ⟨h.once, h.refused, fun hw hq => (h.woken hw hq).imp_right (And.imp_right ?_), h.idle, h.idled, h.nodes⟩
    rintro ⟨u, hu⟩
    refine ⟨u, ?_⟩
    have hne : u ≠ t := by
      rintro rfl
      rw [not_or, not_not, hu] at hbusy
      cases hbusy.2
    exact (update_of_ne hne _ _).trans hu

theorem advance (t : T) (hspaced : s.Spaced toTheLetter (.advance t)) : (s.advance t).Sound toTheLetter := by
  have hother {pc : QueuePc} (hpc : s.callers t ≠ .queued) : s.Signals → ∃ u, update s.callers t pc u = .queued := by
    rintro ⟨u, hu⟩
    have hne : u ≠ t := by
      rintro rfl
      exact hpc hu
    exact ⟨u, (update_of_ne hne _ _).trans hu⟩
  unfold ActionQueue.advance
  cases hpc : s.callers t with
  | outside => exact h
  | checked request =>
    exact ⟨h.once, h.refused, fun hw hq => (h.woken hw hq).imp_right (And.imp_right (hother (by simp [hpc]))),
      (fun hidle => by cases hidle), h.idled, h.nodes⟩
  | resetIdle request =>
    obtain ⟨hidle, hnode, hevent⟩ := hspaced request hpc
    refine ⟨?_, h.refused, fun hw _ => ?_, fun hset => absurd hset (by simp [hidle]), h.idled, fun r hr => ?_⟩
    · show s.queued ++ [request] = s.processed ++ s.inHand ++ (s.queue ++ [request])
      rw [h.once, List.append_assoc _ s.queue]
    · by_cases hletter : toTheLetter
      · exact .inl (hevent hletter hw)
      · exact .inr ⟨hletter, t, update_self ..⟩
    · have hr : r ∈ s.inHand ++ (s.queue ++ [request]) := hr
      rw [← List.append_assoc, List.mem_append, List.mem_singleton] at hr
      rcases hr with hr | rfl
      · exact h.nodes r hr
      · exact hnode
  | queued => exact ⟨h.once, h.refused, fun _ _ => .inl rfl, h.idle, h.idled, h.nodes⟩

omit [DecidableEq T] in
theorem work (hspaced : s.Spaced toTheLetter .work) : s.work.Sound toTheLetter := by
  obtain ⟨hsignal, hreset⟩ := hspaced
  have honce := h.once
  have hidle := h.idle
  have hnodes := h.nodes
  unfold ActionQueue.work
  unfold inHand at honce hidle hnodes
  cases hworker : s.worker with
  | waiting =>
    rw [hworker] at honce hidle hnodes
    dsimp only
    split_ifs
    · exact ⟨honce, h.refused, (fun hw => by cases hw), hidle, h.idled, hnodes⟩
    · exact h
  | draining =>
    rw [hworker] at honce hidle hnodes
    dsimp only
    split_ifs
    · exact h
    · cases hqueue : s.queue with
      | nil =>
        rw [hqueue] at honce hidle hnodes
        exact ⟨honce, h.refused, (fun hw => by cases hw), hidle, h.idled, hnodes⟩
      | cons request queue =>
        rw [hqueue] at honce hidle hnodes
        refine ⟨by simpa [inHand] using honce, h.refused, (fun hw => by cases hw), fun hset => ?_, h.idled, hnodes⟩
        cases (hidle hset).1
  | processing request =>
    rw [hworker] at honce hidle hnodes
    refine ⟨by simpa [inHand] using honce, h.refused, (fun hw => by cases hw), fun hset => ?_, h.idled, fun r hr => ?_⟩
    · cases (hidle hset).2
    · exact hnodes r (List.mem_append_right _ hr)
  | drained =>
    rw [hworker] at honce hidle hnodes
    exact ⟨honce, h.refused, (fun hw => by cases hw), hidle, h.idled, hnodes⟩
  | signalling =>
    rw [hworker] at honce hnodes
    exact ⟨honce, h.refused, (fun hw => by cases hw), fun _ => ⟨hsignal hworker, rfl⟩,
      List.forall_mem_cons.2 ⟨hsignal hworker, h.idled⟩, hnodes⟩
  | resetting =>
    rw [hworker] at honce hidle hnodes
    exact ⟨honce, h.refused, fun _ hq => .inr ((hreset hworker).resolve_left hq), hidle, h.idled, hnodes⟩

theorem step (a : ActionStep T) (hspaced : s.Spaced toTheLetter a) : (s.step a).Sound toTheLetter := by
  cases a with
  | enter t request => exact h.enter t request
  | advance t => exact h.advance t hspaced
  | work => exact h.work hspaced
  | waitForIdle =>
    show (ite _ _ _ : ActionQueue T).Sound toTheLetter
    split_ifs with hset
    · exact h
    · exact ⟨h.once, h.refused, h.woken, fun hset' => absurd hset' hset, h.idled, h.nodes⟩
  | freeNode node =>
    show (if _ then _ else _ : ActionQueue T).Sound toTheLetter
    split_ifs with hnull
    · exact h
    · refine ⟨h.once, h.refused, h.woken, h.idle, h.idled, fun r hr => ?_⟩
      rw [List.mem_cons, not_or]
      exact ⟨hspaced hnull r hr, h.nodes r hr⟩

end Sound

/-- A step that is not spaced breaks the promise at once. -/
theorem not_sound_of_not_spaced (a : ActionStep T) (hspaced : ¬ s.Spaced toTheLetter a) : ¬ (s.step a).Sound toTheLetter := by
  intro h'
  refine hspaced ?_
  cases a with
  | enter t request => trivial
  | waitForIdle => trivial
  | advance t =>
    intro request hpc
    have hstep : s.step (.advance t) = _ := show s.advance t = _ by rw [ActionQueue.advance, hpc]
    rw [hstep] at h'
    have hne : s.queue ++ [request] ≠ [] := by simp
    refine ⟨Bool.eq_false_iff.2 fun hset => hne (h'.idle hset).1, h'.nodes request (by simp), fun hletter hw => ?_⟩
    exact (h'.woken hw hne).resolve_right fun hsignals => hsignals.1 hletter
  | work =>
    constructor
    · intro hworker
      have hstep : s.step .work = _ := show s.work = _ by rw [ActionQueue.work, hworker]
      rw [hstep] at h'
      exact h'.idled _ List.mem_cons_self
    · intro hworker
      have hstep : s.step .work = _ := show s.work = _ by rw [ActionQueue.work, hworker]
      rw [hstep] at h'
      by_contra hnot
      rw [not_or] at hnot
      rcases h'.woken rfl hnot.1 with hevent | hsignals
      · cases hevent
      · exact hnot.2 hsignals
  | freeNode node =>
    intro hnull r hr heq
    have hstep : s.step (.freeNode node) = _ := if_neg hnull
    rw [hstep] at h'
    exact h'.nodes r hr (heq ▸ List.mem_cons_self)

/-- In every run the queue keeps its promise in every state exactly if every step is spaced. -/
theorem deviceActions_exact (toTheLetter : Prop) (steps : List (ActionStep T)) :
    EveryState step (Sound toTheLetter) init steps ↔ EveryStep step (Spaced toTheLetter) init steps :=
  everyState_iff_everyStep (I := Sound toTheLetter) (G := fun _ _ => True) (fun _ a h _ hspaced => h.step a hspaced)
    (fun _ h => h) (fun _ a _ _ => not_sound_of_not_spaced a) Sound.init (everyStep_of_forall fun _ _ => trivial)

/-- The worker has found the queue empty when a second action is queued and signalled: it resets its event and
signals that all is idle. -/
theorem lost_wakeup : ¬ EveryState step (Sound False) (init : ActionQueue Unit)
    ([.enter () ⟨1, .startDevice, 0⟩, .advance (), .advance (), .advance ()] ++ List.replicate 4 .work ++
      [.enter () ⟨2, .startDevice, 0⟩, .advance (), .advance (), .advance ()] ++ List.replicate 3 .work) := by
  intro hall
  rw [everyState_iff_take] at hall
  have hidle := (hall 14).idle (by decide)
  revert hidle
  decide

end ActionQueue

end XenOS.Io
