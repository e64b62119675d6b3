import XenOS.General.Run
import XenOS.Ke.SchedPlaces

/-! Every step of the scheduler keeps its threads where their states say. A dispatch switches only from
the idle thread: the next one is refused until that thread, which is still inside the first, runs again. -/

namespace XenOS.Ke.Sched

open General List
open Function (update update_self update_of_ne)

namespace Prcb

variable {s s' s'' : Prcb} {hand : Set ℕ} {pending : List ℕ} {t u : ℕ}

structure Effect (s s' : Prcb) (t : ℕ) : Prop where
  current : s'.currentThread = s.currentThread
  idle : s'.idleThread = s.idleThread
  depth : s'.dispatchDepth = s.dispatchDepth
  inDispatch : s'.inDispatch = s.inDispatch
  next : s.nextThread ≠ none → s'.nextThread ≠ none
  state : ∀ u, u ≠ t → (s.threads u).state ≠ .standby → (s'.threads u).state = (s.threads u).state

theorem Effect.trans (h : Effect s s' t) (h' : Effect s' s'' t) : Effect s s'' t where
  current := h'.current.trans h.current
  idle := h'.idle.trans h.idle
  depth := h'.depth.trans h.depth
  inDispatch := h'.inDispatch.trans h.inDispatch
  next hnext := h'.next (h.next hnext)
  state u hu hstate := (h'.state u hu (by rwa [h.state u hu hstate])).trans (h.state u hu hstate)

theorem Effect.setThread (s : Prcb) (t : ℕ) (thread : Thread) : Effect s (s.setThread t thread) t :=
  ⟨rfl, rfl, rfl, rfl, id, fun _ hu _ => by rw [setThread_of_ne s thread hu]⟩

theorem Effect.setPreempted (s : Prcb) (t u : ℕ) (preempted : Bool) :
    Effect s (s.setThread u { s.threads u with preempted := preempted }) t := by
  refine ⟨rfl, rfl, rfl, rfl, id, fun v _ _ => ?_⟩
  by_cases hv : v = u
  · rw [hv, setThread_self]
  · rw [setThread_of_ne s _ hv]

theorem Effect.enqueue (s : Prcb) (t : ℕ) (front : Bool) : Effect s (s.enqueue t front) t :=
  ⟨rfl, rfl, rfl, rfl, id, fun _ hu _ => congrArg Thread.state (update_of_ne hu ..)⟩

theorem Effect.setNext (s : Prcb) (t : ℕ) : Effect s (s.setNext t) t :=
  ⟨rfl, rfl, rfl, rfl, fun _ => Option.some_ne_none t, fun _ hu _ => congrArg Thread.state (update_of_ne hu ..)⟩

theorem setPreempted_places (h : Places s hand pending) (u : ℕ) (preempted : Bool) :
    Places (s.setThread u { s.threads u with preempted := preempted }) hand pending :=
  h.setKept rfl rfl fun _ => rfl

variable {next : ℕ}

theorem displaceNext_threads (s : Prcb) (hu : u ≠ next) : (s.displaceNext next).threads u = s.threads u := by
  unfold displaceNext
  refine (update_of_ne hu ..).trans ?_
  exact update_of_ne hu ..

theorem Places.displaceNext (h : Places s hand pending) (hnext : s.nextThread = some next) :
    Places (s.displaceNext next) hand pending := by
  obtain ⟨hout, hidle, -⟩ := (h.next next).1 hnext
  have htaken := h.takeNext hnext
  have hqueued := htaken.not_queued_of_hand (Set.mem_insert next hand)
  exact (htaken.setHand (Set.mem_insert next hand) { s.threads next with preempted := false } hqueued).enqueue
    hout hidle false

theorem Places.replaceNext (h : Places s (insert t hand) pending) (hout : t ∉ hand) (hidle : t ≠ s.idleThread)
    (hnext : s.nextThread = some next) :
    Places ((s.displaceNext next).setNext t) hand pending ∧ Effect s ((s.displaceNext next).setNext t) t := by
  have hstate := ((h.next next).1 hnext).2.2
  refine ⟨(h.displaceNext hnext).setNext hout hidle rfl, rfl, rfl, rfl, rfl, fun _ => Option.some_ne_none t, fun u hu hstandby => ?_⟩
  have hne : u ≠ next := fun heq => hstandby (heq ▸ hstate)
  rw [show ((s.displaceNext next).setNext t).threads u = (s.displaceNext next).threads u from update_of_ne hu ..,
    displaceNext_threads s hne]

theorem Places.kiReadyThread (h : Places s (insert t hand) pending) (hout : t ∉ hand) (hidle : t ≠ s.idleThread) :
    Places (s.kiReadyThread t) hand pending ∧ Effect s (s.kiReadyThread t) t := by
  have hlater : Places ((if (s.threads t).preempted then s.setThread t { s.threads t with preempted := false } else s).enqueue t
      (s.threads t).preempted) hand pending ∧
      Effect s ((if (s.threads t).preempted then s.setThread t { s.threads t with preempted := false } else s).enqueue t
        (s.threads t).preempted) t := by
    split
    · exact ⟨(setPreempted_places h t false).enqueue hout hidle _, (Effect.setPreempted s t t false).trans (.enqueue _ t _)⟩
    · exact ⟨h.enqueue hout hidle _, .enqueue s t _⟩
  have hpreempt {s' : Prcb} (hs' : Places s' hand pending ∧ Effect s s' t) :
      Places (s'.setThread s.currentThread { s'.threads s.currentThread with preempted := true }) hand pending ∧
      Effect s (s'.setThread s.currentThread { s'.threads s.currentThread with preempted := true }) t :=
    ⟨setPreempted_places hs'.1 _ true, hs'.2.trans (.setPreempted s' t _ true)⟩
  unfold Prcb.kiReadyThread
  dsimp only
  split
  · cases hnext : s.nextThread with
    | none => exact ⟨h.setNext hout hidle hnext, .setNext s t⟩
    | some next =>
      dsimp only
      split
      · exact h.replaceNext hout hidle hnext
      · exact ⟨h.enqueue hout hidle false, .enqueue s t false⟩
  · split
    · cases hnext : s.nextThread with
      | none => exact hpreempt ⟨h.setNext hout hidle hnext, .setNext s t⟩
      | some next =>
        dsimp only
        split
        · exact hpreempt (h.replaceNext hout hidle hnext)
        · exact hlater
    · exact hlater

theorem kiReadyThread_current (s : Prcb) (hcurrent : t = s.currentThread) (hidle : t ≠ s.idleThread) :
    s.kiReadyThread t = (if (s.threads t).preempted then s.setThread t { s.threads t with preempted := false } else s).enqueue t
      (s.threads t).preempted := by
  unfold kiReadyThread
  subst hcurrent
  dsimp only
  rw [if_neg hidle, if_neg (by simp)]

/-- The threads are in their places, and the current one runs unless another is to run next. A dispatch
that is not ended is that of the idle thread, which is then not the current one. -/
structure Sound (s : Prcb) (pending : List ℕ) : Prop where
  places : Places s ∅ pending
  current : s.currentThread ≠ s.idleThread → s.nextThread = none → (s.threads s.currentThread).state = .running
  idle : (s.threads s.idleThread).state = if s.currentThread = s.idleThread then .running else .ready
  depth : s.dispatchDepth = if s.currentThread = s.idleThread then 0 else 1
  inDispatch : ∀ t, s.inDispatch t = true ↔ t = s.idleThread ∧ s.currentThread ≠ s.idleThread

theorem Sound.idle_ne (h : Sound s pending) : (s.threads s.idleThread).state ≠ .standby ∧
    (s.threads s.idleThread).state ≠ .deferredReady := by
  rw [h.idle]
  split <;> decide

/-- A step about one thread, which is not the idle one, and if it is the current one, not as the one
that runs. -/
theorem Sound.after_effect {before : List ℕ} (h : Sound s before) (hplaces : Places s' ∅ pending) (heffect : Effect s s' t)
    (hidle : t ≠ s.idleThread) (ht : t = s.currentThread → s.nextThread ≠ none) : Sound s' pending := by
  refine ⟨hplaces, ?_, ?_, ?_, ?_⟩
  · rw [heffect.current, heffect.idle]
    intro hcurrent hnone
    have hnext : s.nextThread = none := by
      by_contra hsome
      exact heffect.next hsome hnone
    have hrunning := h.current hcurrent hnext
    rwa [heffect.state _ (fun heq => ht heq.symm hnext) (by simp [hrunning])]
  · rw [heffect.idle, heffect.current, heffect.state _ hidle.symm h.idle_ne.1]
    exact h.idle
  · rw [heffect.idle, heffect.current, heffect.depth]
    exact h.depth
  · rw [heffect.idle, heffect.current, heffect.inDispatch]
    exact h.inDispatch

/-- A current thread that does not run has another to follow it. -/
theorem Sound.next_of_not_running (h : Sound s pending) (hidle : t ≠ s.idleThread) (hstate : (s.threads t).state ≠ .running)
    (ht : t = s.currentThread) : s.nextThread ≠ none := by
  subst ht
  exact fun hnone => hstate (h.current hidle hnone)

theorem kiComputeNewPriority_queued (thread : Thread) (adjustment : ℤ) :
    (kiComputeNewPriority thread adjustment).queued = thread.queued := by
  unfold kiComputeNewPriority
  dsimp only
  split_ifs <;> rfl

theorem adjust_queued (thread : Thread) : (adjust thread).queued = thread.queued := by
  have hboost (thread : Thread) : (adjustBoost thread).queued = thread.queued := by
    unfold adjustBoost
    dsimp only
    split_ifs <;> rfl
  have hunwaitBoost (thread : Thread) (inc : ℤ) : (unwaitBoost thread inc).queued = thread.queued := by
    unfold unwaitBoost
    dsimp only
    split_ifs <;> rfl
  have hunwait (thread : Thread) : (adjustUnwait thread).queued = thread.queued := by
    unfold adjustUnwait
    dsimp only
    split_ifs <;> simp only [hunwaitBoost, kiComputeNewPriority_queued]
  unfold adjust
  cases hreason : thread.adjustReason with
  | none => dsimp only; split_ifs; rfl
  | boost => dsimp only; split_ifs <;> exact hboost thread
  | unwait => dsimp only; split_ifs <;> exact hunwait thread

theorem Sound.kiDeferredReadyThread (h : Sound s (t :: pending)) :
    Sound (s.kiDeferredReadyThread t) pending := by
  have hmem : t ∈ s.deferred ++ t :: pending := by simp
  obtain ⟨-, hidle, hstate⟩ := (h.places.deferred t).1 hmem
  have htaken := h.places.takePending
  have hin : t ∈ insert t (∅ : Set ℕ) := Set.mem_insert t ∅
  have hadjusted := htaken.setHand hin (adjust (s.threads t))
    ((adjust_queued _).trans (htaken.not_queued_of_hand hin))
  obtain ⟨hplaces, heffect⟩ := hadjusted.kiReadyThread (Set.notMem_empty t) hidle
  exact h.after_effect hplaces ((Effect.setThread s t (adjust (s.threads t))).trans heffect) hidle
    (h.next_of_not_running hidle (by simp [hstate]))

theorem Sound.kiProcessDeferredReadyList (h : Sound s []) : Sound s.kiProcessDeferredReadyList [] := by
  have hloop (pending : List ℕ) (s : Prcb) (h : Sound s pending) :
      Sound (pending.foldl (fun s t => s.kiDeferredReadyThread t) s) [] := by
    induction pending generalizing s with
    | nil => exact h
    | cons t pending ih => exact ih _ h.kiDeferredReadyThread
  refine hloop s.deferred { s with deferred := [] } ⟨?_, h.current, h.idle, h.depth, h.inDispatch⟩
  have hdeferred := h.places.deferred
  have hnodup := h.places.deferredNodup
  simp only [append_nil] at hdeferred hnodup
  exact ⟨h.places.ready, hdeferred, h.places.next, h.places.running, h.places.readyNodup, hnodup, h.places.summary,
    h.places.queued, h.places.once, h.places.returns⟩

def taken (s : Prcb) (p : ℤ) (t : ℕ) (list : List ℕ) : Prcb :=
  { s.setThread t { s.threads t with queued := false } with
    ready := update s.ready p list
    readySummary := if list = [] then update s.readySummary p false else s.readySummary }

variable {p : ℤ}

theorem kiFindReadyThread_spec (hsummary : ∀ p, s.readySummary p = true ↔ s.ready p ≠ []) (low : ℤ) :
    (s.kiFindReadyThread low = (none, s) ∧ ∀ p ∈ priorities low, s.ready p = []) ∨
      ∃ p t list, s.ready p = t :: list ∧ s.kiFindReadyThread low = (some t, s.taken p t list) := by
  have hempty (q : ℤ) (h : (s.readySummary q && !(s.ready q).isEmpty) = false) : s.ready q = [] := by
    by_contra hne
    simp [(hsummary q).2 hne, hne] at h
  unfold kiFindReadyThread
  cases hfind : (priorities low).find? fun p => s.readySummary p && !(s.ready p).isEmpty with
  | none =>
    refine .inl ⟨rfl, fun p hp => hempty p (Bool.eq_false_iff.2 (find?_eq_none.1 hfind p hp))⟩
  | some p =>
    have hpred := find?_some hfind
    dsimp only
    cases hlist : s.ready p with
    | nil => simp [hlist] at hpred
    | cons t list => exact .inr ⟨p, t, list, hlist, rfl⟩

theorem Places.taken (h : Places s hand pending) {list : List ℕ} (hlist : s.ready p = t :: list) :
    Places (s.taken p t list) (insert t hand) pending := by
  have ht : t ∈ s.ready p := hlist ▸ mem_cons_self
  exact h.takeReady ht (by rw [hlist, erase_cons_head])

theorem taken_effect (s : Prcb) (p : ℤ) (t : ℕ) (list : List ℕ) : Effect s (s.taken p t list) t :=
  ⟨rfl, rfl, rfl, rfl, id, fun _ hu _ => congrArg Thread.state (update_of_ne hu ..)⟩

theorem Places.findNext (h : Places s hand pending) (hnext : s.nextThread = none) (low : ℤ) :
    (s.findNext low = s ∧ ∀ p ∈ priorities low, s.ready p = []) ∨
      ∃ p t list, s.ready p = t :: list ∧
        Places (s.findNext low) hand pending ∧ Effect s (s.findNext low) t ∧ (s.findNext low).nextThread = some t := by
  unfold Prcb.findNext
  rcases kiFindReadyThread_spec h.summary low with ⟨heq, hnone⟩ | ⟨p, t, list, hlist, heq⟩
  · rw [heq]
    exact .inl ⟨rfl, hnone⟩
  · rw [heq]
    have ht : t ∈ s.ready p := hlist ▸ mem_cons_self
    obtain ⟨hout, hidle, -⟩ := (h.ready t p).1 ht
    exact .inr ⟨p, t, list, hlist, (h.taken hlist).setNext hout hidle hnext,
      (taken_effect s p t list).trans (.setNext _ t), rfl⟩

theorem Sound.findNext (h : Sound s []) (hnext : s.nextThread = none) (low : ℤ) : Sound (s.findNext low) [] := by
  rcases h.places.findNext hnext low with ⟨heq, -⟩ | ⟨p, t, list, hlist, hplaces, heffect, -⟩
  · rw [heq]
    exact h
  · have ht : t ∈ s.ready p := hlist ▸ mem_cons_self
    obtain ⟨-, hidle, hstate, -⟩ := (h.places.ready t p).1 ht
    exact h.after_effect hplaces heffect hidle (h.next_of_not_running hidle (by simp [hstate]))

theorem Sound.setKept (h : Sound s pending) {thread : Thread} (hstate : thread.state = (s.threads t).state)
    (hqueued : thread.queued = (s.threads t).queued)
    (hpriority : (s.threads t).state = .ready → thread.priority = (s.threads t).priority) :
    Sound (s.setThread t thread) pending := by
  have hstates (u : ℕ) : ((s.setThread t thread).threads u).state = (s.threads u).state := by
    by_cases hu : u = t
    · rw [hu, setThread_self, hstate]
    · rw [setThread_of_ne s thread hu]
  refine ⟨h.places.setKept hstate hqueued hpriority, ?_, (hstates _).trans h.idle, h.depth, h.inDispatch⟩
  rw [hstates]
  exact h.current

def quantumThread (thread : Thread) : Thread := decay (resetQuantum thread)

theorem anyReady_iff (h : Places s hand pending) (low : ℤ) :
    s.anyReady low = true ↔ ∃ p ∈ priorities low, s.ready p ≠ [] := by
  simp only [anyReady, any_eq_true, h.summary]

theorem resetQuantum_same (thread : Thread) :
    (resetQuantum thread).state = thread.state ∧ (resetQuantum thread).priority = thread.priority ∧
      (resetQuantum thread).queued = thread.queued := by
  unfold resetQuantum
  split_ifs <;> exact ⟨rfl, rfl, rfl⟩

theorem quantumThread_same (thread : Thread) :
    (quantumThread thread).state = thread.state ∧ (quantumThread thread).queued = thread.queued := by
  obtain ⟨hstate, -, hqueued⟩ := resetQuantum_same thread
  unfold quantumThread decay kiComputeNewPriority
  dsimp only
  split_ifs <;> exact ⟨hstate, hqueued⟩

theorem Sound.requeue (h : Sound s []) (hnext : s.nextThread = none) (hidle : s.currentThread ≠ s.idleThread)
    (hany : s.anyReady (s.threads s.currentThread).priority = true) :
    Sound ((s.kiReadyThread s.currentThread).findNext (s.threads s.currentThread).priority) [] := by
  have hrunning := h.current hidle hnext
  generalize hcurrent : s.currentThread = t at *
  set prio := (s.threads t).priority with hprio
  obtain ⟨hplaces, heffect⟩ := (h.places.take (t := t) (by simp [hrunning]) (by simp [hrunning]) (by simp [hrunning])).kiReadyThread
    (Set.notMem_empty t) hidle
  have hform := kiReadyThread_current s hcurrent.symm hidle
  generalize hs1 : s.kiReadyThread t = s1 at *
  have hnext1 : s1.nextThread = none := by
    rw [hform]
    split
    · exact hnext
    · exact hnext
  have hkept (q : ℤ) (hq : s.ready q ≠ []) : s1.ready q ≠ [] := by
    obtain ⟨u, hu⟩ := exists_mem_of_ne_nil _ hq
    obtain ⟨-, huidle, hustate, hupriority⟩ := (h.places.ready u q).1 hu
    have hne : u ≠ t := fun heq => by
      rw [heq, hrunning] at hustate
      cases hustate
    refine ne_nil_of_mem ((hplaces.ready u q).2 ⟨Set.notMem_empty u, heffect.idle ▸ huidle, ?_, ?_⟩)
    · rw [heffect.state u hne (by simp [hustate]), hustate]
    · have hsame : s1.threads u = s.threads u := by
        rw [hform]
        refine (update_of_ne hne ..).trans ?_
        split
        · exact setThread_of_ne s _ hne
        · rfl
      rw [hsame, hupriority]
  rcases hplaces.findNext hnext1 prio with ⟨-, hnone⟩ | ⟨p, u, list, hlist, hfound, hfoundEffect, hnext2⟩
  · obtain ⟨q, hq, hne⟩ := (anyReady_iff h.places _).1 hany
    exact absurd (hnone q hq) (hkept q hne)
  · have huidle : u ≠ s1.idleThread := ((hplaces.ready u p).1 (hlist ▸ mem_cons_self)).2.1
    have hidleState : (s1.threads s1.idleThread).state = (s.threads s.idleThread).state := by
      rw [heffect.idle, heffect.state _ hidle.symm h.idle_ne.1]
    refine ⟨hfound, fun _ hnone => ?_, ?_, ?_, ?_⟩
    · rw [hnext2] at hnone
      cases hnone
    · rw [hfoundEffect.idle, hfoundEffect.current, hfoundEffect.state _ huidle.symm (hidleState ▸ h.idle_ne.1), hidleState, h.idle,
        heffect.idle, heffect.current]
    · rw [hfoundEffect.idle, hfoundEffect.current, hfoundEffect.depth, heffect.idle, heffect.current, heffect.depth, h.depth]
    · rw [hfoundEffect.idle, hfoundEffect.current, hfoundEffect.inDispatch, heffect.idle, heffect.current, heffect.inDispatch]
      exact h.inDispatch

theorem Sound.kiQuantumEnd (h : Sound s []) : Sound s.kiQuantumEnd [] := by
  have hflag : Sound { s with quantumEnd := false } [] :=
    ⟨⟨h.places.ready, h.places.deferred, h.places.next, h.places.running, h.places.readyNodup, h.places.deferredNodup,
      h.places.summary, h.places.queued, h.places.once, h.places.returns⟩, h.current, h.idle, h.depth, h.inDispatch⟩
  unfold Prcb.kiQuantumEnd
  dsimp only
  split
  · exact hflag
  · rename_i hsome
    have hnext : s.nextThread = none := Option.not_isSome_iff_eq_none.1 hsome
    split
    · exact hflag.findNext hnext 0
    · rename_i hidle
      have hrunning := h.current hidle hnext
      obtain ⟨hstate, hpriority, hqueued⟩ := resetQuantum_same (s.threads s.currentThread)
      obtain ⟨hstateQ, hqueuedQ⟩ := quantumThread_same (s.threads s.currentThread)
      split
      · refine Sound.findNext (hflag.setKept hstate hqueued fun _ => hpriority) hnext _
      · have hkept : Sound (({ s with quantumEnd := false } : Prcb).setThread s.currentThread
            (quantumThread (s.threads s.currentThread))) [] :=
          hflag.setKept hstateQ hqueuedQ fun hready => by
            rw [show ({ s with quantumEnd := false } : Prcb).threads = s.threads from rfl, hrunning] at hready
            cases hready
        split
        · rename_i hany
          have hself : (({ s with quantumEnd := false } : Prcb).setThread s.currentThread
              (quantumThread (s.threads s.currentThread))).threads s.currentThread = quantumThread (s.threads s.currentThread) :=
            update_self ..
          have hrequeue := hkept.requeue hnext hidle
          simp only [show (({ s with quantumEnd := false } : Prcb).setThread s.currentThread
            (quantumThread (s.threads s.currentThread))).currentThread = s.currentThread from rfl, hself] at hrequeue
          exact hrequeue hany
        · exact hkept

variable {priority : ℤ}

theorem insertDeferred_effect (s : Prcb) (t : ℕ) : Effect s (s.kiInsertDeferredReadyList t) t :=
  ⟨rfl, rfl, rfl, rfl, id, fun _ hu _ => congrArg Thread.state (update_of_ne hu ..)⟩

theorem dequeue_effect (s : Prcb) (t : ℕ) : Effect s (s.dequeue t) t :=
  ⟨rfl, rfl, rfl, rfl, id, fun _ hu _ => congrArg Thread.state (update_of_ne hu ..)⟩

section
variable (h : Sound s [])
include h

theorem Sound.setReadyPriority (hstate : (s.threads t).state = .ready) (hidle : t ≠ s.idleThread)
    (priority : ℤ) :
    Sound (((s.dequeue t).setThread t { (s.dequeue t).threads t with priority := priority }).kiInsertDeferredReadyList t) [] := by
  have hin : t ∈ insert t (∅ : Set ℕ) := Set.mem_insert t ∅
  have hmem : t ∈ s.ready (s.threads t).priority := (h.places.ready t _).2 ⟨Set.notMem_empty t, hidle, hstate, rfl⟩
  have hdequeued : Places (s.dequeue t) (insert t ∅) [] := h.places.takeReady hmem rfl
  have hplaces := (hdequeued.setHand hin { (s.dequeue t).threads t with priority := priority }
    (hdequeued.not_queued_of_hand hin)).insertDeferred (Set.notMem_empty t) hidle
  have heffect := ((dequeue_effect s t).trans (.setThread (s.dequeue t) t { (s.dequeue t).threads t with priority := priority })).trans
    (insertDeferred_effect _ t)
  exact h.after_effect hplaces heffect hidle (h.next_of_not_running hidle (by simp [hstate]))

theorem Sound.replaceLowered (hnext : s.nextThread = some t) {list : List ℕ}
    (hlist : s.ready p = u :: list) :
    Sound (((s.taken p u list).setNext u).kiInsertDeferredReadyList t) [] := by
  obtain ⟨-, hidle, hstate⟩ := (h.places.next t).1 hnext
  obtain ⟨-, huidle, hustate, -⟩ := (h.places.ready u p).1 (hlist ▸ mem_cons_self)
  have hne : u ≠ t := fun heq => by
    rw [heq, hstate] at hustate
    cases hustate
  have htaken := (h.places.taken hlist).takeNext (t := t) hnext
  rw [Set.insert_comm] at htaken
  have hset := htaken.setNext (by simpa using hne) huidle rfl
  have hplaces := Places.insertDeferred (s := (s.taken p u list).setNext u) hset (Set.notMem_empty t) hidle
  have hstates (v : ℕ) (hv : v ≠ t) (hvu : v ≠ u) :
      ((((s.taken p u list).setNext u).kiInsertDeferredReadyList t).threads v).state = (s.threads v).state := by
    rw [show (((s.taken p u list).setNext u).kiInsertDeferredReadyList t).threads v = ((s.taken p u list).setNext u).threads v
        from update_of_ne hv ..,
      show ((s.taken p u list).setNext u).threads v = (s.taken p u list).threads v from update_of_ne hvu ..,
      show (s.taken p u list).threads v = s.threads v from update_of_ne hvu ..]
  have hidleState := hstates s.idleThread hidle.symm huidle.symm
  exact ⟨hplaces, nofun, hidleState.trans h.idle, h.depth, h.inDispatch⟩

theorem Sound.kiSetPriorityThread (hallowed : t = s.idleThread → s.currentThread = s.idleThread) :
    Sound (s.kiSetPriorityThread t priority) [] := by
  unfold Prcb.kiSetPriorityThread
  dsimp only
  split
  · exact h
  · have hkept (hstate : (s.threads t).state ≠ .ready) : Sound (s.setThread t { s.threads t with priority := priority }) [] :=
      h.setKept rfl rfl fun hready => absurd hready hstate
    split
    · rename_i hstate
      have hidle : t ≠ s.idleThread := fun heq => by
        rw [heq, h.idle, if_pos (hallowed heq)] at hstate
        cases hstate
      have hqueued : (s.threads t).queued = true :=
        (h.places.queued t).2 ⟨_, (h.places.ready t _).2 ⟨Set.notMem_empty t, hidle, hstate, rfl⟩⟩
      rw [if_pos hqueued]
      exact h.setReadyPriority hstate hidle priority
    · rename_i hstate
      have hidle : t ≠ s.idleThread := fun heq => h.idle_ne.1 (heq ▸ hstate)
      have hnext : s.nextThread = some t := (h.places.next t).2 ⟨Set.notMem_empty t, hidle, hstate⟩
      have hset := hkept (by simp [hstate])
      rw [if_pos hnext]
      split
      · rcases kiFindReadyThread_spec hset.places.summary (priority + 1) with ⟨heq, -⟩ | ⟨p, u, list, hlist, heq⟩
        · rw [heq]
          exact hset
        · rw [heq]
          exact hset.replaceLowered hnext hlist
      · exact hset
    · rename_i hstate
      have hcurrent : s.currentThread = t := by
        by_cases hidle : t = s.idleThread
        · exact (hallowed hidle).trans hidle.symm
        · exact (h.places.running t (Set.notMem_empty t) hidle hstate).symm
      have hset := hkept (by simp [hstate])
      rw [if_pos hcurrent]
      split
      · rename_i hlower
        have hnone : s.nextThread = none := Option.isNone_iff_eq_none.1 (Bool.and_eq_true_iff.1 hlower).2
        exact hset.findNext hnone _
      · exact hset
    · rename_i hready _ _
      exact hkept hready

theorem Sound.keSetPriorityThread (hallowed : t = s.idleThread → s.currentThread = s.idleThread) :
    Sound (s.keSetPriorityThread t priority) [] := by
  unfold Prcb.keSetPriorityThread
  dsimp only
  set thread : Thread := { s.threads t with
    priorityDecrement := 0
    quantum := if decide (priority ≠ (s.threads t).priority) = true then (s.threads t).quantumReset
      else (s.threads t).quantum } with hthread
  have hset : Sound (s.setThread t thread) [] := h.setKept rfl rfl fun _ => rfl
  split
  · exact hset.kiSetPriorityThread hallowed
  · exact hset

theorem Sound.keSetBasePriorityThread {increment : ℤ} (hallowed : t = s.idleThread → s.currentThread = s.idleThread) :
    Sound (s.keSetBasePriorityThread t increment) [] := by
  unfold Prcb.keSetBasePriorityThread
  dsimp only
  have hset : Sound (s.setThread t { s.threads t with
      basePriority := newBase (s.threads t) increment, priorityDecrement := 0 }) [] := h.setKept rfl rfl fun _ => rfl
  split
  · exact hset.kiSetPriorityThread hallowed
  · exact hset

end

theorem Places.putRunning (h : Places s (insert t ∅) pending) (hstate : (s.threads t).state = .running)
    (hnone : ∀ u, u ≠ t → u ≠ s.idleThread → (s.threads u).state ≠ .running) :
    Places { s with currentThread := t } ∅ pending := by
  have hcurrent : Places { s with currentThread := t } (insert t ∅) pending := h.setCurrent t fun u hu huidle hrun => by
    by_contra hne
    exact hnone u hne huidle hrun
  exact hcurrent.release (by simp [hstate]) (by simp [hstate]) (by simp [hstate]) fun _ => rfl

theorem Places.withDispatch (h : Places s hand pending) (depth : ℕ) (inDispatch : ℕ → Bool) :
    Places { s with dispatchDepth := depth, inDispatch := inDispatch } hand pending :=
  ⟨h.ready, h.deferred, h.next, h.running, h.readyNodup, h.deferredNodup, h.summary, h.queued, h.once, h.returns⟩

/-- The state of the idle thread says nothing about the lists. -/
theorem Places.setIdleState (h : Places s hand pending) (state : State) : Places (s.setState s.idleThread state) hand pending := by
  refine h.move ⟨fun u hu => setThread_of_ne s _ hu, rfl, rfl, fun _ _ _ => Iff.rfl, fun _ _ => Iff.rfl, fun _ _ => Iff.rfl⟩
    (fun _ _ => Iff.rfl)
    ⟨fun p => ⟨fun hr => absurd rfl ((h.ready _ p).1 hr).2.1, fun hr => absurd rfl hr.2.1⟩,
      ⟨fun hd => absurd rfl ((h.deferred _).1 hd).2.1, fun hd => absurd rfl hd.2.1⟩,
      ⟨fun hn => absurd rfl ((h.next _).1 hn).2.1, fun hn => absurd rfl hn.2.1⟩, fun _ hidle => absurd rfl hidle, ?_⟩
    h.readyNodup h.deferredNodup h.summary h.once h.returns
  rw [show (s.setState s.idleThread state).threads s.idleThread = { s.threads s.idleThread with state := state } from
    setThread_self ..]
  exact h.queued s.idleThread

theorem resume_threads (s : Prcb) (t : ℕ) : (s.resume t).threads t = { s.threads t with state := .running } := update_self ..

theorem resume_threads_of_ne (s : Prcb) (hu : u ≠ t) : (s.resume t).threads u = s.threads u := update_of_ne hu ..

theorem Places.resume (h : Places s ∅ pending) (hnext : s.nextThread = some t)
    (hnone : ∀ u, u ≠ s.idleThread → (s.threads u).state ≠ .running) : Places (s.resume t) ∅ pending := by
  have htaken := h.takeNext hnext
  have hin : t ∈ insert t (∅ : Set ℕ) := Set.mem_insert t ∅
  have hset := htaken.setHand hin { s.threads t with state := .running } (htaken.not_queued_of_hand hin)
  refine hset.putRunning (by rw [setThread_self]) fun u hu huidle => ?_
  rw [setThread_of_ne _ _ hu]
  exact hnone u huidle

/-- The switch of a dispatch, which is always one from the idle thread. -/
theorem Sound.dispatchTo (h : Sound s pending) (hcurrent : s.currentThread = s.idleThread) (hnext : s.nextThread = some t) :
    Sound ({ s with
      dispatchDepth := s.dispatchDepth + 1, inDispatch := update s.inDispatch s.currentThread true }.switch t) pending := by
  obtain ⟨-, htidle, -⟩ := (h.places.next t).1 hnext
  have hidle := h.idle
  have hdepth := h.depth
  rw [if_pos hcurrent] at hidle hdepth
  set s1 : Prcb := { s with
    dispatchDepth := s.dispatchDepth + 1, inDispatch := update s.inDispatch s.currentThread true } with hs1
  have hplaces : Places (s1.resume t) ∅ pending := (h.places.withDispatch _ _).resume hnext fun u hu hrun =>
    hu ((h.places.running u (Set.notMem_empty u) hu hrun).trans hcurrent)
  have houtside : s1.inDispatch t = false := by
    rw [show s1.inDispatch t = s.inDispatch t from update_of_ne (hcurrent ▸ htidle) ..]
    exact Bool.eq_false_iff.2 fun hin => htidle ((h.inDispatch t).1 hin).1
  have hrunning : ((s1.resume t).threads s1.currentThread).state = .running := by
    rw [show s1.currentThread = s.idleThread from hcurrent, resume_threads_of_ne s1 htidle.symm]
    exact hidle
  have hform : s1.switch t = (s1.resume t).setState (s1.resume t).idleThread .ready := by
    unfold Prcb.switch
    dsimp only
    rw [if_pos hrunning, show s1.currentThread = (s1.resume t).idleThread from hcurrent]
    exact if_neg (ne_true_of_eq_false houtside)
  rw [hform]
  refine ⟨hplaces.setIdleState .ready, fun _ _ => ?_, ?_, ?_, fun u => ?_⟩
  · refine (congrArg Thread.state (setThread_of_ne (s1.resume t) _ htidle)).trans ?_
    rw [resume_threads]
  · exact (congrArg Thread.state (setThread_self (s1.resume t) _ _)).trans (if_neg htidle).symm
  · exact (congrArg (· + 1) hdepth).trans (if_neg htidle).symm
  · show update s.inDispatch s.currentThread true u = true ↔ u = s.idleThread ∧ t ≠ s.idleThread
    rw [hcurrent]
    by_cases hu : u = s.idleThread
    · rw [hu, update_self]
      exact iff_of_true rfl ⟨rfl, htidle⟩
    · rw [update_of_ne hu]
      exact iff_of_false (fun hin => hu ((h.inDispatch u).1 hin).1) fun hboth => hu hboth.1

/-- A thread has stopped to run, and the idle thread is still in a dispatch. -/
structure Stopped (s : Prcb) (pending : List ℕ) : Prop where
  places : Places s ∅ pending
  stopped : ∀ u, u ≠ s.idleThread → (s.threads u).state ≠ .running
  current : s.currentThread ≠ s.idleThread
  idle : (s.threads s.idleThread).state = .ready
  depth : s.dispatchDepth = 1
  inDispatch : ∀ t, s.inDispatch t = true ↔ t = s.idleThread

theorem Stopped.switch_eq (h : Stopped s pending) (ht : t ≠ s.currentThread) : s.switch t = (s.resume t).leaveDispatch t := by
  unfold Prcb.switch
  dsimp only
  rw [if_neg]
  rw [resume_threads_of_ne s ht.symm]
  exact h.stopped _ h.current

theorem Stopped.switchTo (h : Stopped s pending) (ht : t ≠ s.currentThread) (hnext : s.nextThread = some t) :
    Sound (s.switch t) pending := by
  obtain ⟨-, htidle, -⟩ := (h.places.next t).1 hnext
  have hform : s.switch t = s.resume t :=
    (h.switch_eq ht).trans (if_neg fun hin => htidle ((h.inDispatch t).1 hin))
  rw [hform]
  refine ⟨h.places.resume hnext h.stopped, fun _ _ => ?_, ?_, ?_, fun u => ?_⟩
  · exact congrArg Thread.state (resume_threads s t)
  · exact (congrArg Thread.state (resume_threads_of_ne s htidle.symm)).trans (h.idle.trans (if_neg htidle).symm)
  · exact h.depth.trans (if_neg htidle).symm
  · exact (h.inDispatch u).trans (and_iff_left htidle).symm

theorem Stopped.switchIdle (h : Stopped s pending) (hnext : s.nextThread = none) :
    Sound ((s.setNext s.idleThread).switch s.idleThread) pending := by
  set s1 := s.setNext s.idleThread with hs1
  have hother (u : ℕ) (hu : u ≠ s.idleThread) : s1.threads u = s.threads u := update_of_ne hu ..
  have hform : s1.switch s.idleThread = (s1.resume s.idleThread).leaveDispatch s.idleThread := by
    unfold Prcb.switch
    dsimp only
    have hrests : ((s1.resume s.idleThread).threads s.currentThread).state ≠ .running := by
      rw [resume_threads_of_ne s1 h.current, hother _ h.current]
      exact h.stopped _ h.current
    exact congrArg (leaveDispatch · s.idleThread) (if_neg hrests)
  have hleft : s1.switch s.idleThread = { s1.resume s.idleThread with
      dispatchDepth := s1.dispatchDepth - 1, inDispatch := update s1.inDispatch s.idleThread false } :=
    hform.trans (if_pos ((h.inDispatch _).2 rfl))
  have hstate : s1.resume s.idleThread =
      { (s.setState s.idleThread .standby).setState s.idleThread .running with
        currentThread := s.idleThread, nextThread := none } := rfl
  have hcurrent : Places { s with currentThread := s.idleThread } ∅ pending :=
    h.places.setCurrent s.idleThread fun u _ huidle hrun => absurd hrun (h.stopped u huidle)
  have hplaces : Places (s1.resume s.idleThread) ∅ pending := by
    have hset := (hcurrent.setIdleState .standby).setIdleState .running
    rw [hstate, ← hnext]
    exact hset
  rw [hleft]
  refine ⟨hplaces.withDispatch _ _, fun hne => absurd rfl hne, ?_, ?_, fun u => ?_⟩
  · exact (congrArg Thread.state (resume_threads s1 _)).trans (if_pos rfl).symm
  · exact (congrArg (· - 1) h.depth).trans (if_pos rfl).symm
  · show update s.inDispatch s.idleThread false u = true ↔ u = s.idleThread ∧ s.idleThread ≠ s.idleThread
    refine iff_of_false (fun hin => ?_) fun hboth => hboth.2 rfl
    by_cases hu : u = s.idleThread
    · rw [hu, update_self] at hin
      cases hin
    · rw [update_of_ne hu] at hin
      exact hu ((h.inDispatch u).1 hin)

theorem Sound.chooseNext (h : Sound s []) :
    s.chooseNext = (none, s) ∨ ∃ next s', s.chooseNext = (some next, s') ∧ Sound (s'.setState next .standby) [] ∧
      s'.nextThread = some next ∧ s'.currentThread = s.currentThread ∧ s'.idleThread = s.idleThread ∧
      next ≠ s.idleThread := by
  unfold Prcb.chooseNext
  cases hnext : s.nextThread with
  | some next =>
    obtain ⟨-, hidle, hstate⟩ := (h.places.next next).1 hnext
    refine .inr ⟨next, s, rfl, h.setKept hstate.symm rfl fun hready => ?_, hnext, rfl, rfl, hidle⟩
    rw [hstate] at hready
  | none =>
    dsimp only
    split
    · rename_i hany
      obtain ⟨q, hq, hne⟩ := (anyReady_iff h.places 0).1 hany
      have hfound := h.findNext hnext 0
      unfold Prcb.findNext at hfound
      unfold kiSelectNextThread
      rcases kiFindReadyThread_spec h.places.summary 0 with ⟨-, hnone⟩ | ⟨p, t, list, hlist, heq⟩
      · exact absurd (hnone q hq) hne
      · rw [heq] at hfound ⊢
        obtain ⟨-, htidle, -⟩ := (h.places.ready t p).1 (hlist ▸ mem_cons_self)
        exact .inr ⟨t, _, rfl, hfound, rfl, rfl, rfl, htidle⟩
    · exact .inl rfl

theorem kiReadyThread_dispatchDepth (s : Prcb) (t : ℕ) : (s.kiReadyThread t).dispatchDepth = s.dispatchDepth := by
  unfold Prcb.kiReadyThread
  dsimp only
  split
  · split
    · rfl
    · split <;> rfl
  · split
    · split
      · rfl
      · split
        · rfl
        · split <;> rfl
    · split <;> rfl

theorem kiProcessDeferredReadyList_dispatchDepth (s : Prcb) : s.kiProcessDeferredReadyList.dispatchDepth = s.dispatchDepth := by
  have hloop (deferred : List ℕ) (s : Prcb) :
      (deferred.foldl (fun s t => s.kiDeferredReadyThread t) s).dispatchDepth = s.dispatchDepth := by
    induction deferred generalizing s with
    | nil => rfl
    | cons t deferred ih => exact (ih _).trans (kiReadyThread_dispatchDepth _ t)
  exact hloop s.deferred { s with deferred := [] }

theorem findNext_dispatchDepth (s : Prcb) (low : ℤ) : (s.findNext low).dispatchDepth = s.dispatchDepth := by
  unfold Prcb.findNext kiFindReadyThread
  split
  · rename_i heq
    split at heq
    · split at heq
      · cases heq
        rfl
      · cases heq
    · cases heq
  · rename_i heq
    split at heq
    · split at heq
      · cases heq
      · cases heq
        rfl
    · cases heq
      rfl

theorem kiQuantumEnd_dispatchDepth (s : Prcb) : s.kiQuantumEnd.dispatchDepth = s.dispatchDepth := by
  unfold Prcb.kiQuantumEnd
  dsimp only
  split
  · rfl
  · split
    · exact findNext_dispatchDepth _ _
    · split
      · exact findNext_dispatchDepth _ _
      · split
        · exact (findNext_dispatchDepth _ _).trans (kiReadyThread_dispatchDepth _ _)
        · rfl

theorem Sound.kiDispatchOnCurrentProcessor (h : Sound s []) : Sound s.kiDispatchOnCurrentProcessor [] := by
  have hquantum : Sound (if s.quantumEnd then s.kiQuantumEnd else s) [] := by
    split
    · exact h.kiQuantumEnd
    · exact h
  have hready := hquantum.kiProcessDeferredReadyList
  have hdepth : (if s.quantumEnd then s.kiQuantumEnd else s).kiProcessDeferredReadyList.dispatchDepth = s.dispatchDepth := by
    rw [kiProcessDeferredReadyList_dispatchDepth]
    split
    · exact kiQuantumEnd_dispatchDepth s
    · rfl
  unfold Prcb.kiDispatchOnCurrentProcessor
  split
  · exact h
  rename_i hfree
  dsimp only
  generalize (if s.quantumEnd then s.kiQuantumEnd else s).kiProcessDeferredReadyList = s1 at hready hdepth ⊢
  have hcurrent1 : s1.currentThread = s1.idleThread := by
    by_contra hne
    have hone := hready.depth
    rw [if_neg hne, hdepth] at hone
    omega
  rcases hready.chooseNext with heq | ⟨next, s2, heq, hsound, hnext, hcurrent, hidle, hne⟩
  · rw [heq]
    exact hready
  · have hcurrent2 : s2.currentThread = s2.idleThread := hcurrent.trans (hcurrent1.trans hidle.symm)
    rw [heq]
    dsimp only
    rw [if_neg fun hsame => hne (hsame.symm.trans (hcurrent.trans hcurrent1)),
      if_pos (show s2.currentThread = (s2.setState next .standby).idleThread from hcurrent2)]
    exact hsound.dispatchTo hcurrent2 hnext

theorem Sound.kiSwapThread (h : Sound s []) (hidle : s.currentThread ≠ s.idleThread)
    (hrunning : (s.threads s.currentThread).state = .running) : Sound s.kiSwapThread [] := by
  set old := s.currentThread with hold
  have hin : old ∈ insert old (∅ : Set ℕ) := Set.mem_insert old ∅
  have htaken := h.places.take (t := old) (by simp [hrunning]) (by simp [hrunning]) (by simp [hrunning])
  set s1 : Prcb := s.setState old .waiting with hs1
  have hself : s1.threads old = { s.threads old with state := .waiting } := update_self ..
  have hother (u : ℕ) (hu : u ≠ old) : s1.threads u = s.threads u := update_of_ne hu ..
  have hplaces : Places s1 ∅ [] :=
    (htaken.setHand hin { s.threads old with state := .waiting } (htaken.not_queued_of_hand hin)).release
      (by simp [setThread_self]) (by simp [setThread_self]) (by simp [setThread_self]) (by simp [setThread_self])
  have hnone (u : ℕ) (hu : u ≠ s1.idleThread) : (s1.threads u).state ≠ .running := by
    by_cases huold : u = old
    · rw [huold, hself]
      simp
    · rw [hother u huold]
      exact fun hrun => huold (h.places.running u (Set.notMem_empty u) hu hrun)
  have hidle1 : (s1.threads s1.idleThread).state = .ready := by
    rw [hother s1.idleThread (Ne.symm hidle)]
    exact h.idle.trans (if_neg hidle)
  have hdepth1 : s1.dispatchDepth = 1 := h.depth.trans (if_neg hidle)
  have hin1 (u : ℕ) : s1.inDispatch u = true ↔ u = s1.idleThread := (h.inDispatch u).trans (and_iff_left hidle)
  have hstopped : Stopped s1 [] := ⟨hplaces, hnone, hidle, hidle1, hdepth1, hin1⟩
  unfold Prcb.kiSwapThread
  dsimp only
  rw [← hold, ← hs1]
  cases hnext : s1.nextThread with
  | some next =>
    obtain ⟨-, -, hstate⟩ := (hplaces.next next).1 hnext
    have hne : next ≠ old := fun heq => by
      rw [heq, hself] at hstate
      cases hstate
    dsimp only
    rw [if_neg hne]
    have hsame : s1.setNext next = s1.setState next .standby := by
      unfold Prcb.setNext
      rw [← hnext]
      rfl
    rw [hsame]
    have hkept : Places (s1.setState next .standby) ∅ [] := hplaces.setKept hstate.symm rfl fun hready => by
      rw [hstate] at hready
    have hstates (u : ℕ) : ((s1.setState next .standby).threads u).state = (s1.threads u).state := by
      by_cases hu : u = next
      · rw [hu]
        exact (congrArg Thread.state (setThread_self s1 next _)).trans hstate.symm
      · exact congrArg Thread.state (setThread_of_ne s1 _ hu)
    have hstoppedNext : Stopped (s1.setState next .standby) [] :=
      ⟨hkept, fun u hu => by rw [hstates]; exact hnone u hu, hidle, (hstates _).trans hidle1, hdepth1, hin1⟩
    exact hstoppedNext.switchTo hne hnext
  | none =>
    unfold kiSelectNextThread
    rcases kiFindReadyThread_spec hplaces.summary 0 with ⟨heq, -⟩ | ⟨p, t, list, hlist, heq⟩
    · rw [heq]
      have hswitches : s1.idleThread ≠ old := Ne.symm hidle
      dsimp only
      rw [if_neg hswitches]
      exact hstopped.switchIdle hnext
    · obtain ⟨-, htidle, htstate, -⟩ := (hplaces.ready t p).1 (hlist ▸ mem_cons_self)
      have hne : t ≠ old := fun htold => by
        rw [htold, hself] at htstate
        cases htstate
      rw [heq]
      dsimp only
      rw [if_neg hne]
      have hset := (hplaces.taken hlist).setNext (Set.notMem_empty t) htidle hnext
      have heffect := (taken_effect s1 p t list).trans (.setNext _ t)
      have hstates (u : ℕ) (hu : u ≠ t) (hstandby : (s1.threads u).state ≠ .standby) :
          (((s1.taken p t list).setNext t).threads u).state = (s1.threads u).state := heffect.state u hu hstandby
      have hstoppedNext : Stopped ((s1.taken p t list).setNext t) [] := by
        refine ⟨hset, fun u hu => ?_, hidle, ?_, hdepth1, hin1⟩
        · by_cases hut : u = t
          · rw [hut, show ((s1.taken p t list).setNext t).threads t = { (s1.taken p t list).threads t with state := .standby } from
              update_self ..]
            simp
          · have hsame : ((s1.taken p t list).setNext t).threads u = s1.threads u :=
              (update_of_ne hut ..).trans (update_of_ne hut ..)
            rw [hsame]
            exact hnone u hu
        · rw [show ((s1.taken p t list).setNext t).idleThread = s1.idleThread from rfl,
            hstates _ htidle.symm (by simp [hidle1])]
          exact hidle1
      exact hstoppedNext.switchTo hne rfl

section
variable (h : Sound s [])
include h

theorem Sound.ne_of_unlisted (hstate : (s.threads t).state = .initialized ∨ (s.threads t).state = .waiting) :
    t ≠ s.idleThread ∧ (t = s.currentThread → s.nextThread ≠ none) := by
  have hidle : t ≠ s.idleThread := fun heq => by
    rw [heq, h.idle] at hstate
    split at hstate <;> simp at hstate
  refine ⟨hidle, h.next_of_not_running hidle fun hrun => ?_⟩
  rw [hrun] at hstate
  exact absurd hstate (by decide)

theorem Sound.take_unlisted
    (hstate : (s.threads t).state = .initialized ∨ (s.threads t).state = .waiting) : Places s (insert t ∅) [] := by
  refine h.places.take (fun hs => ?_) (fun hs => ?_) (fun hs => ?_)
  all_goals
    rw [hs] at hstate
    exact absurd hstate (by decide)

theorem Sound.readyNew (hstate : (s.threads t).state = .initialized) : Sound (s.kiReadyThread t) [] := by
  obtain ⟨hidle, hcurrent⟩ := h.ne_of_unlisted (.inl hstate)
  obtain ⟨hplaces, heffect⟩ := (h.take_unlisted (.inl hstate)).kiReadyThread (Set.notMem_empty t) hidle
  exact h.after_effect hplaces heffect hidle hcurrent

theorem Sound.deferNew (hstate : (s.threads t).state = .initialized) :
    Sound (s.kiInsertDeferredReadyList t) [] := by
  obtain ⟨hidle, hcurrent⟩ := h.ne_of_unlisted (.inl hstate)
  exact h.after_effect ((h.take_unlisted (.inl hstate)).insertDeferred (Set.notMem_empty t) hidle) (insertDeferred_effect s t)
    hidle hcurrent

theorem Sound.kiUnwaitThread (hstate : (s.threads t).state = .waiting) (kernelApc : Bool) (increment : ℤ) :
    Sound (s.kiUnwaitThread t kernelApc increment) [] := by
  obtain ⟨hidle, hcurrent⟩ := h.ne_of_unlisted (.inr hstate)
  have hin : t ∈ insert t (∅ : Set ℕ) := Set.mem_insert t ∅
  have htaken := h.take_unlisted (.inr hstate)
  have hqueued := htaken.not_queued_of_hand hin
  unfold Prcb.kiUnwaitThread
  dsimp only
  refine h.after_effect ((htaken.setHand hin _ ?_).insertDeferred (Set.notMem_empty t) hidle)
    ((Effect.setThread s t _).trans (insertDeferred_effect _ t)) hidle hcurrent
  split
  · exact hqueued
  · exact hqueued

theorem Sound.kiQuantumTick : Sound s.kiQuantumTick [] := by
  have hflag (s : Prcb) (h : Sound s []) (quantumEnd : Bool) : Sound { s with quantumEnd := quantumEnd } [] :=
    ⟨⟨h.places.ready, h.places.deferred, h.places.next, h.places.running, h.places.readyNodup, h.places.deferredNodup,
      h.places.summary, h.places.queued, h.places.once, h.places.returns⟩, h.current, h.idle, h.depth, h.inDispatch⟩
  unfold Prcb.kiQuantumTick
  dsimp only
  split
  · split
    · exact hflag s h true
    · exact h
  · split
    · exact h
    · have hset : Sound (s.setThread s.currentThread { s.threads s.currentThread with
          quantum := (s.threads s.currentThread).quantum - clockQuantumDecrement }) [] := h.setKept rfl rfl fun _ => rfl
      split
      · exact hflag _ hset _
      · exact h

end

/-- A search on its own finds nothing, and the priority of the idle thread is set while it runs. -/
def StepAllowed (s : Prcb) : SchedOp → Prop
  | .findReady low => (s.kiFindReadyThread low).1 = none
  | .setPriority t _ | .setBasePriority t _ => t = s.idleThread → s.currentThread = s.idleThread
  | _ => True

instance (s : Prcb) : (op : SchedOp) → Decidable (StepAllowed s op)
  | .findReady low => inferInstanceAs (Decidable ((s.kiFindReadyThread low).1 = none))
  | .setPriority t _ | .setBasePriority t _ => inferInstanceAs (Decidable (t = s.idleThread → s.currentThread = s.idleThread))
  | .ready _ | .insertDeferred _ | .unwait _ _ _ | .processDeferred | .tick | .quantumEnd | .dispatch | .wait => .isTrue trivial

theorem Sound.step (h : Sound s []) {op : SchedOp} (hallowed : StepAllowed s op) : Sound (s.step op) [] := by
  cases op with
  | ready t =>
    simp only [Prcb.step]
    split
    · exact h.readyNew ‹_›
    · exact h
  | insertDeferred t =>
    simp only [Prcb.step]
    split
    · exact h.deferNew ‹_›
    · exact h
  | unwait t kernelApc increment =>
    simp only [Prcb.step]
    split
    · exact h.kiUnwaitThread ‹_› kernelApc increment
    · exact h
  | processDeferred => exact h.kiProcessDeferredReadyList
  | findReady low =>
    have hnone : (s.kiFindReadyThread low).1 = none := hallowed
    simp only [Prcb.step]
    rcases kiFindReadyThread_spec h.places.summary low with ⟨heq, -⟩ | ⟨p, t, list, -, heq⟩
    · rw [heq]
      exact h
    · rw [heq] at hnone
      cases hnone
  | tick => exact h.kiQuantumTick
  | quantumEnd => exact h.kiQuantumEnd
  | setPriority t priority => exact h.keSetPriorityThread hallowed
  | setBasePriority t increment => exact h.keSetBasePriorityThread hallowed
  | dispatch => exact h.kiDispatchOnCurrentProcessor
  | wait =>
    simp only [Prcb.step]
    split
    · rename_i hwaits
      exact h.kiSwapThread hwaits.1 hwaits.2
    · exact h

theorem start_sound (idle : ℕ) (threads : ℕ → Thread) : Sound (start idle threads) [] := by
  have hstate (u : ℕ) (hu : u ≠ idle) : ((start idle threads).threads u).state = .initialized := if_neg hu
  have hidle : ((start idle threads).threads idle).state = .running := if_pos rfl
  refine ⟨⟨fun u p => ⟨fun hmem => absurd hmem not_mem_nil, fun ⟨_, hu, hs, _⟩ => ?_⟩,
    fun u => ⟨fun hmem => absurd hmem not_mem_nil, fun ⟨_, hu, hs⟩ => ?_⟩,
    fun u => ⟨fun hnext => absurd hnext (by simp [start]), fun ⟨_, hu, hs⟩ => ?_⟩, fun u _ hu hs => ?_,
    fun _ => nodup_nil, nodup_nil, fun p => ⟨fun hp => Bool.noConfusion hp, fun hp => absurd rfl hp⟩,
    fun u => ⟨fun hqueued => Bool.noConfusion hqueued, fun ⟨_, hmem⟩ => absurd hmem not_mem_nil⟩, rfl, rfl⟩,
    fun hne => absurd rfl hne, hidle.trans (if_pos rfl).symm, (if_pos rfl).symm,
    fun u => ⟨nofun, fun hboth => absurd rfl hboth.2⟩⟩
  all_goals
    rw [hstate u hu] at hs
    cases hs

/-- In every run in which a search on its own finds nothing and the idle thread keeps its priority while
another thread runs, each thread but the idle one is in its one place. -/
theorem places_of_run (idle : ℕ) (threads : ℕ → Thread) {ops : List SchedOp}
    (hops : EveryStep Prcb.step StepAllowed (start idle threads) ops) :
    EveryState Prcb.step (fun s => Places s ∅ []) (start idle threads) ops :=
  (everyState_invariant (I := fun s => Sound s []) (fun _ _ hsound hallowed => hsound.step hallowed) (start_sound idle threads) hops).imp
    fun _ hsound => hsound.places

def sharedThreads (_ : ℕ) : Thread := { priority := 8, basePriority := 8 }

/-- The second dispatch is refused, that of the third finds the idle thread again; the last steps are
a quantum end that requeues the current thread and a priority that is lowered. -/
theorem places_of_shared_run :
    EveryState Prcb.step (fun s => Places s ∅ []) (start 0 sharedThreads)
      [.ready 1, .ready 2, .dispatch, .dispatch, .wait, .unwait 1 false 2, .setPriority 2 12, .processDeferred, .wait, .wait,
        .unwait 2 true 0, .insertDeferred 3, .setPriority 0 1, .dispatch, .tick, .tick, .quantumEnd, .setPriority 3 4] :=
  places_of_run 0 sharedThreads ⟨trivial, trivial, trivial, trivial, trivial, trivial, by decide +kernel, trivial, trivial, trivial,
    trivial, trivial, by decide +kernel, trivial, trivial, trivial, trivial, by decide +kernel, trivial⟩

/-- While the first thread runs, the idle one is ready and on no list, and a search leaves the second
so too. -/
def searched : Prcb := run Prcb.step (start 0 sharedThreads) [.ready 1, .dispatch, .ready 2, .findReady 0]

/-- The idle thread gets a priority, which defers it, and runs when the first thread waits. -/
def idleDeferred : Prcb := run Prcb.step (start 0 sharedThreads) [.ready 1, .dispatch, .setPriority 0 5, .wait]

theorem threads_out_of_place :
    (searched.currentThread = 1 ∧ searched.idleThread = 0 ∧ (searched.threads 0).state = .ready ∧
      (searched.threads 0).queued = false ∧ searched.deferred = [] ∧ searched.ready 8 = []) ∧
    ((searched.threads 2).state = .ready ∧ (searched.threads 2).priority = 8 ∧ searched.ready 8 = []) ∧
    (idleDeferred.currentThread = 0 ∧ (idleDeferred.threads 0).state = .running ∧ idleDeferred.deferred = [0]) := by
  refine ⟨?_, ?_, ?_⟩
  all_goals decide +kernel

end Prcb

end XenOS.Ke.Sched
