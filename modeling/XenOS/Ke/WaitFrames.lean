import XenOS.Ke.WaitAccounts

/-! What a call leaves alone: the accounts of every object but its own, and the kinds of all. -/

namespace XenOS.Ke

open Function

namespace WaitState

variable {s s' s'' : WaitState} {p : ObjectId} {t : ℕ}

theorem isTimer_iff (s : WaitState) (object : ℕ) :
    s.isTimer object = true ↔ s.type (.object object) = .timerNotification ∨ s.type (.object object) = .timerSynchronization :=
  decide_eq_true_iff

theorem isEvent_iff (s : WaitState) (object : ℕ) :
    s.isEvent object = true ↔ s.type (.object object) = .eventNotification ∨ s.type (.object object) = .eventSynchronization :=
  decide_eq_true_iff

theorem satisfiedBy_same (h : SameAccounts s s') (call : WaitCall) : s'.satisfiedBy call = s.satisfiedBy call := by
  cases call with
  | multiple waitType objects deadline => cases waitType <;> rw [satisfiedBy, satisfiedBy, h.signal]
  | single object deadline => rw [satisfiedBy, satisfiedBy, h.signal]
  | delay deadline => rfl

/-- At most the accounts of one object change, and no other object is armed but a timer. -/
structure Touches (s s' : WaitState) (p : ObjectId) : Prop where
  type : s'.type = s.type
  limit : s'.limit = s.limit
  signal : ∀ o, o ≠ p → s'.signal o = s.signal o
  acquired : ∀ o, o ≠ p → s'.acquired o = s.acquired o
  consumed : ∀ o, o ≠ p → s'.consumed o = s.consumed o
  sets : ∀ n, .object n ≠ p → s'.sets n = s.sets n
  released : ∀ n, .object n ≠ p → s'.released n = s.released n
  ownerThread : ∀ n, .object n ≠ p → s'.ownerThread n = s.ownerThread n
  armed : ∀ n, s'.armed n = true → s.armed n = true ∨ s.isTimer n = true

namespace Touches

theorem of_only (h : OnlyObject s s' p) : Touches s s' p :=
  ⟨h.type, h.limit, h.signal, h.acquired, h.consumed, fun _ _ => by rw [h.sets], fun _ _ => by rw [h.released],
    fun _ _ => by rw [h.ownerThread], fun n harmed => .inl (by rwa [h.armed] at harmed)⟩

theorem refl (s : WaitState) (p : ObjectId) : Touches s s p := of_only (.of_same (.refl s) p)

section
variable (h : Touches s s' p)
include h

theorem trans (h' : Touches s' s'' p) : Touches s s'' p where
  type := h'.type.trans h.type
  limit := h'.limit.trans h.limit
  signal o ho := (h'.signal o ho).trans (h.signal o ho)
  acquired o ho := (h'.acquired o ho).trans (h.acquired o ho)
  consumed o ho := (h'.consumed o ho).trans (h.consumed o ho)
  sets n hn := (h'.sets n hn).trans (h.sets n hn)
  released n hn := (h'.released n hn).trans (h.released n hn)
  ownerThread n hn := (h'.ownerThread n hn).trans (h.ownerThread n hn)
  armed n harmed := by
    rcases h'.armed n harmed with harmed | htimer
    · exact h.armed n harmed
    · rw [isTimer_iff, h.type, ← isTimer_iff] at htimer
      exact .inr htimer

theorem setSignal (signalState : ℤ) : Touches s (s'.setSignal p signalState) p :=
  h.trans (of_only (.setSignal s' p signalState))

theorem kiWaitTest : Touches s (s'.kiWaitTest p) p := h.trans (of_only (onlyObject_kiWaitTest s' p))

theorem setInserted (o : ObjectId) (value : Bool)
    (htimer : value = true → ∀ n, o = .object n → s.isTimer n = true) :
    Touches s { s' with inserted := update s'.inserted o value } p where
  type := h.type
  limit := h.limit
  signal := h.signal
  acquired := h.acquired
  consumed := h.consumed
  sets := h.sets
  released := h.released
  ownerThread := h.ownerThread
  armed n harmed := by
    change update s'.inserted o value (.object n) = true at harmed
    by_cases heq : ObjectId.object n = o
    · subst heq
      rw [update_self] at harmed
      exact .inr (htimer harmed n rfl)
    · rw [update_of_ne heq] at harmed
      exact h.armed n harmed

end

variable {n : ℕ}

theorem signalObject (h : Touches s s' (.object n)) : Touches s (s'.signalObject n) (.object n) := by
  have hset := h.setSignal 1
  refine ⟨hset.type, hset.limit, hset.signal, hset.acquired, hset.consumed, fun n' hn => ?_, hset.released, hset.ownerThread,
    hset.armed⟩
  exact (update_of_ne (by simpa using hn) ..).trans (h.sets n' hn)

theorem signalTimer (h : Touches s s' p) (hp : ∀ n, p = .object n → s.isTimer n = true) :
    Touches s (s'.signalTimer p) p := by
  cases p with
  | threadTimer t => exact (h.setSignal 1).kiWaitTest
  | object n =>
    unfold WaitState.signalTimer
    dsimp only
    split
    · exact (h.signalObject.kiWaitTest.setSignal 0).setInserted (.object n) true fun _ => hp
    · exact h.signalObject.kiWaitTest

end Touches

def target : WaitOp → ObjectId
  | .setEvent n | .pulseEvent n | .resetEvent n | .releaseSemaphore n _ | .releaseMutex _ n | .setTimer n _ _ => .object n
  | .expireTimer o => o
  | _ => .threadTimer 0

theorem touches_step (harmed : ∀ n, s.armed n = true → s.isTimer n = true) {op : WaitOp} (hwait : ¬ IsWait op) :
    Touches s (s.step op) (target op) := by
  have hrefl := Touches.refl s (target op)
  cases op with
  | waitSingle | waitMultiple | resume => exact absurd trivial hwait
  | setEvent n =>
    unfold step
    dsimp only
    split
    · exact hrefl.signalObject.kiWaitTest
    · exact hrefl
  | pulseEvent n =>
    unfold step
    dsimp only
    split
    · exact hrefl.signalObject.kiWaitTest.setSignal 0
    · exact hrefl
  | resetEvent n =>
    unfold step
    dsimp only
    split
    · exact hrefl.setSignal 0
    · exact hrefl
  | releaseSemaphore n adjustment =>
    unfold step keReleaseSemaphore
    dsimp only
    split
    · split
      · exact hrefl
      · have hset := hrefl.setSignal (addLong (s.headers (.object n)).signalState adjustment.toInt)
        have hraise : Touches s { s.setSignal (.object n) (addLong (s.headers (.object n)).signalState adjustment.toInt) with
            released := update s.released n (s.released n + adjustment.toInt) } (.object n) :=
          ⟨hset.type, hset.limit, hset.signal, hset.acquired, hset.consumed, hset.sets,
            fun n' hn => update_of_ne (by simpa using hn) .., hset.ownerThread, hset.armed⟩
        dsimp only
        split
        · exact hraise.kiWaitTest
        · exact hraise
    · exact hrefl
  | releaseMutex t n =>
    unfold step keReleaseMutex
    dsimp only
    split
    · have hset := hrefl.setSignal (addLong (s.headers (.object n)).signalState 1)
      split
      · refine Touches.kiWaitTest ⟨hset.type, hset.limit, hset.signal, hset.acquired, hset.consumed, hset.sets, hset.released,
          fun n' hn => ?_, hset.armed⟩
        exact update_of_ne (by simpa [target] using hn) ..
      · exact hset
    · exact hrefl
  | setTimer n dueTime period =>
    unfold step keSetTimerEx
    dsimp only
    split
    · have htimer : s.isTimer n = true := ‹_›
      have hself (n' : ℕ) (heq : ObjectId.object n = .object n') : s.isTimer n' = true := by
        cases heq
        exact htimer
      have hout := hrefl.setInserted (.object n) false (by simp)
      have hset : Touches s { s with
          inserted := update s.inserted (.object n) false
          period := update s.period n period } (.object n) :=
        ⟨hout.type, hout.limit, hout.signal, hout.acquired, hout.consumed, hout.sets, hout.released, hout.ownerThread, hout.armed⟩
      split_ifs
      · exact hset
      · exact hset.signalTimer hself
      · exact hset.setInserted (.object n) true fun _ => hself
    · exact hrefl
  | cancelTimer n =>
    unfold step
    dsimp only
    split
    · exact hrefl.setInserted (.object n) false (by simp)
    · exact hrefl
  | expireTimer o =>
    unfold step
    dsimp only
    split
    · refine (hrefl.setInserted o false (by simp)).signalTimer fun n heq => ?_
      subst heq
      exact harmed n ‹_›
    · exact hrefl
  | advance time =>
    exact ⟨rfl, rfl, fun _ _ => rfl, fun _ _ => rfl, fun _ _ => rfl, fun _ _ => rfl, fun _ _ => rfl, fun _ _ => rfl, fun _ => .inl⟩

end WaitState

end XenOS.Ke
