import XenOS.Ke.Wait
import Mathlib.Tactic.Ring

/-! Which objects a wait is satisfied by, and what the calls do to signals. Links, threads
and wake-ups leave the signals alone; only the consumption of an object lowers one. -/

namespace XenOS.Ke

open List

open Function (update update_self update_of_ne)

namespace WaitState

variable {s s' s'' : WaitState} {o : ObjectId} {t : ℕ}

def type (s : WaitState) (o : ObjectId) : KObjectType := (s.headers o).type

def signal (s : WaitState) (o : ObjectId) : ℤ := (s.headers o).signalState

def armed (s : WaitState) (object : ℕ) : Bool := s.inserted (.object object)

structure SameAccounts (s s' : WaitState) : Prop where
  type : s'.type = s.type
  signal : s'.signal = s.signal
  acquired : s'.acquired = s.acquired
  consumed : s'.consumed = s.consumed
  sets : s'.sets = s.sets
  released : s'.released = s.released
  ownerThread : s'.ownerThread = s.ownerThread
  limit : s'.limit = s.limit
  armed : s'.armed = s.armed

namespace SameAccounts

theorem refl (s : WaitState) : SameAccounts s s := ⟨rfl, rfl, rfl, rfl, rfl, rfl, rfl, rfl, rfl⟩

theorem trans (h : SameAccounts s s') (h' : SameAccounts s' s'') : SameAccounts s s'' where
  type := h'.type.trans h.type
  signal := h'.signal.trans h.signal
  acquired := h'.acquired.trans h.acquired
  consumed := h'.consumed.trans h.consumed
  sets := h'.sets.trans h.sets
  released := h'.released.trans h.released
  ownerThread := h'.ownerThread.trans h.ownerThread
  limit := h'.limit.trans h.limit
  armed := h'.armed.trans h.armed

theorem setThread (s : WaitState) (t : ℕ) (thread : KThread) : SameAccounts s (s.setThread t thread) :=
  ⟨rfl, rfl, rfl, rfl, rfl, rfl, rfl, rfl, rfl⟩

theorem setBlock (s : WaitState) (b : ℕ × Slot) (block : KWaitBlock) : SameAccounts s (s.setBlock b block) :=
  setThread s b.1 _

theorem setList (s : WaitState) (o : ObjectId) (list : List (ℕ × Slot)) :
    SameAccounts s (s.setHeader o { s.headers o with waitListHead := list }) := by
  refine ⟨?_, ?_, rfl, rfl, rfl, rfl, rfl, rfl, rfl⟩ <;>
  · funext o'
    by_cases ho : o' = o
    · subst ho
      simp [WaitState.type, WaitState.signal, setHeader]
    · simp [WaitState.type, WaitState.signal, setHeader, ho]

theorem linkBlock (s : WaitState) (b : ℕ × Slot) : SameAccounts s (s.linkBlock b) :=
  (setBlock s b _).trans (setList _ _ _)

theorem unlinkBlock (s : WaitState) (b : ℕ × Slot) : SameAccounts s (s.unlinkBlock b) := by
  unfold WaitState.unlinkBlock
  split
  · exact (setBlock s b _).trans (setList _ _ _)
  · exact refl s

theorem fold {α : Type} {f : WaitState → α → WaitState} (hf : ∀ s a, SameAccounts s (f s a)) (as : List α) (s : WaitState) :
    SameAccounts s (as.foldl f s) := by
  induction as generalizing s with
  | nil => exact refl s
  | cons a as ih => exact (hf s a).trans (ih _)

theorem setInserted (h : SameAccounts s s') {inserted : ObjectId → Bool}
    (hinserted : ∀ object, inserted (.object object) = s'.inserted (.object object)) :
    SameAccounts s { s' with inserted := inserted } :=
  ⟨h.1, h.2, h.3, h.4, h.5, h.6, h.7, h.8, (funext hinserted).trans h.9⟩

theorem kiUnlinkThread (s : WaitState) (t : ℕ) : SameAccounts s (s.kiUnlinkThread t) := by
  have hfold := fold (f := fun s slot => s.unlinkBlock (t, slot)) (fun s slot => unlinkBlock s (t, slot))
    (s.threads t).waitBlockList s
  exact SameAccounts.setInserted (.trans hfold (setThread _ t _)) fun object => update_of_ne (by simp) _ _

theorem kiUnwaitThread (s : WaitState) (t waitStatus : ℕ) : SameAccounts s (s.kiUnwaitThread t waitStatus) := by
  have hunlink := kiUnlinkThread s t
  exact ⟨hunlink.1, hunlink.2, hunlink.3, hunlink.4, hunlink.5, hunlink.6, hunlink.7, hunlink.8, hunlink.9⟩

theorem startTimer (s : WaitState) (t : ℕ) : SameAccounts s (s.startTimer t) :=
  (linkBlock s (t, .timer)).setInserted fun _ => update_of_ne (by simp) _ _

end SameAccounts

def Consumes (s : WaitState) (o : ObjectId) : Prop :=
  s.type o = .eventSynchronization ∨ s.type o = .semaphore

instance (s : WaitState) (o : ObjectId) : Decidable (s.Consumes o) := inferInstanceAs (Decidable (_ ∨ _))

theorem satisfy_spec (s : WaitState) (o : ObjectId) :
    (s.satisfy o).type = s.type ∧
      (s.satisfy o).signal = update s.signal o (s.signal o - if s.Consumes o then 1 else 0) ∧
      (s.satisfy o).consumed = update s.consumed o (s.consumed o + if s.Consumes o then 1 else 0) ∧
      (s.satisfy o).acquired = s.acquired ∧ (s.satisfy o).sets = s.sets ∧ (s.satisfy o).released = s.released ∧
      (s.satisfy o).ownerThread = s.ownerThread ∧ (s.satisfy o).limit = s.limit ∧ (s.satisfy o).armed = s.armed := by
  unfold satisfy
  by_cases h : (s.headers o).type = .eventSynchronization ∨ (s.headers o).type = .semaphore
  · have hconsumes : s.Consumes o := h
    rw [if_pos h, if_pos hconsumes, if_pos hconsumes]
    refine ⟨?_, ?_, rfl, rfl, rfl, rfl, rfl, rfl, rfl⟩
    all_goals
      funext o'
      by_cases ho : o' = o
      · subst ho
        simp [type, signal, setSignal, setHeader]
      · simp [type, signal, setSignal, setHeader, ho]
  · have hconsumes : ¬ s.Consumes o := h
    rw [if_neg h, if_neg hconsumes, if_neg hconsumes]
    simp

def satisfiedBy (s : WaitState) : WaitCall → List ℕ
  | .single object _ => if 0 < s.signal (.object object) then [object] else []
  | .multiple .waitAny objects _ => (objects.find? fun object => decide (0 < s.signal (.object object))).toList
  | .multiple .waitAll objects _ => if objects.all fun object => decide (0 < s.signal (.object object)) then objects else []
  | .delay _ => []

def loopOf (s : WaitState) : WaitOp → Option (ℕ × WaitCall)
  | .waitSingle t object timeout _ =>
    if (s.threads t).state = .scheduled ∧ timeout ≠ some 0 ∧ timeout ≠ some i64Min then
      some (t, .single object (timeout.map s.computeDeadlineInterrupt))
    else none
  | .waitMultiple t waitType objects waitBlockArray timeout _ =>
    if (s.threads t).state = .scheduled ∧ ¬ (objects = [] ∨ maximumWaitObjects < objects.length) ∧
        ¬ (threadWaitObjects < objects.length ∧ !waitBlockArray) ∧ timeout ≠ some 0 ∧ timeout ≠ some i64Min then
      some (t, .multiple waitType objects (timeout.map s.computeDeadlineInterrupt))
    else none
  | .resume t =>
    if (s.threads t).state = .deferredReady ∧ (s.threads t).waitStatus = statusKernelApc then
      (s.threads t).call.map fun call => (t, call)
    else none
  | _ => none

def IsWait : WaitOp → Prop
  | .waitSingle _ _ _ _ | .waitMultiple _ _ _ _ _ _ | .resume _ => True
  | _ => False

theorem step_of_wait {op : WaitOp} (h : IsWait op) :
    (s.loopOf op = none ∧ SameAccounts s (s.step op)) ∨
      ∃ t call s1, s.loopOf op = some (t, call) ∧ SameAccounts s s1 ∧ s.step op = (s1.waitLoop t call).2 := by
  cases op with
  | waitSingle t object timeout late =>
    unfold loopOf step keWaitForSingleObject
    dsimp only
    by_cases hstate : (s.threads t).state = .scheduled
    · by_cases htimeout : timeout = some 0
      · refine Or.inl ⟨by simp [htimeout], ?_⟩
        rw [if_pos hstate, if_pos htimeout]
        exact .refl s
      · by_cases hmin : timeout = some i64Min
        · refine Or.inl ⟨by simp [hmin], ?_⟩
          rw [if_pos hstate, if_neg htimeout, if_pos hmin]
          exact .refl s
        · refine Or.inr ⟨t, .single object (timeout.map s.computeDeadlineInterrupt),
            { s with interruptTime := s.interruptTime + late }, if_pos ⟨hstate, htimeout, hmin⟩,
            ⟨rfl, rfl, rfl, rfl, rfl, rfl, rfl, rfl, rfl⟩, ?_⟩
          rw [if_pos hstate, if_neg htimeout, if_neg hmin]
          rfl
    · refine Or.inl ⟨by simp [hstate], ?_⟩
      rw [if_neg hstate]
      exact .refl s
  | waitMultiple t waitType objects waitBlockArray timeout late =>
    unfold loopOf step keWaitForMultipleObjects
    dsimp only
    by_cases hstate : (s.threads t).state = .scheduled
    · rw [if_pos hstate]
      by_cases hcount : objects = [] ∨ maximumWaitObjects < objects.length
      · rw [if_pos hcount]
        exact Or.inl ⟨if_neg fun h => h.2.1 hcount, .refl s⟩
      · rw [if_neg hcount]
        by_cases harray : threadWaitObjects < objects.length ∧ !waitBlockArray
        · rw [if_pos harray]
          exact Or.inl ⟨if_neg fun h => h.2.2.1 harray, .refl s⟩
        · rw [if_neg harray]
          by_cases htimeout : timeout = some 0
          · rw [if_pos htimeout]
            exact Or.inl ⟨by simp [htimeout], .refl s⟩
          · rw [if_neg htimeout]
            by_cases hmin : timeout = some i64Min
            · rw [if_pos hmin]
              exact Or.inl ⟨by simp [hmin], .refl s⟩
            · rw [if_neg hmin]
              refine Or.inr ⟨t, .multiple waitType objects (timeout.map s.computeDeadlineInterrupt),
                { s with interruptTime := s.interruptTime + late }, if_pos ⟨hstate, hcount, harray, htimeout, hmin⟩,
                ⟨rfl, rfl, rfl, rfl, rfl, rfl, rfl, rfl, rfl⟩, rfl⟩
    · refine Or.inl ⟨by simp [hstate], ?_⟩
      rw [if_neg hstate]
      exact .refl s
  | resume t =>
    unfold loopOf step resumeThread
    dsimp only
    by_cases hstate : (s.threads t).state = .deferredReady
    · rw [if_pos hstate]
      by_cases hstatus : (s.threads t).waitStatus = statusKernelApc
      · rw [if_pos ⟨hstate, hstatus⟩, if_pos hstatus]
        cases hcall : (s.threads t).call with
        | none => exact Or.inl ⟨rfl, rfl, rfl, rfl, rfl, rfl, rfl, rfl, rfl, rfl⟩
        | some call =>
          refine Or.inr ⟨t, call, _, rfl, ?_, rfl⟩
          exact ⟨rfl, rfl, rfl, rfl, rfl, rfl, rfl, rfl, rfl⟩
      · rw [if_neg fun h => hstatus h.2, if_neg hstatus]
        exact Or.inl ⟨rfl, rfl, rfl, rfl, rfl, rfl, rfl, rfl, rfl, rfl⟩
    · rw [if_neg hstate, if_neg fun h => hstate h.1]
      exact Or.inl ⟨rfl, .refl s⟩
  | _ => exact absurd h id

def consumption (s : WaitState) (taken : List ℕ) (o : ObjectId) : ℕ :=
  if s.Consumes o then (taken.map ObjectId.object).count o else 0

structure Round (s s' : WaitState) (t : ℕ) (satisfied taken : List ℕ) : Prop where
  type : s'.type = s.type
  signal : ∀ o, s'.signal o = s.signal o - s.consumption taken o
  consumed : ∀ o, s'.consumed o = s.consumed o + s.consumption taken o
  acquired : ∀ o, s'.acquired o = if o ∈ satisfied.map ObjectId.object then t :: s.acquired o else s.acquired o
  sets : s'.sets = s.sets
  released : s'.released = s.released
  ownerThread : s'.ownerThread = s.ownerThread
  limit : s'.limit = s.limit
  armed : s'.armed = s.armed

theorem consumption_nil (s : WaitState) (o : ObjectId) : s.consumption [] o = 0 := by
  rw [consumption, map_nil, count_nil, ite_self]

theorem Round.none (t : ℕ) (h : SameAccounts s s') : Round s s' t [] [] where
  type := h.type
  signal o := by rw [h.signal, consumption_nil, Nat.cast_zero, sub_zero]
  consumed o := by rw [h.consumed, consumption_nil, Nat.add_zero]
  acquired o := by rw [h.acquired, map_nil, if_neg not_mem_nil]
  sets := h.sets
  released := h.released
  ownerThread := h.ownerThread
  limit := h.limit
  armed := h.armed

theorem Round.same {satisfied taken : List ℕ} (h : Round s s' t satisfied taken) (h' : SameAccounts s' s'') :
    Round s s'' t satisfied taken where
  type := h'.type.trans h.type
  signal o := by rw [h'.signal, h.signal]
  consumed o := by rw [h'.consumed, h.consumed]
  acquired o := by rw [h'.acquired, h.acquired]
  sets := h'.sets.trans h.sets
  released := h'.released.trans h.released
  ownerThread := h'.ownerThread.trans h.ownerThread
  limit := h'.limit.trans h.limit
  armed := h'.armed.trans h.armed

theorem acquire_acquired (s : WaitState) (o o' : ObjectId) (t : ℕ) :
    (s.acquire o t).acquired o' = if o' = o then t :: s.acquired o' else s.acquired o' := by
  by_cases ho : o' = o
  · subst ho
    rw [if_pos rfl]
    exact update_self ..
  · rw [if_neg ho]
    exact update_of_ne ho ..

theorem Round.consume (s : WaitState) (t : ℕ) (objects : List ℕ) :
    Round s (objects.foldl (fun s object => s.kiWaitSatisfyObject (.object object)) s) t [] objects := by
  induction objects generalizing s with
  | nil => exact .none t (.refl s)
  | cons object objects ih =>
    obtain ⟨htype, hsignal, hconsumed, hacquired, hsets, hreleased, howner, hlimit, harmed⟩ := satisfy_spec s (.object object)
    have hrest := ih (s.kiWaitSatisfyObject (.object object))
    have hconsumes (o : ObjectId) : (s.kiWaitSatisfyObject (.object object)).Consumes o ↔ s.Consumes o := by
      rw [Consumes, Consumes, kiWaitSatisfyObject, htype]
    have hsum (o : ObjectId) : s.consumption (object :: objects) o =
        (s.kiWaitSatisfyObject (.object object)).consumption objects o +
          if o = .object object then (if s.Consumes o then 1 else 0) else 0 := by
      rw [consumption, consumption, map_cons, count_cons]
      simp only [hconsumes]
      by_cases ho : o = .object object
      · subst ho
        by_cases hc : s.Consumes (.object object) <;> simp [hc]
      · have hne : ¬ (ObjectId.object object = o) := fun h => ho h.symm
        simp [ho, hne]
    rw [foldl_cons]
    refine ⟨hrest.type.trans htype, fun o => ?_, fun o => ?_, fun o => ?_, hrest.sets.trans hsets,
      hrest.released.trans hreleased, hrest.ownerThread.trans howner, hrest.limit.trans hlimit, hrest.armed.trans harmed⟩
    · rw [hrest.signal, hsum, kiWaitSatisfyObject, hsignal]
      by_cases ho : o = .object object
      · subst ho
        rw [update_self, if_pos rfl]
        split_ifs <;> push_cast <;> ring
      · rw [update_of_ne ho, if_neg ho, Nat.add_zero]
    · rw [hrest.consumed, hsum, kiWaitSatisfyObject, hconsumed]
      by_cases ho : o = .object object
      · subst ho
        rw [update_self, if_pos rfl]
        omega
      · rw [update_of_ne ho, if_neg ho, Nat.add_zero]
    · rw [hrest.acquired, kiWaitSatisfyObject, hacquired]

theorem Round.acquire {taken : List ℕ} (h : Round s s' t [] taken) {objects : List ℕ} (hnodup : objects.Nodup) :
    Round s (objects.foldl (fun s object => s.acquire (.object object) t) s') t objects taken := by
  have hfold (objects : List ℕ) (hnodup : objects.Nodup) (s : WaitState) :
      ∀ o, (objects.foldl (fun s object => s.acquire (.object object) t) s).acquired o =
        if o ∈ objects.map ObjectId.object then t :: s.acquired o else s.acquired o := by
    induction objects generalizing s with
    | nil => simp
    | cons object objects ih =>
      obtain ⟨hnot, hnodup⟩ := nodup_cons.1 hnodup
      intro o
      rw [foldl_cons, ih hnodup, acquire_acquired, map_cons]
      by_cases ho : o = .object object
      · subst ho
        have hout : ObjectId.object object ∉ objects.map ObjectId.object := fun hmem => by
          obtain ⟨object', hmem, heq⟩ := mem_map.1 hmem
          cases heq
          exact hnot hmem
        rw [if_neg hout, if_pos rfl, if_pos mem_cons_self]
      · simp [ho]
  have hframe (objects : List ℕ) (s : WaitState) :
      let s' := objects.foldl (fun s object => s.acquire (.object object) t) s
      s'.headers = s.headers ∧ s'.consumed = s.consumed ∧ s'.sets = s.sets ∧ s'.released = s.released ∧
        s'.ownerThread = s.ownerThread ∧ s'.limit = s.limit ∧ s'.inserted = s.inserted := by
    induction objects generalizing s with
    | nil => exact ⟨rfl, rfl, rfl, rfl, rfl, rfl, rfl⟩
    | cons object objects ih => exact ih (s.acquire (.object object) t)
  obtain ⟨hheaders, hconsumed, hsets, hreleased, howner, hlimit, hinserted⟩ := hframe objects s'
  refine ⟨?_, fun o => ?_, fun o => ?_, fun o => ?_, hsets.trans h.sets, hreleased.trans h.released,
    howner.trans h.ownerThread, hlimit.trans h.limit, ?_⟩
  · rw [← h.type]
    funext o
    rw [WaitState.type, hheaders]
    rfl
  · show ((objects.foldl (fun s object => s.acquire (.object object) t) s').headers o).signalState = _
    rw [hheaders]
    exact h.signal o
  · rw [hconsumed, h.consumed]
  · rw [hfold objects hnodup, h.acquired, map_nil, if_neg not_mem_nil]
  · rw [← h.armed]
    funext object
    exact congrFun hinserted _

/-- The objects that a round of a wait consumes: the single wait none, the multiple wait each
that satisfies it, as often as it is named. -/
def takenBy (s : WaitState) : WaitCall → List ℕ
  | .multiple waitType objects deadline => s.satisfiedBy (.multiple waitType objects deadline)
  | _ => []

theorem find?_of_findIdx? {p : ℕ → Bool} {l : List ℕ} {i : ℕ} (h : l.findIdx? p = some i) :
    l.find? p = some (l.getD i 0) := by
  induction l generalizing i with
  | nil => cases h
  | cons a l ih =>
    rw [findIdx?_cons] at h
    rw [find?_cons]
    cases hp : p a with
    | true =>
      rw [hp] at h
      cases h
      rfl
    | false =>
      rw [hp] at h
      obtain ⟨j, hj, rfl⟩ := Option.map_eq_some_iff.1 h
      exact ih hj

theorem blockOnMultiple_same (s : WaitState) (t : ℕ) (waitType : WaitType) (objects : List ℕ) (deadline : Option ℕ) :
    SameAccounts s (s.blockOnMultiple t waitType objects deadline).2 := by
  have hlinks (ring : List Slot) (s : WaitState) :
      SameAccounts s (ring.foldl (fun s slot => s.linkBlock (t, slot)) s) :=
    .fold (fun s slot => .linkBlock s (t, slot)) ring s
  unfold blockOnMultiple
  cases deadline with
  | none => exact (((SameAccounts.setThread s t _).trans (.setThread _ t _)).trans (hlinks _ _)).trans (.setThread _ t _)
  | some deadline =>
    dsimp only
    split
    · exact (SameAccounts.setThread s t _).trans (.setThread _ t _)
    · exact (((((SameAccounts.setThread s t _).trans (.setBlock _ _ _)).trans (.startTimer _ t)).trans
        (.setThread _ t _)).trans (hlinks _ _)).trans (.setThread _ t _)

theorem waitLoop_spec (s : WaitState) (t : ℕ) (call : WaitCall) :
    Round s (s.waitLoop t call).2 t (s.satisfiedBy call).dedup (s.takenBy call) := by
  cases call with
  | delay deadline =>
    refine Round.none t ?_
    unfold waitLoop delay
    dsimp only
    split
    · exact (((SameAccounts.setBlock s _ _).trans (.setThread _ t _)).trans (.linkBlock _ _)).trans (.setThread _ t _)
    · exact ((((SameAccounts.setBlock s _ _).trans (.setThread _ t _)).trans (.linkBlock _ _)).setInserted fun _ =>
        update_of_ne (by simp) _ _).trans
        (.setThread _ t _)
  | single object deadline =>
    unfold waitLoop waitForSingle satisfiedBy takenBy
    dsimp only
    by_cases hsignal : 0 < (s.headers (.object object)).signalState
    · have hsignal' : 0 < s.signal (.object object) := hsignal
      rw [if_pos hsignal, if_pos hsignal', dedup_cons_of_notMem not_mem_nil, dedup_nil]
      exact ((Round.none t (.refl s)).acquire (nodup_singleton object)).same (.setThread _ t _)
    · have hsignal' : ¬ 0 < s.signal (.object object) := hsignal
      rw [if_neg hsignal, if_neg hsignal', dedup_nil]
      refine Round.none t ?_
      cases deadline with
      | none => exact (((SameAccounts.setBlock s _ _).trans (.setThread _ t _)).trans (.linkBlock _ _)).trans (.setThread _ t _)
      | some deadline =>
        dsimp only
        split
        · exact (SameAccounts.setBlock s _ _).trans (.setThread _ t _)
        · exact (((((SameAccounts.setBlock s _ _).trans (.setBlock _ _ _)).trans (.startTimer _ t)).trans
            (.setThread _ t _)).trans (.linkBlock _ _)).trans (.setThread _ t _)
  | multiple waitType objects deadline =>
    have hblocked (waitType : WaitType) := Round.none t (blockOnMultiple_same s t waitType objects deadline)
    unfold waitLoop waitForMultiple takenBy
    cases waitType with
    | waitAny =>
      unfold satisfiedBy
      dsimp only
      cases hfirst : objects.findIdx? fun object => decide (0 < (s.headers (.object object)).signalState) with
      | some first =>
        have hfind : (objects.find? fun object => decide (0 < s.signal (.object object))) = some (objects.getD first 0) :=
          find?_of_findIdx? hfirst
        rw [hfind, Option.toList_some, dedup_cons_of_notMem not_mem_nil, dedup_nil]
        exact ((Round.consume s t [objects.getD first 0]).acquire (nodup_singleton _)).same (.setThread _ t _)
      | none =>
        have hfind : (objects.find? fun object => decide (0 < s.signal (.object object))) = none :=
          find?_eq_none.2 fun x hx => Bool.eq_false_iff.1 (findIdx?_eq_none_iff.1 hfirst x hx)
        rw [hfind, Option.toList_none, dedup_nil]
        exact hblocked .waitAny
    | waitAll =>
      unfold satisfiedBy
      dsimp only
      by_cases hall : (objects.all fun object => decide (0 < (s.headers (.object object)).signalState)) = true
      · rw [if_pos hall]
        have hall' : (objects.all fun object => decide (0 < s.signal (.object object))) = true := hall
        rw [if_pos hall']
        exact ((Round.consume s t objects).acquire objects.nodup_dedup).same (.setThread _ t _)
      · rw [if_neg hall]
        have hall' : ¬ (objects.all fun object => decide (0 < s.signal (.object object))) = true := hall
        rw [if_neg hall', dedup_nil]
        exact hblocked .waitAll

/-- What a wake-up loop leaves alone: everything but the object it is about. -/
structure OnlyObject (s s' : WaitState) (o : ObjectId) : Prop where
  type : s'.type = s.type
  signal : ∀ o', o' ≠ o → s'.signal o' = s.signal o'
  acquired : ∀ o', o' ≠ o → s'.acquired o' = s.acquired o'
  consumed : ∀ o', o' ≠ o → s'.consumed o' = s.consumed o'
  sets : s'.sets = s.sets
  released : s'.released = s.released
  ownerThread : s'.ownerThread = s.ownerThread
  limit : s'.limit = s.limit
  armed : s'.armed = s.armed

theorem OnlyObject.of_same (h : SameAccounts s s') (o : ObjectId) : OnlyObject s s' o :=
  ⟨h.type, fun _ _ => by rw [h.signal], fun _ _ => by rw [h.acquired], fun _ _ => by rw [h.consumed], h.sets, h.released,
    h.ownerThread, h.limit, h.armed⟩

theorem OnlyObject.trans (h : OnlyObject s s' o) (h' : OnlyObject s' s'' o) : OnlyObject s s'' o where
  type := h'.type.trans h.type
  signal o' ho := (h'.signal o' ho).trans (h.signal o' ho)
  acquired o' ho := (h'.acquired o' ho).trans (h.acquired o' ho)
  consumed o' ho := (h'.consumed o' ho).trans (h.consumed o' ho)
  sets := h'.sets.trans h.sets
  released := h'.released.trans h.released
  ownerThread := h'.ownerThread.trans h.ownerThread
  limit := h'.limit.trans h.limit
  armed := h'.armed.trans h.armed

/-- One wake-up: a thread that waits for any object takes the object, one that waits for all is
told to try again. -/
theorem wakeFirst_spec (s : WaitState) (o : ObjectId) (b : ℕ × Slot) :
    let taken := (s.block b).waitType = .waitAny
    OnlyObject s (s.wakeFirst o b) o ∧
      (s.wakeFirst o b).signal o = s.signal o - (if taken ∧ s.Consumes o then 1 else 0) ∧
      (s.wakeFirst o b).consumed o = s.consumed o + (if taken ∧ s.Consumes o then 1 else 0) ∧
      (s.wakeFirst o b).acquired o = if taken then b.1 :: s.acquired o else s.acquired o := by
  have hsame {s' : WaitState} (h : SameAccounts s s') (hall : (s.block b).waitType ≠ .waitAny) :
      OnlyObject s s' o ∧
      s'.signal o = s.signal o - (if (s.block b).waitType = .waitAny ∧ s.Consumes o then 1 else 0) ∧
      s'.consumed o = s.consumed o + (if (s.block b).waitType = .waitAny ∧ s.Consumes o then 1 else 0) ∧
      s'.acquired o = if (s.block b).waitType = .waitAny then b.1 :: s.acquired o else s.acquired o := by
    refine ⟨.of_same h o, ?_, ?_, ?_⟩
    · rw [h.signal, if_neg fun h => hall h.1, sub_zero]
    · rw [h.consumed, if_neg fun h => hall h.1, Nat.add_zero]
    · rw [h.acquired, if_neg hall]
  unfold wakeFirst
  dsimp only
  cases htype : (s.block b).waitType with
  | waitAll =>
    rw [htype] at hsame
    dsimp only
    split
    · exact hsame (.kiUnwaitThread s b.1 _) (by decide)
    · exact hsame (.kiUnwaitThread s b.1 _) (by decide)
  | waitAny =>
    dsimp only
    obtain ⟨hty, hsignal, hconsumed, hacquired, hsets, hreleased, howner, hlimit, harmed⟩ := satisfy_spec s o
    have h := SameAccounts.kiUnwaitThread ((s.kiWaitSatisfyAny o).acquire o b.1) b.1 (s.block b).waitKey
    refine ⟨⟨h.type.trans hty, fun o' ho => ?_, fun o' ho => ?_, fun o' ho => ?_, h.sets.trans hsets,
      h.released.trans hreleased, h.ownerThread.trans howner, h.limit.trans hlimit, h.armed.trans harmed⟩, ?_, ?_, ?_⟩
    · rw [h.signal]
      show (s.satisfy o).signal o' = _
      rw [hsignal, update_of_ne ho]
    · rw [h.acquired, acquire_acquired, if_neg ho, kiWaitSatisfyAny, hacquired]
    · rw [h.consumed]
      show (s.satisfy o).consumed o' = _
      rw [hconsumed, update_of_ne ho]
    · rw [h.signal]
      show (s.satisfy o).signal o = _
      rw [hsignal, update_self]
      simp
    · rw [h.consumed]
      show (s.satisfy o).consumed o = _
      rw [hconsumed, update_self]
      simp
    · rw [h.acquired, acquire_acquired, if_pos rfl, if_pos rfl, kiWaitSatisfyAny, hacquired]

theorem onlyObject_waitTestLoop (s : WaitState) (o : ObjectId) (fuel : ℕ) : OnlyObject s (waitTestLoop o fuel s) o := by
  induction fuel generalizing s with
  | zero =>
    unfold waitTestLoop
    split
    · split
      · exact .of_same (.refl s) o
      · exact OnlyObject.of_same (show SameAccounts s { s with hung := true } from ⟨rfl, rfl, rfl, rfl, rfl, rfl, rfl, rfl, rfl⟩) o
      · rename_i heq
        cases heq
    · exact .of_same (.refl s) o
  | succ fuel ih =>
    unfold waitTestLoop
    split
    · split
      · exact .of_same (.refl s) o
      · rename_i heq
        cases heq
      · rename_i b rest n hlist heq
        cases heq
        exact (wakeFirst_spec s o b).1.trans (ih _)
    · exact .of_same (.refl s) o

theorem onlyObject_kiWaitTest (s : WaitState) (o : ObjectId) : OnlyObject s (s.kiWaitTest o) o :=
  onlyObject_waitTestLoop s o _

theorem OnlyObject.setSignal (s : WaitState) (o : ObjectId) (signalState : ℤ) : OnlyObject s (s.setSignal o signalState) o := by
  refine ⟨?_, fun o' ho => ?_, fun _ _ => rfl, fun _ _ => rfl, rfl, rfl, rfl, rfl, rfl⟩
  · funext o'
    by_cases ho : o' = o
    · subst ho
      simp [WaitState.type, WaitState.setSignal, setHeader]
    · simp [WaitState.type, WaitState.setSignal, setHeader, ho]
  · simp [WaitState.signal, WaitState.setSignal, setHeader, ho]

theorem setSignal_signal (s : WaitState) (o : ObjectId) (signalState : ℤ) : (s.setSignal o signalState).signal o = signalState := by
  simp [signal, setSignal, setHeader]

end WaitState

end XenOS.Ke
