import XenOS.General.Run
import XenOS.Ke.WaitFrames

/-! Mutual exclusion by mutexes. No path of the waits takes a mutex, so exclusion lasts exactly
as long as nobody asks for one. -/

namespace XenOS.Ke

open General

namespace WaitState

variable {s s' s'' : WaitState} {p : ObjectId} {o t : ℕ}

def releasesOwn (s : WaitState) (o : ℕ) : WaitOp → Bool
  | .releaseMutex t object => object = o ∧ s.ownerThread o = some t
  | _ => false

/-- The wait of a thread is granted at most once, to the owner or on a free mutex; each grant lowers
the signal state and each release raises it, never past 1; the mutex is free when nobody owns it. -/
structure Excludes (s : WaitState) (op : WaitOp) (o : ℕ) : Prop where
  bounded : (s.step op).signal (.object o) ≤ 1
  free : (s.step op).ownerThread o = none ↔ (s.step op).signal (.object o) = 1
  granted : ∃ grants, (s.step op).acquired (.object o) = grants ++ s.acquired (.object o) ∧ grants.length ≤ 1 ∧
    (∀ t ∈ grants, (s.step op).ownerThread o = some t) ∧
    (s.step op).signal (.object o) = s.signal (.object o) - grants.length +
      if s.releasesOwn o op then 1 else 0
  changed : (s.step op).ownerThread o ≠ s.ownerThread o → s.ownerThread o = none ∨ s.releasesOwn o op = true
  foreign : ∀ t, op = .releaseMutex t o → s.ownerThread o ≠ some t → s.step op = s

def SparesMutexes (s : WaitState) (op : WaitOp) : Prop :=
  (∀ t object, op = .releaseMutex t object → s.type (.object object) ≠ .mutant) ∧
    ∀ t call, s.loopOf op = some (t, call) → ∀ object ∈ s.satisfiedBy call, s.type (.object object) ≠ .mutant

structure LeavesMutexes (s s' : WaitState) : Prop where
  type : s'.type = s.type
  signal : ∀ o, s.type (.object o) = .mutant → s'.signal (.object o) = s.signal (.object o)
  acquired : ∀ o, s.type (.object o) = .mutant → s'.acquired (.object o) = s.acquired (.object o)
  ownerThread : s'.ownerThread = s.ownerThread
  armed : ∀ object, s'.armed object = true → s.armed object = true ∨ s.isTimer object = true

namespace LeavesMutexes

theorem refl (s : WaitState) : LeavesMutexes s s := ⟨rfl, fun _ _ => rfl, fun _ _ => rfl, rfl, fun _ => .inl⟩

theorem trans (h : LeavesMutexes s s') (h' : LeavesMutexes s' s'') : LeavesMutexes s s'' where
  type := h'.type.trans h.type
  signal o ho := (h'.signal o (h.type ▸ ho)).trans (h.signal o ho)
  acquired o ho := (h'.acquired o (h.type ▸ ho)).trans (h.acquired o ho)
  ownerThread := h'.ownerThread.trans h.ownerThread
  armed object harmed := by
    rcases h'.armed object harmed with harmed | htimer
    · exact h.armed object harmed
    · rw [isTimer_iff, h.type, ← isTimer_iff] at htimer
      exact .inr htimer

theorem of_touches (h : Touches s s' p) (hp : ∀ o, s.type (.object o) = .mutant → .object o ≠ p)
    (howner : s'.ownerThread = s.ownerThread) : LeavesMutexes s s' :=
  ⟨h.type, fun o ho => h.signal _ (hp o ho), fun o ho => h.acquired _ (hp o ho), howner, h.armed⟩

theorem of_same (h : SameAccounts s s') : LeavesMutexes s s' :=
  of_touches (.of_only (.of_same h (.threadTimer 0))) (fun o _ => by simp) h.ownerThread

end LeavesMutexes

structure MutexesFree (s : WaitState) : Prop where
  signal : ∀ o, s.type (.object o) = .mutant → s.signal (.object o) = 1
  nobody : ∀ o, s.ownerThread o = none
  armed : ∀ object, s.armed object = true → s.isTimer object = true

theorem MutexesFree.leave (h : MutexesFree s) (h' : LeavesMutexes s s') : MutexesFree s' where
  signal o ho := (h'.signal o (h'.type ▸ ho)).trans (h.signal o (h'.type ▸ ho))
  nobody o := by rw [h'.ownerThread, h.nobody]
  armed object harmed := by
    rw [isTimer_iff, h'.type, ← isTimer_iff]
    exact (h'.armed object harmed).elim (h.armed object) id

theorem LeavesMutexes.of_round {satisfied taken : List ℕ} (h : Round s s' t satisfied taken)
    (hspared : ∀ o ∈ satisfied, s.type (.object o) ≠ .mutant) : LeavesMutexes s s' where
  type := h.type
  signal o ho := by
    have hconsumes : ¬ s.Consumes (.object o) := by simp [Consumes, ho]
    rw [h.signal, consumption, if_neg hconsumes, Nat.cast_zero, sub_zero]
  acquired o ho := by
    rw [h.acquired, if_neg]
    intro hmem
    obtain ⟨object, hmem, heq⟩ := List.mem_map.1 hmem
    cases heq
    exact hspared o hmem ho
  ownerThread := h.ownerThread
  armed object harmed := .inl (by rwa [h.armed] at harmed)

variable {op : WaitOp}

theorem step_of_mutant (h : MutexesFree s) (hwait : ¬ IsWait op) (hrelease : ∀ t, op ≠ .releaseMutex t o)
    (htarget : target op = .object o) (ho : s.type (.object o) = .mutant) : s.step op = s := by
  have hevent : ¬ s.isEvent o = true := by simp [isEvent_iff, ho]
  have htimer : ¬ s.isTimer o = true := by simp [isTimer_iff, ho]
  have hsemaphore : ¬ (s.headers (.object o)).type = .semaphore := by
    change ¬ s.type (.object o) = .semaphore
    simp [ho]
  cases op with
  | waitSingle | waitMultiple | resume => exact absurd trivial hwait
  | setEvent | pulseEvent | resetEvent =>
    cases htarget
    exact if_neg hevent
  | releaseSemaphore =>
    cases htarget
    exact if_neg hsemaphore
  | releaseMutex t =>
    cases htarget
    exact absurd rfl (hrelease t)
  | setTimer =>
    cases htarget
    exact if_neg htimer
  | expireTimer =>
    cases htarget
    exact if_neg fun harmed => htimer (h.armed o harmed)
  | cancelTimer | advance => cases htarget

theorem step_ownerThread (hwait : ¬ IsWait op)
    (hrelease : ∀ t n, op = .releaseMutex t n → s.type (.object n) ≠ .mutant) :
    (s.step op).ownerThread = s.ownerThread := by
  have htest (s : WaitState) (o : ObjectId) : (s.kiWaitTest o).ownerThread = s.ownerThread :=
    (onlyObject_kiWaitTest s o).ownerThread
  have htimer (s : WaitState) (o : ObjectId) : (s.signalTimer o).ownerThread = s.ownerThread := by
    cases o with
    | threadTimer t => exact htest _ _
    | object n =>
      unfold signalTimer
      dsimp only
      split
      · exact htest _ _
      · exact htest _ _
  cases op with
  | waitSingle | waitMultiple | resume => exact absurd trivial hwait
  | releaseMutex t n =>
    have ho : ¬ (s.headers (.object n)).type = .mutant := hrelease t n rfl
    exact congrArg ownerThread (if_neg ho)
  | advance => rfl
  | _ =>
    simp only [step, keSetEvent, kePulseEvent, keReleaseSemaphore, keSetTimerEx]
    split_ifs <;> first | rfl | exact htest _ _ | exact htimer _ _

theorem leavesMutexes_step (h : MutexesFree s) (hspares : SparesMutexes s op) :
    LeavesMutexes s (s.step op) := by
  by_cases hwait : IsWait op
  · rcases step_of_wait hwait with ⟨-, hsame⟩ | ⟨t, call, s1, hloop, hsame, hstep⟩
    · exact .of_same hsame
    · rw [hstep]
      refine (LeavesMutexes.of_same hsame).trans (.of_round (waitLoop_spec s1 t call) fun o ho => ?_)
      rw [List.mem_dedup, satisfiedBy_same hsame] at ho
      rw [hsame.type]
      exact hspares.2 t call hloop o ho
  · by_cases htarget : ∃ o, target op = .object o ∧ s.type (.object o) = .mutant
    · obtain ⟨o, htarget, ho⟩ := htarget
      rw [step_of_mutant h hwait (fun t hop => hspares.1 t o hop ho) htarget ho]
      exact .refl s
    · exact .of_touches (touches_step h.armed hwait) (fun o ho heq => htarget ⟨o, heq.symm, ho⟩)
        (step_ownerThread hwait hspares.1)

theorem excludes_of_leaves (h : MutexesFree s) (hspares : SparesMutexes s op)
    (ho : s.type (.object o) = .mutant) : Excludes s op o := by
  have hleave := leavesMutexes_step h hspares
  have hafter := h.leave hleave
  have hsignal : (s.step op).signal (.object o) = 1 := hafter.signal o (by rw [hleave.type, ho])
  have hown : s.releasesOwn o op = false := by
    cases op with
    | releaseMutex t object => simp [releasesOwn, h.nobody]
    | _ => rfl
  refine ⟨hsignal.le, ?_, ⟨[], hleave.acquired o ho, Nat.zero_le 1, by simp, ?_⟩, fun hne => .inl (h.nobody o), ?_⟩
  · simp [hsignal, hafter.nobody]
  · simp [hsignal, h.signal o ho, hown]
  · rintro t rfl -
    exact absurd ho (hspares.1 t o rfl)

theorem waitTestLoop_signal (fuel : ℕ) (hp : ¬ s.Consumes p) : (waitTestLoop p fuel s).signal p = s.signal p := by
  induction fuel generalizing s with
  | zero =>
    unfold waitTestLoop
    split
    · split
      · rfl
      · rfl
      · rename_i heq
        cases heq
    · rfl
  | succ fuel ih =>
    unfold waitTestLoop
    split
    · split
      · rfl
      · rename_i heq
        cases heq
      · rename_i b rest n hlist heq
        cases heq
        obtain ⟨honly, hsignal, -⟩ := wakeFirst_spec s p b
        have hp' : ¬ (s.wakeFirst p b).Consumes p := by rwa [Consumes, honly.type]
        rw [ih hp', hsignal, if_neg fun h => hp h.2, sub_zero]
    · rfl

theorem keReleaseMutex_signal (hsignal : s.signal (.object o) = 1) (ho : s.type (.object o) = .mutant) :
    (s.keReleaseMutex o).signal (.object o) = 2 := by
  have hnew : addLong (s.headers (.object o)).signalState 1 = 2 := by
    rw [show (s.headers (.object o)).signalState = 1 from hsignal]
    rfl
  have hset := setSignal_signal s (.object o) 2
  have htype := (OnlyObject.setSignal s (.object o) 2).type
  unfold keReleaseMutex
  rw [hnew]
  dsimp only
  rw [if_pos (by decide), kiWaitTest, waitTestLoop_signal]
  · exact hset
  · intro hconsumes
    change (s.setSignal (.object o) 2).type _ = _ ∨ (s.setSignal (.object o) 2).type _ = _ at hconsumes
    rw [htype, ho] at hconsumes
    simp at hconsumes

theorem not_excludes (h : MutexesFree s) (hspares : ¬ SparesMutexes s op) :
    ∃ o, s.type (.object o) = .mutant ∧ ¬ Excludes s op o := by
  rcases not_and_or.1 hspares with hrelease | hwait
  · push Not at hrelease
    obtain ⟨t, o, rfl, ho⟩ := hrelease
    refine ⟨o, ho, fun hexcludes => ?_⟩
    have hstep : s.step (.releaseMutex t o) = s.keReleaseMutex o := if_pos ho
    have hbounded := hexcludes.bounded
    rw [hstep, keReleaseMutex_signal (h.signal o ho) ho] at hbounded
    omega
  · push Not at hwait
    obtain ⟨t, call, hloop, o, hsatisfied, ho⟩ := hwait
    refine ⟨o, ho, fun hexcludes => ?_⟩
    have hiswait : IsWait op := by
      cases op <;> trivial
    rcases step_of_wait hiswait with ⟨hnone, -⟩ | ⟨t', call', s1, hloop', hsame, hstep⟩
    · rw [hnone] at hloop
      cases hloop
    · rw [hloop] at hloop'
      cases hloop'
      have hround := waitLoop_spec s1 t call
      have hmem : ObjectId.object o ∈ (s1.satisfiedBy call).dedup.map ObjectId.object :=
        List.mem_map_of_mem (List.mem_dedup.2 (by rwa [satisfiedBy_same hsame]))
      obtain ⟨grants, hgrants, -, howner, -⟩ := hexcludes.granted
      have hacquired : (s.step op).acquired (.object o) = [t] ++ s.acquired (.object o) := by
        rw [hstep, hround.acquired, if_pos hmem, hsame.acquired]
        rfl
      have hgrant : grants = [t] := List.append_cancel_right (hgrants.symm.trans hacquired)
      have hnamed := howner t (by simp [hgrant])
      rw [hstep, hround.ownerThread, hsame.ownerThread, h.nobody] at hnamed
      cases hnamed

/-- Mutexes that start free exclude exactly as long as none is released and none satisfies a wait. -/
theorem excludes_iff (type : ℕ → KObjectType) (signalState limit : ℕ → ℤ) (interruptTime : ℕ) (baseTime : ℤ)
    (hfree : ∀ o, type o = .mutant → signalState o = 1) (ops : List WaitOp) :
    EveryStep step (fun s op => ∀ o, s.type (.object o) = .mutant → Excludes s op o)
        (start type signalState limit interruptTime baseTime) ops ↔
      EveryStep step SparesMutexes (start type signalState limit interruptTime baseTime) ops := by
  refine everyStep_iff (I := MutexesFree) (G := fun _ _ => True) ?_ ?_ ?_ ⟨hfree, fun _ => rfl, ?_⟩
    (everyStep_of_forall fun _ _ => trivial)
  · intro s op h _ hspares
    exact h.leave (leavesMutexes_step h hspares)
  · intro s op h _ hspares o ho
    exact excludes_of_leaves h hspares ho
  · intro s op h _ hspares hall
    obtain ⟨o, ho, hnot⟩ := not_excludes h hspares
    exact hnot (hall o ho)
  · intro object harmed
    cases harmed

def mutexAndEvent (o : ℕ) : KObjectType := if o = 0 then .mutant else .eventNotification

/-- A free mutex behind a signalled event in a wait for any, and in a wait for all that blocks. -/
theorem excludes_beside_event :
    EveryStep step (fun s op => ∀ o, s.type (.object o) = .mutant → Excludes s op o)
      (start mutexAndEvent (fun _ => 1) (fun _ => 0) 0 0)
      [.waitMultiple 7 .waitAny [1, 0] false none 0, .resetEvent 1, .waitMultiple 8 .waitAll [0, 1] false none 0] := by
  refine (excludes_iff _ _ _ _ _ (fun _ _ => rfl) _).2 ⟨⟨by simp, ?_⟩, ⟨by simp, ?_⟩, ⟨by simp, ?_⟩, trivial⟩
  · rintro t call ⟨⟩
    decide
  · rintro t call ⟨⟩
  · rintro t call ⟨⟩
    decide

/-- The wait of thread 7 on a free mutex succeeds, and nobody owns the mutex. -/
theorem wait_without_owner :
    ¬ EveryStep step (fun s op => ∀ o, s.type (.object o) = .mutant → Excludes s op o)
      (start (fun _ => .mutant) (fun _ => 1) (fun _ => 0) 0 0) [.waitSingle 7 0 none 0] := by
  rintro ⟨hexcludes, -⟩
  obtain ⟨grants, hgrants, -, howner, -⟩ := (hexcludes 0 rfl).granted
  have hgrant : grants = [7] := List.append_cancel_right (hgrants.symm.trans (show _ = [7] ++ [] from rfl))
  have hnamed := howner 7 (by simp [hgrant])
  revert hnamed
  decide

end WaitState

end XenOS.Ke
