import XenOS.Ke.WaitFrames
import XenOS.Ke.WaitListRuns
import Mathlib.Data.List.Count

/-! The balance of signals. A wait that an object satisfies takes one signal from it; the paths of
the code agree on events and semaphores that are waited for once, and not on the rest. -/

namespace XenOS.Ke

open General List

namespace WaitState

variable {s s' s'' : WaitState} {initial : ℕ → ℤ} {p : ObjectId} {n t : ℕ}

/-! ### The balance -/

/-- An object whose signals are taken one by one. -/
def Counted (s : WaitState) (n : ℕ) : Prop :=
  s.type (.object n) = .eventSynchronization ∨ s.type (.object n) = .semaphore ∨ s.type (.object n) = .timerSynchronization

/-- Each satisfied wait took one signal; a semaphore counts what is left, within its limit; events
and timers gave no more than they had. -/
structure Conserves (initial : ℕ → ℤ) (s s' : WaitState) (n : ℕ) : Prop where
  taken : ∃ k, (s'.acquired (.object n)).length = (s.acquired (.object n)).length + k ∧
    s'.consumed (.object n) = s.consumed (.object n) + k
  count : s.type (.object n) = .semaphore →
    s'.signal (.object n) = initial n + s'.released n - (s'.acquired (.object n)).length ∧
      0 ≤ s'.signal (.object n) ∧ s'.signal (.object n) ≤ s.limit n
  once : s.type (.object n) ≠ .semaphore →
    (s'.acquired (.object n)).length + s'.signal (.object n) + s.sets n ≤
        (s.acquired (.object n)).length + s.signal (.object n) + s'.sets n ∧
      0 ≤ s'.signal (.object n)

def ConservesSignals (initial : ℕ → ℤ) (s : WaitState) (op : WaitOp) : Prop :=
  (∀ n, s.Counted n → Conserves initial s (s.step op) n) ∧
    ∀ n adjustment, op = .releaseSemaphore n adjustment → s.type (.object n) = .semaphore →
      s.limit n < s.signal (.object n) + adjustment.toInt → s.step op = s

/-- A round takes one signal of each object that satisfies it: not counted at all for a single wait,
no timers and nothing twice otherwise. -/
def TakesOnce (s : WaitState) (call : WaitCall) : Prop :=
  match call with
  | .single _ _ => ∀ n ∈ s.satisfiedBy call, ¬ s.Counted n
  | .multiple .waitAny _ _ => ∀ n ∈ s.satisfiedBy call, s.type (.object n) ≠ .timerSynchronization
  | .multiple .waitAll _ _ => ∀ n ∈ s.satisfiedBy call,
      s.type (.object n) ≠ .timerSynchronization ∧ (s.Consumes (.object n) → (s.satisfiedBy call).count n = 1)
  | .delay _ => True

def Expires (s : WaitState) (op : WaitOp) (n : ℕ) : Prop :=
  (op = .expireTimer (.object n) ∧ s.inserted (.object n) = true) ∨
    ∃ dueTime period, op = .setTimer n dueTime period ∧ dueTime ≠ i64Min ∧ s.computeDeadlineInterrupt dueTime ≤ s.interruptTime

/-- Waits take each signal once, releases stay within a signed word, and synchronization timers
expire only for waits for all. -/
structure SoundSignals (s : WaitState) (op : WaitOp) : Prop where
  waits : ∀ t call, s.loopOf op = some (t, call) → s.TakesOnce call
  releases : ∀ n adjustment, op = .releaseSemaphore n adjustment → s.type (.object n) = .semaphore →
    0 ≤ s.signal (.object n) + adjustment.toInt ∧ s.signal (.object n) + adjustment.toInt < 2 ^ 31
  timers : ∀ n, s.Expires op n → s.type (.object n) = .timerSynchronization →
    ∀ b ∈ s.waitList (.object n), (s.block b).waitType = .waitAll

/-! ### Wake-ups -/

/-- The wake-ups take one signal each from an event or a semaphore, and never the last one twice. -/
theorem waitTestLoop_accounts (fuel : ℕ) (s : WaitState) (p : ObjectId) :
    ∃ k, ((waitTestLoop p fuel s).acquired p).length = (s.acquired p).length + k ∧
      (waitTestLoop p fuel s).consumed p = s.consumed p + (if s.Consumes p then k else 0) ∧
      (waitTestLoop p fuel s).signal p = s.signal p - (if s.Consumes p then k else 0 : ℕ) ∧
      (0 ≤ s.signal p → 0 ≤ (waitTestLoop p fuel s).signal p) := by
  induction fuel generalizing s with
  | zero =>
    refine ⟨0, ?_⟩
    rw [ite_self]
    unfold waitTestLoop
    split
    · split
      · exact ⟨rfl, rfl, (sub_zero _).symm, id⟩
      · exact ⟨rfl, rfl, (sub_zero _).symm, id⟩
      · rename_i heq
        cases heq
    · exact ⟨rfl, rfl, (sub_zero _).symm, id⟩
  | succ fuel ih =>
    have hnone : ∃ k, (s.acquired p).length = (s.acquired p).length + k ∧
        s.consumed p = s.consumed p + (if s.Consumes p then k else 0) ∧
        s.signal p = s.signal p - (if s.Consumes p then k else 0 : ℕ) ∧ (0 ≤ s.signal p → 0 ≤ s.signal p) := by
      refine ⟨0, ?_⟩
      rw [ite_self]
      exact ⟨rfl, rfl, (sub_zero _).symm, id⟩
    unfold waitTestLoop
    split
    · rename_i hpositive
      have hsignal : 0 < s.signal p := hpositive
      split
      · exact hnone
      · rename_i heq
        cases heq
      · rename_i b rest m hlist heq
        cases heq
        obtain ⟨honly, hs, hc, ha⟩ := wakeFirst_spec s p b
        obtain ⟨k, hacquired, hconsumed, hleft, hkeep⟩ := ih (s.wakeFirst p b)
        have hconsumes : (s.wakeFirst p b).Consumes p ↔ s.Consumes p := by rw [Consumes, Consumes, honly.type]
        simp only [hconsumes] at hconsumed hleft
        refine ⟨k + if (s.block b).waitType = .waitAny then 1 else 0, ?_, ?_, ?_, fun _ => hkeep ?_⟩
        · rw [hacquired, ha]
          split
          · rw [length_cons]
            omega
          · rfl
        · rw [hconsumed, hc]
          by_cases htype : (s.block b).waitType = .waitAny <;> by_cases hcons : s.Consumes p <;> simp [htype, hcons]
          omega
        · rw [hleft, hs]
          by_cases htype : (s.block b).waitType = .waitAny <;> by_cases hcons : s.Consumes p <;> simp [htype, hcons]
          omega
        · rw [hs]
          split <;> omega
    · exact hnone

theorem kiWaitTest_accounts (s : WaitState) (p : ObjectId) :
    ∃ k, ((s.kiWaitTest p).acquired p).length = (s.acquired p).length + k ∧
      (s.kiWaitTest p).consumed p = s.consumed p + (if s.Consumes p then k else 0) ∧
      (s.kiWaitTest p).signal p = s.signal p - (if s.Consumes p then k else 0 : ℕ) ∧
      (0 ≤ s.signal p → 0 ≤ (s.kiWaitTest p).signal p) :=
  waitTestLoop_accounts _ s p

/-- Threads that wait for all of their objects are told to try again, and take nothing. -/
theorem waitTestLoop_all (fuel : ℕ) (h : ListedWaits s) (hall : ∀ b ∈ s.waitList p, (s.block b).waitType = .waitAll) :
    (waitTestLoop p fuel s).acquired p = s.acquired p ∧ (waitTestLoop p fuel s).consumed p = s.consumed p := by
  induction fuel generalizing s with
  | zero =>
    unfold waitTestLoop
    split
    · split
      · exact ⟨rfl, rfl⟩
      · exact ⟨rfl, rfl⟩
      · rename_i heq
        cases heq
    · exact ⟨rfl, rfl⟩
  | succ fuel ih =>
    unfold waitTestLoop
    split
    · split
      · exact ⟨rfl, rfl⟩
      · rename_i heq
        cases heq
      · rename_i b rest m hlist heq
        cases heq
        have hb : b ∈ s.waitList p := by
          rw [waitList, hlist]
          exact mem_cons_self
        have htype := hall b hb
        obtain ⟨hlisted, -, hmem, hothers⟩ := h.wakeFirst hb
        obtain ⟨-, -, hc, ha⟩ := wakeFirst_spec s p b
        rw [htype] at hc ha
        obtain ⟨hacquired, hconsumed⟩ := ih hlisted fun b' hb' => by
          obtain ⟨hb', hne⟩ := (hmem b').1 hb'
          rw [block, hothers b'.1 hne]
          exact hall b' hb'
        rw [hacquired, hconsumed, ha, hc]
        simp
    · exact ⟨rfl, rfl⟩

theorem sameType (h : ListedWaits s) {b b' : ℕ × Slot} (hb : b ∈ s.waitList (.object n)) (hb' : b' ∈ s.waitList (.object n))
    (heq : b.1 = b'.1) : (s.block b).waitType = (s.block b').waitType := by
  have htype (b : ℕ × Slot) (hb : b ∈ s.waitList (.object n)) :
      ∃ call i, (s.threads b.1).call = some call ∧ (s.block b).waitType = typeOf call (.object i) := by
    obtain ⟨⟨hwait, hring⟩, hobject⟩ := (h.links.mem _ b).1 hb
    obtain ⟨call, hcall⟩ := Option.ne_none_iff_exists'.1 (h.called b.1 hwait)
    have hslot := h.blockType b.1 b.2 call hwait hcall hring
    obtain ⟨t, slot⟩ := b
    cases slot with
    | object i => exact ⟨call, i, hcall, hslot⟩
    | timer => exact absurd ((h.timer t hwait hring).symm.trans hobject) (by simp)
  obtain ⟨call, i, hcall, htype1⟩ := htype b hb
  obtain ⟨call', i', hcall', htype2⟩ := htype b' hb'
  rw [heq, hcall'] at hcall
  cases hcall
  rw [htype1, htype2]
  cases call <;> rfl

theorem waitTestLoop_any {fuel : ℕ} (h : ListedWaits s) (hfuel : (s.waitList (.object n)).length ≤ fuel)
    (hsignal : 0 < s.signal (.object n)) (hconsumes : ¬ s.Consumes (.object n))
    (hany : ∃ b ∈ s.waitList (.object n), (s.block b).waitType = .waitAny) :
    (s.acquired (.object n)).length < ((waitTestLoop (.object n) fuel s).acquired (.object n)).length ∧
      (waitTestLoop (.object n) fuel s).consumed (.object n) = s.consumed (.object n) := by
  refine ⟨?_, ?_⟩
  · induction fuel generalizing s with
    | zero =>
      obtain ⟨b, hb, -⟩ := hany
      rw [eq_nil_of_length_eq_zero (Nat.le_zero.1 hfuel)] at hb
      cases hb
    | succ fuel ih =>
      obtain ⟨b', hb', htype'⟩ := hany
      have hpositive : 0 < (s.headers (.object n)).signalState := hsignal
      unfold waitTestLoop
      rw [if_pos hpositive]
      cases hlist : (s.headers (.object n)).waitListHead with
      | nil =>
        rw [waitList, hlist] at hb'
        cases hb'
      | cons b rest =>
        dsimp only
        have hlist' : s.waitList (.object n) = b :: rest := hlist
        have hb : b ∈ s.waitList (.object n) := hlist' ▸ mem_cons_self
        obtain ⟨hlisted, -, hmem, hothers⟩ := h.wakeFirst hb
        obtain ⟨honly, hs, hc, ha⟩ := wakeFirst_spec s (.object n) b
        have hgrows := (waitTestLoop_accounts fuel (s.wakeFirst (.object n) b) (.object n))
        obtain ⟨k, hk, -⟩ := hgrows
        by_cases htype : (s.block b).waitType = .waitAny
        · rw [if_pos htype] at ha
          rw [hk, ha, length_cons]
          omega
        · -- The blocks of a thread in one list are of one type, so this one belongs to another thread.
          have hne : b'.1 ≠ b.1 := fun heq => htype ((sameType h hb hb' heq.symm).trans htype')
          have hshort : ((s.wakeFirst (.object n) b).waitList (.object n)).length ≤ fuel := by
            have hsub : (s.wakeFirst (.object n) b).waitList (.object n) ⊆ rest := fun b'' hb'' => by
              obtain ⟨hin, hne⟩ := (hmem b'').1 hb''
              rw [hlist'] at hin
              rcases mem_cons.1 hin with rfl | hin
              · exact absurd rfl hne
              · exact hin
            have := (Nodup.subperm (hlisted.links.nodup _) hsub).length_le
            rw [hlist', length_cons] at hfuel
            omega
          have hrest := ih hlisted hshort (by rw [hs, if_neg fun h => htype h.1, sub_zero]; exact hsignal)
            (by rwa [Consumes, honly.type]) ⟨b', (hmem b').2 ⟨hb', hne⟩, by rw [block, hothers b'.1 hne]; exact htype'⟩
          rw [if_neg htype] at ha
          rwa [ha] at hrest
  · obtain ⟨k, -, hconsumed, -⟩ := waitTestLoop_accounts fuel s (.object n)
    rw [hconsumed, if_neg hconsumes, Nat.add_zero]

/-! ### Waits -/

theorem counted_iff (s : WaitState) (n : ℕ) :
    s.Counted n ↔ s.Consumes (.object n) ∨ s.type (.object n) = .timerSynchronization := by
  unfold Counted Consumes
  tauto

theorem consumption_object (s : WaitState) (taken : List ℕ) (n : ℕ) :
    s.consumption taken (.object n) = if s.Consumes (.object n) then taken.count n else 0 := by
  rw [consumption, count_map_of_injective taken ObjectId.object (fun _ _ h => by cases h; rfl)]

variable {call : WaitCall}

theorem satisfiedBy_pos (hn : n ∈ s.satisfiedBy call) : 0 < s.signal (.object n) := by
  cases call with
  | single object deadline =>
    rw [satisfiedBy] at hn
    split at hn
    · rw [mem_singleton.1 hn]
      assumption
    · cases hn
  | multiple waitType objects deadline =>
    cases waitType with
    | waitAny =>
      rw [satisfiedBy] at hn
      have hfound := find?_some (Option.mem_toList.1 hn)
      exact of_decide_eq_true hfound
    | waitAll =>
      rw [satisfiedBy] at hn
      split at hn
      · rename_i hall
        exact of_decide_eq_true (all_eq_true.1 hall n hn)
      · cases hn
  | delay deadline => cases hn

theorem type_ne_of_consumes (hconsumes : s.Consumes (.object n)) : s.type (.object n) ≠ .timerSynchronization := by
  rcases hconsumes with htype | htype <;> simp [htype]

theorem takesOnce_iff (s : WaitState) (call : WaitCall) :
    s.TakesOnce call ↔ ∀ n ∈ s.satisfiedBy call, s.Counted n → s.consumption (s.takenBy call) (.object n) = 1 := by
  cases call with
  | single object deadline =>
    refine forall₂_congr fun n _ => ?_
    rw [show s.takenBy (.single object deadline) = [] from rfl, consumption_nil]
    simp
  | multiple waitType objects deadline =>
    cases waitType with
    | waitAny =>
      refine forall₂_congr fun n hn => ?_
      have hlist : s.satisfiedBy (.multiple .waitAny objects deadline) = [n] := by
        rw [satisfiedBy] at hn ⊢
        rw [Option.mem_def.1 (Option.mem_toList.1 hn), Option.toList_some]
      rw [consumption_object, show s.takenBy (.multiple .waitAny objects deadline) = [n] from hlist, counted_iff]
      by_cases hconsumes : s.Consumes (.object n)
      · simp [hconsumes, type_ne_of_consumes hconsumes]
      · simp [hconsumes]
    | waitAll =>
      refine forall₂_congr fun n hn => ?_
      rw [consumption_object, show s.takenBy (.multiple .waitAll objects deadline) =
        s.satisfiedBy (.multiple .waitAll objects deadline) from rfl, counted_iff]
      by_cases hconsumes : s.Consumes (.object n)
      · simp [hconsumes, type_ne_of_consumes hconsumes]
      · simp [hconsumes]
  | delay deadline => exact ⟨fun _ _ hn => absurd hn not_mem_nil, fun _ => trivial⟩

/-! ### What conserves signals -/

structure Accounted (initial : ℕ → ℤ) (s : WaitState) : Prop where
  lists : ListedWaits s
  armed : ∀ n, s.armed n = true → s.isTimer n = true
  count : ∀ n, s.type (.object n) = .semaphore →
    s.signal (.object n) = initial n + s.released n - (s.acquired (.object n)).length ∧
      0 ≤ s.signal (.object n) ∧ s.signal (.object n) ≤ s.limit n ∧ s.limit n < 2 ^ 31
  once : ∀ n, s.Counted n → s.type (.object n) ≠ .semaphore → 0 ≤ s.signal (.object n)

section
variable (h : Accounted initial s)
include h

theorem Accounted.conserves_of_same (hn : s.Counted n)
    (hsignal : s'.signal (.object n) = s.signal (.object n)) (hacquired : s'.acquired (.object n) = s.acquired (.object n))
    (hconsumed : s'.consumed (.object n) = s.consumed (.object n)) (hsets : s'.sets n = s.sets n)
    (hreleased : s'.released n = s.released n) : Conserves initial s s' n where
  taken := ⟨0, by rw [hacquired, Nat.add_zero], by rw [hconsumed, Nat.add_zero]⟩
  count hsemaphore := by
    rw [hsignal, hacquired, hreleased]
    obtain ⟨hbalance, hnonneg, hlimit, -⟩ := h.count n hsemaphore
    exact ⟨hbalance, hnonneg, hlimit⟩
  once hother := by
    rw [hsignal, hacquired, hsets]
    exact ⟨le_rfl, h.once n hn hother⟩

theorem Accounted.conserves_refl (hn : s.Counted n) : Conserves initial s s n :=
  h.conserves_of_same hn rfl rfl rfl rfl rfl

theorem Accounted.after (hlists : ListedWaits s') (htype : s'.type = s.type)
    (hlimit : s'.limit = s.limit) (harmed : ∀ n, s'.armed n = true → s.armed n = true ∨ s.isTimer n = true)
    (hconserves : ∀ n, s.Counted n → Conserves initial s s' n) : Accounted initial s' where
  lists := hlists
  armed n hn := by
    rw [isTimer_iff, htype, ← isTimer_iff]
    exact (harmed n hn).elim (h.armed n) id
  count n hsemaphore := by
    rw [htype] at hsemaphore
    rw [hlimit]
    obtain ⟨hbalance, hnonneg, hbound⟩ := (hconserves n (.inr (.inl hsemaphore))).count hsemaphore
    exact ⟨hbalance, hnonneg, hbound, (h.count n hsemaphore).2.2.2⟩
  once n hn hother := by
    rw [Counted, htype] at hn
    rw [htype] at hother
    exact ((hconserves n hn).once hother).2

end

theorem Conserves.setSignal_zero (h : Conserves initial s s' n) (hother : s.type (.object n) ≠ .semaphore) :
    Conserves initial s (s'.setSignal (.object n) 0) n where
  taken := h.taken
  count hsemaphore := absurd hsemaphore hother
  once _ := by
    obtain ⟨hle, hnonneg⟩ := h.once hother
    rw [setSignal_signal]
    refine ⟨?_, le_rfl⟩
    change ((s'.acquired (.object n)).length : ℤ) + 0 + s.sets n ≤
      (s.acquired (.object n)).length + s.signal (.object n) + s'.sets n
    omega

/-- An event is set, or a timer expires: one signal, taken once where the wake-ups take it. -/
theorem conserves_signalTest (initial : ℕ → ℤ) (h : ListedWaits s) (hnonneg : 0 ≤ s.signal (.object n))
    (hother : s.type (.object n) ≠ .semaphore)
    (htaken : s.Consumes (.object n) ∨ ∀ b ∈ s.waitList (.object n), (s.block b).waitType = .waitAll) :
    Conserves initial s ((s.signalObject n).kiWaitTest (.object n)) n := by
  have hsame := SameLists.signalObject s n
  have hsignal : (s.signalObject n).signal (.object n) = 1 := setSignal_signal s (.object n) 1
  have htype : (s.signalObject n).type = s.type := (OnlyObject.setSignal s (.object n) 1).type
  have hsets : ((s.signalObject n).kiWaitTest (.object n)).sets n = s.sets n + 1 := by
    rw [(onlyObject_kiWaitTest _ _).sets]
    exact Function.update_self ..
  obtain ⟨k, hacquired, hconsumed, hleft, hkeep⟩ := kiWaitTest_accounts (s.signalObject n) (.object n)
  have hconsumes : (s.signalObject n).Consumes (.object n) ↔ s.Consumes (.object n) := by rw [Consumes, Consumes, htype]
  simp only [hconsumes] at hconsumed hleft
  have hacquired' : (((s.signalObject n).kiWaitTest (.object n)).acquired (.object n)).length =
      (s.acquired (.object n)).length + k := hacquired
  rw [hsignal] at hleft hkeep
  have hk : (if s.Consumes (.object n) then k else 0) = k := by
    rcases htaken with hcons | hall
    · rw [if_pos hcons]
    · have hnone := (waitTestLoop_all (p := .object n) ((s.signalObject n).headers (.object n)).waitListHead.length
        (h.of_same hsame) fun b hb => by
          rw [block, hsame.threads]
          exact hall b (by rwa [hsame.waitList] at hb)).1
      have hlength : (((s.signalObject n).kiWaitTest (.object n)).acquired (.object n)).length =
        (s.acquired (.object n)).length := congrArg length hnone
      have hzero : k = 0 := by omega
      rw [hzero, ite_self]
  refine ⟨⟨k, hacquired', ?_⟩, fun hsemaphore => absurd hsemaphore hother, fun _ => ⟨?_, hkeep (by decide)⟩⟩
  · rw [hconsumed, hk]
    rfl
  · rw [hleft, hacquired', hsets, hk]
    push_cast
    omega

theorem Conserves.signalTimer {s1 : WaitState} (h : Conserves initial s ((s1.signalObject n).kiWaitTest (.object n)) n)
    (hother : s.type (.object n) ≠ .semaphore) : Conserves initial s (s1.signalTimer (.object n)) n := by
  unfold WaitState.signalTimer
  dsimp only
  split
  · have hzero := h.setSignal_zero hother
    exact ⟨hzero.taken, hzero.count, hzero.once⟩
  · exact h

/-! ### Releases -/

theorem addLong_of_mem {a b : ℤ} (h0 : -2 ^ 31 ≤ a + b) (h1 : a + b < 2 ^ 31) : addLong a b = a + b := by
  unfold addLong
  rw [Int.bmod_eq_of_le (by omega) (by omega)]

theorem Accounted.conserves_release (h : Accounted initial s) (hn : s.type (.object n) = .semaphore) {adjustment : ℤ}
    (h0 : 0 ≤ s.signal (.object n) + adjustment) (h1 : s.signal (.object n) + adjustment < 2 ^ 31) :
    Conserves initial s (s.keReleaseSemaphore n adjustment).2 n ∧
      (s.limit n < s.signal (.object n) + adjustment → (s.keReleaseSemaphore n adjustment).2 = s) := by
  have hcounted : s.Counted n := .inr (.inl hn)
  have hconsumes : s.Consumes (.object n) := .inr hn
  have hnew : addLong (s.headers (.object n)).signalState adjustment = s.signal (.object n) + adjustment :=
    addLong_of_mem (by change _ ≤ s.signal (.object n) + adjustment; omega) h1
  obtain ⟨hbalance, -, -, -⟩ := h.count n hn
  unfold keReleaseSemaphore
  dsimp only
  rw [hnew]
  split
  · exact ⟨h.conserves_refl hcounted, fun _ => rfl⟩
  · rename_i hlimit
    refine ⟨?_, fun hover => absurd hover hlimit⟩
    set s1 : WaitState := { s.setSignal (.object n) (s.signal (.object n) + adjustment) with
      released := Function.update s.released n (s.released n + adjustment) } with hs1
    have hsignal : s1.signal (.object n) = s.signal (.object n) + adjustment := setSignal_signal s _ _
    have htype : s1.type = s.type := (OnlyObject.setSignal s (.object n) _).type
    have hreleased : s1.released n = s.released n + adjustment := Function.update_self ..
    have hraised : Conserves initial s s1 n := by
      refine ⟨⟨0, rfl, rfl⟩, fun _ => ⟨?_, ?_, ?_⟩, fun hother => absurd hn hother⟩
      · rw [hsignal, hreleased, hbalance]
        change _ = initial n + (s.released n + adjustment) - ((s.acquired (.object n)).length : ℤ)
        omega
      · rw [hsignal]
        exact h0
      · rw [hsignal]
        omega
    split
    · show Conserves initial s (s1.kiWaitTest (.object n)) n
      obtain ⟨k, hacquired, hconsumed, hleft, hkeep⟩ := kiWaitTest_accounts s1 (.object n)
      have hconsumes1 : s1.Consumes (.object n) := by rwa [Consumes, htype]
      rw [if_pos hconsumes1] at hconsumed hleft
      obtain ⟨hbalance1, hnonneg1, hlimit1⟩ := hraised.count hn
      refine ⟨⟨k, hacquired, hconsumed⟩, fun _ => ⟨?_, hkeep hnonneg1, by omega⟩, fun hother => absurd hn hother⟩
      rw [hleft, hbalance1, hacquired, (onlyObject_kiWaitTest s1 (.object n)).released]
      push_cast
      omega
    · exact hraised

theorem Accounted.not_conserves_release (h : Accounted initial s) (hn : s.type (.object n) = .semaphore) (adjustment : BitVec 32)
    (hout : ¬ (0 ≤ s.signal (.object n) + adjustment.toInt ∧ s.signal (.object n) + adjustment.toInt < 2 ^ 31)) :
    ¬ Conserves initial s (s.keReleaseSemaphore n adjustment.toInt).2 n := by
  intro hconserves
  obtain ⟨-, hnonneg, hlimit, hword⟩ := h.count n hn
  have hlow := BitVec.le_toInt adjustment
  have hhigh := @BitVec.toInt_lt 32 adjustment
  have hnew : addLong (s.headers (.object n)).signalState adjustment.toInt < 0 := by
    change addLong (s.signal (.object n)) adjustment.toInt < 0
    by_cases hsum : s.signal (.object n) + adjustment.toInt < 0
    · rw [addLong_of_mem (by omega) (by omega)]
      exact hsum
    · have hover : 2 ^ 31 ≤ s.signal (.object n) + adjustment.toInt := by omega
      unfold addLong
      rw [Int.bmod_def]
      omega
  have hnonneg' := (hconserves.count hn).2.1
  unfold keReleaseSemaphore at hnonneg'
  dsimp only at hnonneg'
  rw [if_neg (by omega), if_neg fun hboth => by omega] at hnonneg'
  change 0 ≤ (s.setSignal (.object n) _).signal (.object n) at hnonneg'
  rw [setSignal_signal] at hnonneg'
  omega

theorem consumption_of_notMem (hn : n ∉ s.satisfiedBy call) :
    s.consumption (s.takenBy call) (.object n) = 0 := by
  cases call with
  | multiple waitType objects deadline =>
    rw [consumption_object, takenBy, count_eq_zero_of_not_mem hn, ite_self]
  | single object deadline => exact consumption_nil s _
  | delay deadline => exact consumption_nil s _

theorem round_accounts {s1 s2 : WaitState} (hsame : SameAccounts s s1)
    (hround : Round s1 s2 t (s1.satisfiedBy call).dedup (s1.takenBy call)) (n : ℕ) :
    s2.signal (.object n) = s.signal (.object n) - s.consumption (s.takenBy call) (.object n) ∧
      s2.consumed (.object n) = s.consumed (.object n) + s.consumption (s.takenBy call) (.object n) ∧
      s2.acquired (.object n) =
        if n ∈ s.satisfiedBy call then t :: s.acquired (.object n) else s.acquired (.object n) := by
  have htaken : s1.takenBy call = s.takenBy call := by
    cases call with
    | multiple waitType objects deadline => exact satisfiedBy_same hsame _
    | single object deadline => rfl
    | delay deadline => rfl
  have hconsumption (taken : List ℕ) : s1.consumption taken (.object n) = s.consumption taken (.object n) := by
    have hconsumes : s1.Consumes (.object n) ↔ s.Consumes (.object n) := by rw [Consumes, Consumes, hsame.type]
    rw [consumption_object, consumption_object]
    simp only [hconsumes]
  have hmem : ObjectId.object n ∈ (s1.satisfiedBy call).dedup.map ObjectId.object ↔ n ∈ s.satisfiedBy call := by
    rw [mem_map_of_injective fun _ _ h => by cases h; rfl, mem_dedup, satisfiedBy_same hsame]
  refine ⟨?_, ?_, ?_⟩
  · rw [hround.signal, htaken, hconsumption, hsame.signal]
  · rw [hround.consumed, htaken, hconsumption, hsame.consumed]
  · rw [hround.acquired, hsame.acquired]
    simp only [hmem]

/-- A timer that has been taken out of the table. -/
def disarm (s : WaitState) (n : ℕ) (period : ℕ → ℤ) : WaitState :=
  { s with inserted := Function.update s.inserted (.object n) false, period := period }

theorem sameLists_disarm (s : WaitState) (n : ℕ) (period : ℕ → ℤ) : SameLists s (s.disarm n period) :=
  (SameLists.setInserted s (.object n) false (by simp)).trans (.of_fields rfl rfl (fun _ => id) rfl rfl)

theorem signalTimer_any (h : ListedWaits s) (hconsumes : ¬ s.Consumes (.object n))
    (hany : ∃ b ∈ s.waitList (.object n), (s.block b).waitType = .waitAny) :
    (s.acquired (.object n)).length < ((s.signalTimer (.object n)).acquired (.object n)).length ∧
      (s.signalTimer (.object n)).consumed (.object n) = s.consumed (.object n) := by
  have hsame := SameLists.signalObject s n
  have hsignal : (s.signalObject n).signal (.object n) = 1 := setSignal_signal s (.object n) 1
  have htype : (s.signalObject n).type = s.type := (OnlyObject.setSignal s (.object n) 1).type
  obtain ⟨b, hb, hblock⟩ := hany
  have htest := waitTestLoop_any (h.of_same hsame) le_rfl (by rw [hsignal]; decide) (by rwa [Consumes, htype])
    ⟨b, by rwa [hsame.waitList], by rwa [block, hsame.threads]⟩
  unfold WaitState.signalTimer
  dsimp only
  split
  · exact htest
  · exact htest

/-! ### Calls -/

variable {op : WaitOp}

theorem Accounted.conserves_wait (h : Accounted initial s) (hwait : IsWait op)
    (htakes : ∀ t call, s.loopOf op = some (t, call) → s.TakesOnce call) (hn : s.Counted n) :
    Conserves initial s (s.step op) n := by
  rcases step_of_wait hwait with ⟨-, hsame⟩ | ⟨t, call, s1, hloop, hsame, hstep⟩
  · exact h.conserves_of_same hn (by rw [hsame.signal]) (by rw [hsame.acquired]) (by rw [hsame.consumed]) (by rw [hsame.sets])
      (by rw [hsame.released])
  · have hround := waitLoop_spec s1 t call
    have honce := (takesOnce_iff s call).1 (htakes t call hloop) n
    obtain ⟨hsignal, hconsumed, hacquired⟩ := round_accounts hsame hround n
    have hbalance := h.count n
    have hnonneg := h.once n hn
    have hsets : (s1.waitLoop t call).2.sets n = s.sets n := by rw [hround.sets, hsame.sets]
    have hreleased : (s1.waitLoop t call).2.released n = s.released n := by rw [hround.released, hsame.released]
    rw [hstep]
    by_cases hmem : n ∈ s.satisfiedBy call
    · have hpos := satisfiedBy_pos hmem
      rw [honce hmem hn] at hsignal hconsumed
      rw [if_pos hmem] at hacquired
      refine ⟨⟨1, by rw [hacquired, length_cons], hconsumed⟩, fun hsemaphore => ?_, fun hother => ?_⟩
      · obtain ⟨hbalance, -, hlimit, -⟩ := hbalance hsemaphore
        rw [hsignal, hacquired, hreleased, length_cons]
        push_cast
        omega
      · rw [hsignal, hacquired, hsets, length_cons]
        push_cast
        omega
    · have hnone : s.consumption (s.takenBy call) (.object n) = 0 := consumption_of_notMem hmem
      rw [hnone] at hsignal hconsumed
      rw [if_neg hmem] at hacquired
      exact h.conserves_of_same hn (by rw [hsignal, Nat.cast_zero, sub_zero]) hacquired hconsumed hsets hreleased

theorem step_of_expires (hexpires : s.Expires op n) (htimer : s.isTimer n = true) :
    ∃ period, s.step op = (s.disarm n period).signalTimer (.object n) := by
  rcases hexpires with ⟨rfl, harmed⟩ | ⟨dueTime, period, rfl, hmin, hdue⟩
  · exact ⟨s.period, if_pos harmed⟩
  · have hset : s.keSetTimerEx n dueTime period =
        (s.disarm n (Function.update s.period n period)).signalTimer (.object n) := (if_neg hmin).trans (if_pos hdue)
    exact ⟨_, (if_pos htimer).trans hset⟩

section
variable (h : Accounted initial s)
include h

theorem Accounted.conserves_target (hwait : ¬ IsWait op) (hsound : SoundSignals s op)
    (hn : s.Counted n) (htarget : target op = .object n) : Conserves initial s (s.step op) n := by
  have hrefl := h.conserves_refl hn
  have hevent (he : s.isEvent n = true) : s.type (.object n) = .eventSynchronization := by
    rw [isEvent_iff] at he
    rcases he with he | he
    · simp [Counted, he] at hn
    · exact he
  have htimer (ht : s.isTimer n = true) : s.type (.object n) = .timerSynchronization := by
    rw [isTimer_iff] at ht
    rcases ht with ht | ht
    · simp [Counted, ht] at hn
    · exact ht
  have hset (he : s.isEvent n = true) : Conserves initial s ((s.signalObject n).kiWaitTest (.object n)) n := by
    have htype := hevent he
    have hother : s.type (.object n) ≠ .semaphore := by simp [htype]
    exact conserves_signalTest initial h.lists (h.once n hn hother) hother (.inl (.inl htype))
  have hexpire (hexpires : s.Expires op n) (ht : s.isTimer n = true) : Conserves initial s (s.step op) n := by
    have htype := htimer ht
    have hother : s.type (.object n) ≠ .semaphore := by simp [htype]
    obtain ⟨period, hstep⟩ := step_of_expires hexpires ht
    have htest : Conserves initial (s.disarm n period) (((s.disarm n period).signalObject n).kiWaitTest (.object n)) n :=
      conserves_signalTest initial (h.lists.of_same (sameLists_disarm s n period)) (h.once n hn hother) hother
        (.inr (hsound.timers n hexpires htype))
    have hfrom : Conserves initial s (((s.disarm n period).signalObject n).kiWaitTest (.object n)) n :=
      ⟨htest.taken, htest.count, htest.once⟩
    rw [hstep]
    exact hfrom.signalTimer hother
  cases op with
  | waitSingle | waitMultiple | resume => exact absurd trivial hwait
  | setEvent =>
    cases htarget
    unfold step
    dsimp only
    split
    · exact hset ‹_›
    · exact hrefl
  | pulseEvent =>
    cases htarget
    unfold step
    dsimp only
    split
    · rename_i he
      exact (hset he).setSignal_zero (by simp [hevent he])
    · exact hrefl
  | resetEvent =>
    cases htarget
    unfold step
    dsimp only
    split
    · rename_i he
      exact hrefl.setSignal_zero (by simp [hevent he])
    · exact hrefl
  | releaseSemaphore object adjustment =>
    cases htarget
    unfold step
    dsimp only
    split
    · rename_i hsemaphore
      obtain ⟨h0, h1⟩ := hsound.releases n adjustment rfl hsemaphore
      exact (h.conserves_release hsemaphore h0 h1).1
    · exact hrefl
  | releaseMutex =>
    cases htarget
    unfold step
    dsimp only
    split
    · rename_i hmutant
      have htype : s.type (.object n) = .mutant := hmutant
      simp [Counted, htype] at hn
    · exact hrefl
  | setTimer object dueTime period =>
    cases htarget
    by_cases ht : s.isTimer n = true
    · by_cases hdue : dueTime ≠ i64Min ∧ s.computeDeadlineInterrupt dueTime ≤ s.interruptTime
      · exact hexpire (.inr ⟨dueTime, period, rfl, hdue⟩) ht
      · unfold step keSetTimerEx
        dsimp only
        rw [if_pos ht]
        split_ifs with hmin hdue'
        · exact ⟨hrefl.taken, hrefl.count, hrefl.once⟩
        · exact absurd ⟨hmin, hdue'⟩ hdue
        · exact ⟨hrefl.taken, hrefl.count, hrefl.once⟩
    · unfold step
      dsimp only
      rw [if_neg ht]
      exact hrefl
  | expireTimer =>
    cases htarget
    by_cases harmed : s.inserted (.object n) = true
    · exact hexpire (.inl ⟨rfl, harmed⟩) (h.armed n harmed)
    · unfold step
      dsimp only
      rw [if_neg harmed]
      exact hrefl
  | cancelTimer | advance => cases htarget

theorem Accounted.conserves (hsound : SoundSignals s op) (hn : s.Counted n) :
    Conserves initial s (s.step op) n := by
  by_cases hwait : IsWait op
  · exact h.conserves_wait hwait hsound.waits hn
  · by_cases htarget : target op = .object n
    · exact h.conserves_target hwait hsound hn htarget
    · have htouches := touches_step h.armed hwait
      have hne : ObjectId.object n ≠ target op := fun heq => htarget heq.symm
      exact h.conserves_of_same hn (htouches.signal _ hne) (htouches.acquired _ hne) (htouches.consumed _ hne)
        (htouches.sets n hne) (htouches.released n hne)

theorem Accounted.kinds (op : WaitOp) :
    (s.step op).type = s.type ∧ (s.step op).limit = s.limit ∧
      ∀ n, (s.step op).armed n = true → s.armed n = true ∨ s.isTimer n = true := by
  by_cases hwait : IsWait op
  · rcases step_of_wait hwait with ⟨-, hsame⟩ | ⟨t, call, s1, hloop, hsame, hstep⟩
    · exact ⟨hsame.type, hsame.limit, fun n harmed => .inl (by rwa [hsame.armed] at harmed)⟩
    · have hround := waitLoop_spec s1 t call
      rw [hstep]
      exact ⟨hround.type.trans hsame.type, hround.limit.trans hsame.limit,
        fun n harmed => .inl (by rwa [hround.armed, hsame.armed] at harmed)⟩
  · have htouches := touches_step h.armed hwait
    exact ⟨htouches.type, htouches.limit, htouches.armed⟩

theorem Accounted.step (hsound : SoundSignals s op) : Accounted initial (s.step op) := by
  obtain ⟨htype, hlimit, harmed⟩ := h.kinds op
  exact h.after (h.lists.step op).1 htype hlimit harmed fun n hn => h.conserves hsound hn

theorem Accounted.conservesSignals (hsound : SoundSignals s op) :
    ConservesSignals initial s op := by
  refine ⟨fun n hn => h.conserves hsound hn, fun n adjustment hop hsemaphore hlimit => ?_⟩
  subst hop
  obtain ⟨h0, h1⟩ := hsound.releases n adjustment rfl hsemaphore
  exact (if_pos hsemaphore).trans ((h.conserves_release hsemaphore h0 h1).2 hlimit)

theorem Accounted.not_conservesSignals (hunsound : ¬ SoundSignals s op) :
    ¬ ConservesSignals initial s op := by
  rintro ⟨hconserves, -⟩
  refine hunsound ⟨fun t call hloop => (takesOnce_iff s call).2 fun n hmem hn => ?_, fun n adjustment hop hsemaphore => ?_,
    fun n hexpires htype b hb => ?_⟩
  · have hwait : IsWait op := by
      cases op <;> trivial
    rcases step_of_wait hwait with ⟨hnone, -⟩ | ⟨t', call', s1, hloop', hsame, hstep⟩
    · rw [hnone] at hloop
      cases hloop
    · rw [hloop] at hloop'
      cases hloop'
      obtain ⟨-, hconsumed, hacquired⟩ := round_accounts hsame (waitLoop_spec s1 t call) n
      obtain ⟨k, hlength, htaken⟩ := (hconserves n hn).taken
      rw [hstep, hacquired, if_pos hmem, length_cons] at hlength
      rw [hstep, hconsumed] at htaken
      omega
  · subst hop
    by_contra hout
    refine h.not_conserves_release hsemaphore adjustment hout ?_
    have hstep : s.step (.releaseSemaphore n adjustment) = (s.keReleaseSemaphore n adjustment.toInt).2 := if_pos hsemaphore
    rw [← hstep]
    exact hconserves n (.inr (.inl hsemaphore))
  · cases hb' : (s.block b).waitType with
    | waitAll => rfl
    | waitAny =>
      have htimer : s.isTimer n = true := by simp [isTimer_iff, htype]
      have hconsumes : ¬ s.Consumes (.object n) := by simp [Consumes, htype]
      obtain ⟨period, hstep⟩ := step_of_expires hexpires htimer
      obtain ⟨k, hlength, htaken⟩ := (hconserves n (.inr (.inr htype))).taken
      have hmore := signalTimer_any (s := s.disarm n period) (h.lists.of_same (sameLists_disarm s n period)) hconsumes
        ⟨b, hb, hb'⟩
      rw [hstep] at hlength htaken
      change (s.acquired (.object n)).length < _ ∧ _ = s.consumed (.object n) at hmore
      omega

end

/-- Signals are conserved exactly as long as waits take each once, releases stay within a word and
no synchronization timer expires for a wait for any object. -/
theorem conservesSignals_iff (type : ℕ → KObjectType) (signalState limit : ℕ → ℤ) (interruptTime : ℕ) (baseTime : ℤ)
    (hcount : ∀ n, type n = .semaphore → 0 ≤ signalState n ∧ signalState n ≤ limit n ∧ limit n < 2 ^ 31)
    (hnonneg : ∀ n, 0 ≤ signalState n) (ops : List WaitOp) :
    EveryStep step (ConservesSignals signalState) (start type signalState limit interruptTime baseTime) ops ↔
      EveryStep step SoundSignals (start type signalState limit interruptTime baseTime) ops := by
  refine everyStep_iff (I := Accounted signalState) (G := fun _ _ => True) (fun s op h _ hsound => h.step hsound)
    (fun s op h _ hsound => h.conservesSignals hsound) (fun s op h _ hunsound => h.not_conservesSignals hunsound) ?_
    (everyStep_of_forall fun _ _ => trivial)
  refine ⟨listedWaits_start type signalState limit interruptTime baseTime, fun _ harmed => Bool.noConfusion harmed, fun n hn => ?_,
    fun n _ _ => hnonneg n⟩
  obtain ⟨h0, h1, h2⟩ := hcount n hn
  exact ⟨by simp [start, signal], h0, h1, h2⟩

/-- A semaphore of two, waited for through the multiple wait and released past its limit. -/
theorem conservesSignals_semaphore :
    EveryStep step (ConservesSignals fun _ => 1) (start (fun _ => .semaphore) (fun _ => 1) (fun _ => 2) 0 0)
      [.waitMultiple 7 .waitAny [0, 1] false none 0, .releaseSemaphore 0 1#32, .releaseSemaphore 0 2#32] := by
  refine (conservesSignals_iff _ _ _ _ _ (fun _ _ => by decide) (fun _ => by decide) _).2 ⟨⟨?_, ?_, ?_⟩, ⟨?_, ?_, ?_⟩, ⟨?_, ?_, ?_⟩, trivial⟩
  · rintro t call ⟨⟩ n -
    exact (by decide : KObjectType.semaphore ≠ .timerSynchronization)
  · rintro n adjustment ⟨⟩
  · rintro n (⟨⟨⟩, -⟩ | ⟨_, _, ⟨⟩, -, -⟩)
  · rintro t call ⟨⟩
  · rintro n adjustment ⟨⟩ -
    decide
  · rintro n (⟨⟨⟩, -⟩ | ⟨_, _, ⟨⟩, -, -⟩)
  · rintro t call ⟨⟩
  · rintro n adjustment ⟨⟩ -
    decide
  · rintro n (⟨⟨⟩, -⟩ | ⟨_, _, ⟨⟩, -, -⟩)

/-- A wait for an event that is set succeeds, and leaves the event set for the next. -/
theorem single_wait_takes_nothing :
    ¬ EveryStep step (ConservesSignals fun _ => 1) (start (fun _ => .eventSynchronization) (fun _ => 1) (fun _ => 0) 0 0)
      [.waitSingle 7 0 none 0] := by
  rintro ⟨⟨hconserves, -⟩, -⟩
  obtain ⟨k, hlength, htaken⟩ := (hconserves 0 (.inl rfl)).taken
  change 1 = 0 + k at hlength
  change 0 = 0 + k at htaken
  omega

end WaitState

end XenOS.Ke
