import Mathlib.Algebra.Order.Group.Int
import XenOS.General.Run
import XenOS.Ke.Sched

/-! The priority of one thread under boosts, quantum ends and settings: whether it stays in its
class and comes back to the base priority. -/

namespace XenOS.Ke.Sched

open General Prcb Int

inductive PriorityStep where
  | boost (increment : ℤ) (disableBoost : Bool)
  | unwait (increment : ℤ) (disableBoost kernelApc : Bool) (foregroundBoost : Option ℤ)
  | tick
  | quantumEnd
  | setPriority (priority : ℤ)
  | setBasePriority (processBase increment : ℤ)

/-- An `i8`. -/
def IsI8 (x : ℤ) : Prop := -128 ≤ x ∧ x ≤ 127

def PriorityStep.Valid : PriorityStep → Prop
  | boost increment _ => IsI8 increment
  | unwait increment _ _ foregroundBoost => IsI8 increment ∧ ∀ boost, foregroundBoost = some boost → IsI8 boost
  | setPriority priority => lowPriority ≤ priority ∧ priority ≤ highPriority
  | setBasePriority processBase increment =>
    (lowPriority ≤ processBase ∧ processBase ≤ highPriority) ∧ -2 ^ 31 ≤ increment ∧ increment < 2 ^ 31
  | tick | quantumEnd => True

namespace Thread

/-- What `ki_quantum_end` does to the thread that runs. -/
def quantumEnd (thread : Thread) : Thread :=
  let thread := resetQuantum thread
  if lowRealtimePriority ≤ thread.priority then thread else decay thread

/-- What `ki_quantum_tick` does to it. -/
def tick (thread : Thread) : Thread :=
  if lowRealtimePriority ≤ thread.priority then thread
  else if 0 < thread.quantum then { thread with quantum := thread.quantum - clockQuantumDecrement }
  else thread

/-- What `ke_set_priority_thread` does to a thread. -/
def setPriority (thread : Thread) (priority : ℤ) : Thread :=
  let changed := decide (priority ≠ thread.priority)
  { thread with
    priorityDecrement := 0
    quantum := if changed then thread.quantumReset else thread.quantum
    priority := if changed then normalPriority thread priority else thread.priority }

/-- What `ke_set_base_priority_thread` does to a thread. -/
def setBasePriority (thread : Thread) (increment : ℤ) : Thread :=
  { thread with
    basePriority := newBase thread increment
    priorityDecrement := 0
    priority := rebased thread increment }

/-- What `ke_set_base_priority_thread` returns. -/
def oldIncrement (thread : Thread) : ℤ := bmod (thread.basePriority - thread.processBase) 256

def toBoost (thread : Thread) (increment : ℤ) (disableBoost : Bool) : Thread :=
  { thread with adjustReason := .boost, adjustIncrement := increment, disableBoost }

def toUnwait (thread : Thread) (increment : ℤ) (disableBoost kernelApc : Bool) (foregroundBoost : Option ℤ) : Thread :=
  { thread with adjustReason := .unwait, adjustIncrement := increment, disableBoost, kernelApc, foregroundBoost }

def step (thread : Thread) : PriorityStep → Thread
  | .boost increment disableBoost => adjust (thread.toBoost increment disableBoost)
  | .unwait increment disableBoost kernelApc foregroundBoost =>
    adjust (thread.toUnwait increment disableBoost kernelApc foregroundBoost)
  | .tick => thread.tick
  | .quantumEnd => thread.quantumEnd
  | .setPriority priority => thread.setPriority priority
  | .setBasePriority processBase increment => { thread with processBase }.setBasePriority increment

def Settled (thread : Thread) : Prop := thread.priority = thread.basePriority ∧ thread.priorityDecrement = 0

def exactBase (processBase increment : ℤ) : ℤ := max lowPriority (min highPriority (processBase + increment))

def onBase (thread : Thread) (base : ℤ) : ℤ :=
  if thread.priority ≤ thread.basePriority then base
  else min highPriority (saturating (base + (thread.priority - thread.basePriority)))

/-- The priorities stay in range and in class, the decrement is not negative, quantum ends alone
lead to the base priority, and the base priority is the one asked for, with the old offset returned.
-/
structure StaysInClass (thread : Thread) (a : PriorityStep) : Prop where
  priority : lowPriority ≤ (thread.step a).priority ∧ (thread.step a).priority ≤ highPriority
  base : lowPriority ≤ (thread.step a).basePriority ∧ (thread.step a).basePriority ≤ highPriority
  realtime : (thread.step a).basePriority < lowRealtimePriority → lowRealtimePriority ≤ (thread.step a).priority →
    (thread.step a).priority ≠ thread.priority → ∃ priority, a = .setPriority priority ∧ lowRealtimePriority ≤ priority
  decrement : 0 ≤ (thread.step a).priorityDecrement
  settles : ∃ n, (quantumEnd^[n] (thread.step a)).Settled
  exact : ∀ processBase increment, a = .setBasePriority processBase increment →
    (thread.step a).basePriority = exactBase processBase increment ∧
      (thread.step a).priority = thread.onBase (exactBase processBase increment) ∧
      { thread with processBase }.oldIncrement = thread.basePriority - processBase

def expires (thread : Thread) (increment : ℤ) (kernelApc : Bool) : Prop :=
  kernelApc = false ∧
    saturating ((if thread.priorityDecrement = 0 ∧ 0 < increment then thread.quantumReset else thread.quantum) - 1) ≤ 0

instance (thread : Thread) (increment : ℤ) (kernelApc : Bool) : Decidable (thread.expires increment kernelApc) :=
  inferInstanceAs (Decidable (_ ∧ _))

def foreground : Option ℤ → ℤ
  | some boost => if boost = 0 then psPrioritySeparation else boost
  | none => 0

def boosted (thread : Thread) (increment : ℤ) (foregroundBoost : Option ℤ) : ℤ :=
  min (lowRealtimePriority - 1)
    (saturating (saturating (thread.basePriority + increment) + foreground foregroundBoost))

/-- A woken thread is not boosted unless it has a decrement; an explicit priority is the base
priority; an increment is an `i8` or its low byte leads to the same end; and a boost is none or has
no room. -/
def Admitted (thread : Thread) : PriorityStep → Prop
  | .unwait increment disableBoost kernelApc foregroundBoost =>
    lowRealtimePriority ≤ thread.priority ∨ lowRealtimePriority - 2 ≤ thread.basePriority ∨ disableBoost = true ∨
      increment ≤ 0 ∨ (if thread.expires increment kernelApc then 1 else 0) < thread.priorityDecrement ∨
      saturating (thread.basePriority + increment) + foreground foregroundBoost ≤ thread.basePriority
  | .setPriority priority => priority = thread.basePriority ∨ priority = 0 ∧ thread.basePriority = 1
  | .setBasePriority processBase increment =>
    (IsI8 increment ∨ 127 < increment ∧ highPriority ≤ processBase + bmod increment 256 ∨
        increment < -128 ∧ processBase + bmod increment 256 ≤ lowPriority) ∧
      (thread.priority ≤ thread.basePriority ∨ highPriority ≤ processBase + increment)
  | _ => True

/-! ### Quantum ends -/

theorem resetQuantum_keeps (thread : Thread) : (resetQuantum thread).priority = thread.priority ∧
    (resetQuantum thread).basePriority = thread.basePriority ∧
    (resetQuantum thread).priorityDecrement = thread.priorityDecrement := by
  unfold resetQuantum
  split_ifs <;> exact ⟨rfl, rfl, rfl⟩

theorem quantumEnd_decays {thread : Thread} (hlow : thread.priority < lowRealtimePriority) (hpos : 0 < thread.priorityDecrement) :
    thread.quantumEnd.priority = max (thread.priority - 1) thread.basePriority ∧
      thread.quantumEnd.basePriority = thread.basePriority ∧
      thread.quantumEnd.priorityDecrement = thread.priorityDecrement - 1 := by
  obtain ⟨hpriority, hbase, hdecrement⟩ := thread.resetQuantum_keeps
  unfold quantumEnd
  dsimp only
  rw [hpriority, if_neg (not_le.2 hlow), decay, hdecrement, if_pos hpos, kiComputeNewPriority, hpriority,
    if_neg (not_le.2 hlow), hdecrement, if_pos hpos, hbase]
  refine ⟨rfl, rfl, ?_⟩
  dsimp only
  omega

theorem quantumEnd_keeps {thread : Thread} (hkeeps : lowRealtimePriority ≤ thread.priority ∨ thread.priorityDecrement ≤ 0) :
    thread.quantumEnd.priority = thread.priority ∧ thread.quantumEnd.basePriority = thread.basePriority ∧
      thread.quantumEnd.priorityDecrement = thread.priorityDecrement := by
  have hreset := thread.resetQuantum_keeps
  unfold quantumEnd
  dsimp only
  split_ifs with hhigh
  · exact hreset
  · rcases hkeeps with hle | hle
    · rw [hreset.1] at hhigh
      exact absurd hle hhigh
    · rw [decay, hreset.2.2, if_neg (not_lt.2 hle)]
      exact hreset

/-! ### The invariant -/

structure Decays (thread : Thread) : Prop where
  base : lowPriority ≤ thread.basePriority
  le : thread.basePriority ≤ thread.priority
  high : thread.priority ≤ highPriority
  decrement : 0 ≤ thread.priorityDecrement
  bound : thread.priority ≤ thread.basePriority + thread.priorityDecrement
  low : 0 < thread.priorityDecrement → thread.priority < lowRealtimePriority ∧ thread.priorityDecrement ≤ thread.priority

def Stuck (thread : Thread) : Prop :=
  0 ≤ thread.priorityDecrement ∧
    (thread.priorityDecrement = 0 ∧ thread.priority ≠ thread.basePriority ∨
      thread.basePriority + thread.priorityDecrement < thread.priority)

variable {thread : Thread}

theorem Decays.of {thread' : Thread} (h : thread.Decays) (hpriority : thread'.priority = thread.priority)
    (hbase : thread'.basePriority = thread.basePriority) (hdecrement : thread'.priorityDecrement = thread.priorityDecrement) :
    thread'.Decays where
  base := hbase ▸ h.base
  le := hbase ▸ hpriority ▸ h.le
  high := hpriority ▸ h.high
  decrement := hdecrement ▸ h.decrement
  bound := by
    rw [hpriority, hbase, hdecrement]
    exact h.bound
  low := by
    rw [hpriority, hdecrement]
    exact h.low

theorem Decays.quantumEnd (h : thread.Decays) : thread.quantumEnd.Decays := by
  obtain ⟨hbase, hle, hhigh, hdecrement, hbound, hlow⟩ := h
  by_cases hpos : 0 < thread.priorityDecrement
  · obtain ⟨hreal, hsmall⟩ := hlow hpos
    obtain ⟨hpriority', hbase', hdecrement'⟩ := quantumEnd_decays hreal hpos
    have h0 : lowPriority = 0 := rfl
    have h16 : lowRealtimePriority = 16 := rfl
    have h31 : highPriority = 31 := rfl
    constructor <;> omega
  · have hkeeps := quantumEnd_keeps (.inr (not_lt.1 hpos))
    exact Decays.of ⟨hbase, hle, hhigh, hdecrement, hbound, hlow⟩ hkeeps.1 hkeeps.2.1 hkeeps.2.2

theorem Decays.settles (h : thread.Decays) : ∃ n, (Thread.quantumEnd^[n] thread).Settled := by
  obtain ⟨n, hn⟩ : ∃ n : ℕ, thread.priorityDecrement = n := ⟨_, (toNat_of_nonneg h.decrement).symm⟩
  induction n generalizing thread with
  | zero =>
    have hle := h.le
    have hbound := h.bound
    refine ⟨0, ?_, hn⟩
    show thread.priority = thread.basePriority
    omega
  | succ n ih =>
    have hpos : 0 < thread.priorityDecrement := by omega
    obtain ⟨-, -, hdecrement⟩ := quantumEnd_decays (h.low hpos).1 hpos
    obtain ⟨m, hm⟩ := ih h.quantumEnd (by omega)
    exact ⟨m + 1, hm⟩

theorem Stuck.quantumEnd (h : thread.Stuck) : thread.quantumEnd.Stuck := by
  obtain ⟨hdecrement, hstuck⟩ := h
  by_cases hdecays : thread.priority < lowRealtimePriority ∧ 0 < thread.priorityDecrement
  · obtain ⟨hpriority', hbase', hdecrement'⟩ := quantumEnd_decays hdecays.1 hdecays.2
    unfold Stuck
    omega
  · have hkeeps : lowRealtimePriority ≤ thread.priority ∨ thread.priorityDecrement ≤ 0 := by omega
    obtain ⟨hpriority', hbase', hdecrement'⟩ := quantumEnd_keeps hkeeps
    unfold Stuck
    rw [hpriority', hbase', hdecrement']
    exact ⟨hdecrement, hstuck⟩

theorem Stuck.not_settles (h : thread.Stuck) : ¬∃ n, (Thread.quantumEnd^[n] thread).Settled := by
  rintro ⟨n, hn⟩
  induction n generalizing thread with
  | zero =>
    obtain ⟨hdecrement, hstuck⟩ := h
    obtain ⟨hpriority, hnone⟩ : thread.priority = thread.basePriority ∧ thread.priorityDecrement = 0 := hn
    omega
  | succ n ih => exact ih h.quantumEnd hn

/-! ### Boosts -/

def SamePriorities (thread thread' : Thread) : Prop :=
  thread'.priority = thread.priority ∧ thread'.basePriority = thread.basePriority ∧
    thread'.priorityDecrement = thread.priorityDecrement

theorem Decays.same {thread' : Thread} (h : thread.Decays) (hsame : thread.SamePriorities thread') : thread'.Decays :=
  h.of hsame.1 hsame.2.1 hsame.2.2

theorem adjust_boost (hreason : thread.adjustReason = .boost) : (adjustBoost thread).SamePriorities (adjust thread) := by
  unfold adjust
  simp only [hreason]
  split_ifs <;> exact ⟨rfl, rfl, rfl⟩

theorem adjust_unwait (hreason : thread.adjustReason = .unwait) : (adjustUnwait thread).SamePriorities (adjust thread) := by
  unfold adjust
  simp only [hreason]
  split_ifs <;> exact ⟨rfl, rfl, rfl⟩

def Boosts (thread : Thread) : Prop :=
  thread.disableBoost = false ∧ thread.priority < lowRealtimePriority - 3 ∧ 0 < thread.adjustIncrement ∧
    thread.priority ≤ thread.adjustIncrement

theorem adjustBoost_of_boosts (h : thread.Boosts) :
    (adjustBoost thread).priority = min (saturating (thread.adjustIncrement + 1)) (lowRealtimePriority - 3) ∧
      (adjustBoost thread).basePriority = thread.basePriority ∧
      (adjustBoost thread).priorityDecrement = saturating (thread.priorityDecrement +
        max (saturating (min (saturating (thread.adjustIncrement + 1)) (lowRealtimePriority - 3) - thread.priority)) 0) := by
  unfold adjustBoost
  dsimp only
  rw [if_pos (by simp only [h.1, Bool.not_false, Bool.true_and, decide_eq_true_eq]; exact h.2)]
  exact ⟨rfl, rfl, rfl⟩

theorem adjustBoost_of_not_boosts (h : ¬thread.Boosts) : thread.SamePriorities (adjustBoost thread) := by
  unfold adjustBoost
  dsimp only
  rw [if_neg (by simp only [Bool.and_eq_true, Bool.not_eq_true', decide_eq_true_eq]; exact h)]
  exact ⟨rfl, rfl, rfl⟩

theorem Decays.adjustBoost (h : thread.Decays) (hinc : IsI8 thread.adjustIncrement) :
    (adjustBoost thread).Decays ∧ (Prcb.adjustBoost thread).basePriority = thread.basePriority ∧
      ((Prcb.adjustBoost thread).priority = thread.priority ∨ (Prcb.adjustBoost thread).priority < lowRealtimePriority) := by
  by_cases hboosts : thread.Boosts
  · obtain ⟨hpriority', hbase', hdecrement'⟩ := adjustBoost_of_boosts hboosts
    obtain ⟨-, hpriority, hpos, hthread⟩ := hboosts
    obtain ⟨hbase, hle, hhigh, hdecrement, hbound, hlow⟩ := h
    obtain ⟨hmin, hmax⟩ := hinc
    have hdec : thread.priorityDecrement ≤ thread.priority := by
      by_cases hpos : 0 < thread.priorityDecrement
      · exact (hlow hpos).2
      · exact (not_lt.1 hpos).trans (hbase.trans hle)
    simp only [saturating] at hpriority' hdecrement'
    have h0 : lowPriority = 0 := rfl
    have h16 : lowRealtimePriority = 16 := rfl
    have h31 : highPriority = 31 := rfl
    refine ⟨?_, hbase', .inr (by omega)⟩
    constructor <;> omega
  · have hsame := adjustBoost_of_not_boosts hboosts
    exact ⟨h.same hsame, hsame.2.1, .inl hsame.1⟩

/-! ### Unwait adjustments -/

def charged (thread : Thread) : Thread :=
  let thread := if thread.priorityDecrement = 0 ∧ 0 < thread.adjustIncrement then { thread with quantum := thread.quantumReset } else thread
  if thread.kernelApc then thread
  else
    let quantum := saturating (thread.quantum - 1)
    if quantum ≤ 0 then kiComputeNewPriority { thread with quantum := thread.quantumReset } 1
    else { thread with quantum := quantum }

theorem adjustUnwait_eq (hlow : thread.priority < lowRealtimePriority) (hbase : thread.basePriority < lowRealtimePriority - 2) :
    adjustUnwait thread = unwaitBoost thread.charged thread.adjustIncrement := by
  unfold adjustUnwait
  dsimp only
  rw [if_pos hlow, if_neg (not_le.2 hbase)]
  rfl

theorem adjustUnwait_same (h : lowRealtimePriority ≤ thread.priority ∨ lowRealtimePriority - 2 ≤ thread.basePriority) :
    thread.SamePriorities (adjustUnwait thread) := by
  unfold adjustUnwait
  dsimp only
  by_cases hlow : thread.priority < lowRealtimePriority
  · rw [if_pos hlow, if_pos (h.resolve_left (not_le.2 hlow))]
    exact ⟨rfl, rfl, rfl⟩
  · rw [if_neg hlow]
    exact ⟨rfl, rfl, rfl⟩

/-- `thread'` is `thread` with a boost that is smaller by `lost`, or gone. -/
structure Lowered (thread thread' : Thread) (lost : ℤ) : Prop where
  decays : thread'.Decays
  le : thread'.priority ≤ thread.priority
  base : thread'.basePriority = thread.basePriority
  disableBoost : thread'.disableBoost = thread.disableBoost
  foregroundBoost : thread'.foregroundBoost = thread.foregroundBoost
  decrement : thread'.priorityDecrement = max (thread.priorityDecrement - lost) 0

theorem Decays.lowered_zero (h : thread.Decays) (quantum : ℤ) : thread.Lowered { thread with quantum := quantum } 0 where
  decays := h.of rfl rfl rfl
  le := le_refl _
  base := rfl
  disableBoost := rfl
  foregroundBoost := rfl
  decrement := by
    have hdecrement := h.decrement
    dsimp only
    omega

theorem Decays.lowered_one (h : thread.Decays) (hlow : thread.priority < lowRealtimePriority) (quantum : ℤ) :
    thread.Lowered (kiComputeNewPriority { thread with quantum := quantum } 1) 1 := by
  obtain ⟨hbase, hle, hhigh, hdecrement, hbound, hsmall⟩ := h
  have h0 : lowPriority = 0 := rfl
  have h31 : highPriority = 31 := rfl
  unfold kiComputeNewPriority
  dsimp only
  rw [if_neg (not_le.2 hlow)]
  by_cases hpos : 0 < thread.priorityDecrement
  · rw [if_pos hpos]
    have hsmall := hsmall hpos
    refine ⟨?_, ?_, rfl, rfl, rfl, rfl⟩
    · constructor <;> dsimp only <;> omega
    · dsimp only
      omega
  · rw [if_neg hpos, if_neg (by omega)]
    refine ⟨?_, ?_, rfl, rfl, rfl, ?_⟩
    · constructor <;> dsimp only <;> omega
    · dsimp only
      omega
    · dsimp only
      omega

theorem Decays.charged (h : thread.Decays) (hlow : thread.priority < lowRealtimePriority) :
    thread.Lowered thread.charged (if thread.expires thread.adjustIncrement thread.kernelApc then 1 else 0) := by
  have hquantum : (if thread.priorityDecrement = 0 ∧ 0 < thread.adjustIncrement then
      { thread with quantum := thread.quantumReset } else thread) =
      { thread with
        quantum := if thread.priorityDecrement = 0 ∧ 0 < thread.adjustIncrement then thread.quantumReset else thread.quantum } := by
    split_ifs <;> rfl
  unfold Thread.charged
  rw [hquantum]
  dsimp only
  cases hapc : thread.kernelApc with
  | true =>
    have hnot : ¬thread.expires thread.adjustIncrement true := fun hexpires => by cases hexpires.1
    rw [if_pos rfl, if_neg hnot]
    have hlowered := h.lowered_zero
      (if thread.priorityDecrement = 0 ∧ 0 < thread.adjustIncrement then thread.quantumReset else thread.quantum)
    rw [hapc] at hlowered
    exact hlowered
  | false =>
    rw [if_neg (by decide)]
    by_cases hused : saturating ((if thread.priorityDecrement = 0 ∧ 0 < thread.adjustIncrement then thread.quantumReset
      else thread.quantum) - 1) ≤ 0
    · rw [if_pos hused, if_pos ⟨rfl, hused⟩]
      have hlowered := h.lowered_one hlow thread.quantumReset
      rw [hapc] at hlowered
      exact hlowered
    · have hnot : ¬thread.expires thread.adjustIncrement false := fun hexpires => hused hexpires.2
      rw [if_neg hused, if_neg hnot]
      have hlowered := h.lowered_zero
        (saturating ((if thread.priorityDecrement = 0 ∧ 0 < thread.adjustIncrement then thread.quantumReset else thread.quantum) - 1))
      rw [hapc] at hlowered
      exact hlowered

def MayBoost (thread : Thread) (increment : ℤ) : Prop :=
  thread.priorityDecrement = 0 ∧ thread.disableBoost = false ∧ 0 < increment

variable {increment : ℤ}

theorem unwaitBoost_of_may (hmay : thread.MayBoost increment) :
    unwaitBoost thread increment =
      if thread.priority < thread.boosted increment thread.foregroundBoost then
        { thread with
          priorityDecrement :=
            if 0 < foreground thread.foregroundBoost ∧
                saturating (thread.basePriority + increment) < thread.boosted increment thread.foregroundBoost then
              saturating (thread.boosted increment thread.foregroundBoost - saturating (thread.basePriority + increment))
            else thread.priorityDecrement
          priority := thread.boosted increment thread.foregroundBoost }
      else thread := by
  have hsum : ∀ sum, (if lowRealtimePriority ≤ sum then lowRealtimePriority - 1 else sum) = min (lowRealtimePriority - 1) sum := by
    intro sum
    have h16 : lowRealtimePriority = 16 := rfl
    split_ifs <;> omega
  have hdecide : (decide (thread.priorityDecrement = 0) && !thread.disableBoost && decide (0 < increment)) = true := by
    simp only [Bool.and_eq_true, Bool.not_eq_true', decide_eq_true_eq]
    exact ⟨⟨hmay.1, hmay.2.1⟩, hmay.2.2⟩
  unfold unwaitBoost
  rw [if_pos hdecide]
  simp only [hsum]
  rfl

theorem unwaitBoost_of_not_may (hmay : ¬thread.MayBoost increment) :
    unwaitBoost thread increment = thread := by
  unfold unwaitBoost
  rw [if_neg]
  simp only [Bool.and_eq_true, Bool.not_eq_true', decide_eq_true_eq]
  exact fun h => hmay ⟨h.1.1, h.1.2, h.2⟩

theorem boosted_le_iff {foregroundBoost : Option ℤ}
    (hbase : lowPriority ≤ thread.basePriority ∧ thread.basePriority < lowRealtimePriority - 2) :
    thread.boosted increment foregroundBoost ≤ thread.basePriority ↔
      saturating (thread.basePriority + increment) + foreground foregroundBoost ≤ thread.basePriority := by
  have h0 : lowPriority = 0 := rfl
  have h16 : lowRealtimePriority = 16 := rfl
  unfold boosted
  generalize saturating (thread.basePriority + increment) + foreground foregroundBoost = sum
  unfold saturating
  omega

theorem unwaitBoost_stuck (hmay : thread.MayBoost increment) (hinc : IsI8 increment)
    (hbase : lowPriority ≤ thread.basePriority ∧ thread.basePriority < lowRealtimePriority - 2)
    (hpriority : thread.priority = thread.basePriority)
    (hboosted : thread.basePriority < thread.boosted increment thread.foregroundBoost) :
    (unwaitBoost thread increment).Stuck := by
  have h0 : lowPriority = 0 := rfl
  have h16 : lowRealtimePriority = 16 := rfl
  obtain ⟨hmin, hmax⟩ := hinc
  have hpos := hmay.2.2
  have hle : thread.boosted increment thread.foregroundBoost ≤ lowRealtimePriority - 1 := min_le_left ..
  have hbaseBoost : thread.basePriority < saturating (thread.basePriority + increment) := by
    unfold saturating
    omega
  rw [unwaitBoost_of_may hmay, hpriority, if_pos hboosted]
  generalize saturating (thread.basePriority + increment) = baseBoost at *
  generalize thread.boosted increment thread.foregroundBoost = priority at *
  unfold Stuck
  dsimp only
  split_ifs with hforeground
  · have hdecrement : saturating (priority - baseBoost) = priority - baseBoost := by
      unfold saturating
      omega
    rw [hdecrement]
    omega
  · rw [hmay.1]
    omega

theorem Decays.unwaitBoost (h : thread.Decays) (hlow : thread.priority < lowRealtimePriority)
    (hbase : thread.basePriority < lowRealtimePriority - 2) (hinc : IsI8 thread.adjustIncrement) :
    (thread.Admitted (.unwait thread.adjustIncrement thread.disableBoost thread.kernelApc thread.foregroundBoost) →
      adjustUnwait thread = thread.charged) ∧
    (¬thread.Admitted (.unwait thread.adjustIncrement thread.disableBoost thread.kernelApc thread.foregroundBoost) →
      (adjustUnwait thread).Stuck) := by
  have hcharged := h.charged hlow
  have hboosted : thread.charged.boosted thread.adjustIncrement thread.charged.foregroundBoost =
      thread.boosted thread.adjustIncrement thread.foregroundBoost := by
    rw [boosted, boosted, hcharged.base, hcharged.foregroundBoost]
  have hat : thread.charged.priorityDecrement = 0 → thread.charged.priority = thread.charged.basePriority := by
    intro hnone
    have hle := hcharged.decays.le
    have hbound := hcharged.decays.bound
    omega
  have hdecrement := hcharged.decrement
  rw [adjustUnwait_eq hlow hbase]
  generalize hlost : (if thread.expires thread.adjustIncrement thread.kernelApc then (1 : ℤ) else 0) = lost at hdecrement
  constructor
  · intro hadmitted
    by_cases hmay : thread.charged.MayBoost thread.adjustIncrement
    · rw [unwaitBoost_of_may hmay, hboosted, hat hmay.1, hcharged.base]
      obtain ⟨hnone, hallowed, hpos⟩ := hmay
      rw [hcharged.disableBoost] at hallowed
      rcases hadmitted with hreal | hcritical | hdisabled | hinc | hsome | hle
      · exact absurd hlow (not_lt.2 hreal)
      · exact absurd hbase (not_lt.2 hcritical)
      · rw [hallowed] at hdisabled
        cases hdisabled
      · exact absurd hpos (not_lt.2 hinc)
      · rw [hlost] at hsome
        omega
      · exact if_neg (not_lt.2 ((boosted_le_iff ⟨h.base, hbase⟩).2 hle))
    · exact unwaitBoost_of_not_may hmay
  · intro hadmitted
    simp only [Admitted, not_or, not_le, not_lt] at hadmitted
    obtain ⟨-, -, hallowed, hpos, hnone, hgreater⟩ := hadmitted
    rw [hlost] at hnone
    have hzero : thread.charged.priorityDecrement = 0 := by omega
    apply unwaitBoost_stuck ⟨hzero, hcharged.disableBoost.trans (Bool.eq_false_iff.2 hallowed), hpos⟩ hinc
    · rw [hcharged.base]
      exact ⟨h.base, hbase⟩
    · exact hat hzero
    · rw [hboosted, hcharged.base]
      exact not_le.1 fun hle => not_le.2 hgreater ((boosted_le_iff ⟨h.base, hbase⟩).1 hle)

/-! ### Explicit priorities -/

theorem setPriority_spec (thread : Thread) (h : thread.Decays) (priority : ℤ) :
    (thread.setPriority priority).priority = normalPriority thread priority ∧
      (thread.setPriority priority).basePriority = thread.basePriority ∧
      (thread.setPriority priority).priorityDecrement = 0 := by
  refine ⟨?_, rfl, rfl⟩
  unfold setPriority
  dsimp only
  split_ifs with hchanged
  · rfl
  · have hsame : priority = thread.priority := by simpa using hchanged
    have hbase := h.base
    have hle := h.le
    have h0 : lowPriority = 0 := rfl
    unfold normalPriority
    rw [if_neg (by omega), hsame]

theorem normalPriority_eq_iff (thread : Thread) (priority : ℤ) :
    normalPriority thread priority = thread.basePriority ↔
      priority = thread.basePriority ∨ priority = 0 ∧ thread.basePriority = 1 := by
  unfold normalPriority
  split_ifs <;> omega

theorem exactBase_range (processBase increment : ℤ) :
    lowPriority ≤ exactBase processBase increment ∧ exactBase processBase increment ≤ highPriority := by
  have h0 : lowPriority = 0 := rfl
  have h31 : highPriority = 31 := rfl
  unfold exactBase
  omega

theorem exactBase_eq_high_iff (processBase increment : ℤ) :
    exactBase processBase increment = highPriority ↔ highPriority ≤ processBase + increment := by
  have h0 : lowPriority = 0 := rfl
  have h31 : highPriority = 31 := rfl
  unfold exactBase
  omega

theorem newBase_eq_iff (thread : Thread) {processBase : ℤ} (increment : ℤ)
    (hprocess : lowPriority ≤ processBase ∧ processBase ≤ highPriority) :
    newBase { thread with processBase } increment = exactBase processBase increment ↔
      IsI8 increment ∨ 127 < increment ∧ highPriority ≤ processBase + bmod increment 256 ∨
        increment < -128 ∧ processBase + bmod increment 256 ≤ lowPriority := by
  have h0 : lowPriority = 0 := rfl
  have h31 : highPriority = 31 := rfl
  have hmin : -128 ≤ bmod increment 256 := le_bmod (by decide)
  have hmax : bmod increment 256 < 128 := bmod_lt (by decide)
  have hsmall : IsI8 increment → bmod increment 256 = increment := by
    rintro ⟨hlow, hhigh⟩
    exact bmod_eq_of_le (by omega) (by omega)
  unfold newBase exactBase saturating
  by_cases hi8 : IsI8 increment
  · rw [hsmall hi8]
    simp only [hi8, true_or, iff_true]
    unfold IsI8 at hi8
    omega
  · simp only [hi8, false_or]
    unfold IsI8 at hi8
    omega

theorem admitted_setBasePriority_iff (thread : Thread) {processBase : ℤ} (increment : ℤ)
    (hprocess : lowPriority ≤ processBase ∧ processBase ≤ highPriority) :
    thread.Admitted (.setBasePriority processBase increment) ↔
      newBase { thread with processBase } increment = exactBase processBase increment ∧
        (thread.priority ≤ thread.basePriority ∨ exactBase processBase increment = highPriority) := by
  rw [newBase_eq_iff thread increment hprocess, exactBase_eq_high_iff]
  rfl

theorem rebased_eq (thread : Thread) (processBase increment : ℤ) :
    rebased { thread with processBase } increment = thread.onBase (newBase { thread with processBase } increment) := rfl

theorem onBase_eq_iff {base : ℤ} (hbase : lowPriority ≤ base ∧ base ≤ highPriority)
    (hrange : thread.priority - thread.basePriority ≤ highPriority) :
    thread.onBase base = base ↔ thread.priority ≤ thread.basePriority ∨ base = highPriority := by
  have h0 : lowPriority = 0 := rfl
  have h31 : highPriority = 31 := rfl
  unfold onBase saturating
  split_ifs <;> omega

/-! ### Steps -/

variable {a : PriorityStep}

theorem Decays.step (h : thread.Decays) (hvalid : a.Valid) (hadmitted : thread.Admitted a) :
    (thread.step a).Decays ∧
      ((thread.step a).priority = thread.priority ∨ (thread.step a).priority < lowRealtimePriority ∨
        (thread.step a).priority = (thread.step a).basePriority) := by
  have h0 : lowPriority = 0 := rfl
  have h31 : highPriority = 31 := rfl
  cases a with
  | boost increment disableBoost =>
    have hboost : (thread.toBoost increment disableBoost).Decays := h.of rfl rfl rfl
    obtain ⟨hdecays, hbase, hpriority⟩ := hboost.adjustBoost hvalid
    have hsame : (Prcb.adjustBoost (thread.toBoost increment disableBoost)).SamePriorities
        (thread.step (.boost increment disableBoost)) := adjust_boost rfl
    refine ⟨hdecays.same hsame, ?_⟩
    rw [hsame.1]
    exact hpriority.imp_right .inl
  | unwait increment disableBoost kernelApc foregroundBoost =>
    have hunwait : (thread.toUnwait increment disableBoost kernelApc foregroundBoost).Decays := h.of rfl rfl rfl
    have hsame : (adjustUnwait (thread.toUnwait increment disableBoost kernelApc foregroundBoost)).SamePriorities
        (thread.step (.unwait increment disableBoost kernelApc foregroundBoost)) := adjust_unwait rfl
    by_cases hout : lowRealtimePriority ≤ thread.priority ∨ lowRealtimePriority - 2 ≤ thread.basePriority
    · have hkept : (thread.toUnwait increment disableBoost kernelApc foregroundBoost).SamePriorities (adjustUnwait _) :=
        adjustUnwait_same hout
      exact ⟨(hunwait.same hkept).same hsame, .inl (hsame.1.trans hkept.1)⟩
    · obtain ⟨hlow, hbase⟩ := not_or.1 hout
      have hlow := not_le.1 hlow
      have hcharged := hunwait.charged hlow
      rw [(hunwait.unwaitBoost hlow (not_le.1 hbase) hvalid.1).1 hadmitted] at hsame
      refine ⟨hcharged.decays.same hsame, .inr (.inl ?_)⟩
      rw [hsame.1]
      exact lt_of_le_of_lt hcharged.le hlow
  | tick =>
    have hsame : thread.SamePriorities thread.tick := by
      unfold tick
      split_ifs <;> exact ⟨rfl, rfl, rfl⟩
    exact ⟨h.same hsame, .inl hsame.1⟩
  | quantumEnd =>
    refine ⟨h.quantumEnd, ?_⟩
    by_cases hdecays : thread.priority < lowRealtimePriority ∧ 0 < thread.priorityDecrement
    · have hpriority := (quantumEnd_decays hdecays.1 hdecays.2).1
      have hle := h.le
      refine .inr (.inl ?_)
      show thread.quantumEnd.priority < _
      omega
    · have hkeeps : lowRealtimePriority ≤ thread.priority ∨ thread.priorityDecrement ≤ 0 := by omega
      exact .inl (quantumEnd_keeps hkeeps).1
  | setPriority priority =>
    obtain ⟨hpriority, hbase, hdecrement⟩ := thread.setPriority_spec h priority
    have heq : (thread.setPriority priority).priority = thread.basePriority :=
      hpriority.trans ((normalPriority_eq_iff thread priority).2 hadmitted)
    refine ⟨?_, .inr (.inr (heq.trans hbase.symm))⟩
    have hlow := h.base
    have hhigh := h.le.trans h.high
    constructor <;> simp only [Thread.step, heq, hbase, hdecrement] <;> omega
  | setBasePriority processBase increment =>
    obtain ⟨hexact, hroom⟩ := (thread.admitted_setBasePriority_iff increment hvalid.1).1 hadmitted
    have hbase := exactBase_range processBase increment
    have heq : (thread.step (.setBasePriority processBase increment)).priority = newBase { thread with processBase } increment := by
      have hrange : thread.priority - thread.basePriority ≤ highPriority := by
        have hlow := h.base
        have hhigh := h.high
        omega
      have hover := (onBase_eq_iff hbase hrange).2 hroom
      rw [← hexact] at hover
      exact (rebased_eq thread processBase increment).trans hover
    have hnew : (thread.step (.setBasePriority processBase increment)).basePriority = newBase { thread with processBase } increment :=
      rfl
    have hdecrement : (thread.step (.setBasePriority processBase increment)).priorityDecrement = 0 := rfl
    rw [← hexact] at hbase
    refine ⟨?_, .inr (.inr (heq.trans hnew.symm))⟩
    constructor <;> simp only [heq, hnew, hdecrement] <;> omega

theorem Decays.staysInClass (h : thread.Decays) (hvalid : a.Valid) (hadmitted : thread.Admitted a) :
    thread.StaysInClass a := by
  obtain ⟨hdecays, hpriority⟩ := h.step hvalid hadmitted
  refine
    ⟨⟨hdecays.base.trans hdecays.le, hdecays.high⟩, ⟨hdecays.base, hdecays.le.trans hdecays.high⟩, ?_, hdecays.decrement,
      hdecays.settles, ?_⟩
  · intro hbase hreal hchanged
    rcases hpriority with hsame | hlow | hat
    · exact absurd hsame hchanged
    · exact absurd hlow (not_lt.2 hreal)
    · rw [hat] at hreal
      exact absurd hbase (not_lt.2 hreal)
  · rintro processBase increment rfl
    obtain ⟨hexact, hroom⟩ := (thread.admitted_setBasePriority_iff increment hvalid.1).1 hadmitted
    refine ⟨hexact, ?_, ?_⟩
    · rw [← hexact]
      exact rebased_eq thread processBase increment
    · have hbase := h.base
      have hhigh := h.le.trans h.high
      have h0 : lowPriority = 0 := rfl
      have h31 : highPriority = 31 := rfl
      obtain ⟨⟨hmin, hmax⟩, -⟩ := hvalid
      exact bmod_eq_of_le (by dsimp only; omega) (by dsimp only; omega)

theorem Decays.not_staysInClass (h : thread.Decays) (hvalid : a.Valid) (hadmitted : ¬thread.Admitted a) :
    ¬thread.StaysInClass a := by
  have h0 : lowPriority = 0 := rfl
  have h31 : highPriority = 31 := rfl
  intro hstays
  cases a with
  | unwait increment disableBoost kernelApc foregroundBoost =>
    have hunwait : (thread.toUnwait increment disableBoost kernelApc foregroundBoost).Decays := h.of rfl rfl rfl
    have hsame : (adjustUnwait (thread.toUnwait increment disableBoost kernelApc foregroundBoost)).SamePriorities
        (thread.step (.unwait increment disableBoost kernelApc foregroundBoost)) := adjust_unwait rfl
    have hlow : thread.priority < lowRealtimePriority := not_le.1 fun hreal => hadmitted (.inl hreal)
    have hbase : thread.basePriority < lowRealtimePriority - 2 := not_le.1 fun hcritical => hadmitted (.inr (.inl hcritical))
    have hstuck := (hunwait.unwaitBoost hlow hbase hvalid.1).2 hadmitted
    apply Stuck.not_settles _ hstays.settles
    rw [Stuck, hsame.1, hsame.2.1, hsame.2.2]
    exact hstuck
  | setPriority priority =>
    obtain ⟨hpriority, hbase, hdecrement⟩ := thread.setPriority_spec h priority
    apply Stuck.not_settles _ hstays.settles
    refine ⟨hdecrement.ge, .inl ⟨hdecrement, ?_⟩⟩
    show (thread.setPriority priority).priority ≠ (thread.setPriority priority).basePriority
    rw [hpriority, hbase]
    exact fun heq => hadmitted ((normalPriority_eq_iff thread priority).1 heq)
  | setBasePriority processBase increment =>
    have hexact : newBase { thread with processBase } increment = exactBase processBase increment :=
      (hstays.exact processBase increment rfl).1
    have hboost := fun hroom => hadmitted ((thread.admitted_setBasePriority_iff increment hvalid.1).2 ⟨hexact, hroom⟩)
    have hrange : thread.priority - thread.basePriority ≤ highPriority := by
      have hlow := h.base
      have hhigh := h.high
      omega
    apply Stuck.not_settles _ hstays.settles
    refine ⟨le_refl 0, .inl ⟨rfl, fun heq => hboost ?_⟩⟩
    have hover : thread.onBase (newBase { thread with processBase } increment) = newBase { thread with processBase } increment := heq
    rw [hexact] at hover
    exact (onBase_eq_iff (exactBase_range processBase increment) hrange).1 hover
  | boost increment disableBoost => exact hadmitted trivial
  | tick => exact hadmitted trivial
  | quantumEnd => exact hadmitted trivial

/-- Every step leaves the thread in its class, and quantum ends take boosts away, exactly if every
step is admitted. -/
theorem everyStep_staysInClass_iff (thread : Thread)
    (hbase : lowPriority ≤ thread.basePriority ∧ thread.basePriority ≤ highPriority) (hsettled : thread.Settled)
    (steps : List PriorityStep) (hvalid : ∀ a ∈ steps, a.Valid) :
    EveryStep step StaysInClass thread steps ↔ EveryStep step Admitted thread steps := by
  have hdecays : thread.Decays := by
    obtain ⟨hpriority, hnone⟩ := hsettled
    constructor <;> omega
  exact everyStep_iff (I := Decays) (G := fun _ a => a.Valid) (fun _ _ h hv hc => (h.step hv hc).1)
    (fun _ _ h hv hc => h.staysInClass hv hc) (fun _ _ h hv hc => h.not_staysInClass hv hc) hdecays
    (everyStep_of_forall hvalid)

/-- A background thread of base priority 8 is woken with an increment of 1, and keeps the boost for ever. -/
theorem woken_keeps_boost :
    ¬EveryStep step StaysInClass { priority := 8, basePriority := 8 } [.unwait 1 false false none] := by
  rintro ⟨hstays, -⟩
  apply Stuck.not_settles _ hstays.settles
  exact ⟨by decide, .inl ⟨by decide, by decide⟩⟩

/-- A thread is boosted, and two quanta end. -/
theorem everyStep_staysInClass_iff_boost :
    EveryStep step StaysInClass { priority := 8, basePriority := 8 } [.boost 9 false, .quantumEnd, .quantumEnd] ↔
      EveryStep step Admitted { priority := 8, basePriority := 8 } [.boost 9 false, .quantumEnd, .quantumEnd] := by
  apply everyStep_staysInClass_iff
  · exact ⟨by decide, by decide⟩
  · exact ⟨rfl, rfl⟩
  · intro a ha
    rcases List.mem_cons.1 ha with rfl | ha
    · exact ⟨by decide, by decide⟩
    · rcases List.mem_cons.1 ha with rfl | ha
      · trivial
      · rw [List.mem_singleton.1 ha]
        trivial

end Thread

end XenOS.Ke.Sched
