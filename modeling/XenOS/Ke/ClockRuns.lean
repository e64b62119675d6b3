import XenOS.Ke.TimerRuns

/-! The clock and the expiration of timers. A tick asks for an expiration where the first timer of
its own bucket is due; the expiration reads the clock, scans the table and takes the request back,
with ticks in between. -/

namespace XenOS.Ke

open General TimerState

structure ClockState where
  timers : TimerState
  tickCount : ℕ := 0
  timerRequest : Bool := false
  timerHand : ℕ := 0

namespace ClockState

variable {s : ClockState}

def kiCheckTimerTable (s : ClockState) (currentTime : ℕ) : Option ℕ :=
  let hand := s.tickCount % timerTableSize
  if (s.timers.table hand).time ≤ currentTime then some hand else none

/-- `ke_update_system_time`, by the increment of the table. -/
def keUpdateSystemTime (s : ClockState) : ClockState :=
  let newInterruptTime := s.timers.interruptTime + s.timers.timeIncrement
  let s := { s with timers := { s.timers with interruptTime := newInterruptTime }, tickCount := s.tickCount + 1 }
  match s.kiCheckTimerTable newInterruptTime with
  | some hand => if s.timerRequest then s else { s with timerHand := hand, timerRequest := true }
  | none => s

def ticks (s : ClockState) : ℕ → ClockState
  | 0 => s
  | n + 1 => s.keUpdateSystemTime.ticks n

/-- The clock is read, the table scanned, the request taken back. Ticks come before and after the
scan. -/
def kiDispatchInterrupt (s : ClockState) (before after : ℕ) : ClockState :=
  if s.timerRequest then
    let currentTime := s.timers.interruptTime
    let s := s.ticks before
    let s := { s with timers := s.timers.kiTimerExpiration currentTime }
    let s := s.ticks after
    { s with timerRequest := false, timerHand := 0 }
  else s

inductive ClockOp where
  | tick
  | dispatch (before after : ℕ)
  | cancel (t : ℕ)

def step (s : ClockState) : ClockOp → ClockState
  | .tick => s.keUpdateSystemTime
  | .dispatch before after => s.kiDispatchInterrupt before after
  | .cancel t => { s with timers := (s.timers.keCancelTimer t).2 }

def Due (s : ClockState) (time t : ℕ) : Prop := (s.timers.timers t).inserted ∧ s.timers.dueTime t ≤ time

def nextTime (s : ClockState) (n : ℕ) : ℕ := s.timers.interruptTime + n * s.timers.timeIncrement

/-- A tick at which a timer is due requests an expiration; an interrupt that takes it back leaves no
timer due. -/
def Noticed (s : ClockState) : ClockOp → Prop
  | .tick => (∃ t, s.Due (s.nextTime 1) t) → (s.step .tick).timerRequest
  | .dispatch before after => s.timerRequest → ∀ t, s.Due (s.nextTime (before + after)) t →
    Fired s.timers (s.step (.dispatch before after)).timers s.timers.interruptTime t ∧
      ¬ (s.step (.dispatch before after)).Due (s.nextTime (before + after)) t
  | .cancel _ => True

/-- At a tick without a request, a due timer lies in the bucket of the tick, or the clock is at its
end and that bucket empty. A scan loses no timer and leaves none due when the request is taken back.
-/
def KeepsNotice (s : ClockState) : ClockOp → Prop
  | .tick => s.timerRequest = true ∨ (∀ t, ¬ s.Due (s.nextTime 1) t) ∨
    (∃ t, s.Due (s.nextTime 1) t ∧
      s.timers.kiComputeTimerTableIndex (s.timers.dueTime t) = (s.tickCount + 1) % timerTableSize) ∨
    (s.timers.table ((s.tickCount + 1) % timerTableSize)).entry = [] ∧ timeMax ≤ s.nextTime 1
  | .dispatch before after => s.timerRequest →
    (∀ expired ∈ s.timers.expiredFrom s.timers.interruptTime maxTimersPerCall (List.range timerTableSize),
      expired.length ≤ batchSize ∧ ∀ t ∈ expired, 0 < (s.timers.timers t).period →
        s.nextTime before < s.timers.nextDueTime t s.timers.interruptTime) ∧
    ∀ t, s.Due (s.nextTime (before + after)) t →
      t ∈ (s.timers.expiredFrom s.timers.interruptTime maxTimersPerCall (List.range timerTableSize)).flatten ∧
        (0 < (s.timers.timers t).period →
          s.nextTime (before + after) < s.timers.nextDueTime t s.timers.interruptTime)
  | .cancel _ => True

def later (s : TimerState) (time : ℕ) : TimerState := { s with interruptTime := s.interruptTime + time }

theorem tick_timers (s : ClockState) : s.keUpdateSystemTime.timers = later s.timers s.timers.timeIncrement := by
  unfold keUpdateSystemTime
  dsimp only
  split
  · split <;> rfl
  · rfl

theorem ticks_timers (s : ClockState) (n : ℕ) : (s.ticks n).timers = later s.timers (n * s.timers.timeIncrement) := by
  induction n generalizing s with
  | zero =>
    rw [Nat.zero_mul]
    rfl
  | succ n ih =>
    rw [ticks, ih, tick_timers, later, later, later]
    congr 1
    show s.timers.interruptTime + s.timers.timeIncrement + n * s.timers.timeIncrement = _
    rw [Nat.add_assoc, Nat.succ_mul, Nat.add_comm s.timers.timeIncrement]

theorem tick_request (s : ClockState) : s.keUpdateSystemTime.timerRequest = true ↔
    s.timerRequest = true ∨ (s.timers.table ((s.tickCount + 1) % timerTableSize)).time ≤ s.nextTime 1 := by
  have hnext : s.nextTime 1 = s.timers.interruptTime + s.timers.timeIncrement := by rw [nextTime, Nat.one_mul]
  unfold keUpdateSystemTime kiCheckTimerTable
  dsimp only
  rw [hnext]
  by_cases hdue : (s.timers.table ((s.tickCount + 1) % timerTableSize)).time ≤
      s.timers.interruptTime + s.timers.timeIncrement
  · rw [if_pos hdue]
    by_cases hrequest : s.timerRequest = true
    · simp [hrequest]
    · simp [hrequest, hdue]
  · rw [if_neg hdue]
    simp [hdue]

theorem sound_later {s : TimerState} (hs : s.Sound) (time : ℕ) : (later s time).Sound :=
  ⟨hs.sorted, hs.time, hs.linked, hs.nodup,
    fun t hinserted hfuture => hs.future t hinserted (lt_of_le_of_lt (Nat.le_add_right _ _) hfuture), hs.returns⟩

theorem bucket_due_iff {s : TimerState} (hs : s.Sound) (index time : ℕ) :
    (s.table index).time ≤ time ↔
      (∃ t, ((s.timers t).inserted ∧ s.dueTime t ≤ time) ∧ s.kiComputeTimerTableIndex (s.dueTime t) = index) ∨
        (s.table index).entry = [] ∧ timeMax ≤ time := by
  rw [hs.time index]
  have hsorted := hs.sorted index
  have hlinked := hs.linked index
  cases hentry : (s.table index).entry with
  | nil =>
    refine ⟨fun h => Or.inr ⟨rfl, h⟩, ?_⟩
    rintro (⟨t, ⟨hinserted, -⟩, hindex⟩ | ⟨-, hmax⟩)
    · have hmem := (hlinked t).2 ⟨hinserted, hindex.symm⟩
      rw [hentry] at hmem
      cases hmem
    · exact hmax
  | cons a as =>
    rw [hentry] at hsorted
    constructor
    · intro hdue
      have hmem := (hlinked a).1 (hentry ▸ List.mem_cons_self)
      exact Or.inl ⟨a, ⟨hmem.1, hdue⟩, hmem.2.symm⟩
    · rintro (⟨t, ⟨hinserted, hdue⟩, hindex⟩ | ⟨hnil, -⟩)
      · have hmem := (hlinked t).2 ⟨hinserted, hindex.symm⟩
        rw [hentry] at hmem
        rcases List.mem_cons.1 hmem with rfl | hmem
        · exact hdue
        · exact ((List.pairwise_cons.1 hsorted).1 t hmem).trans hdue
      · cases hnil

theorem tick_noticed_iff (hs : s.timers.Sound) : s.Noticed .tick ↔ s.KeepsNotice .tick := by
  show (_ → s.keUpdateSystemTime.timerRequest = true) ↔ _
  rw [tick_request, bucket_due_iff hs, KeepsNotice]
  constructor
  · intro h
    by_cases hdue : ∃ t, s.Due (s.nextTime 1) t
    · rcases h hdue with hrequest | hbucket
      · exact Or.inl hrequest
      · exact Or.inr (Or.inr hbucket)
    · exact Or.inr (Or.inl (not_exists.1 hdue))
  · rintro (hrequest | hnone | hbucket) ⟨t, ht⟩
    · exact Or.inl hrequest
    · exact absurd ht (hnone t)
    · exact Or.inr hbucket

theorem dispatch_timers (hrequest : s.timerRequest = true) (before after : ℕ) :
    (s.kiDispatchInterrupt before after).timers =
      later ((later s.timers (before * s.timers.timeIncrement)).kiTimerExpiration s.timers.interruptTime)
        (after * ((later s.timers (before * s.timers.timeIncrement)).kiTimerExpiration s.timers.interruptTime).timeIncrement) := by
  unfold kiDispatchInterrupt
  rw [if_pos hrequest]
  dsimp only
  rw [ticks_timers, ticks_timers]

theorem expiredFrom_later (s : TimerState) (time currentTime room : ℕ) (indices : List ℕ) :
    (later s time).expiredFrom currentTime room indices = s.expiredFrom currentTime room indices :=
  expiredFrom_congr fun _ _ _ => expiredIn_congr rfl fun _ _ => rfl

theorem fired_of_later {s s' : TimerState} {a b currentTime t : ℕ} (h : Fired (later s a) s' currentTime t) :
    Fired s (later s' b) currentTime t := ⟨h.signals, h.queued, h.timer⟩

theorem fired_to_later {s s' : TimerState} {a b currentTime t : ℕ} (h : Fired s (later s' b) currentTime t) :
    Fired (later s a) s' currentTime t := ⟨h.signals, h.queued, h.timer⟩

theorem dispatch_noticed_iff (hs : s.timers.Sound) (before after : ℕ) :
    s.Noticed (.dispatch before after) ↔ s.KeepsNotice (.dispatch before after) := by
  show (_ → _) ↔ (_ → _)
  refine imp_congr_right fun hrequest => ?_
  have hstep : (s.step (.dispatch before after)).timers = _ := dispatch_timers hrequest before after
  have hlater := sound_later hs (before * s.timers.timeIncrement)
  have hcurrent : s.timers.interruptTime ≤ (later s.timers (before * s.timers.timeIncrement)).interruptTime :=
    Nat.le_add_right _ _
  have hreach : s.timers.interruptTime ≤ s.nextTime (before + after) := Nat.le_add_right _ _
  have hfits : (∀ expired ∈ s.timers.expiredFrom s.timers.interruptTime maxTimersPerCall (List.range timerTableSize),
      expired.length ≤ batchSize ∧ ∀ t ∈ expired, 0 < (s.timers.timers t).period →
        s.nextTime before < s.timers.nextDueTime t s.timers.interruptTime) ↔
      ∀ expired ∈ (later s.timers (before * s.timers.timeIncrement)).expiredFrom s.timers.interruptTime maxTimersPerCall
        (List.range timerTableSize), (later s.timers (before * s.timers.timeIncrement)).BatchFits
          s.timers.interruptTime expired := by
    rw [expiredFrom_later]
    rfl
  rw [hfits, ← expiredFrom_later s.timers (before * s.timers.timeIncrement)]
  by_cases hscan : ∀ expired ∈ (later s.timers (before * s.timers.timeIncrement)).expiredFrom s.timers.interruptTime
      maxTimersPerCall (List.range timerTableSize),
      (later s.timers (before * s.timers.timeIncrement)).BatchFits s.timers.interruptTime expired
  · have hscanned := expireBuckets_spec hlater hcurrent List.nodup_range hscan
    rw [and_iff_right hscan]
    change Scanned _ ((later s.timers (before * s.timers.timeIncrement)).kiTimerExpiration s.timers.interruptTime) _ _
      at hscanned
    refine forall_congr' fun t => imp_congr_right fun hdue => ?_
    rw [Due, hstep]
    generalize (later s.timers (before * s.timers.timeIncrement)).kiTimerExpiration s.timers.interruptTime = s1 at *
    generalize ((later s.timers (before * s.timers.timeIncrement)).expiredFrom s.timers.interruptTime maxTimersPerCall
      (List.range timerTableSize)).flatten = all at *
    constructor
    · rintro ⟨hfired, hnot⟩
      have htaken : t ∈ all := by
        by_contra hout
        have hsame : s1.signals t = s.timers.signals t := (hscanned.same t hout).signals
        have hone : s1.signals t = s.timers.signals t + 1 := hfired.signals
        omega
      refine ⟨htaken, fun hperiod => Nat.not_le.1 fun hpast => hnot ⟨?_, ?_⟩⟩
      · rw [hfired.timer, if_pos hperiod]
      · rw [dueTime, hfired.timer, if_pos hperiod]
        exact hpast
    · rintro ⟨htaken, hperiod⟩
      have hfired := fired_of_later (b := after * s1.timeIncrement) (hscanned.fired t htaken)
      refine ⟨hfired, ?_⟩
      rintro ⟨hinserted, hpast⟩
      rw [hfired.timer] at hinserted
      rw [dueTime, hfired.timer] at hpast
      split_ifs at hinserted hpast with h
      exact Nat.not_le.2 (hperiod h) hpast
  · refine iff_of_false (fun h => ?_) fun h => hscan h.1
    obtain ⟨t, hinserted, hdue, -, hnotFired⟩ := expireBuckets_breaks hlater hcurrent List.nodup_range hscan
    have hfired := (h t ⟨hinserted, hdue.trans hreach⟩).1
    rw [hstep] at hfired
    exact hnotFired (fired_to_later hfired)

theorem noticed_iff (hs : s.timers.Sound) (op : ClockOp) : s.Noticed op ↔ s.KeepsNotice op := by
  cases op with
  | tick => exact tick_noticed_iff hs
  | dispatch before after => exact dispatch_noticed_iff hs before after
  | cancel t => exact Iff.rfl

theorem sound_step (hs : s.timers.Sound) {op : ClockOp} (hkeeps : s.KeepsNotice op) : (s.step op).timers.Sound := by
  cases op with
  | tick =>
    show s.keUpdateSystemTime.timers.Sound
    rw [tick_timers]
    exact sound_later hs _
  | dispatch before after =>
    show (s.kiDispatchInterrupt before after).timers.Sound
    by_cases hrequest : s.timerRequest = true
    · rw [dispatch_timers hrequest]
      refine sound_later (expireBuckets_spec (sound_later hs _) (Nat.le_add_right _ _) List.nodup_range ?_).sound _
      rw [expiredFrom_later]
      exact (hkeeps hrequest).1
    · unfold kiDispatchInterrupt
      rw [if_neg hrequest]
      exact hs
  | cancel t => exact (cancel_spec hs t).1

/-- For every set of armed timers in a sound table, in every run, no step misses a timer if
and only if every step meets its condition. -/
theorem all_noticed_iff (s : ClockState) (hs : s.timers.Sound) (ops : List ClockOp) :
    EveryStep step Noticed s ops ↔ EveryStep step KeepsNotice s ops :=
  everyStep_iff (I := fun s => s.timers.Sound) (G := fun _ _ => True) (fun _ _ hs _ hc => sound_step hs hc)
    (fun _ op hs _ hc => (noticed_iff hs op).2 hc) (fun _ op hs _ hc hd => hc ((noticed_iff hs op).1 hd)) hs
    (everyStep_of_forall fun _ _ => trivial)

def oneTimer (dueTime : ℤ) : ClockState where
  timers := ((start 0 0 100000).keSetTimerEx 0 dueTime 0 none).2

theorem sound_oneTimer {dueTime : ℤ} (hmin : dueTime ≠ i64Min)
    (hfuture : ((start 0 0 100000).kiComputeDueTime dueTime).2 = false) : (oneTimer dueTime).timers.Sound := by
  refine (set_sound_iff (sound_start 0 0 100000) 0 dueTime 0 none).2 ⟨hmin, ?_⟩
  rw [hfuture]
  rfl

/-- A timer for the first tick, and a periodic one for the second. -/
def twoTimers : ClockState where
  timers := ((oneTimer (-100000)).timers.keSetTimerEx 1 (-200000) 10 (some 7)).2

/-- Both are noticed, and the dispatch in between takes the first one out. -/
theorem noticed_on_time : EveryStep step Noticed twoTimers [.tick, .dispatch 0 0, .tick] := by
  have hsound : twoTimers.timers.Sound := by
    have hone : (oneTimer (-100000)).timers.Sound := sound_oneTimer (by decide) (by decide)
    have hlater : ((oneTimer (-100000)).timers.kiComputeDueTime (-200000)).2 = false := by decide +kernel
    have hkeeps : (oneTimer (-100000)).timers.SetKeeps 1 (-200000) 10 := by
      rw [SetKeeps, hlater]
      exact ⟨by decide, by decide +kernel⟩
    simpa only [twoTimers] using (set_sound_iff hone 1 (-200000) 10 (some 7)).2 hkeeps
  have hfirst : twoTimers.Due (twoTimers.nextTime 1) 0 := ⟨by decide +kernel, by decide +kernel⟩
  refine (all_noticed_iff twoTimers hsound _).2 ⟨.inr (.inr (.inl ⟨0, hfirst, ?_⟩)), fun _ => ⟨?_, fun t hdue => ?_⟩, ?_, trivial⟩
  · decide +kernel
  · decide +kernel
  · match t with
    | 0 => exact ⟨by decide +kernel, by decide +kernel⟩
    | 1 => exact absurd hdue.2 (by decide +kernel)
    | t + 2 =>
      have hidle : ((twoTimers.step .tick).timers.timers (t + 2)).inserted = false := rfl
      rw [Due, hidle] at hdue
      cases hdue.1
  · exact .inr (.inr (.inl ⟨1, ⟨by decide +kernel, by decide +kernel⟩, by decide +kernel⟩))

/-- One that is due between two ticks is missed at the second one. -/
theorem missed_between_ticks :
    (oneTimer (-50000)).timers.Sound ∧ ¬ EveryStep step Noticed (oneTimer (-50000)) [.tick] := by
  refine ⟨sound_oneTimer (by decide) (by decide), ?_⟩
  rintro ⟨hnoticed, -⟩
  exact absurd (hnoticed ⟨0, by decide, by decide⟩) (by decide)

end ClockState

end XenOS.Ke
