import Mathlib.Algebra.Group.Nat.Defs
import Mathlib.Data.List.DropRight

/-! The timer table: 512 lists of armed timers, sorted by due time, with the first time beside each.
No thread waits on a timer here. -/

namespace XenOS.Ke

def timerTableSize : ℕ := 512

/-- `u64::MAX`, the time of an empty bucket. -/
def timeMax : ℕ := 2 ^ 64 - 1

inductive TimerType where
  | notificationTimer
  | synchronizationTimer
  deriving DecidableEq

/-- `KTIMER`; `inserted` is `is_inserted`, a link that is not null. -/
structure KTimer where
  type : TimerType := .notificationTimer
  signalState : ℤ := 0
  dueTime : ℕ := 0
  inserted : Bool := false
  dpc : Option ℕ := none
  period : ℤ := 0
  deriving DecidableEq

structure KTimerTableEntry where
  entry : List ℕ := []
  time : ℕ := timeMax

/-- The timers, the table, the clock and the queued DPCs, with a count of signals. `hung`: a call
never returns, or stops the kernel. The clock is not bounded: 64 bits of 100 ns last 58 000 years. -/
structure TimerState where
  timers : ℕ → KTimer
  table : ℕ → KTimerTableEntry
  interruptTime : ℕ
  baseTime : ℤ
  timeIncrement : ℕ
  dpcQueued : ℕ → Bool
  signals : ℕ → ℕ
  hung : Bool

namespace TimerState

variable (s : TimerState)

def setTimer (t : ℕ) (timer : KTimer) : TimerState := { s with timers := Function.update s.timers t timer }

def setBucket (hand : ℕ) (bucket : KTimerTableEntry) : TimerState :=
  { s with table := Function.update s.table hand bucket }

def dueTime (t : ℕ) : ℕ := (s.timers t).dueTime

def kiComputeTimerTableIndex (dueTime : ℕ) : ℕ :=
  let increment := if s.timeIncrement > 0 then s.timeIncrement else 100000
  dueTime / increment % timerTableSize

/-- `i64::MIN`, which has no negation. -/
def i64Min : ℤ := -0x8000000000000000

/-- `ki_compute_due_time`, of another time than `i64Min`: the due time, and whether it has passed. -/
def kiComputeDueTime (dueTime : ℤ) : ℕ × Bool :=
  let absDueTime :=
    if dueTime < 0 then min (s.interruptTime + (-dueTime).toNat) timeMax
    else if dueTime ≤ s.baseTime then 0 else (dueTime - s.baseTime).toNat
  (absDueTime, absDueTime ≤ s.interruptTime)

def firstTime (dueTime : ℕ → ℕ) : List ℕ → ℕ
  | [] => timeMax
  | t :: _ => dueTime t

/-- `ki_insert_timer_table`, without its test of the clock. The walk goes back from the tail
to the first timer that is not due later. -/
def kiInsertTimerTable (t hand : ℕ) : TimerState :=
  let bucket := s.table hand
  let later := fun existing => decide (s.dueTime t < s.dueTime existing)
  let s := s.setTimer t { s.timers t with inserted := true }
  match bucket.entry.rdropWhile later with
  | [] => s.setBucket hand ⟨t :: bucket.entry, s.dueTime t⟩
  | before => s.setBucket hand ⟨before ++ t :: bucket.entry.rtakeWhile later, bucket.time⟩

def kxRemoveTreeTimer (t : ℕ) : TimerState :=
  let hand := s.kiComputeTimerTableIndex (s.dueTime t)
  let entry := (s.table hand).entry.erase t
  (s.setTimer t { s.timers t with inserted := false }).setBucket hand ⟨entry, firstTime s.dueTime entry⟩

def keCancelTimer (t : ℕ) : Bool × TimerState :=
  if !(s.timers t).inserted then (false, s) else (true, s.kxRemoveTreeTimer t)

/-- `signal_state.store(1)`. -/
def signal (t : ℕ) : TimerState :=
  { s.setTimer t { s.timers t with signalState := 1 } with
    signals := Function.update s.signals t (s.signals t + 1) }

/-- `ke_insert_queue_dpc` on the timer's DPC. One that is queued stays queued. -/
def queueDpc (t : ℕ) : TimerState :=
  match (s.timers t).dpc with
  | none => s
  | some dpc => { s with dpcQueued := Function.update s.dpcQueued dpc true }

/-- The due time of a periodic timer that is armed again; the sum is one of `u64`. -/
def nextDueTime (t time : ℕ) : ℕ := (time + (s.timers t).period.toNat * 10000) % 2 ^ 64

def rearm (t time : ℕ) : TimerState :=
  s.setTimer t { s.timers t with signalState := 0, dueTime := s.nextDueTime t time }

/-- `ki_signal_timer`. Where the next due time has passed, the insertion signals the timer
again, for the same due time, and so on. -/
def kiSignalTimer (t : ℕ) : TimerState :=
  let s := (s.signal t).queueDpc t
  if 0 < (s.timers t).period then
    let s := s.rearm t s.interruptTime
    let s := s.kiInsertTimerTable t (s.kiComputeTimerTableIndex (s.dueTime t))
    if s.dueTime t ≤ s.interruptTime then { s with hung := true } else s
  else s

/-- `kx_insert_timer`. A timer whose time has passed meanwhile is signalled where it is. -/
def kxInsertTimer (t hand : ℕ) : TimerState :=
  let s := s.kiInsertTimerTable t hand
  if s.dueTime t ≤ s.interruptTime then s.kiSignalTimer t else s

def keInitializeTimerEx (t : ℕ) (type : TimerType) : TimerState := s.setTimer t { type := type }

def keSetTimerEx (t : ℕ) (dueTime : ℤ) (period : ℤ) (dpc : Option ℕ) : Bool × TimerState :=
  let wasInserted := (s.timers t).inserted
  let s := if wasInserted then (s.keCancelTimer t).2 else s
  let s := s.setTimer t { s.timers t with dpc := dpc, period := period }
  let (absDueTime, alreadyExpired) := s.kiComputeDueTime dueTime
  let armed := s.setTimer t { s.timers t with dueTime := absDueTime }
  (wasInserted,
    if dueTime = i64Min then { s with hung := true }
    else if alreadyExpired then armed.kiSignalTimer t
    else armed.kxInsertTimer t (armed.kiComputeTimerTableIndex absDueTime))

def maxTimersPerCall : ℕ := 64

def batchSize : ℕ := 16

/-- The walk over a bucket: the timers that are unlinked, at most `room` of them, and those
that are left. -/
def unlinkExpired (dueTime : ℕ → ℕ) (currentTime : ℕ) : ℕ → List ℕ → List ℕ × List ℕ
  | 0, ts => ([], ts)
  | _ + 1, [] => ([], [])
  | room + 1, t :: ts =>
    if dueTime t ≤ currentTime then
      let (expired, left) := unlinkExpired dueTime currentTime room ts
      (t :: expired, left)
    else ([], t :: ts)

def expiredIn (currentTime room index : ℕ) : List ℕ :=
  if (s.table index).time ≠ timeMax ∧ (s.table index).time ≤ currentTime then
    (unlinkExpired s.dueTime currentTime room (s.table index).entry).1
  else []

def clearLinks (expired : List ℕ) : TimerState :=
  { s with timers := fun t => if t ∈ expired then { s.timers t with inserted := false } else s.timers t }

def finishExpired (currentTime t : ℕ) : TimerState :=
  let s := s.queueDpc t
  if 0 < (s.timers t).period then
    let s := s.rearm t currentTime
    s.kxInsertTimer t (s.kiComputeTimerTableIndex (s.dueTime t))
  else s

/-- One round of `ki_timer_expiration`: a bucket, with `room` timers left to the limit. -/
def expireBucket (currentTime room index : ℕ) : TimerState :=
  if (s.table index).time ≠ timeMax ∧ (s.table index).time ≤ currentTime then
    let (expired, left) := unlinkExpired s.dueTime currentTime room (s.table index).entry
    let batch := expired.take batchSize
    let s := (s.clearLinks expired).setBucket index ⟨left, firstTime s.dueTime left⟩
    let s := batch.foldl signal s
    batch.foldl (fun s t => s.finishExpired currentTime t) s
  else s

/-- The loop of `ki_timer_expiration`. It ends at the limit. -/
def expireBuckets (currentTime : ℕ) : ℕ → List ℕ → TimerState → TimerState
  | _, [], s => s
  | 0, _, s => s
  | room, index :: rest, s =>
    expireBuckets currentTime (room - (s.expiredIn currentTime room index).length) rest
      (s.expireBucket currentTime room index)

def kiTimerExpiration (currentTime : ℕ) : TimerState :=
  expireBuckets currentTime maxTimersPerCall (List.range timerTableSize) s

end TimerState

end XenOS.Ke
