import XenOS.Ke.TimerExpiry
import XenOS.General.Run
import Mathlib.Data.List.Nodup

/-! Timers over runs: which scans lose a timer or signal it twice, and which calls leave one
armed and signalled. -/

namespace XenOS.Ke

open General List
open Function (update update_self update_of_ne)

namespace TimerState

variable {s s' s'' : TimerState} {t u hand currentTime room index : ℕ} {batch expired indices : List ℕ}

/-! ### The scan -/

def expiredFrom (s : TimerState) (currentTime : ℕ) : ℕ → List ℕ → List (List ℕ)
  | _, [] => []
  | 0, _ => []
  | room, index :: rest =>
    s.expiredIn currentTime room index ::
      s.expiredFrom currentTime (room - (s.expiredIn currentTime room index).length) rest

theorem mem_expiredFrom (hs : s.Sound) (ht : t ∈ (s.expiredFrom currentTime room indices).flatten) :
    (s.timers t).inserted ∧ s.dueTime t ≤ currentTime := by
  induction indices generalizing room with
  | nil => cases room <;> simp [expiredFrom] at ht
  | cons index rest ih =>
    cases room with
    | zero => simp [expiredFrom] at ht
    | succ room =>
      rw [expiredFrom, flatten_cons, mem_append] at ht
      · rcases ht with ht | ht
        · obtain ⟨hmem, hdue⟩ := mem_entry_of_expiredIn ht
          exact ⟨((hs.linked index t).1 hmem).1, hdue⟩
        · exact ih ht
      · simp

theorem expiredFrom_congr (h : ∀ index ∈ indices, ∀ room,
    s'.expiredIn currentTime room index = s.expiredIn currentTime room index) :
    s'.expiredFrom currentTime room indices = s.expiredFrom currentTime room indices := by
  induction indices generalizing room with
  | nil => cases room <;> rfl
  | cons index rest ih =>
    cases room with
    | zero => rfl
    | succ room =>
      rw [expiredFrom, expiredFrom, h index mem_cons_self, ih fun j hj => h j (mem_cons_of_mem index hj)]
      · simp
      · simp

theorem Fired.not_due (hfired : Fired s s' currentTime t) (hcurrent : currentTime ≤ s.interruptTime)
    (hlater : 0 < (s.timers t).period → s.interruptTime < s.nextDueTime t currentTime)
    (hinserted : (s'.timers t).inserted) : currentTime < s'.dueTime t := by
  rw [hfired.timer] at hinserted
  rw [dueTime, hfired.timer]
  split_ifs at hinserted ⊢ with hperiod
  exact lt_of_le_of_lt hcurrent (hlater hperiod)

theorem rest_of_round (hs : s.Sound) (hcurrent : currentTime ≤ s.interruptTime) (hnodup : (index :: indices).Nodup)
    (hfits : s.BatchFits currentTime (s.expiredIn currentTime room index)) (room' : ℕ) :
    (s.expireBucket currentTime room index).expiredFrom currentTime room' indices =
        s.expiredFrom currentTime room' indices ∧
      ∀ t ∈ (s.expiredFrom currentTime room' indices).flatten, t ∉ s.expiredIn currentTime room index := by
  obtain ⟨hscanned, hothers⟩ := expireBucket_spec hs hcurrent hfits
  have hsame : (s.expireBucket currentTime room index).expiredFrom currentTime room' indices =
      s.expiredFrom currentTime room' indices :=
    expiredFrom_congr fun j hj room => hothers room j fun heq => (nodup_cons.1 hnodup).1 (heq ▸ hj)
  refine ⟨hsame, fun t ht hfired => ?_⟩
  rw [← hsame] at ht
  obtain ⟨hinserted, hdue⟩ := mem_expiredFrom hscanned.sound ht
  exact Nat.not_lt.2 hdue ((hscanned.fired t hfired).not_due hcurrent (hfits.2 t hfired) hinserted)

theorem expireBuckets_spec (hs : s.Sound) (hcurrent : currentTime ≤ s.interruptTime) (hnodup : indices.Nodup)
    (hfits : ∀ expired ∈ s.expiredFrom currentTime room indices, s.BatchFits currentTime expired) :
    Scanned s (expireBuckets currentTime room indices s) currentTime
      (s.expiredFrom currentTime room indices).flatten := by
  induction indices generalizing s room with
  | nil => cases room <;> exact .refl hs
  | cons index rest ih =>
    cases room with
    | zero => exact .refl hs
    | succ room =>
      have hfirst := hfits _ mem_cons_self
      obtain ⟨hscanned, -⟩ := expireBucket_spec hs hcurrent hfirst
      obtain ⟨hsame, hnot⟩ := rest_of_round hs hcurrent hnodup hfirst
        (room + 1 - (s.expiredIn currentTime (room + 1) index).length)
      have hrest := @ih (s.expireBucket currentTime (room + 1) index)
        (room + 1 - (s.expiredIn currentTime (room + 1) index).length) hscanned.sound
        (by rw [hscanned.clock.interruptTime]; exact hcurrent) hnodup.of_cons ?_
      · rw [hsame] at hrest
        exact hscanned.trans hrest fun t ht hmem => hnot t hmem ht
      · rw [hsame]
        intro expired hmem
        obtain ⟨hlength, hlater⟩ := hfits expired (mem_cons_of_mem _ hmem)
        refine ⟨hlength, fun t ht hperiod => ?_⟩
        have htimer := (hscanned.same t (hnot t (mem_flatten.2 ⟨expired, hmem, ht⟩))).timer
        rw [htimer] at hperiod
        rw [hscanned.clock.interruptTime, nextDueTime, htimer]
        exact hlater t ht hperiod

/-! ### Any state -/

structure OnlyTimer (s s' : TimerState) (u : ℕ) : Prop where
  timers : ∀ t, t ≠ u → s'.timers t = s.timers t
  signals : ∀ t, t ≠ u → s'.signals t = s.signals t
  entries : ∀ t, t ≠ u → ∀ i, t ∈ (s'.table i).entry → t ∈ (s.table i).entry
  more : s.signals u ≤ s'.signals u
  clock : SameClock s s'

theorem OnlyTimer.trans (h : OnlyTimer s s' u) (h' : OnlyTimer s' s'' u) : OnlyTimer s s'' u where
  timers t ht := (h'.timers t ht).trans (h.timers t ht)
  signals t ht := (h'.signals t ht).trans (h.signals t ht)
  entries t ht i hmem := h.entries t ht i (h'.entries t ht i hmem)
  more := h.more.trans h'.more
  clock := h.clock.trans h'.clock

theorem OnlyTimer.setTimer (s : TimerState) (u : ℕ) (timer : KTimer) : OnlyTimer s (s.setTimer u timer) u where
  timers _ ht := update_of_ne ht ..
  signals _ _ := rfl
  entries _ _ _ hmem := hmem
  more := le_refl _
  clock := ⟨rfl, rfl⟩

theorem OnlyTimer.insert (s : TimerState) (u hand : ℕ) : OnlyTimer s (s.kiInsertTimerTable u hand) u where
  timers t ht := by rw [insert_timers, update_of_ne ht]
  signals t _ := by rw [insert_signals]
  entries t ht i hmem := by
    rw [insert_table] at hmem
    by_cases hi : i = hand
    · subst hi
      rw [update_self] at hmem
      rcases mem_append.1 hmem with hmem | hmem
      · exact IsPrefix.subset (List.rdropWhile_prefix _ _) hmem
      · exact IsSuffix.subset (rtakeWhile_suffix _ _) ((mem_cons.1 hmem).resolve_left ht)
    · rwa [update_of_ne hi] at hmem
  more := by rw [insert_signals]
  clock := insert_clock s u hand

theorem OnlyTimer.queueDpc (s : TimerState) (u : ℕ) : OnlyTimer s (s.queueDpc u) u where
  timers t _ := by rw [queueDpc_timers]
  signals t _ := by rw [queueDpc_signals]
  entries t _ i hmem := by rwa [queueDpc_table] at hmem
  more := by rw [queueDpc_signals]
  clock := queueDpc_clock s u

theorem OnlyTimer.signal (s : TimerState) (u : ℕ) : OnlyTimer s (s.signal u) u where
  timers _ ht := update_of_ne ht ..
  signals _ ht := update_of_ne ht ..
  entries _ _ _ hmem := hmem
  more := by
    show s.signals u ≤ update s.signals u _ u
    rw [update_self]
    exact Nat.le_succ _
  clock := ⟨rfl, rfl⟩

theorem OnlyTimer.kiSignalTimer (s : TimerState) (u : ℕ) : OnlyTimer s (s.kiSignalTimer u) u := by
  have hqueued := (OnlyTimer.signal s u).trans (.queueDpc _ u)
  unfold TimerState.kiSignalTimer
  dsimp only
  split
  · have hinserted := (hqueued.trans (.setTimer _ u _)).trans (.insert ((((s.signal u).queueDpc u)).rearm u
      ((s.signal u).queueDpc u).interruptTime) u ((((s.signal u).queueDpc u).rearm u
      ((s.signal u).queueDpc u).interruptTime).kiComputeTimerTableIndex ((((s.signal u).queueDpc u).rearm u
      ((s.signal u).queueDpc u).interruptTime).dueTime u)))
    split
    · exact ⟨hinserted.timers, hinserted.signals, hinserted.entries, hinserted.more, ⟨hinserted.clock.1, hinserted.clock.2⟩⟩
    · exact hinserted
  · exact hqueued

theorem kiSignalTimer_signals (s : TimerState) (u : ℕ) : s.signals u < (s.kiSignalTimer u).signals u := by
  have hone : (((s.signal u).queueDpc u).signals) u = s.signals u + 1 := by
    rw [queueDpc_signals]
    exact update_self ..
  unfold TimerState.kiSignalTimer
  dsimp only
  split
  · split
    · show s.signals u < (TimerState.kiInsertTimerTable _ _ _).signals u
      rw [insert_signals]
      show s.signals u < ((s.signal u).queueDpc u).signals u
      omega
    · rw [insert_signals]
      show s.signals u < ((s.signal u).queueDpc u).signals u
      omega
  · omega

theorem OnlyTimer.kxInsertTimer (s : TimerState) (u hand : ℕ) : OnlyTimer s (s.kxInsertTimer u hand) u := by
  unfold TimerState.kxInsertTimer
  dsimp only
  split
  · exact (OnlyTimer.insert s u hand).trans (.kiSignalTimer _ u)
  · exact .insert s u hand

theorem OnlyTimer.finishExpired (s : TimerState) (currentTime u : ℕ) : OnlyTimer s (s.finishExpired currentTime u) u := by
  unfold TimerState.finishExpired
  dsimp only
  split
  · exact ((OnlyTimer.queueDpc s u).trans (.setTimer _ u _)).trans (.kxInsertTimer _ u _)
  · exact .queueDpc s u

structure OnlyTimers (s s' : TimerState) (batch : List ℕ) : Prop where
  timers : ∀ t ∉ batch, s'.timers t = s.timers t
  signals : ∀ t ∉ batch, s'.signals t = s.signals t
  entries : ∀ t ∉ batch, ∀ i, t ∈ (s'.table i).entry → t ∈ (s.table i).entry
  more : ∀ t, s.signals t ≤ s'.signals t
  clock : SameClock s s'

theorem OnlyTimers.fold {f : TimerState → ℕ → TimerState} (hf : ∀ s u, OnlyTimer s (f s u) u) (batch : List ℕ)
    (s : TimerState) : OnlyTimers s (batch.foldl f s) batch := by
  induction batch generalizing s with
  | nil => exact ⟨fun _ _ => rfl, fun _ _ => rfl, fun _ _ _ h => h, fun _ => le_refl _, .refl s⟩
  | cons u batch ih =>
    have h := hf s u
    have h' := ih (f s u)
    refine ⟨fun t ht => ?_, fun t ht => ?_, fun t ht i hmem => ?_, fun t => ?_, h.clock.trans h'.clock⟩
    · rw [mem_cons, not_or] at ht
      exact (h'.timers t ht.2).trans (h.timers t ht.1)
    · rw [mem_cons, not_or] at ht
      exact (h'.signals t ht.2).trans (h.signals t ht.1)
    · rw [mem_cons, not_or] at ht
      exact h.entries t ht.1 i (h'.entries t ht.2 i hmem)
    · refine le_trans ?_ (h'.more t)
      by_cases ht : t = u
      · rw [ht]
        exact h.more
      · rw [h.signals t ht]

theorem OnlyTimers.trans (h : OnlyTimers s s' batch) (h' : OnlyTimers s' s'' batch) : OnlyTimers s s'' batch where
  timers t ht := (h'.timers t ht).trans (h.timers t ht)
  signals t ht := (h'.signals t ht).trans (h.signals t ht)
  entries t ht i hmem := h.entries t ht i (h'.entries t ht i hmem)
  more t := (h.more t).trans (h'.more t)
  clock := h.clock.trans h'.clock

/-! ### Scans that go wrong -/

structure Out (s : TimerState) (count t : ℕ) : Prop where
  entries : ∀ i, t ∉ (s.table i).entry
  unarmed : (s.timers t).inserted = false
  signals : s.signals t = count

theorem Out.of_onlyTimers {count : ℕ} (h : Out s count t) (hs : OnlyTimers s s' batch) (ht : t ∉ batch) : Out s' count t where
  entries i hmem := h.entries i (hs.entries t ht i hmem)
  unarmed := by
    rw [hs.timers t ht]
    exact h.unarmed
  signals := (hs.signals t ht).trans h.signals

theorem onlyTimers_passes (s : TimerState) (currentTime : ℕ) (batch : List ℕ) :
    OnlyTimers s (batch.foldl (fun s t => s.finishExpired currentTime t) (batch.foldl signal s)) batch :=
  (OnlyTimers.fold OnlyTimer.signal batch s).trans (.fold (fun s u => .finishExpired s currentTime u) batch _)

theorem Out.expireBucket {count : ℕ} (h : Out s count t) : Out (s.expireBucket currentTime room index) count t := by
  have hsplit := unlinkExpired_append s.dueTime currentTime room (s.table index).entry
  have hnot := h.entries index
  unfold TimerState.expireBucket
  dsimp only
  split_ifs
  · generalize (unlinkExpired s.dueTime currentTime room (s.table index).entry) = walk at *
    obtain ⟨expired, left⟩ := walk
    rw [← hsplit, mem_append, not_or] at hnot
    have hcleared : Out ((s.clearLinks expired).setBucket index ⟨left, firstTime s.dueTime left⟩) count t := by
      refine ⟨fun i => ?_, ?_, h.signals⟩
      · show t ∉ (update s.table index _ i).entry
        by_cases hi : i = index
        · subst hi
          rw [update_self]
          exact hnot.2
        · rw [update_of_ne hi]
          exact h.entries i
      · show (if t ∈ expired then _ else s.timers t).inserted = false
        rw [if_neg hnot.1]
        exact h.unarmed
    exact hcleared.of_onlyTimers (onlyTimers_passes _ currentTime (expired.take batchSize))
      fun hmem => hnot.1 (mem_of_mem_take hmem)
  · exact h

theorem signals_expireBucket (s : TimerState) (currentTime room index t : ℕ) :
    s.signals t ≤ (s.expireBucket currentTime room index).signals t := by
  unfold expireBucket
  dsimp only
  split_ifs
  · generalize unlinkExpired s.dueTime currentTime room (s.table index).entry = walk
    exact (onlyTimers_passes ((s.clearLinks walk.1).setBucket index ⟨walk.2, firstTime s.dueTime walk.2⟩) currentTime
      (walk.1.take batchSize)).more t
  · exact le_refl _

theorem Out.expireBuckets {count : ℕ} (h : Out s count t) : Out (expireBuckets currentTime room indices s) count t := by
  induction indices generalizing s room with
  | nil => cases room <;> exact h
  | cons index rest ih =>
    cases room with
    | zero => exact h
    | succ room => exact ih h.expireBucket

theorem signals_expireBuckets (s : TimerState) (currentTime room t : ℕ) (indices : List ℕ) :
    s.signals t ≤ (expireBuckets currentTime room indices s).signals t := by
  induction indices generalizing s room with
  | nil => cases room <;> exact le_refl _
  | cons index rest ih =>
    cases room with
    | zero => exact le_refl _
    | succ room => exact (signals_expireBucket s currentTime (room + 1) index t).trans (ih _ _)

theorem signals_finishExpired (hperiod : 0 < (s.timers t).period) (hpast : s.nextDueTime t currentTime ≤ s.interruptTime) :
    s.signals t < (s.finishExpired currentTime t).signals t := by
  unfold finishExpired
  dsimp only
  rw [queueDpc_timers, if_pos hperiod]
  unfold kxInsertTimer
  dsimp only
  rw [insert_dueTime, if_pos]
  · refine lt_of_le_of_lt ?_ (kiSignalTimer_signals _ t)
    rw [insert_signals]
    show _ ≤ (s.queueDpc t).signals t
    rw [queueDpc_signals]
  · rw [(insert_clock _ t _).interruptTime]
    show (update (s.queueDpc t).timers t _ t).dueTime ≤ (s.queueDpc t).interruptTime
    rw [update_self, (queueDpc_clock s t).interruptTime, nextDueTime, queueDpc_timers]
    exact hpast

theorem signals_finish_batch (hnodup : batch.Nodup) (ht : t ∈ batch) (hperiod : 0 < (s.timers t).period)
    (hpast : s.nextDueTime t currentTime ≤ s.interruptTime) :
    s.signals t < (batch.foldl (fun s t => s.finishExpired currentTime t) s).signals t := by
  induction batch generalizing s with
  | nil => cases ht
  | cons u batch ih =>
    obtain ⟨hu, hnodup⟩ := nodup_cons.1 hnodup
    rw [foldl_cons]
    by_cases htu : t = u
    · subst htu
      exact lt_of_lt_of_le (signals_finishExpired hperiod hpast)
        ((OnlyTimers.fold (fun s u => .finishExpired s currentTime u) batch _).more t)
    · have h := OnlyTimer.finishExpired s currentTime u
      rw [← h.signals t htu]
      refine ih hnodup ((mem_cons.1 ht).resolve_left htu) ?_ ?_
      · rwa [h.timers t htu]
      · rwa [nextDueTime, h.timers t htu, h.clock.interruptTime]

theorem expireBucket_breaks (hs : s.Sound) (hfails : ¬ s.BatchFits currentTime (s.expiredIn currentTime room index)) :
    ∃ t, (s.timers t).inserted ∧ s.dueTime t ≤ currentTime ∧
      (Out (s.expireBucket currentTime room index) (s.signals t) t ∨
        s.signals t + 2 ≤ (s.expireBucket currentTime room index).signals t) := by
  have harmed {t : ℕ} (ht : t ∈ s.expiredIn currentTime room index) :
      (s.timers t).inserted ∧ s.dueTime t ≤ currentTime := by
    obtain ⟨hmem, hdue⟩ := mem_entry_of_expiredIn ht
    exact ⟨((hs.linked index t).1 hmem).1, hdue⟩
  by_cases hdue : (s.table index).time ≠ timeMax ∧ (s.table index).time ≤ currentTime
  · have hexpired : s.expiredIn currentTime room index =
        (unlinkExpired s.dueTime currentTime room (s.table index).entry).1 := by rw [expiredIn, if_pos hdue]
    have hsplit := unlinkExpired_append s.dueTime currentTime room (s.table index).entry
    have hnodup := hs.nodup index
    unfold expireBucket
    rw [if_pos hdue]
    rw [hexpired] at hfails harmed
    generalize (unlinkExpired s.dueTime currentTime room (s.table index).entry) = walk at *
    obtain ⟨expired, left⟩ := walk
    rw [← hsplit, nodup_append] at hnodup
    dsimp only at hfails harmed hsplit hnodup ⊢
    by_cases hlength : expired.length ≤ batchSize
    · -- A periodic timer is due again at once.
      rw [take_of_length_le hlength]
      rw [BatchFits, not_and] at hfails
      have hagain := hfails hlength
      push Not at hagain
      obtain ⟨t, ht, hperiod, hpast⟩ := hagain
      refine ⟨t, (harmed ht).1, (harmed ht).2, Or.inr ?_⟩
      obtain ⟨htimers, hsignals, -, hclock, -, -⟩ :=
        signal_batch hnodup.1 ((s.clearLinks expired).setBucket index ⟨left, firstTime s.dueTime left⟩)
      generalize hs2 : expired.foldl signal ((s.clearLinks expired).setBucket index ⟨left, firstTime s.dueTime left⟩) = s2 at *
      have htimer : s2.timers t = { s.timers t with inserted := false, signalState := 1 } := by
        rw [htimers]
        dsimp only
        rw [if_pos ht]
        show { (if t ∈ expired then { s.timers t with inserted := false } else s.timers t) with signalState := 1 } = _
        rw [if_pos ht]
      have hpast2 : s2.nextDueTime t currentTime ≤ s2.interruptTime := by
        rw [nextDueTime, htimer, hclock.interruptTime]
        exact hpast
      have hmore := signals_finish_batch hnodup.1 ht (by rw [htimer]; exact hperiod) hpast2
      have hone : s2.signals t = s.signals t + 1 := by
        rw [hsignals]
        dsimp only
        rw [if_pos ht]
        rfl
      omega
    · -- The timer behind the batch is lost.
      have hlast : batchSize < expired.length := Nat.not_le.1 hlength
      obtain ⟨ht, hbehind⟩ : expired[batchSize] ∈ expired ∧ expired[batchSize] ∉ expired.take batchSize := by
        refine ⟨getElem_mem hlast, fun hmem => ?_⟩
        obtain ⟨i, hi, heq⟩ := getElem_of_mem hmem
        rw [length_take] at hi
        rw [getElem_take] at heq
        have hindex := (Nodup.getElem_inj_iff hnodup.1).1 heq
        omega
      generalize expired[batchSize] = t at *
      refine ⟨t, (harmed ht).1, (harmed ht).2, Or.inl ?_⟩
      have hcleared : Out ((s.clearLinks expired).setBucket index ⟨left, firstTime s.dueTime left⟩) (s.signals t) t := by
        refine ⟨fun i => ?_, ?_, rfl⟩
        · show t ∉ (update s.table index _ i).entry
          have hlinked := (hs.linked index t).1 (hsplit ▸ mem_append_left _ ht)
          by_cases hi : i = index
          · subst hi
            rw [update_self]
            exact fun hmem => hnodup.2.2 t ht t hmem rfl
          · rw [update_of_ne hi, hs.linked i t]
            exact fun h => hi (h.2.trans hlinked.2.symm)
        · show (if t ∈ expired then { s.timers t with inserted := false } else s.timers t).inserted = false
          rw [if_pos ht]
      exact hcleared.of_onlyTimers (onlyTimers_passes _ currentTime (expired.take batchSize)) hbehind
  · refine absurd ⟨?_, fun t ht => ?_⟩ hfails
    · rw [expiredIn, if_neg hdue]
      exact Nat.zero_le _
    · rw [expiredIn, if_neg hdue] at ht
      cases ht

theorem expireBuckets_breaks (hs : s.Sound) (hcurrent : currentTime ≤ s.interruptTime) (hnodup : indices.Nodup)
    (hfails : ¬ ∀ expired ∈ s.expiredFrom currentTime room indices, s.BatchFits currentTime expired) :
    ∃ t, (s.timers t).inserted ∧ s.dueTime t ≤ currentTime ∧
      ¬ Same s (expireBuckets currentTime room indices s) t ∧
      ¬ Fired s (expireBuckets currentTime room indices s) currentTime t := by
  induction indices generalizing s room with
  | nil =>
    refine absurd (fun expired hmem => ?_) hfails
    cases room <;> cases hmem
  | cons index rest ih =>
    cases room with
    | zero =>
      refine absurd (fun expired hmem => ?_) hfails
      cases hmem
    | succ room =>
      by_cases hfirst : s.BatchFits currentTime (s.expiredIn currentTime (room + 1) index)
      · obtain ⟨hscanned, -⟩ := expireBucket_spec hs hcurrent hfirst
        obtain ⟨hsame, hnot⟩ := rest_of_round hs hcurrent hnodup hfirst
          (room + 1 - (s.expiredIn currentTime (room + 1) index).length)
        obtain ⟨t, hinserted, hdue, hnotSame, hnotFired⟩ := @ih (s.expireBucket currentTime (room + 1) index)
          (room + 1 - (s.expiredIn currentTime (room + 1) index).length) hscanned.sound
          (by rw [hscanned.clock.interruptTime]; exact hcurrent) hnodup.of_cons (by
            rw [hsame]
            refine fun hrest => hfails fun expired hmem => ?_
            rcases mem_cons.1 hmem with rfl | hmem
            · exact hfirst
            · obtain ⟨hlength, hlater⟩ := hrest expired hmem
              refine ⟨hlength, fun t ht hperiod => ?_⟩
              have htimer := (hscanned.same t (hnot t (mem_flatten.2 ⟨expired, hmem, ht⟩))).timer
              have hlater := hlater t ht (by rwa [htimer])
              rwa [hscanned.clock.interruptTime, nextDueTime, htimer] at hlater)
        have hout : t ∉ s.expiredIn currentTime (room + 1) index := fun hmem =>
          Nat.not_lt.2 hdue ((hscanned.fired t hmem).not_due hcurrent (hfirst.2 t hmem) hinserted)
        have hkept := hscanned.same t hout
        rw [dueTime, hkept.timer] at hdue
        rw [hkept.timer] at hinserted
        refine ⟨t, hinserted, hdue, fun h => hnotSame ⟨?_, ?_⟩, fun h => hnotFired ⟨?_, fun dpc hdpc => ?_, ?_⟩⟩
        · exact h.timer.trans hkept.timer.symm
        · exact h.signals.trans hkept.signals.symm
        · rw [hkept.signals]
          exact h.signals
        · rw [hkept.timer] at hdpc
          exact h.queued dpc hdpc
        · rw [hkept.timer, nextDueTime, hkept.timer]
          exact h.timer
      · obtain ⟨t, hinserted, hdue, hout | htwice⟩ := expireBucket_breaks hs hfirst
        · have hlost := @Out.expireBuckets _ t currentTime (room + 1 - (s.expiredIn currentTime (room + 1) index).length) rest _ hout
          refine ⟨t, hinserted, hdue, fun h => ?_, fun h => ?_⟩
          · have hunarmed := hlost.unarmed
            have htimer := h.timer
            rw [expireBuckets] at htimer
            · rw [htimer, hinserted] at hunarmed
              cases hunarmed
            · simp
          · have hsignals := hlost.signals
            have hone := h.signals
            rw [expireBuckets] at hone
            · omega
            · simp
        · have hmore := signals_expireBuckets (s.expireBucket currentTime (room + 1) index) currentTime
            (room + 1 - (s.expiredIn currentTime (room + 1) index).length) t rest
          refine ⟨t, hinserted, hdue, fun h => ?_, fun h => ?_⟩
          · have hnone := h.signals
            rw [expireBuckets] at hnone
            · omega
            · simp
          · have hone := h.signals
            rw [expireBuckets] at hone
            · omega
            · simp

/-! ### The other calls -/

theorem Sound.setTimer (hs : s.Sound) (hnot : (s.timers t).inserted = false) {timer : KTimer}
    (hunarmed : timer.inserted = false) : (s.setTimer t timer).Sound := by
  refine hs.of_unarmed rfl ⟨rfl, rfl⟩ rfl fun u => ?_
  by_cases hu : u = t
  · subst hu
    refine Or.inr ⟨hnot, ?_⟩
    show (update s.timers u timer u).inserted = false
    rwa [update_self]
  · exact Or.inl (update_of_ne hu ..)

theorem cancel_spec (hs : s.Sound) (t : ℕ) :
    (s.keCancelTimer t).2.Sound ∧ SameClock s (s.keCancelTimer t).2 ∧
      (s.keCancelTimer t).2.timers t = { s.timers t with inserted := false } := by
  unfold keCancelTimer
  cases hinserted : (s.timers t).inserted with
  | false =>
    refine ⟨hs, .refl s, ?_⟩
    show s.timers t = _
    rw [← hinserted]
  | true => exact ⟨hs.remove hinserted, ⟨rfl, rfl⟩, update_self ..⟩

/-- The due time can be negated. A timer that is due at once and periodic is armed for later, and one
that is armed is not signalled. -/
def SetKeeps (s : TimerState) (t : ℕ) (dueTime period : ℤ) : Prop :=
  dueTime ≠ i64Min ∧
    if (s.kiComputeDueTime dueTime).2 then
      0 < period → s.interruptTime < (s.interruptTime + period.toNat * 10000) % 2 ^ 64
    else (s.timers t).signalState = 0

theorem set_cases (hs : s.Sound) (t : ℕ) {dueTime : ℤ} (hmin : dueTime ≠ i64Min) (period : ℤ) (dpc : Option ℕ) :
    ∃ s1 : TimerState, s1.Sound ∧ SameClock s s1 ∧
      s1.timers t = ⟨(s.timers t).type, (s.timers t).signalState, (s.kiComputeDueTime dueTime).1, false, dpc, period⟩ ∧
      (s.keSetTimerEx t dueTime period dpc).2 =
        if (s.kiComputeDueTime dueTime).2 then s1.kiSignalTimer t
        else s1.kxInsertTimer t (s1.kiComputeTimerTableIndex (s1.dueTime t)) := by
  have hcancelled : ∃ s0 : TimerState, s0.Sound ∧ SameClock s s0 ∧ s0.baseTime = s.baseTime ∧
      s0.timers t = { s.timers t with inserted := false } ∧
      (if (s.timers t).inserted then (s.keCancelTimer t).2 else s) = s0 := by
    obtain ⟨hsound, hclock, htimer⟩ := cancel_spec hs t
    cases hinserted : (s.timers t).inserted with
    | true =>
      refine ⟨_, hsound, hclock, ?_, htimer, rfl⟩
      unfold keCancelTimer
      rw [hinserted]
      rfl
    | false => exact ⟨s, hs, .refl s, rfl, by rw [← hinserted], rfl⟩
  obtain ⟨s0, hsound, hclock, hbase, htimer, heq⟩ := hcancelled
  have hnot : (s0.timers t).inserted = false := by rw [htimer]
  unfold keSetTimerEx
  dsimp only
  rw [heq, if_neg hmin]
  have hfirst : (s0.setTimer t { s0.timers t with dpc := dpc, period := period }).Sound := hsound.setTimer hnot hnot
  have htimer1 : (s0.setTimer t { s0.timers t with dpc := dpc, period := period }).timers t =
      { s0.timers t with dpc := dpc, period := period } := update_self ..
  generalize hs1 : s0.setTimer t { s0.timers t with dpc := dpc, period := period } = s1 at *
  have hclock1 : SameClock s s1 := hclock.trans (by subst hs1; exact ⟨rfl, rfl⟩)
  have hcompute : s1.kiComputeDueTime dueTime = s.kiComputeDueTime dueTime := by
    rw [kiComputeDueTime, kiComputeDueTime, hclock1.interruptTime, ← hbase]
    subst hs1
    rfl
  rw [hcompute]
  have htimer2 : (s1.setTimer t { s1.timers t with dueTime := (s.kiComputeDueTime dueTime).1 }).timers t =
      { s1.timers t with dueTime := (s.kiComputeDueTime dueTime).1 } := update_self ..
  refine ⟨_, hfirst.setTimer (by rw [htimer1]; exact hnot) (by rw [htimer1]; exact hnot), hclock1.trans ⟨rfl, rfl⟩,
    htimer2.trans ?_, ?_⟩
  · rw [htimer1, htimer]
  · have hdue : (s1.setTimer t { s1.timers t with dueTime := (s.kiComputeDueTime dueTime).1 }).dueTime t =
        (s.kiComputeDueTime dueTime).1 := by rw [TimerState.dueTime, htimer2]
    rw [hdue]

theorem kiSignalTimer_sound (hs : s.Sound) (hnot : (s.timers t).inserted = false) :
    (s.kiSignalTimer t).Sound ↔
      (0 < (s.timers t).period → s.interruptTime < (s.interruptTime + (s.timers t).period.toNat * 10000) % 2 ^ 64) := by
  have hsignal : (s.signal t).timers t = { s.timers t with signalState := 1 } := update_self ..
  have hsignalled : (s.signal t).Sound := by
    refine hs.of_unarmed rfl ⟨rfl, rfl⟩ rfl fun u => ?_
    by_cases hu : u = t
    · subst hu
      exact Or.inr ⟨hnot, by rw [hsignal]; exact hnot⟩
    · exact Or.inl (update_of_ne hu ..)
  have hqueued : ((s.signal t).queueDpc t).Sound :=
    hsignalled.of_unarmed (queueDpc_table _ t) (queueDpc_clock _ t) (queueDpc_hung _ t) fun u =>
      Or.inl (by rw [queueDpc_timers])
  have htimer : ((s.signal t).queueDpc t).timers t = { s.timers t with signalState := 1 } := by
    rw [queueDpc_timers, hsignal]
  have hclock : SameClock s ((s.signal t).queueDpc t) :=
    SameClock.trans (show SameClock s (s.signal t) from ⟨rfl, rfl⟩) (queueDpc_clock _ t)
  unfold kiSignalTimer
  dsimp only
  generalize (s.signal t).queueDpc t = s2 at *
  rw [htimer]
  dsimp only
  have hnext : (s2.rearm t s2.interruptTime).timers t = { s.timers t with
      signalState := 0, dueTime := (s.interruptTime + (s.timers t).period.toNat * 10000) % 2 ^ 64 } := by
    show update s2.timers t _ t = _
    rw [update_self, nextDueTime, htimer, hclock.interruptTime]
  have hrearmed : (s2.rearm t s2.interruptTime).Sound :=
    hqueued.setTimer (by rw [htimer]; exact hnot) (by rw [htimer]; exact hnot)
  have hinserted := hrearmed.insert (t := t) (by rw [hnext]; exact hnot) (by rw [hnext])
  rw [insert_dueTime, (insert_clock _ t _).interruptTime, dueTime, hnext]
  rw [dueTime, hnext] at hinserted
  have hnow : (s2.rearm t s2.interruptTime).interruptTime = s.interruptTime := hclock.interruptTime
  rw [hnow]
  split_ifs with hperiod hpast
  · refine iff_of_false (fun h => ?_) fun h => ?_
    · have hreturns : true = false := h.returns
      cases hreturns
    · exact absurd (h hperiod) (Nat.not_lt.2 hpast)
  · exact iff_of_true hinserted fun _ => Nat.not_le.1 hpast
  · exact iff_of_true hqueued fun h => absurd h hperiod

theorem set_sound_iff (hs : s.Sound) (t : ℕ) (dueTime period : ℤ) (dpc : Option ℕ) :
    (s.keSetTimerEx t dueTime period dpc).2.Sound ↔ s.SetKeeps t dueTime period := by
  by_cases hmin : dueTime = i64Min
  · refine iff_of_false (fun h => ?_) fun h => h.1 hmin
    have hreturns := h.returns
    unfold keSetTimerEx at hreturns
    dsimp only at hreturns
    rw [if_pos hmin] at hreturns
    cases hreturns
  obtain ⟨s1, hsound, hclock, htimer, heq⟩ := set_cases hs t hmin period dpc
  have hexpired : (s.kiComputeDueTime dueTime).2 = decide ((s.kiComputeDueTime dueTime).1 ≤ s.interruptTime) := rfl
  rw [heq, SetKeeps, and_iff_right hmin]
  split_ifs with hpast
  · rw [kiSignalTimer_sound hsound (by rw [htimer]), htimer, hclock.interruptTime]
  · rw [hexpired, decide_eq_true_eq, Nat.not_le] at hpast
    have hdue : s1.dueTime t = (s.kiComputeDueTime dueTime).1 := by rw [TimerState.dueTime, htimer]
    have hkx : s1.kxInsertTimer t (s1.kiComputeTimerTableIndex (s1.dueTime t)) =
        s1.kiInsertTimerTable t (s1.kiComputeTimerTableIndex (s1.dueTime t)) := by
      unfold kxInsertTimer
      dsimp only
      rw [insert_dueTime, (insert_clock _ t _).interruptTime, if_neg]
      rw [hdue, hclock.interruptTime]
      exact Nat.not_le.2 hpast
    rw [hkx]
    constructor
    · intro h
      have hsignal := h.future t (by rw [insert_timers, update_self])
        (by rw [insert_dueTime, (insert_clock _ t _).interruptTime, hclock.interruptTime, hdue]; exact hpast)
      rwa [insert_timers, update_self, htimer] at hsignal
    · intro hsignal
      exact hsound.insert (by rw [htimer]) (by rw [htimer]; exact hsignal)

/-! ### Runs -/

inductive TimerOp where
  | initTimer (t : ℕ) (type : TimerType)
  | set (t : ℕ) (dueTime period : ℤ) (dpc : Option ℕ)
  | cancel (t : ℕ)
  | advance (time : ℕ)
  | expire (late : ℕ)

/-- One call. -/
def step (s : TimerState) : TimerOp → TimerState
  | .initTimer t type => s.keInitializeTimerEx t type
  | .set t dueTime period dpc => (s.keSetTimerEx t dueTime period dpc).2
  | .cancel t => (s.keCancelTimer t).2
  | .advance time => { s with interruptTime := s.interruptTime + time }
  | .expire late => s.kiTimerExpiration (s.interruptTime - late)

/-- Every timer that an expiration finds due is as before, or has been signalled once, its DPC
queued, and armed again if it is periodic. -/
def NoneLost (s : TimerState) : TimerOp → Prop
  | .expire late => ∀ t, (s.timers t).inserted → s.dueTime t ≤ s.interruptTime - late →
      Same s (s.step (.expire late)) t ∨ Fired s (s.step (.expire late)) (s.interruptTime - late) t
  | _ => True

/-- A timer is initialized while not armed, and not signalled when set for the future. An expiration
takes at most 16 timers from a bucket, and no periodic one is due again. -/
def KeepsTimers (s : TimerState) : TimerOp → Prop
  | .initTimer t _ => (s.timers t).inserted = false
  | .set t dueTime period _ => s.SetKeeps t dueTime period
  | .expire late =>
    ∀ expired ∈ s.expiredFrom (s.interruptTime - late) maxTimersPerCall (range timerTableSize),
      s.BatchFits (s.interruptTime - late) expired
  | _ => True

/-- Before the first call. -/
def start (interruptTime : ℕ) (baseTime : ℤ) (timeIncrement : ℕ) : TimerState where
  timers _ := {}
  table _ := {}
  interruptTime := interruptTime
  baseTime := baseTime
  timeIncrement := timeIncrement
  dpcQueued _ := false
  signals _ := 0
  hung := false

theorem sound_start (interruptTime : ℕ) (baseTime : ℤ) (timeIncrement : ℕ) :
    (start interruptTime baseTime timeIncrement).Sound where
  sorted _ := Pairwise.nil
  time _ := rfl
  linked _ _ := by simp [start]
  nodup _ := nodup_nil
  future _ h := by cases h
  returns := rfl

theorem step_iff (hs : s.Sound) (op : TimerOp) : ((s.step op).Sound ∧ s.NoneLost op) ↔ s.KeepsTimers op := by
  cases op with
  | initTimer t type =>
    show _ ∧ True ↔ _
    rw [and_true]
    constructor
    · intro h
      by_contra hinserted
      rw [KeepsTimers, Bool.not_eq_false] at hinserted
      have hmem := (hs.linked _ t).2 ⟨hinserted, rfl⟩
      have hnow := ((h.linked _ t).1 hmem).1
      change (update s.timers t _ t).inserted = true at hnow
      rw [update_self] at hnow
      cases hnow
    · exact fun hnot => hs.setTimer hnot rfl
  | set t dueTime period dpc =>
    show _ ∧ True ↔ _
    rw [and_true]
    exact set_sound_iff hs t dueTime period dpc
  | cancel t => exact iff_of_true ⟨(cancel_spec hs t).1, trivial⟩ trivial
  | advance time =>
    refine iff_of_true ⟨⟨hs.sorted, hs.time, hs.linked, hs.nodup, fun t hinserted hfuture => ?_, hs.returns⟩, trivial⟩ trivial
    exact hs.future t hinserted (lt_of_le_of_lt (Nat.le_add_right _ _) hfuture)
  | expire late =>
    have hcurrent : s.interruptTime - late ≤ s.interruptTime := Nat.sub_le _ _
    constructor
    · rintro ⟨-, hnone⟩
      by_contra hfails
      obtain ⟨t, hinserted, hdue, hnotSame, hnotFired⟩ := expireBuckets_breaks hs hcurrent nodup_range hfails
      rcases hnone t hinserted hdue with h | h
      · exact hnotSame h
      · exact hnotFired h
    · intro hfits
      have hscanned := expireBuckets_spec hs hcurrent nodup_range hfits
      refine ⟨hscanned.sound, fun t _ _ => ?_⟩
      by_cases ht : t ∈ (s.expiredFrom (s.interruptTime - late) maxTimersPerCall (range timerTableSize)).flatten
      · exact Or.inr (hscanned.fired t ht)
      · exact Or.inl (hscanned.same t ht)

/-- In every run, every step keeps the table sound and every due timer accounted for if and
only if every step meets its condition. -/
theorem timers_kept_iff (interruptTime : ℕ) (baseTime : ℤ) (timeIncrement : ℕ) (ops : List TimerOp) :
    EveryStep step (fun s op => (s.step op).Sound ∧ s.NoneLost op) (start interruptTime baseTime timeIncrement) ops ↔
      EveryStep step KeepsTimers (start interruptTime baseTime timeIncrement) ops :=
  everyStep_iff (I := Sound) (G := fun _ _ => True) (fun _ op hs _ hc => ((step_iff hs op).2 hc).1)
    (fun _ op hs _ hc => (step_iff hs op).2 hc) (fun _ op hs _ hc hd => hc ((step_iff hs op).1 hd))
    (sound_start interruptTime baseTime timeIncrement) (everyStep_of_forall fun _ _ => trivial)

/-- A timer that was signalled is set again, for the future. -/
theorem set_again_signalled :
    ¬ EveryStep step (fun s op => (s.step op).Sound ∧ s.NoneLost op) (start 0 0 100000)
      [.initTimer 0 .notificationTimer, .set 0 0 0 none, .set 0 (-50000) 0 none] := by
  rintro ⟨-, -, ⟨hsound, -⟩, -⟩
  exact absurd (hsound.future 0 (by decide) (by decide)) (by decide)

end TimerState

end XenOS.Ke
