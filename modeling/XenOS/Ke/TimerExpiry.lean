import XenOS.Ke.TimerTable

/-! What `ki_timer_expiration` does, bucket by bucket: the timers that a bucket gives up
fit into the batch, are signalled and, if they are periodic, armed again. -/

namespace XenOS.Ke

open Function (update update_self update_of_ne)
open List (foldl_cons mem_append mem_cons mem_cons_self mem_singleton)

namespace TimerState

variable {s s' s'' : TimerState} {t u hand currentTime room index : ℕ} {batch expired : List ℕ}

structure Same (s s' : TimerState) (t : ℕ) : Prop where
  timer : s'.timers t = s.timers t
  signals : s'.signals t = s.signals t

structure Fired (s s' : TimerState) (currentTime t : ℕ) : Prop where
  signals : s'.signals t = s.signals t + 1
  queued : ∀ dpc, (s.timers t).dpc = some dpc → s'.dpcQueued dpc
  timer : s'.timers t =
    if 0 < (s.timers t).period then
      { s.timers t with signalState := 0, dueTime := s.nextDueTime t currentTime, inserted := true }
    else { s.timers t with signalState := 1, inserted := false }

structure Scanned (s s' : TimerState) (currentTime : ℕ) (expired : List ℕ) : Prop where
  sound : s'.Sound
  clock : SameClock s s'
  fired : ∀ t ∈ expired, Fired s s' currentTime t
  same : ∀ t ∉ expired, Same s s' t
  dpcs : ∀ dpc, s.dpcQueued dpc → s'.dpcQueued dpc

theorem Scanned.refl (hs : s.Sound) : Scanned s s currentTime [] :=
  ⟨hs, .refl s, by simp, fun _ _ => ⟨rfl, rfl⟩, fun _ h => h⟩

theorem Scanned.trans {expired' : List ℕ} (h : Scanned s s' currentTime expired) (h' : Scanned s' s'' currentTime expired')
    (hdisjoint : ∀ t ∈ expired, t ∉ expired') : Scanned s s'' currentTime (expired ++ expired') := by
  refine ⟨h'.sound, h.clock.trans h'.clock, fun t ht => ?_, fun t ht => ?_, fun dpc hdpc => h'.dpcs dpc (h.dpcs dpc hdpc)⟩
  · rcases mem_append.1 ht with ht | ht
    · have hfired := h.fired t ht
      have hsame := h'.same t (hdisjoint t ht)
      exact ⟨hsame.signals.trans hfired.signals, fun dpc hdpc => h'.dpcs dpc (hfired.queued dpc hdpc),
        hsame.timer.trans hfired.timer⟩
    · have hsame := h.same t fun hmem => hdisjoint t hmem ht
      have hfired := h'.fired t ht
      refine ⟨by rw [hfired.signals, hsame.signals], fun dpc hdpc => hfired.queued dpc (by rwa [hsame.timer]), ?_⟩
      rw [hfired.timer, nextDueTime, nextDueTime, hsame.timer]
  · rw [mem_append, not_or] at ht
    have hsame := h.same t ht.1
    have hsame' := h'.same t ht.2
    exact ⟨hsame'.timer.trans hsame.timer, hsame'.signals.trans hsame.signals⟩

theorem signal_batch (hnodup : batch.Nodup) (s : TimerState) :
    let s' := batch.foldl signal s
    (s'.timers = fun t => if t ∈ batch then { s.timers t with signalState := 1 } else s.timers t) ∧
      (s'.signals = fun t => if t ∈ batch then s.signals t + 1 else s.signals t) ∧
      s'.table = s.table ∧ SameClock s s' ∧ s'.hung = s.hung ∧ s'.dpcQueued = s.dpcQueued := by
  induction batch generalizing s with
  | nil => simp [SameClock.refl]
  | cons u batch ih =>
    obtain ⟨hu, hnodup⟩ := List.nodup_cons.1 hnodup
    obtain ⟨htimers, hsignals, htable, hclock, hhung, hdpcs⟩ := ih hnodup (s.signal u)
    refine ⟨?_, ?_, htable, .trans (by exact ⟨rfl, rfl⟩) hclock, hhung, hdpcs⟩
    · rw [foldl_cons, htimers]
      funext t
      by_cases htu : t = u
      · subst htu
        rw [if_neg hu, if_pos mem_cons_self]
        exact update_self ..
      · have hold : (s.signal u).timers t = s.timers t := update_of_ne htu ..
        simp only [mem_cons, htu, false_or, hold]
    · rw [foldl_cons, hsignals]
      funext t
      by_cases htu : t = u
      · subst htu
        rw [if_neg hu, if_pos mem_cons_self]
        exact update_self ..
      · have hold : (s.signal u).signals t = s.signals t := update_of_ne htu ..
        simp only [mem_cons, htu, false_or, hold]

@[simp] theorem queueDpc_timers (s : TimerState) (t : ℕ) : (s.queueDpc t).timers = s.timers := by
  unfold queueDpc
  split <;> rfl

@[simp] theorem queueDpc_table (s : TimerState) (t : ℕ) : (s.queueDpc t).table = s.table := by
  unfold queueDpc
  split <;> rfl

@[simp] theorem queueDpc_signals (s : TimerState) (t : ℕ) : (s.queueDpc t).signals = s.signals := by
  unfold queueDpc
  split <;> rfl

@[simp] theorem queueDpc_hung (s : TimerState) (t : ℕ) : (s.queueDpc t).hung = s.hung := by
  unfold queueDpc
  split <;> rfl

theorem queueDpc_clock (s : TimerState) (t : ℕ) : SameClock s (s.queueDpc t) := by
  unfold queueDpc
  split <;> exact ⟨rfl, rfl⟩

theorem queueDpc_keeps (s : TimerState) (t : ℕ) (dpc : ℕ) (h : s.dpcQueued dpc) : (s.queueDpc t).dpcQueued dpc := by
  unfold queueDpc
  split
  · exact h
  · rename_i own _
    by_cases heq : dpc = own
    · subst heq
      exact update_self ..
    · show update s.dpcQueued own true dpc = true
      rwa [update_of_ne heq]

theorem queueDpc_queues {dpc : ℕ} (h : (s.timers t).dpc = some dpc) : (s.queueDpc t).dpcQueued dpc := by
  unfold queueDpc
  rw [h]
  exact update_self ..

structure Finished (s s' : TimerState) (currentTime : ℕ) (batch : List ℕ) : Prop where
  sound : s'.Sound
  clock : SameClock s s'
  signals : s'.signals = s.signals
  timer : ∀ t ∈ batch, s'.timers t =
    if 0 < (s.timers t).period then
      { s.timers t with signalState := 0, dueTime := s.nextDueTime t currentTime, inserted := true }
    else s.timers t
  same : ∀ t ∉ batch, s'.timers t = s.timers t
  queued : ∀ t ∈ batch, ∀ dpc, (s.timers t).dpc = some dpc → s'.dpcQueued dpc
  dpcs : ∀ dpc, s.dpcQueued dpc → s'.dpcQueued dpc
  expired : ∀ room index, s'.expiredIn currentTime room index = s.expiredIn currentTime room index

theorem Finished.one (hs : s.Sound) (hnot : (s.timers t).inserted = false) (hcurrent : currentTime ≤ s.interruptTime)
    (hlater : 0 < (s.timers t).period → s.interruptTime < s.nextDueTime t currentTime) :
    Finished s (s.finishExpired currentTime t) currentTime [t] := by
  have hqueued : (s.queueDpc t).Sound :=
    hs.of_unarmed (queueDpc_table s t) (queueDpc_clock s t) (queueDpc_hung s t) fun u => Or.inl (by rw [queueDpc_timers])
  have hexpired (room index : ℕ) : (s.queueDpc t).expiredIn currentTime room index = s.expiredIn currentTime room index :=
    expiredIn_congr (by rw [queueDpc_table]) fun u _ => by rw [dueTime, queueDpc_timers, dueTime]
  unfold finishExpired
  dsimp only
  rw [queueDpc_timers]
  split_ifs with hperiod
  · have hnext : ((s.queueDpc t).rearm t currentTime).timers t =
        { s.timers t with signalState := 0, dueTime := s.nextDueTime t currentTime } := by
      show update (s.queueDpc t).timers t _ t = _
      rw [update_self, nextDueTime, queueDpc_timers, nextDueTime]
    have hother {u : ℕ} (hu : u ≠ t) : ((s.queueDpc t).rearm t currentTime).timers u = s.timers u := by
      show update (s.queueDpc t).timers t _ u = _
      rw [update_of_ne hu, queueDpc_timers]
    have hclock : SameClock s ((s.queueDpc t).rearm t currentTime) := .trans (queueDpc_clock s t) ⟨rfl, rfl⟩
    have hdue : ((s.queueDpc t).rearm t currentTime).dueTime t = s.nextDueTime t currentTime := by rw [dueTime, hnext]
    have hrearmed : ((s.queueDpc t).rearm t currentTime).Sound := by
      refine hs.of_unarmed (queueDpc_table s t) hclock (queueDpc_hung s t) fun u => ?_
      by_cases hu : u = t
      · subst hu
        exact Or.inr ⟨hnot, by rw [hnext]; exact hnot⟩
      · exact Or.inl (hother hu)
    have hlater := hlater hperiod
    have hinserted := hrearmed.insert (t := t) (by rw [hnext]; exact hnot) (by rw [hnext])
    have hclock' := hclock.trans (insert_clock _ t (((s.queueDpc t).rearm t currentTime).kiComputeTimerTableIndex
      (((s.queueDpc t).rearm t currentTime).dueTime t)))
    have hkx : ((s.queueDpc t).rearm t currentTime).kxInsertTimer t (((s.queueDpc t).rearm t currentTime).kiComputeTimerTableIndex
        (((s.queueDpc t).rearm t currentTime).dueTime t)) = ((s.queueDpc t).rearm t currentTime).kiInsertTimerTable t
        (((s.queueDpc t).rearm t currentTime).kiComputeTimerTableIndex (((s.queueDpc t).rearm t currentTime).dueTime t)) := by
      unfold kxInsertTimer
      dsimp only
      rw [insert_dueTime, hclock'.interruptTime, hdue, if_neg (Nat.not_le.2 hlater)]
    rw [hkx]
    refine ⟨hinserted, hclock', ?_, fun u hu => ?_, fun u hu => ?_, fun u hu dpc hdpc => ?_, fun dpc hdpc => ?_,
      fun room index => ?_⟩
    · rw [insert_signals]
      exact queueDpc_signals s t
    · rw [mem_singleton.1 hu, insert_timers, update_self, hnext, if_pos hperiod]
    · have hne : u ≠ t := fun heq => hu (mem_singleton.2 heq)
      rw [insert_timers, update_of_ne hne, hother hne]
    · rw [mem_singleton.1 hu] at hdpc
      rw [insert_dpcQueued]
      exact queueDpc_queues hdpc
    · rw [insert_dpcQueued]
      exact queueDpc_keeps s t dpc hdpc
    · rw [expiredIn_insert hrearmed (by rw [hdue]; exact lt_of_le_of_lt hcurrent hlater)]
      refine expiredIn_congr (by exact congrFun (queueDpc_table s t) index) fun u hu => ?_
      have hne : u ≠ t := fun heq => by
        subst heq
        rw [((hs.linked index u).1 hu).1] at hnot
        cases hnot
      rw [dueTime, hother hne, dueTime]
  · refine ⟨hqueued, queueDpc_clock s t, queueDpc_signals s t, fun u hu => ?_, fun u _ => ?_, fun u hu dpc hdpc => ?_,
      queueDpc_keeps s t, hexpired⟩
    · rw [mem_singleton.1 hu, if_neg hperiod, queueDpc_timers]
    · rw [queueDpc_timers]
    · rw [mem_singleton.1 hu] at hdpc
      exact queueDpc_queues hdpc

theorem finish_batch (hs : s.Sound) (hnodup : batch.Nodup) (hcurrent : currentTime ≤ s.interruptTime)
    (hnot : ∀ t ∈ batch, (s.timers t).inserted = false)
    (hlater : ∀ t ∈ batch, 0 < (s.timers t).period → s.interruptTime < s.nextDueTime t currentTime) :
    Finished s (batch.foldl (fun s t => s.finishExpired currentTime t) s) currentTime batch := by
  induction batch generalizing s with
  | nil =>
    exact ⟨hs, .refl s, rfl, by simp, fun _ _ => rfl, by simp, fun _ h => h, fun _ _ => rfl⟩
  | cons t batch ih =>
    obtain ⟨ht, hnodup⟩ := List.nodup_cons.1 hnodup
    have h := Finished.one hs (hnot t mem_cons_self) hcurrent (hlater t mem_cons_self)
    have hold {u : ℕ} (hu : u ∈ batch) : (s.finishExpired currentTime t).timers u = s.timers u :=
      h.same u fun hmem => ht (mem_singleton.1 hmem ▸ hu)
    have h' := ih h.sound hnodup (by rw [h.clock.interruptTime]; exact hcurrent)
      (fun u hu => by rw [hold hu]; exact hnot u (List.mem_cons_of_mem t hu)) fun u hu hperiod => by
        rw [h.clock.interruptTime, nextDueTime, hold hu]
        rw [hold hu] at hperiod
        exact hlater u (List.mem_cons_of_mem t hu) hperiod
    rw [foldl_cons]
    refine ⟨h'.sound, h.clock.trans h'.clock, h'.signals.trans h.signals, fun u hu => ?_, fun u hu => ?_,
      fun u hu dpc hdpc => ?_, fun dpc hdpc => h'.dpcs dpc (h.dpcs dpc hdpc),
      fun room index => (h'.expired room index).trans (h.expired room index)⟩
    · rcases mem_cons.1 hu with rfl | hu
      · rw [h'.same u ht, h.timer u (mem_singleton.2 rfl)]
      · rw [h'.timer u hu, nextDueTime, hold hu, nextDueTime]
    · rw [mem_cons, not_or] at hu
      rw [h'.same u hu.2, h.same u fun hmem => hu.1 (mem_singleton.1 hmem)]
    · rcases mem_cons.1 hu with rfl | hu
      · exact h'.dpcs dpc (h.queued u (mem_singleton.2 rfl) dpc hdpc)
      · exact h'.queued u hu dpc (by rwa [hold hu])

def BatchFits (s : TimerState) (currentTime : ℕ) (expired : List ℕ) : Prop :=
  expired.length ≤ batchSize ∧
    ∀ t ∈ expired, 0 < (s.timers t).period → s.interruptTime < s.nextDueTime t currentTime

theorem expireBucket_spec (hs : s.Sound) (hcurrent : currentTime ≤ s.interruptTime)
    (hfits : s.BatchFits currentTime (s.expiredIn currentTime room index)) :
    Scanned s (s.expireBucket currentTime room index) currentTime (s.expiredIn currentTime room index) ∧
      ∀ room' j, j ≠ index →
        (s.expireBucket currentTime room index).expiredIn currentTime room' j = s.expiredIn currentTime room' j := by
  unfold expireBucket
  by_cases hdue : (s.table index).time ≠ timeMax ∧ (s.table index).time ≤ currentTime
  · have hexpired : s.expiredIn currentTime room index =
        (unlinkExpired s.dueTime currentTime room (s.table index).entry).1 := by rw [expiredIn, if_pos hdue]
    have hsplit := unlinkExpired_append s.dueTime currentTime room (s.table index).entry
    have hnodup := hs.nodup index
    rw [if_pos hdue]
    rw [hexpired] at hfits ⊢
    generalize (unlinkExpired s.dueTime currentTime room (s.table index).entry) = walk at *
    obtain ⟨expired, left⟩ := walk
    dsimp only at hfits hsplit ⊢
    rw [← hsplit, List.nodup_append] at hnodup
    have hbatch : expired.take batchSize = expired := List.take_of_length_le hfits.1
    rw [hbatch]
    have hmem {t : ℕ} : t ∈ (s.table index).entry ↔ t ∈ expired ∨ t ∈ left := by rw [← hsplit, mem_append]
    have htimers (t : ℕ) : ((s.clearLinks expired).setBucket index ⟨left, firstTime s.dueTime left⟩).timers t =
        { s.timers t with inserted := if t ∈ expired then false else (s.timers t).inserted } := by
      show (if t ∈ expired then _ else _) = _
      split_ifs <;> rfl
    have hunlinked : ((s.clearLinks expired).setBucket index ⟨left, firstTime s.dueTime left⟩).Sound := by
      refine @Sound.shrink _ _ index hs left (hsplit ▸ List.sublist_append_right _ _) ⟨rfl, rfl⟩ rfl rfl fun t => ?_
      rw [htimers]
      have hcut : (t ∈ (s.table index).entry ∧ t ∉ left) ↔ t ∈ expired := by
        rw [hmem]
        refine ⟨fun h => h.1.resolve_right h.2, fun h => ⟨Or.inl h, fun hleft => ?_⟩⟩
        exact hnodup.2.2 t h t hleft rfl
      simp only [hcut]
    have htable {j : ℕ} (hj : j ≠ index) :
        ((s.clearLinks expired).setBucket index ⟨left, firstTime s.dueTime left⟩).table j = s.table j :=
      update_of_ne hj ..
    have hclock : SameClock s ((s.clearLinks expired).setBucket index ⟨left, firstTime s.dueTime left⟩) := ⟨rfl, rfl⟩
    have hsignals : ((s.clearLinks expired).setBucket index ⟨left, firstTime s.dueTime left⟩).signals = s.signals := rfl
    have hdpcs : ((s.clearLinks expired).setBucket index ⟨left, firstTime s.dueTime left⟩).dpcQueued = s.dpcQueued := rfl
    generalize (s.clearLinks expired).setBucket index ⟨left, firstTime s.dueTime left⟩ = s1 at *
    -- The signals.
    obtain ⟨htimers2, hsignals2, htable2, hclock2, hhung2, hdpcs2⟩ := signal_batch hnodup.1 s1
    have htimer2 (t : ℕ) : (expired.foldl signal s1).timers t =
        if t ∈ expired then { s.timers t with inserted := false, signalState := 1 } else s.timers t := by
      rw [htimers2]
      dsimp only
      rw [htimers]
      split_ifs <;> rfl
    have hsound2 : (expired.foldl signal s1).Sound := by
      refine hunlinked.of_unarmed htable2 hclock2 hhung2 fun t => ?_
      rw [htimer2, htimers]
      split_ifs
      · exact Or.inr ⟨rfl, rfl⟩
      · exact Or.inl rfl
    generalize expired.foldl signal s1 = s2 at *
    have hclock2 := hclock.trans hclock2
    -- The DPCs and the periodic timers.
    have hcurrent2 : currentTime ≤ s2.interruptTime := by rw [hclock2.interruptTime]; exact hcurrent
    have hfinished := finish_batch hsound2 hnodup.1 hcurrent2
      (fun t ht => by rw [htimer2, if_pos ht]) fun t ht hperiod => by
        rw [htimer2, if_pos ht] at hperiod
        rw [hclock2.interruptTime, nextDueTime, htimer2, if_pos ht]
        exact hfits.2 t ht hperiod
    refine ⟨⟨hfinished.sound, hclock2.trans hfinished.clock, fun t ht => ⟨?_, fun dpc hdpc => ?_, ?_⟩,
      fun t ht => ⟨?_, ?_⟩, fun dpc hdpc => ?_⟩, fun room' j hj => ?_⟩
    · rw [hfinished.signals, hsignals2]
      dsimp only
      rw [if_pos ht, hsignals]
    · refine hfinished.queued t ht dpc ?_
      rw [htimer2, if_pos ht]
      exact hdpc
    · rw [hfinished.timer t ht, nextDueTime, nextDueTime, htimer2, if_pos ht]
    · rw [hfinished.same t ht, htimer2, if_neg ht]
    · rw [hfinished.signals, hsignals2]
      dsimp only
      rw [if_neg ht, hsignals]
    · refine hfinished.dpcs dpc ?_
      rw [hdpcs2, hdpcs]
      exact hdpc
    · rw [hfinished.expired]
      refine expiredIn_congr (by rw [htable2, htable hj]) fun t ht => ?_
      rw [dueTime, htimer2]
      split_ifs <;> rfl
  · have hexpired : s.expiredIn currentTime room index = [] := by rw [expiredIn, if_neg hdue]
    rw [if_neg hdue, hexpired]
    exact ⟨.refl hs, fun _ _ _ => rfl⟩

end TimerState

end XenOS.Ke
