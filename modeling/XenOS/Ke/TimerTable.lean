import XenOS.Ke.Timer

/-! What the table operations keep: sorted buckets with their first times, and links that
agree with the timers. -/

namespace XenOS.Ke

open List

open Function (update update_self update_of_ne)

section Lists
variable {due : ℕ → ℕ} {bound : ℕ}

theorem le_of_mem_rdropWhile {ts : List ℕ} (hsorted : ts.Pairwise fun a b => due a ≤ due b) {a : ℕ}
    (ha : a ∈ ts.rdropWhile fun b => decide (bound < due b)) : due a ≤ bound := by
  have hne := ne_nil_of_mem ha
  have hlast := rdropWhile_last_not (fun b => decide (bound < due b)) ts hne
  have hsorted' := hsorted.sublist (List.rdropWhile_prefix (fun b => decide (bound < due b)) (l := ts)).sublist
  have hle : due a ≤ due ((ts.rdropWhile fun b => decide (bound < due b)).getLast hne) := by
    rw [← dropLast_append_getLast hne, pairwise_append] at hsorted'
    rw [← dropLast_append_getLast hne, mem_append, mem_singleton] at ha
    rcases ha with ha | rfl
    · exact hsorted'.2.2 a ha _ (mem_singleton.2 rfl)
    · exact le_refl _
  have hnot : ¬ bound < due ((ts.rdropWhile fun b => decide (bound < due b)).getLast hne) := by simpa using hlast
  exact hle.trans (Nat.not_lt.1 hnot)

theorem lt_of_mem_rtakeWhile {ts : List ℕ} {a : ℕ} (ha : a ∈ ts.rtakeWhile fun b => decide (bound < due b)) :
    bound < due a := by simpa using mem_rtakeWhile_imp ha

end Lists

namespace TimerState

variable {s s' : TimerState} {t u hand : ℕ}

/-- Buckets are sorted and know their first time; a timer is linked once, in its bucket, exactly if
armed; none armed for the future is signalled. -/
structure Sound (s : TimerState) : Prop where
  sorted : ∀ i, (s.table i).entry.Pairwise fun a b => s.dueTime a ≤ s.dueTime b
  time : ∀ i, (s.table i).time = firstTime s.dueTime (s.table i).entry
  linked : ∀ i t, t ∈ (s.table i).entry ↔ (s.timers t).inserted ∧ i = s.kiComputeTimerTableIndex (s.dueTime t)
  nodup : ∀ i, (s.table i).entry.Nodup
  future : ∀ t, (s.timers t).inserted → s.interruptTime < s.dueTime t → (s.timers t).signalState = 0
  returns : s.hung = false

structure SameClock (s s' : TimerState) : Prop where
  interruptTime : s'.interruptTime = s.interruptTime
  timeIncrement : s'.timeIncrement = s.timeIncrement

theorem SameClock.index (h : SameClock s s') (due : ℕ) :
    s'.kiComputeTimerTableIndex due = s.kiComputeTimerTableIndex due := by
  rw [kiComputeTimerTableIndex, kiComputeTimerTableIndex, h.timeIncrement]

theorem SameClock.refl (s : TimerState) : SameClock s s := ⟨rfl, rfl⟩

theorem SameClock.trans {s'' : TimerState} (h : SameClock s s') (h' : SameClock s' s'') : SameClock s s'' :=
  ⟨h'.interruptTime.trans h.interruptTime, h'.timeIncrement.trans h.timeIncrement⟩

theorem Sound.of_unarmed (hs : s.Sound) (htable : s'.table = s.table) (hclock : SameClock s s') (hhung : s'.hung = s.hung)
    (hsame : ∀ t, s'.timers t = s.timers t ∨ (s.timers t).inserted = false ∧ (s'.timers t).inserted = false) :
    s'.Sound := by
  have hdue {i t : ℕ} (ht : t ∈ (s.table i).entry) : s'.dueTime t = s.dueTime t := by
    rcases hsame t with heq | ⟨hnot, -⟩
    · rw [dueTime, heq]
      rfl
    · rw [((hs.linked i t).1 ht).1] at hnot
      cases hnot
  refine ⟨fun i => ?_, fun i => ?_, fun i t => ?_, fun i => ?_, fun t hinserted hfuture => ?_, hhung.trans hs.returns⟩
  · rw [htable]
    exact (hs.sorted i).imp_of_mem fun ha hb h => by rwa [hdue ha, hdue hb]
  · rw [htable, hs.time i]
    cases hentry : (s.table i).entry with
    | nil => rfl
    | cons a as => exact (hdue (hentry ▸ mem_cons_self)).symm
  · rw [htable, hclock.index]
    rcases hsame t with heq | ⟨hnot, hnot'⟩
    · rw [hs.linked i t, dueTime, dueTime, heq]
    · rw [hs.linked i t, hnot, hnot']
      simp
  · rw [htable]
    exact hs.nodup i
  · rw [hclock.interruptTime] at hfuture
    rcases hsame t with heq | ⟨-, hnot'⟩
    · rw [heq] at hinserted ⊢
      rw [dueTime, heq] at hfuture
      exact hs.future t hinserted hfuture
    · rw [hnot'] at hinserted
      cases hinserted

theorem insert_table (s : TimerState) (t hand : ℕ) :
    (s.kiInsertTimerTable t hand).table = update s.table hand
      ⟨((s.table hand).entry.rdropWhile fun u => decide (s.dueTime t < s.dueTime u)) ++
        t :: (s.table hand).entry.rtakeWhile fun u => decide (s.dueTime t < s.dueTime u),
        if (s.table hand).entry.rdropWhile (fun u => decide (s.dueTime t < s.dueTime u)) = [] then s.dueTime t
        else (s.table hand).time⟩ := by
  have hsplit := rdropWhile_append_rtakeWhile (p := fun u => decide (s.dueTime t < s.dueTime u))
    (l := (s.table hand).entry)
  have hdue : (s.setTimer t { s.timers t with inserted := true }).dueTime t = s.dueTime t := by
    show (update s.timers t _ t).dueTime = _
    rw [update_self]
    rfl
  unfold kiInsertTimerTable
  dsimp only
  split
  · rename_i hnil
    rw [hnil, nil_append] at hsplit
    rw [setBucket, hnil, if_pos rfl, hsplit, hdue]
    rfl
  · rename_i before hne
    rw [setBucket, if_neg hne]
    rfl

theorem insert_timers (s : TimerState) (t hand : ℕ) :
    (s.kiInsertTimerTable t hand).timers = update s.timers t { s.timers t with inserted := true } := by
  unfold kiInsertTimerTable
  dsimp only
  split <;> rfl

@[simp] theorem insert_dueTime (s : TimerState) (t hand : ℕ) : (s.kiInsertTimerTable t hand).dueTime = s.dueTime := by
  funext u
  rw [dueTime, insert_timers]
  by_cases hut : u = t
  · subst hut
    rw [update_self]
    rfl
  · rw [update_of_ne hut]
    rfl

@[simp] theorem insert_signals (s : TimerState) (t hand : ℕ) : (s.kiInsertTimerTable t hand).signals = s.signals := by
  unfold kiInsertTimerTable
  dsimp only
  split <;> rfl

@[simp] theorem insert_dpcQueued (s : TimerState) (t hand : ℕ) : (s.kiInsertTimerTable t hand).dpcQueued = s.dpcQueued := by
  unfold kiInsertTimerTable
  dsimp only
  split <;> rfl

@[simp] theorem insert_hung (s : TimerState) (t hand : ℕ) : (s.kiInsertTimerTable t hand).hung = s.hung := by
  unfold kiInsertTimerTable
  dsimp only
  split <;> rfl

theorem insert_clock (s : TimerState) (t hand : ℕ) : SameClock s (s.kiInsertTimerTable t hand) := by
  unfold kiInsertTimerTable
  dsimp only
  split <;> exact ⟨rfl, rfl⟩

theorem Sound.insert (hs : s.Sound) (hnot : (s.timers t).inserted = false) (hsignal : (s.timers t).signalState = 0) :
    (s.kiInsertTimerTable t (s.kiComputeTimerTableIndex (s.dueTime t))).Sound := by
  generalize hhand : s.kiComputeTimerTableIndex (s.dueTime t) = hand
  have hfresh : t ∉ (s.table hand).entry := fun ht => by
    rw [((hs.linked hand t).1 ht).1] at hnot
    cases hnot
  have hsplit := rdropWhile_append_rtakeWhile (p := fun u => decide (s.dueTime t < s.dueTime u))
    (l := (s.table hand).entry)
  have hbefore {a : ℕ} (ha : a ∈ (s.table hand).entry.rdropWhile fun u => decide (s.dueTime t < s.dueTime u)) :
      s.dueTime a ≤ s.dueTime t := le_of_mem_rdropWhile (hs.sorted hand) ha
  have hafter {a : ℕ} (ha : a ∈ (s.table hand).entry.rtakeWhile fun u => decide (s.dueTime t < s.dueTime u)) :
      s.dueTime t < s.dueTime a := lt_of_mem_rtakeWhile ha
  have hsorted := hs.sorted hand
  have hnodup := hs.nodup hand
  have htime := hs.time hand
  have hmem (a : ℕ) : a ∈ (s.table hand).entry ↔
      a ∈ (s.table hand).entry.rdropWhile (fun u => decide (s.dueTime t < s.dueTime u)) ∨
      a ∈ (s.table hand).entry.rtakeWhile (fun u => decide (s.dueTime t < s.dueTime u)) := by
    conv_lhs => rw [← hsplit]
    exact mem_append
  have htable := insert_table s t hand
  have hclock := insert_clock s t hand
  generalize (s.table hand).entry.rdropWhile (fun u => decide (s.dueTime t < s.dueTime u)) = before at *
  generalize (s.table hand).entry.rtakeWhile (fun u => decide (s.dueTime t < s.dueTime u)) = after at *
  rw [← hsplit] at hsorted hnodup htime hfresh
  have hat : (s.kiInsertTimerTable t hand).table hand =
      ⟨before ++ t :: after, if before = [] then s.dueTime t else (s.table hand).time⟩ := by
    rw [htable, update_self]
  have hother {i : ℕ} (hi : i ≠ hand) : (s.kiInsertTimerTable t hand).table i = s.table i := by
    rw [htable, update_of_ne hi]
  refine ⟨fun i => ?_, fun i => ?_, fun i u => ?_, fun i => ?_, fun u hinserted hfuture => ?_,
    (insert_hung s t hand).trans hs.returns⟩
  · rw [insert_dueTime]
    by_cases hi : i = hand
    · subst hi
      rw [hat]
      rw [pairwise_append] at hsorted ⊢
      refine ⟨hsorted.1, pairwise_cons.2 ⟨fun a ha => (hafter ha).le, hsorted.2.1⟩, fun a ha b hb => ?_⟩
      rcases mem_cons.1 hb with rfl | hb
      · exact hbefore ha
      · exact hsorted.2.2 a ha b hb
    · rw [hother hi]
      exact hs.sorted i
  · rw [insert_dueTime]
    by_cases hi : i = hand
    · subst hi
      rw [hat]
      cases before with
      | nil => rfl
      | cons a as => exact htime
    · rw [hother hi]
      exact hs.time i
  · rw [insert_dueTime, hclock.index, insert_timers]
    by_cases hut : u = t
    · subst hut
      rw [update_self, hhand]
      by_cases hi : i = hand
      · subst hi
        rw [hat]
        simp
      · rw [hother hi, hs.linked i u, hnot]
        simp [hi]
    · rw [update_of_ne hut, ← hs.linked i u]
      by_cases hi : i = hand
      · subst hi
        rw [hat, hmem u]
        simp [hut]
      · rw [hother hi]
  · by_cases hi : i = hand
    · subst hi
      rw [hat]
      have hperm : (before ++ t :: after).Perm (t :: (before ++ after)) := perm_middle
      exact hperm.nodup_iff.2 (nodup_cons.2 ⟨hfresh, hnodup⟩)
    · rw [hother hi]
      exact hs.nodup i
  · rw [insert_dueTime, hclock.interruptTime] at hfuture
    rw [insert_timers] at hinserted ⊢
    by_cases hut : u = t
    · subst hut
      rw [update_self]
      exact hsignal
    · rw [update_of_ne hut] at hinserted ⊢
      exact hs.future u hinserted hfuture

theorem Sound.shrink (hs : s.Sound) {entry : List ℕ} (hsub : entry.Sublist (s.table hand).entry)
    (hclock : SameClock s s') (hhung : s'.hung = s.hung)
    (htable : s'.table = update s.table hand ⟨entry, firstTime s.dueTime entry⟩)
    (htimers : ∀ t, s'.timers t = { s.timers t with inserted :=
      if t ∈ (s.table hand).entry ∧ t ∉ entry then false else (s.timers t).inserted }) : s'.Sound := by
  have hdue : s'.dueTime = s.dueTime := by
    funext t
    rw [dueTime, htimers]
    rfl
  have hat : s'.table hand = ⟨entry, firstTime s.dueTime entry⟩ := by rw [htable, update_self]
  have hother {i : ℕ} (hi : i ≠ hand) : s'.table i = s.table i := by rw [htable, update_of_ne hi]
  refine ⟨fun i => ?_, fun i => ?_, fun i t => ?_, fun i => ?_, fun t hinserted hfuture => ?_, hhung.trans hs.returns⟩
  · rw [hdue]
    by_cases hi : i = hand
    · subst hi
      rw [hat]
      exact (hs.sorted i).sublist hsub
    · rw [hother hi]
      exact hs.sorted i
  · rw [hdue]
    by_cases hi : i = hand
    · subst hi
      rw [hat]
    · rw [hother hi]
      exact hs.time i
  · rw [hdue, hclock.index, htimers]
    have hlinked := hs.linked hand t
    by_cases hi : i = hand
    · subst hi
      rw [hat]
      by_cases ht : t ∈ entry
      · have hold := hlinked.1 (hsub.subset ht)
        simp [ht, hold.1, ← hold.2]
      · by_cases hold : t ∈ (s.table i).entry
        · simp [ht, hold]
        · rw [hlinked] at hold
          simp only [ht, hlinked, hold, false_and, if_false]
    · rw [hother hi, hs.linked i t]
      by_cases hcut : t ∈ (s.table hand).entry ∧ t ∉ entry
      · have hold := hlinked.1 hcut.1
        simp [hcut, ← hold.2, hi]
      · simp [hcut]
  · by_cases hi : i = hand
    · subst hi
      rw [hat]
      exact (hs.nodup i).sublist hsub
    · rw [hother hi]
      exact hs.nodup i
  · rw [hdue, hclock.interruptTime] at hfuture
    rw [htimers] at hinserted ⊢
    refine hs.future t ?_ hfuture
    dsimp only at hinserted
    split_ifs at hinserted
    exact hinserted

theorem Sound.remove (hs : s.Sound) (hinserted : (s.timers t).inserted) : (s.kxRemoveTreeTimer t).Sound := by
  have hmem : t ∈ (s.table (s.kiComputeTimerTableIndex (s.dueTime t))).entry := (hs.linked _ t).2 ⟨hinserted, rfl⟩
  have hnodup := hs.nodup (s.kiComputeTimerTableIndex (s.dueTime t))
  refine @Sound.shrink _ _ (s.kiComputeTimerTableIndex (s.dueTime t)) hs _ erase_sublist ⟨rfl, rfl⟩ rfl rfl fun u => ?_
  show update s.timers t _ u = _
  by_cases hut : u = t
  · subst hut
    rw [update_self, if_pos ⟨hmem, fun h => (hnodup.mem_erase_iff.1 h).1 rfl⟩]
  · rw [update_of_ne hut, if_neg]
    rintro ⟨hold, hcut⟩
    exact hcut ((mem_erase_of_ne hut).2 hold)

section Unlink
variable {due : ℕ → ℕ} {currentTime room : ℕ}

theorem unlinkExpired_append (due : ℕ → ℕ) (currentTime room : ℕ) (ts : List ℕ) :
    (unlinkExpired due currentTime room ts).1 ++ (unlinkExpired due currentTime room ts).2 = ts := by
  induction ts generalizing room with
  | nil => cases room <;> rfl
  | cons t ts ih =>
    cases room with
    | zero => rfl
    | succ room =>
      rw [unlinkExpired]
      split_ifs
      · exact congrArg (t :: ·) (ih room)
      · rfl

theorem le_of_mem_unlinkExpired {ts : List ℕ} {t : ℕ} (ht : t ∈ (unlinkExpired due currentTime room ts).1) :
    due t ≤ currentTime := by
  induction ts generalizing room with
  | nil => cases room <;> cases ht
  | cons u ts ih =>
    cases room with
    | zero => cases ht
    | succ room =>
      rw [unlinkExpired] at ht
      split_ifs at ht with hu
      · rcases mem_cons.1 ht with rfl | ht
        · exact hu
        · exact ih ht
      · cases ht

theorem unlinkExpired_congr {due' : ℕ → ℕ} {ts : List ℕ} (h : ∀ t ∈ ts, due' t = due t) :
    unlinkExpired due' currentTime room ts = unlinkExpired due currentTime room ts := by
  induction ts generalizing room with
  | nil => cases room <;> rfl
  | cons t ts ih =>
    cases room with
    | zero => rfl
    | succ room =>
      rw [unlinkExpired, unlinkExpired, h t mem_cons_self, ih fun u hu => h u (mem_cons_of_mem t hu)]

theorem unlinkExpired_insert {before after : List ℕ} {t : ℕ} (ht : currentTime < due t)
    (hafter : ∀ u ∈ after, currentTime < due u) :
    (unlinkExpired due currentTime room (before ++ t :: after)).1 =
      (unlinkExpired due currentTime room (before ++ after)).1 := by
  induction before generalizing room with
  | nil =>
    cases room with
    | zero => rfl
    | succ room =>
      rw [nil_append, nil_append, unlinkExpired, if_neg (Nat.not_le.2 ht)]
      cases after with
      | nil => rfl
      | cons u after => rw [unlinkExpired, if_neg (Nat.not_le.2 (hafter u mem_cons_self))]
  | cons u before ih =>
    cases room with
    | zero => rfl
    | succ room =>
      rw [cons_append, cons_append, unlinkExpired, unlinkExpired]
      split_ifs
      · exact congrArg (u :: ·) ih
      · rfl

end Unlink

section ExpiredIn
variable {currentTime room index : ℕ}

theorem mem_entry_of_expiredIn (ht : t ∈ s.expiredIn currentTime room index) :
    t ∈ (s.table index).entry ∧ s.dueTime t ≤ currentTime := by
  unfold expiredIn at ht
  split_ifs at ht
  · refine ⟨?_, le_of_mem_unlinkExpired ht⟩
    rw [← unlinkExpired_append s.dueTime currentTime room (s.table index).entry]
    exact mem_append_left _ ht
  · cases ht

theorem expiredIn_congr (htable : s'.table index = s.table index)
    (hdue : ∀ t ∈ (s.table index).entry, s'.dueTime t = s.dueTime t) :
    s'.expiredIn currentTime room index = s.expiredIn currentTime room index := by
  rw [expiredIn, expiredIn, htable, unlinkExpired_congr hdue]

theorem expiredIn_insert (hs : s.Sound) (hlater : currentTime < s.dueTime t) :
    (s.kiInsertTimerTable t hand).expiredIn currentTime room index = s.expiredIn currentTime room index := by
  by_cases hi : index = hand
  · subst hi
    have hsplit := rdropWhile_append_rtakeWhile (p := fun u => decide (s.dueTime t < s.dueTime u))
      (l := (s.table index).entry)
    have hafter {a : ℕ} (ha : a ∈ (s.table index).entry.rtakeWhile fun u => decide (s.dueTime t < s.dueTime u)) :
        s.dueTime t < s.dueTime a := lt_of_mem_rtakeWhile ha
    have htime := hs.time index
    rw [expiredIn, insert_dueTime, insert_table, update_self, expiredIn]
    dsimp only
    generalize (s.table index).entry.rdropWhile (fun u => decide (s.dueTime t < s.dueTime u)) = before at *
    generalize (s.table index).entry.rtakeWhile (fun u => decide (s.dueTime t < s.dueTime u)) = after at *
    cases before with
    | nil =>
      rw [if_neg (fun h => Nat.not_lt.2 h.2 (by rwa [if_pos rfl]))]
      rw [nil_append] at hsplit
      subst hsplit
      rw [htime]
      split_ifs with h
      · obtain ⟨hne, hle⟩ := h
        generalize (s.table index).entry = entry at *
        cases entry with
        | nil => exact absurd rfl hne
        | cons a as => exact absurd hle (Nat.not_le.2 (hlater.trans (hafter mem_cons_self)))
      · rfl
    | cons a as =>
      rw [if_neg (cons_ne_nil a as), unlinkExpired_insert hlater fun u hu => hlater.trans (hafter hu), hsplit]
  · refine expiredIn_congr ?_ fun u _ => congrFun (insert_dueTime s t hand) u
    rw [insert_table, update_of_ne hi]

end ExpiredIn

end TimerState

end XenOS.Ke
