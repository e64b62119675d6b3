import XenOS.Ke.Sched
import Mathlib.Data.List.Nodup
import Mathlib.Data.Set.Insert

/-! Where the threads of a processor are. A thread that a step has in hand is nowhere; the others
are where their states say. Each primitive of the scheduler takes a thread in hand or puts it
down. -/

namespace XenOS.Ke.Sched

open List State

open Function (update update_self update_of_ne)

namespace Prcb

variable {s s' : Prcb} {hand hand' : Set ℕ} {pending pending' : List ℕ} {t u : ℕ}

/-- The threads out of hand, the idle thread apart, are each on the one list that its state names;
pending ones count as deferred. -/
structure Places (s : Prcb) (hand : Set ℕ) (pending : List ℕ) : Prop where
  ready : ∀ t p, t ∈ s.ready p ↔
    t ∉ hand ∧ t ≠ s.idleThread ∧ (s.threads t).state = .ready ∧ (s.threads t).priority = p
  deferred : ∀ t, t ∈ s.deferred ++ pending ↔ t ∉ hand ∧ t ≠ s.idleThread ∧ (s.threads t).state = .deferredReady
  next : ∀ t, s.nextThread = some t ↔ t ∉ hand ∧ t ≠ s.idleThread ∧ (s.threads t).state = .standby
  running : ∀ t, t ∉ hand → t ≠ s.idleThread → (s.threads t).state = .running → t = s.currentThread
  readyNodup : ∀ p, (s.ready p).Nodup
  deferredNodup : (s.deferred ++ pending).Nodup
  summary : ∀ p, s.readySummary p = true ↔ s.ready p ≠ []
  queued : ∀ t, (s.threads t).queued = true ↔ ∃ p, t ∈ s.ready p
  once : s.linkedTwice = false
  returns : s.hung = false

theorem setThread_self (s : Prcb) (t : ℕ) (thread : Thread) : (s.setThread t thread).threads t = thread :=
  update_self ..

theorem setThread_of_ne (s : Prcb) (thread : Thread) (h : u ≠ t) : (s.setThread t thread).threads u = s.threads u :=
  update_of_ne h ..

@[simp] theorem setThread_ready (s : Prcb) (t : ℕ) (thread : Thread) : (s.setThread t thread).ready = s.ready := rfl

structure Placed (s : Prcb) (hand : Set ℕ) (pending : List ℕ) (t : ℕ) : Prop where
  ready : ∀ p, t ∈ s.ready p ↔ t ∉ hand ∧ t ≠ s.idleThread ∧ (s.threads t).state = .ready ∧ (s.threads t).priority = p
  deferred : t ∈ s.deferred ++ pending ↔ t ∉ hand ∧ t ≠ s.idleThread ∧ (s.threads t).state = .deferredReady
  next : s.nextThread = some t ↔ t ∉ hand ∧ t ≠ s.idleThread ∧ (s.threads t).state = .standby
  running : t ∉ hand → t ≠ s.idleThread → (s.threads t).state = .running → t = s.currentThread
  queued : (s.threads t).queued = true ↔ ∃ p, t ∈ s.ready p

theorem Placed.of_hand (ht : t ∈ hand) (hready : ∀ p, t ∉ s.ready p) (hdeferred : t ∉ s.deferred ++ pending)
    (hnext : s.nextThread ≠ some t) (hqueued : (s.threads t).queued = false) : Placed s hand pending t where
  ready p := ⟨fun hmem => absurd hmem (hready p), fun hout => absurd ht hout.1⟩
  deferred := ⟨fun hmem => absurd hmem hdeferred, fun hout => absurd ht hout.1⟩
  next := ⟨fun heq => absurd heq hnext, fun hout => absurd ht hout.1⟩
  running hout := absurd ht hout
  queued := by
    rw [hqueued]
    exact ⟨fun hfalse => absurd hfalse Bool.false_ne_true, fun ⟨p, hmem⟩ => absurd hmem (hready p)⟩

structure Beside (s s' : Prcb) (pending pending' : List ℕ) (t : ℕ) : Prop where
  threads : ∀ u, u ≠ t → s'.threads u = s.threads u
  current : s'.currentThread = s.currentThread
  idle : s'.idleThread = s.idleThread
  ready : ∀ u p, u ≠ t → (u ∈ s'.ready p ↔ u ∈ s.ready p)
  deferred : ∀ u, u ≠ t → (u ∈ s'.deferred ++ pending' ↔ u ∈ s.deferred ++ pending)
  next : ∀ u, u ≠ t → (s'.nextThread = some u ↔ s.nextThread = some u)

namespace Places

section
variable (h : Places s hand pending)
include h

theorem not_ready_of_hand (ht : t ∈ hand) (p : ℤ) : t ∉ s.ready p :=
  fun hmem => ((h.ready t p).1 hmem).1 ht

theorem not_deferred_of_hand (ht : t ∈ hand) : t ∉ s.deferred ++ pending :=
  fun hmem => ((h.deferred t).1 hmem).1 ht

theorem not_next_of_hand (ht : t ∈ hand) : s.nextThread ≠ some t :=
  fun heq => ((h.next t).1 heq).1 ht

theorem not_queued (hready : ∀ p, t ∉ s.ready p) : (s.threads t).queued = false :=
  Bool.eq_false_iff.2 fun hqueued => by
    obtain ⟨p, hp⟩ := (h.queued t).1 hqueued
    exact hready p hp

theorem not_queued_of_hand (ht : t ∈ hand) : (s.threads t).queued = false :=
  h.not_queued (h.not_ready_of_hand ht)

theorem not_ready_of_state (hstate : (s.threads t).state ≠ .ready) (p : ℤ) : t ∉ s.ready p :=
  fun hmem => hstate ((h.ready t p).1 hmem).2.2.1

theorem not_deferred_of_state (hstate : (s.threads t).state ≠ .deferredReady) :
    t ∉ s.deferred ++ pending :=
  fun hmem => hstate ((h.deferred t).1 hmem).2.2

theorem not_next_of_state (hstate : (s.threads t).state ≠ .standby) : s.nextThread ≠ some t :=
  fun heq => hstate ((h.next t).1 heq).2.2

theorem move (hbeside : Beside s s' pending pending' t)
    (hhand : ∀ u, u ≠ t → (u ∉ hand' ↔ u ∉ hand)) (hplaced : Placed s' hand' pending' t)
    (hreadyNodup : ∀ p, (s'.ready p).Nodup) (hdeferredNodup : (s'.deferred ++ pending').Nodup)
    (hsummary : ∀ p, s'.readySummary p = true ↔ s'.ready p ≠ []) (honce : s'.linkedTwice = false)
    (hreturns : s'.hung = false) : Places s' hand' pending' where
  ready u p := by
    by_cases hu : u = t
    · exact hu ▸ hplaced.ready p
    · rw [hbeside.ready u p hu, hbeside.threads u hu, hbeside.idle, hhand u hu]
      exact h.ready u p
  deferred u := by
    by_cases hu : u = t
    · exact hu ▸ hplaced.deferred
    · rw [hbeside.deferred u hu, hbeside.threads u hu, hbeside.idle, hhand u hu]
      exact h.deferred u
  next u := by
    by_cases hu : u = t
    · exact hu ▸ hplaced.next
    · rw [hbeside.next u hu, hbeside.threads u hu, hbeside.idle, hhand u hu]
      exact h.next u
  running u := by
    by_cases hu : u = t
    · exact hu ▸ hplaced.running
    · rw [hbeside.threads u hu, hbeside.idle, hbeside.current, hhand u hu]
      exact h.running u
  readyNodup := hreadyNodup
  deferredNodup := hdeferredNodup
  summary := hsummary
  queued u := by
    by_cases hu : u = t
    · exact hu ▸ hplaced.queued
    · simp only [hbeside.threads u hu, hbeside.ready u _ hu]
      exact h.queued u
  once := honce
  returns := hreturns

theorem setHand (ht : t ∈ hand) (thread : Thread) (hqueued : thread.queued = false) :
    Places (s.setThread t thread) hand pending := by
  have hself : ((s.setThread t thread).threads t).queued = false := by
    rw [setThread_self, hqueued]
  exact h.move ⟨fun u hu => setThread_of_ne s thread hu, rfl, rfl, fun _ _ _ => Iff.rfl, fun _ _ => Iff.rfl, fun _ _ => Iff.rfl⟩
    (fun _ _ => Iff.rfl)
    (.of_hand ht (h.not_ready_of_hand ht) (h.not_deferred_of_hand ht) (h.not_next_of_hand ht) hself)
    h.readyNodup h.deferredNodup h.summary h.once h.returns

theorem setKept {thread : Thread} (hstate : thread.state = (s.threads t).state)
    (hqueued : thread.queued = (s.threads t).queued)
    (hpriority : (s.threads t).state = .ready → thread.priority = (s.threads t).priority) :
    Places (s.setThread t thread) hand pending := by
  have hplaced : Placed (s.setThread t thread) hand pending t := by
    refine ⟨fun p => ?_, ?_, ?_, ?_, ?_⟩
    · rw [setThread_self, hstate]
      refine (h.ready t p).trans ?_
      constructor
      · rintro ⟨hout, hidle, hready, hp⟩
        exact ⟨hout, hidle, hready, (hpriority hready).trans hp⟩
      · rintro ⟨hout, hidle, hready, hp⟩
        exact ⟨hout, hidle, hready, (hpriority hready).symm.trans hp⟩
    · rw [setThread_self, hstate]
      exact h.deferred t
    · rw [setThread_self, hstate]
      exact h.next t
    · rw [setThread_self, hstate]
      exact h.running t
    · rw [setThread_self, hqueued]
      exact h.queued t
  exact h.move ⟨fun u hu => setThread_of_ne s thread hu, rfl, rfl, fun _ _ _ => Iff.rfl, fun _ _ => Iff.rfl, fun _ _ => Iff.rfl⟩
    (fun _ _ => Iff.rfl) hplaced h.readyNodup h.deferredNodup h.summary h.once h.returns

end

theorem notMem_insert_iff (hu : u ≠ t) : u ∉ insert t hand ↔ u ∉ hand := by
  simp [Set.mem_insert_iff, hu]

theorem take (h : Places s hand pending) (hready : (s.threads t).state ≠ .ready) (hstandby : (s.threads t).state ≠ .standby)
    (hdeferred : (s.threads t).state ≠ .deferredReady) : Places s (insert t hand) pending :=
  h.move ⟨fun _ _ => rfl, rfl, rfl, fun _ _ _ => Iff.rfl, fun _ _ => Iff.rfl, fun _ _ => Iff.rfl⟩
    (fun _ => notMem_insert_iff)
    (.of_hand (Set.mem_insert t hand) (h.not_ready_of_state hready) (h.not_deferred_of_state hdeferred)
      (h.not_next_of_state hstandby) (h.not_queued (h.not_ready_of_state hready)))
    h.readyNodup h.deferredNodup h.summary h.once h.returns

theorem takeNext (h : Places s hand pending) (hnext : s.nextThread = some t) :
    Places { s with nextThread := none } (insert t hand) pending := by
  obtain ⟨hout, hidle, hstate⟩ := (h.next t).1 hnext
  have hready : (s.threads t).state ≠ .ready := by simp [hstate]
  have hdeferred : (s.threads t).state ≠ .deferredReady := by simp [hstate]
  refine h.move ⟨fun _ _ => rfl, rfl, rfl, fun _ _ _ => Iff.rfl, fun _ _ => Iff.rfl, fun u hu => ?_⟩ (fun _ => notMem_insert_iff)
    (.of_hand (Set.mem_insert t hand) (h.not_ready_of_state hready) (h.not_deferred_of_state hdeferred) (by simp)
      (h.not_queued (h.not_ready_of_state hready)))
    h.readyNodup h.deferredNodup h.summary h.once h.returns
  rw [hnext]
  simp [Ne.symm hu]

theorem takePending (h : Places s hand (t :: pending)) : Places s (insert t hand) pending := by
  have hmem : t ∈ s.deferred ++ t :: pending := by simp
  obtain ⟨hout, hidle, hstate⟩ := (h.deferred t).1 hmem
  have hready : (s.threads t).state ≠ .ready := by simp [hstate]
  have hstandby : (s.threads t).state ≠ .standby := by simp [hstate]
  obtain ⟨hnot, hrest⟩ := nodup_cons.1 (nodup_middle.1 h.deferredNodup)
  refine h.move ⟨fun _ _ => rfl, rfl, rfl, fun _ _ _ => Iff.rfl, fun u hu => ?_, fun _ _ => Iff.rfl⟩ (fun _ => notMem_insert_iff)
    (.of_hand (Set.mem_insert t hand) (h.not_ready_of_state hready) hnot (h.not_next_of_state hstandby)
      (h.not_queued (h.not_ready_of_state hready)))
    h.readyNodup hrest h.summary h.once h.returns
  simp [hu]

theorem takeReady (h : Places s hand pending) {p : ℤ} (ht : t ∈ s.ready p) {list : List ℕ} (hlist : list = (s.ready p).erase t) :
    Places { s.setThread t { s.threads t with queued := false } with
      ready := update s.ready p list
      readySummary := if list = [] then update s.readySummary p false else s.readySummary }
      (insert t hand) pending := by
  obtain ⟨hout, hidle, hstate, hpriority⟩ := (h.ready t p).1 ht
  have hdeferred : (s.threads t).state ≠ .deferredReady := by simp [hstate]
  have hstandby : (s.threads t).state ≠ .standby := by simp [hstate]
  have hmem (u : ℕ) (q : ℤ) : u ∈ update s.ready p list q ↔ u ∈ s.ready q ∧ u ≠ t := by
    by_cases hq : q = p
    · subst hq
      rw [update_self, hlist, (h.readyNodup q).mem_erase_iff, and_comm]
    · rw [update_of_ne hq]
      refine ⟨fun hu => ⟨hu, ?_⟩, fun hu => hu.1⟩
      rintro rfl
      exact hq (((h.ready u q).1 hu).2.2.2.symm.trans hpriority)
  have hgone (q : ℤ) : t ∉ update s.ready p list q := fun hin => ((hmem t q).1 hin).2 rfl
  refine h.move ⟨fun u hu => setThread_of_ne s _ hu, rfl, rfl, fun u q hu => (hmem u q).trans (and_iff_left hu), fun _ _ => Iff.rfl,
      fun _ _ => Iff.rfl⟩ (fun _ => notMem_insert_iff)
    (.of_hand (Set.mem_insert t hand) hgone (h.not_deferred_of_state hdeferred) (h.not_next_of_state hstandby)
      (congrArg Thread.queued (setThread_self s t _)))
    (fun q => ?_) h.deferredNodup (fun q => ?_) h.once h.returns
  · dsimp only
    by_cases hq : q = p
    · subst hq
      rw [update_self, hlist]
      exact (h.readyNodup q).erase t
    · rw [update_of_ne hq]
      exact h.readyNodup q
  · dsimp only
    by_cases hq : q = p
    · subst hq
      rw [update_self]
      split
      · rename_i hnil
        simp [hnil]
      · rename_i hnil
        have hne : s.ready q ≠ [] := ne_nil_of_mem ht
        simp [hnil, (h.summary q).2 hne]
    · rw [update_of_ne hq]
      split
      · rw [update_of_ne hq]
        exact h.summary q
      · exact h.summary q

theorem release (h : Places s (insert t hand) pending) (hready : (s.threads t).state ≠ .ready)
    (hstandby : (s.threads t).state ≠ .standby) (hdeferred : (s.threads t).state ≠ .deferredReady)
    (hrunning : (s.threads t).state = .running → t = s.currentThread) : Places s hand pending := by
  have hin : t ∈ insert t hand := Set.mem_insert t hand
  have hplaced : Placed s hand pending t :=
    ⟨fun p => ⟨fun hr => absurd hr (h.not_ready_of_hand hin p), fun hr => absurd hr.2.2.1 hready⟩,
      ⟨fun hd => absurd hd (h.not_deferred_of_hand hin), fun hd => absurd hd.2.2 hdeferred⟩,
      ⟨fun hn => absurd hn (h.not_next_of_hand hin), fun hn => absurd hn.2.2 hstandby⟩, fun _ _ => hrunning, h.queued t⟩
  exact h.move ⟨fun _ _ => rfl, rfl, rfl, fun _ _ _ => Iff.rfl, fun _ _ => Iff.rfl, fun _ _ => Iff.rfl⟩
    (fun _ hu => (notMem_insert_iff hu).symm) hplaced h.readyNodup h.deferredNodup h.summary h.once h.returns

theorem setCurrent (h : Places s hand pending) (c : ℕ)
    (hrunning : ∀ u, u ∉ hand → u ≠ s.idleThread → (s.threads u).state = .running → u = c) :
    Places { s with currentThread := c } hand pending :=
  ⟨h.ready, h.deferred, h.next, hrunning, h.readyNodup, h.deferredNodup, h.summary, h.queued, h.once, h.returns⟩

section
variable (h : Places s (insert t hand) pending)
include h

theorem enqueue (hout : t ∉ hand) (hidle : t ≠ s.idleThread) (front : Bool) :
    Places (s.enqueue t front) hand pending := by
  have hin : t ∈ insert t hand := Set.mem_insert t hand
  have hnot (p : ℤ) := h.not_ready_of_hand hin p
  have hself : (s.enqueue t front).threads t = { s.threads t with state := .ready, queued := true } := update_self ..
  have hmem (u : ℕ) (q : ℤ) : u ∈ (s.enqueue t front).ready q ↔ u ∈ s.ready q ∨ u = t ∧ q = (s.threads t).priority := by
    unfold Prcb.enqueue
    dsimp only
    by_cases hq : q = (s.threads t).priority
    · subst hq
      rw [update_self]
      cases front <;> simp [or_comm]
    · rw [update_of_ne hq]
      simp [hq, setThread]
  have hplaced : Placed (s.enqueue t front) hand pending t := by
    refine ⟨fun q => ?_, ?_, ?_, ?_, ?_⟩
    · rw [hmem, hself]
      simp only [hnot, false_or, true_and, hout, not_false_eq_true, ne_eq]
      exact ⟨fun heq => ⟨hidle, heq.symm⟩, fun heq => heq.2.symm⟩
    · rw [hself]
      exact ⟨fun hd => absurd hd (h.not_deferred_of_hand hin), fun hd => noConfusion hd.2.2⟩
    · rw [hself]
      exact ⟨fun hn => absurd hn (h.not_next_of_hand hin), fun hn => noConfusion hn.2.2⟩
    · rw [hself]
      exact fun _ _ hrun => noConfusion hrun
    · rw [hself]
      simp [hmem]
  refine h.move ⟨fun u hu => update_of_ne hu .., rfl, rfl, fun u q hu => (hmem u q).trans (by simp [hu]), fun _ _ => Iff.rfl,
      fun _ _ => Iff.rfl⟩ (fun _ hu => (notMem_insert_iff hu).symm) hplaced (fun q => ?_) h.deferredNodup (fun q => ?_) ?_ h.returns
  · unfold Prcb.enqueue
    dsimp only
    by_cases hq : q = (s.threads t).priority
    · subst hq
      rw [update_self]
      cases front
      · exact nodup_append.2 ⟨h.readyNodup _, nodup_singleton t, fun a ha b hb => by
          rw [mem_singleton.1 hb]
          rintro rfl
          exact hnot _ ha⟩
      · exact nodup_cons.2 ⟨hnot _, h.readyNodup _⟩
    · rw [update_of_ne hq]
      exact h.readyNodup q
  · unfold Prcb.enqueue
    dsimp only
    by_cases hq : q = (s.threads t).priority
    · subst hq
      rw [update_self, update_self]
      cases front <;> simp
    · rw [update_of_ne hq, update_of_ne hq]
      exact h.summary q
  · show (s.linkedTwice || (s.threads t).queued) = false
    rw [h.once, h.not_queued_of_hand hin]
    rfl

theorem setNext (hout : t ∉ hand) (hidle : t ≠ s.idleThread)
    (hnext : s.nextThread = none) : Places (s.setNext t) hand pending := by
  have hin : t ∈ insert t hand := Set.mem_insert t hand
  have hself : (s.setNext t).threads t = { s.threads t with state := .standby } := update_self ..
  have hplaced : Placed (s.setNext t) hand pending t := by
    refine ⟨fun q => ?_, ?_, ?_, ?_, ?_⟩
    · rw [hself]
      exact ⟨fun hr => absurd hr (h.not_ready_of_hand hin q), fun hr => noConfusion hr.2.2.1⟩
    · rw [hself]
      exact ⟨fun hd => absurd hd (h.not_deferred_of_hand hin), fun hd => noConfusion hd.2.2⟩
    · rw [hself]
      exact ⟨fun _ => ⟨hout, hidle, rfl⟩, fun _ => rfl⟩
    · rw [hself]
      exact fun _ _ hrun => noConfusion hrun
    · rw [hself]
      exact h.queued t
  refine h.move ⟨fun u hu => update_of_ne hu .., rfl, rfl, fun _ _ _ => Iff.rfl, fun _ _ => Iff.rfl, fun u hu => ?_⟩
    (fun _ hu => (notMem_insert_iff hu).symm) hplaced h.readyNodup h.deferredNodup h.summary h.once h.returns
  show some t = some u ↔ s.nextThread = some u
  rw [hnext]
  simp [Ne.symm hu]

theorem insertDeferred (hout : t ∉ hand) (hidle : t ≠ s.idleThread) :
    Places (s.kiInsertDeferredReadyList t) hand pending := by
  have hin : t ∈ insert t hand := Set.mem_insert t hand
  have hself : (s.kiInsertDeferredReadyList t).threads t = { s.threads t with state := .deferredReady } := update_self ..
  have hnot := h.not_deferred_of_hand hin
  have hplaced : Placed (s.kiInsertDeferredReadyList t) hand pending t := by
    refine ⟨fun q => ?_, ?_, ?_, ?_, ?_⟩
    · rw [hself]
      exact ⟨fun hr => absurd hr (h.not_ready_of_hand hin q), fun hr => noConfusion hr.2.2.1⟩
    · rw [hself]
      exact ⟨fun _ => ⟨hout, hidle, rfl⟩, fun _ => mem_cons_self⟩
    · rw [hself]
      exact ⟨fun hn => absurd hn (h.not_next_of_hand hin), fun hn => noConfusion hn.2.2⟩
    · rw [hself]
      exact fun _ _ hrun => noConfusion hrun
    · rw [hself]
      exact h.queued t
  refine h.move ⟨fun u hu => update_of_ne hu .., rfl, rfl, fun _ _ _ => Iff.rfl, fun u hu => ?_, fun _ _ => Iff.rfl⟩
    (fun _ hu => (notMem_insert_iff hu).symm) hplaced h.readyNodup (nodup_cons.2 ⟨hnot, h.deferredNodup⟩) h.summary ?_ h.returns
  · show u ∈ t :: (s.deferred ++ pending) ↔ _
    rw [mem_cons, or_iff_right hu]
  · show (s.linkedTwice || (s.threads t).queued || decide (t ∈ s.deferred)) = false
    rw [h.once, h.not_queued_of_hand hin, decide_eq_false fun hmem => hnot (mem_append_left _ hmem)]
    rfl

end

end Places

end Prcb

end XenOS.Ke.Sched
