import XenOS.General.Run
import XenOS.General.Walk
import Mathlib.Data.List.Count

/-! Deferred deletion. A thread that drops the last reference of an object pushes it on
`OBP_REAPER_LIST`, and queues the work item if the list was empty; the worker takes the whole list
and deletes its objects. The steps of any number of threads interleave. -/

namespace XenOS.Ob

open General
open Function (update)

inductive WorkItem where
  | reaper
  | other (n : ℕ)
  deriving DecidableEq

/-- Where a thread is in `obp_defer_object_deletion`. -/
inductive Push where
  | idle
  | load (header : ℕ)
  | write (header entry : ℕ)
  | cas (header entry : ℕ)
  | queue
  deriving DecidableEq

def Push.object : Push → Option ℕ
  | load header | write header _ | cas header _ => some header
  | _ => none

/-- Where a thread is in `obp_reap_object`. -/
inductive Reap where
  | none
  | swap
  | drain (header : ℕ)
  | delete (header next : ℕ)
  deriving DecidableEq

namespace Reap

def rest : Reap → ℕ
  | drain header => header
  | delete _ next => next
  | _ => 0

def deleting : Reap → Option ℕ
  | delete header _ => some header
  | _ => Option.none

/-- The thread runs code that may drop references: its own, or a delete procedure. -/
def dereferences : Reap → Bool
  | none | delete _ _ => true
  | _ => false

end Reap

inductive Place (T : Type*) where
  | live
  | pushing (t : T)
  | listed
  | chained (t : T)
  | deleting (t : T)
  deriving DecidableEq

/-- The count has reached zero and `obp_delete_object` has not been called. -/
def Place.pending {T : Type*} : Place T → Bool
  | pushing _ | listed | chained _ => true
  | _ => false

/-- The list, the `next_to_free` of each header, the work queue and the threads; for the record,
where each object is, its zeros and its deletions. Address 0 is null. -/
structure Reaper (T : Type*) where
  list : ℕ
  next : ℕ → ℕ
  queue : List WorkItem
  push : T → Push
  reap : T → Reap
  place : ℕ → Place T
  dropped : ℕ → ℕ
  deleted : ℕ → ℕ

inductive ReaperStep (T : Type*) where
  | drop (t : T) (header : ℕ)
  | load (t : T)
  | write (t : T)
  | cas (t : T)
  | queue (t : T)
  | enqueueOther (n : ℕ)
  | dequeue (t : T)
  | swap (t : T)
  | advance (t : T)
  | finish (t : T)

namespace Reaper

variable {T : Type*}

/-- No object is on its way. -/
def init (T : Type*) (next : ℕ → ℕ) (others : List ℕ) : Reaper T where
  list := 0
  next := next
  queue := others.map .other
  push _ := .idle
  reap _ := .none
  place _ := .live
  dropped _ := 0
  deleted _ := 0

variable [DecidableEq T]

def step (s : Reaper T) : ReaperStep T → Reaper T
  | .drop t header =>
    -- the count of a live object reaches zero; its memory is reused only after the deletion
    if s.push t = .idle ∧ (s.reap t).dereferences ∧ header ≠ 0 ∧ s.place header = .live then
      { s with
        push := update s.push t (.load header)
        place := update s.place header (.pushing t)
        dropped := update s.dropped header (s.dropped header + 1) }
    else s
  | .load t =>
    match s.push t with
    | .load header => { s with push := update s.push t (.write header s.list) }
    | _ => s
  | .write t =>
    match s.push t with
    | .write header entry =>
      { s with
        next := update s.next header entry
        push := update s.push t (.cas header entry) }
    | _ => s
  | .cas t =>
    match s.push t with
    | .cas header entry =>
      if s.list = entry then
        { s with
          list := header
          push := update s.push t (if entry = 0 then .queue else .idle)
          place := update s.place header .listed }
      else { s with push := update s.push t (.load header) }
    | _ => s
  | .queue t =>
    match s.push t with
    | .queue => { s with queue := s.queue ++ [.reaper], push := update s.push t .idle }
    | _ => s
  | .enqueueOther n => { s with queue := s.queue ++ [.other n] }
  | .dequeue t =>
    if s.push t = .idle ∧ s.reap t = .none then
      match s.queue with
      | [] => s
      | .reaper :: rest => { s with queue := rest, reap := update s.reap t .swap }
      | .other _ :: rest => { s with queue := rest }
    else s
  | .swap t =>
    match s.reap t with
    | .swap =>
      { s with
        list := 0
        reap := update s.reap t (.drain s.list)
        place := fun x => if s.place x = .listed then .chained t else s.place x }
    | _ => s
  | .advance t =>
    match s.reap t with
    | .drain header =>
      if header = 0 then { s with reap := update s.reap t .none }
      else
        { s with
          reap := update s.reap t (.delete header (s.next header))
          place := update s.place header (.deleting t)
          deleted := update s.deleted header (s.deleted header + 1) }
    | _ => s
  | .finish t =>
    match s.reap t with
    | .delete header next =>
      if s.push t = .idle then
        { s with
          reap := update s.reap t (.drain next)
          place := update s.place header .live }
      else s
    | _ => s

/-! ### The invariant -/

inductive Ticket (T : Type*) where
  | pusher (t : T)
  | queued
  | reaper (t : T)
  deriving DecidableEq

structure Ticketed (s : Reaper T) (holder : Option (Ticket T)) : Prop where
  list : s.list = 0 ↔ holder = none
  pusher : ∀ t, s.push t = .queue ↔ holder = some (.pusher t)
  reaper : ∀ t, s.reap t = .swap ↔ holder = some (.reaper t)
  queued : s.queue.count .reaper = if holder = some .queued then 1 else 0

structure Placed (s : Reaper T) : Prop where
  listed : ∃ xs, Walk 0 s.next s.list xs ∧ ∀ x, x ∈ xs ↔ s.place x = .listed
  chained : ∀ t, ∃ xs, Walk 0 s.next (s.reap t).rest xs ∧ ∀ x, x ∈ xs ↔ s.place x = .chained t
  pushing : ∀ t x, (s.push t).object = some x ↔ s.place x = .pushing t
  deleting : ∀ t x, (s.reap t).deleting = some x ↔ s.place x = .deleting t
  linked : ∀ t header entry, s.push t = .cas header entry → s.next header = entry
  null : s.place 0 = .live
  counts : ∀ x, s.dropped x = s.deleted x + if (s.place x).pending then 1 else 0

structure Inv (s : Reaper T) : Prop where
  placed : s.Placed
  ticketed : ∃ holder, s.Ticketed holder

section Steps
variable {s : Reaper T} {t : T} {header entry next : ℕ}

theorem inv_init (next : ℕ → ℕ) (others : List ℕ) : (init T next others).Inv where
  placed :=
    { listed := ⟨[], walk_nil.2 rfl, by simp [init]⟩
      chained := fun _ => ⟨[], walk_nil.2 rfl, by simp [init]⟩
      pushing := by simp [init, Push.object]
      deleting := by simp [init, Reap.deleting]
      linked := by simp [init]
      null := rfl
      counts := by simp [init, Place.pending] }
  ticketed := ⟨none, by simp [init], by simp [init], by simp [init], by
    simp only [init, reduceCtorEq, if_false]
    exact List.count_eq_zero_of_not_mem (by simp)⟩

omit [DecidableEq T] in
theorem Placed.congr {s' : Reaper T} (h : s.Placed) (hlist : s'.list = s.list) (hnext : s'.next = s.next)
    (hrest : ∀ t, (s'.reap t).rest = (s.reap t).rest) (hdeleting : ∀ t, (s'.reap t).deleting = (s.reap t).deleting)
    (hobject : ∀ t, (s'.push t).object = (s.push t).object) (hplace : s'.place = s.place)
    (hlinked : ∀ t header entry, s'.push t = .cas header entry → s.next header = entry)
    (hdropped : s'.dropped = s.dropped) (hdeleted : s'.deleted = s.deleted) : s'.Placed where
  listed := by rw [hlist, hnext, hplace]; exact h.listed
  chained t := by rw [hnext, hrest, hplace]; exact h.chained t
  pushing t x := by rw [hobject, hplace]; exact h.pushing t x
  deleting t x := by rw [hdeleting, hplace]; exact h.deleting t x
  linked t header entry hcas := by rw [hnext]; exact hlinked t header entry hcas
  null := by rw [hplace]; exact h.null
  counts x := by rw [hplace, hdropped, hdeleted]; exact h.counts x

/-! ### Objects stay on their way -/

section
variable (h : s.Placed)
include h

theorem Placed.drop (hidle : s.push t = .idle) (hne : header ≠ 0) (hlive : s.place header = .live) :
    Placed { s with
      push := update s.push t (.load header)
      place := update s.place header (.pushing t)
      dropped := update s.dropped header (s.dropped header + 1) } where
  listed := by
    obtain ⟨xs, hwalk, hmem⟩ := h.listed
    exact ⟨xs, hwalk, by grind [update]⟩
  chained u := by
    obtain ⟨xs, hwalk, hmem⟩ := h.chained u
    exact ⟨xs, hwalk, by grind [update]⟩
  pushing u x := by
    have hpush := h.pushing u x
    have hnone := h.pushing t x
    rw [hidle] at hnone
    grind [update, Push.object]
  deleting u x := by
    have hdeleting := h.deleting u x
    grind [update]
  linked u header' entry' := by
    have hlinked := h.linked u header' entry'
    grind [update]
  null := by
    have hnull := h.null
    grind [update]
  counts x := by
    have hcounts := h.counts x
    grind [update, Place.pending]

theorem Placed.load (hpush : s.push t = .load header) :
    Placed { s with push := update s.push t (.write header s.list) } :=
  h.congr rfl rfl (fun _ => rfl) (fun _ => rfl) (fun u => by grind [update, Push.object]) rfl
    (fun u header' entry' => by have hlinked := h.linked u header' entry'; grind [update]) rfl rfl

theorem Placed.write (hpush : s.push t = .write header entry) :
    Placed { s with
      next := update s.next header entry
      push := update s.push t (.cas header entry) } where
  listed := by
    obtain ⟨xs, hwalk, hmem⟩ := h.listed
    have hplace := (h.pushing t header).1 (by rw [hpush]; rfl)
    exact ⟨xs, hwalk.update_of_notMem fun hx => by grind, hmem⟩
  chained u := by
    obtain ⟨xs, hwalk, hmem⟩ := h.chained u
    have hplace := (h.pushing t header).1 (by rw [hpush]; rfl)
    exact ⟨xs, hwalk.update_of_notMem fun hx => by grind, hmem⟩
  pushing u x := by
    have hobject := h.pushing u x
    grind [update, Push.object]
  deleting := h.deleting
  linked u header' entry' := by
    have hlinked := h.linked u header' entry'
    have hplace := (h.pushing t header).1 (by rw [hpush]; rfl)
    have hother := h.pushing u header
    grind [update, Push.object]
  null := h.null
  counts := h.counts

theorem Placed.cas (hpush : s.push t = .cas header s.list) (p : Push) (hp : p.object = none) :
    Placed { s with
      list := header
      push := update s.push t p
      place := update s.place header .listed } where
  listed := by
    obtain ⟨xs, hwalk, hmem⟩ := h.listed
    have hplace := (h.pushing t header).1 (by rw [hpush]; rfl)
    have hne : header ≠ 0 := by
      rintro rfl
      rw [h.null] at hplace
      cases hplace
    refine ⟨header :: xs, walk_cons.2 ⟨rfl, hne, ?_⟩, fun x => ?_⟩
    · show Walk 0 s.next (s.next header) xs
      rw [h.linked t header s.list hpush]
      exact hwalk
    · have hx := hmem x
      grind [update]
  chained u := by
    obtain ⟨xs, hwalk, hmem⟩ := h.chained u
    have hplace := (h.pushing t header).1 (by rw [hpush]; rfl)
    exact ⟨xs, hwalk, by grind [update]⟩
  pushing u x := by
    have hobject := h.pushing u x
    have hown := h.pushing t x
    have hplace := (h.pushing t header).1 (by rw [hpush]; rfl)
    grind [update, Push.object]
  deleting u x := by
    have hdeleting := h.deleting u x
    have hplace := (h.pushing t header).1 (by rw [hpush]; rfl)
    grind [update]
  linked u header' entry' := by
    have hlinked := h.linked u header' entry'
    grind [update, Push.object]
  null := by
    have hnull := h.null
    have hplace := (h.pushing t header).1 (by rw [hpush]; rfl)
    grind [update]
  counts x := by
    have hcounts := h.counts x
    have hplace := (h.pushing t header).1 (by rw [hpush]; rfl)
    grind [update, Place.pending]

theorem Placed.swap (hreap : s.reap t = .swap) :
    Placed { s with
      list := 0
      reap := update s.reap t (.drain s.list)
      place := fun x => if s.place x = .listed then .chained t else s.place x } where
  listed := ⟨[], walk_nil.2 rfl, by grind⟩
  chained u := by
    by_cases hu : u = t
    · subst hu
      obtain ⟨xs, hwalk, hmem⟩ := h.listed
      obtain ⟨ys, hempty, hown⟩ := h.chained u
      rw [hreap] at hempty
      have hnil : ys = [] := hempty.unique (walk_nil.2 rfl)
      subst hnil
      refine ⟨xs, by simpa [Reap.rest] using hwalk, fun x => ?_⟩
      have hx := hmem x
      have hno := hown x
      grind
    · obtain ⟨xs, hwalk, hmem⟩ := h.chained u
      refine ⟨xs, by simpa [hu] using hwalk, fun x => ?_⟩
      have hx := hmem x
      grind
  pushing u x := by
    have hobject := h.pushing u x
    grind
  deleting u x := by
    have hdeleting := h.deleting u x
    have hown := h.deleting t x
    grind [update, Reap.deleting]
  linked := h.linked
  null := by
    have hnull := h.null
    grind
  counts x := by
    have hcounts := h.counts x
    grind [Place.pending]

theorem Placed.advance (hreap : s.reap t = .drain header) (hne : header ≠ 0) :
    Placed { s with
      reap := update s.reap t (.delete header (s.next header))
      place := update s.place header (.deleting t)
      deleted := update s.deleted header (s.deleted header + 1) } := by
  obtain ⟨own, hown, hmem⟩ := h.chained t
  rw [hreap] at hown
  obtain ⟨tail, rfl⟩ : ∃ tail, own = header :: tail := by
    cases own with
    | nil => exact absurd (walk_nil.1 hown) hne
    | cons x tail => exact ⟨tail, by rw [show header = x from (walk_cons.1 hown).1]⟩
  have hplace := (hmem header).1 List.mem_cons_self
  have hfresh : header ∉ tail := (List.nodup_cons.1 hown.nodup).1
  refine { listed := ?_, chained := fun u => ?_, pushing := fun u x => ?_, deleting := fun u x => ?_, linked := h.linked, null := ?_, counts := fun x => ?_ }
  · obtain ⟨xs, hwalk, hxs⟩ := h.listed
    exact ⟨xs, hwalk, by grind [update]⟩
  · by_cases hu : u = t
    · subst hu
      refine ⟨tail, by simpa [Reap.rest] using hown.pop, fun x => ?_⟩
      have hx := hmem x
      grind [update]
    · obtain ⟨xs, hwalk, hxs⟩ := h.chained u
      refine ⟨xs, by simpa [hu] using hwalk, fun x => ?_⟩
      have hx := hxs x
      grind [update]
  · have hobject := h.pushing u x
    grind [update]
  · have hdeleting := h.deleting u x
    have hbefore := h.deleting t x
    grind [update, Reap.deleting]
  · have hnull := h.null
    grind [update]
  · have hcounts := h.counts x
    grind [update, Place.pending]

theorem Placed.finish (hreap : s.reap t = .delete header next) :
    Placed { s with
      reap := update s.reap t (.drain next)
      place := update s.place header .live } := by
  have hplace := (h.deleting t header).1 (by rw [hreap]; rfl)
  refine { listed := ?_, chained := fun u => ?_, pushing := fun u x => ?_, deleting := fun u x => ?_, linked := h.linked, null := ?_, counts := fun x => ?_ }
  · obtain ⟨xs, hwalk, hxs⟩ := h.listed
    exact ⟨xs, hwalk, by grind [update]⟩
  · obtain ⟨xs, hwalk, hxs⟩ := h.chained u
    refine ⟨xs, ?_, fun x => ?_⟩
    · grind [update, Reap.rest]
    · have hx := hxs x
      grind [update]
  · have hobject := h.pushing u x
    grind [update]
  · have hdeleting := h.deleting u x
    have hbefore := h.deleting t x
    grind [update, Reap.deleting]
  · have hnull := h.null
    grind [update]
  · have hcounts := h.counts x
    grind [update, Place.pending]

end

/-! ### One ticket -/

variable {holder : Option (Ticket T)}

section
variable (h : s.Ticketed holder)
include h

theorem Ticketed.congr {s' : Reaper T} (hlist : s'.list = 0 ↔ s.list = 0)
    (hpush : ∀ u, s'.push u = .queue ↔ s.push u = .queue) (hreap : ∀ u, s'.reap u = .swap ↔ s.reap u = .swap)
    (hqueue : s'.queue.count .reaper = s.queue.count .reaper) : s'.Ticketed holder where
  list := hlist.trans h.list
  pusher u := (hpush u).trans (h.pusher u)
  reaper u := (hreap u).trans (h.reaper u)
  queued := hqueue.trans h.queued

theorem Ticketed.cas (t : T) (hlist : s.list = 0) (hne : header ≠ 0)
    (place : ℕ → Place T) : Ticketed { s with
      list := header
      push := update s.push t .queue
      place := place } (some (.pusher t)) where
  list := by simp [hne]
  pusher u := by
    have hbefore := h.pusher u
    have hnone := h.list.1 hlist
    grind [update]
  reaper u := by
    have hbefore := h.reaper u
    have hnone := h.list.1 hlist
    grind
  queued := by
    have hbefore := h.queued
    rw [h.list.1 hlist] at hbefore
    simpa using hbefore

theorem Ticketed.queue (hpush : s.push t = .queue) : Ticketed { s with
    queue := s.queue ++ [.reaper]
    push := update s.push t .idle } (some .queued) := by
  have hholder := (h.pusher t).1 hpush
  refine { list := ?_, pusher := fun u => ?_, reaper := fun u => ?_, queued := ?_ }
  · have hbefore := h.list
    rw [hholder] at hbefore
    simpa using hbefore
  · have hbefore := h.pusher u
    grind [update]
  · have hbefore := h.reaper u
    grind
  · have hbefore := h.queued
    rw [hholder] at hbefore
    simpa [List.count_append] using hbefore

theorem Ticketed.dequeue {rest : List WorkItem} (t : T)
    (hqueue : s.queue = .reaper :: rest) : Ticketed { s with
      queue := rest
      reap := update s.reap t .swap } (some (.reaper t)) := by
  have hcount := h.queued
  rw [hqueue, List.count_cons_self] at hcount
  have hholder : holder = some .queued := by
    by_contra hother
    rw [if_neg hother] at hcount
    omega
  refine { list := ?_, pusher := fun u => ?_, reaper := fun u => ?_, queued := ?_ }
  · have hbefore := h.list
    rw [hholder] at hbefore
    simpa using hbefore
  · have hbefore := h.pusher u
    grind
  · have hbefore := h.reaper u
    grind [update]
  · rw [if_pos hholder] at hcount
    simpa using hcount

theorem Ticketed.swap (hreap : s.reap t = .swap) (place : ℕ → Place T) : Ticketed { s with
    list := 0
    reap := update s.reap t (.drain s.list)
    place := place } none := by
  have hholder := (h.reaper t).1 hreap
  refine { list := by simp, pusher := fun u => ?_, reaper := fun u => ?_, queued := ?_ }
  · have hbefore := h.pusher u
    grind
  · have hbefore := h.reaper u
    grind [update]
  · have hbefore := h.queued
    rw [hholder] at hbefore
    simpa using hbefore

end

theorem Inv.step (h : s.Inv) (a : ReaperStep T) : (s.step a).Inv := by
  obtain ⟨hplaced, holder, hticket⟩ := h
  cases a with
  | drop t header =>
    unfold Reaper.step
    dsimp only
    split
    · rename_i hdrop
      exact ⟨hplaced.drop hdrop.1 hdrop.2.2.1 hdrop.2.2.2, holder,
        hticket.congr Iff.rfl (by grind [update]) (fun _ => Iff.rfl) rfl⟩
    · exact ⟨hplaced, holder, hticket⟩
  | load t =>
    unfold Reaper.step
    dsimp only
    split
    · rename_i header hpush
      exact ⟨hplaced.load hpush, holder, hticket.congr Iff.rfl (by grind [update]) (fun _ => Iff.rfl) rfl⟩
    · exact ⟨hplaced, holder, hticket⟩
  | write t =>
    unfold Reaper.step
    dsimp only
    split
    · rename_i header entry hpush
      exact ⟨hplaced.write hpush, holder, hticket.congr Iff.rfl (by grind [update]) (fun _ => Iff.rfl) rfl⟩
    · exact ⟨hplaced, holder, hticket⟩
  | cas t =>
    unfold Reaper.step
    dsimp only
    split
    · rename_i header entry hpush
      have hne : header ≠ 0 := by
        rintro rfl
        have hplace := (hplaced.pushing t 0).1 (by rw [hpush]; rfl)
        rw [hplaced.null] at hplace
        cases hplace
      split
      · rename_i hlist
        subst hlist
        refine ⟨hplaced.cas hpush _ (by split <;> rfl), ?_⟩
        by_cases hempty : s.list = 0
        · simp only [hempty, if_true] at hpush ⊢
          exact ⟨some (.pusher t), hticket.cas t hempty hne _⟩
        · simp only [hempty, if_false]
          exact ⟨holder, hticket.congr (by simp [hne, hempty]) (by grind [update]) (fun _ => Iff.rfl) rfl⟩
      · -- another thread was faster: the push starts over
        refine ⟨hplaced.congr rfl rfl (fun _ => rfl) (fun _ => rfl) (by grind [update, Push.object]) rfl ?_ rfl rfl,
          holder, hticket.congr Iff.rfl (by grind [update]) (fun _ => Iff.rfl) rfl⟩
        intro u header' entry'
        have hlinked := hplaced.linked u header' entry'
        grind [update]
    · exact ⟨hplaced, holder, hticket⟩
  | queue t =>
    unfold Reaper.step
    dsimp only
    split
    · rename_i hpush
      refine ⟨hplaced.congr rfl rfl (fun _ => rfl) (fun _ => rfl) (by grind [update, Push.object]) rfl ?_ rfl rfl,
        some .queued, hticket.queue hpush⟩
      intro u header' entry'
      have hlinked := hplaced.linked u header' entry'
      grind [update]
    · exact ⟨hplaced, holder, hticket⟩
  | enqueueOther n =>
    exact ⟨hplaced.congr rfl rfl (fun _ => rfl) (fun _ => rfl) (fun _ => rfl) rfl hplaced.linked rfl rfl, holder,
      hticket.congr Iff.rfl (fun _ => Iff.rfl) (fun _ => Iff.rfl) (by simp [Reaper.step, List.count_append])⟩
  | dequeue t =>
    unfold Reaper.step
    dsimp only
    split
    · rename_i hfree
      split
      · exact ⟨hplaced, holder, hticket⟩
      · rename_i rest hqueue
        exact ⟨hplaced.congr rfl rfl (by grind [update, Reap.rest]) (by grind [update, Reap.deleting])
          (fun _ => rfl) rfl hplaced.linked rfl rfl, some (.reaper t), hticket.dequeue t hqueue⟩
      · rename_i n rest hqueue
        exact ⟨hplaced.congr rfl rfl (fun _ => rfl) (fun _ => rfl) (fun _ => rfl) rfl hplaced.linked rfl rfl, holder,
          hticket.congr Iff.rfl (fun _ => Iff.rfl) (fun _ => Iff.rfl) (by simp [hqueue])⟩
    · exact ⟨hplaced, holder, hticket⟩
  | swap t =>
    unfold Reaper.step
    dsimp only
    split
    · rename_i hreap
      exact ⟨hplaced.swap hreap, none, hticket.swap hreap _⟩
    · exact ⟨hplaced, holder, hticket⟩
  | advance t =>
    unfold Reaper.step
    dsimp only
    split
    · rename_i header hreap
      split
      · rename_i hnull
        exact ⟨hplaced.congr rfl rfl (by grind [update, Reap.rest]) (by grind [update, Reap.deleting])
          (fun _ => rfl) rfl hplaced.linked rfl rfl, holder,
          hticket.congr Iff.rfl (fun _ => Iff.rfl) (by grind [update]) rfl⟩
      · rename_i hne
        exact ⟨hplaced.advance hreap hne, holder,
          hticket.congr Iff.rfl (fun _ => Iff.rfl) (by grind [update]) rfl⟩
    · exact ⟨hplaced, holder, hticket⟩
  | finish t =>
    unfold Reaper.step
    dsimp only
    split
    · rename_i header next hreap
      split
      · exact ⟨hplaced.finish hreap, holder,
          hticket.congr Iff.rfl (fun _ => Iff.rfl) (by grind [update]) rfl⟩
      · exact ⟨hplaced, holder, hticket⟩
    · exact ⟨hplaced, holder, hticket⟩

end Steps

/-! ### Nothing is lost -/

/-- `x` is met from `head` on. -/
def OnList (s : Reaper T) (head x : ℕ) : Prop := ∃ xs, Walk 0 s.next head xs ∧ x ∈ xs

/-- No thread is pushing or reaping, and the work item is not queued. -/
def Settled (s : Reaper T) : Prop := (∀ t, s.push t = .idle ∧ s.reap t = .none) ∧ WorkItem.reaper ∉ s.queue

/-- An object is deleted as often as its count reached zero, at most one time late; the work item is
queued once at a time; and whoever has to empty the list is at work. -/
structure LosesNothing (s : Reaper T) : Prop where
  once : ∀ x, s.deleted x ≤ s.dropped x ∧ s.dropped x ≤ s.deleted x + 1
  onItsWay : ∀ x, s.dropped x ≠ s.deleted x →
    (∃ t, (s.push t).object = some x) ∨ s.OnList s.list x ∨ ∃ t, s.OnList (s.reap t).rest x
  settled : s.Settled → ∀ x, s.deleted x = s.dropped x
  queuedOnce : s.queue.count .reaper ≤ 1
  notQueuedAgain : ∀ t, s.push t = .queue → WorkItem.reaper ∉ s.queue
  woken : s.list ≠ 0 → WorkItem.reaper ∈ s.queue ∨ (∃ t, s.push t = .queue) ∨ ∃ t, s.reap t = .swap

omit [DecidableEq T] in
theorem Placed.onItsWay {s : Reaper T} (h : s.Placed) {x : ℕ} (hpending : (s.place x).pending = true) :
    (∃ t, (s.push t).object = some x) ∨ s.OnList s.list x ∨ ∃ t, s.OnList (s.reap t).rest x := by
  cases hplace : s.place x with
  | live | deleting t => simp [hplace, Place.pending] at hpending
  | pushing t => exact Or.inl ⟨t, (h.pushing t x).2 hplace⟩
  | listed =>
    obtain ⟨xs, hwalk, hmem⟩ := h.listed
    exact Or.inr (Or.inl ⟨xs, hwalk, (hmem x).2 hplace⟩)
  | chained t =>
    obtain ⟨xs, hwalk, hmem⟩ := h.chained t
    exact Or.inr (Or.inr ⟨t, xs, hwalk, (hmem x).2 hplace⟩)

omit [DecidableEq T] in
theorem onList_null {s : Reaper T} {x : ℕ} : ¬ s.OnList 0 x := by
  rintro ⟨xs, hwalk, hmem⟩
  rw [hwalk.unique (walk_nil.2 rfl)] at hmem
  cases hmem

theorem Inv.losesNothing {s : Reaper T} (h : s.Inv) : s.LosesNothing := by
  obtain ⟨hplaced, holder, hticket⟩ := h
  have hway (x : ℕ) (hx : s.dropped x ≠ s.deleted x) := hplaced.onItsWay (x := x) (by
    have hcounts := hplaced.counts x
    by_contra hpending
    rw [if_neg hpending] at hcounts
    exact hx hcounts)
  have hwoken (hlist : s.list ≠ 0) : WorkItem.reaper ∈ s.queue ∨ (∃ t, s.push t = .queue) ∨ ∃ t, s.reap t = .swap := by
    cases hholder : holder with
    | none => exact absurd (hticket.list.2 hholder) hlist
    | some ticket =>
      cases ticket with
      | pusher t => exact Or.inr (Or.inl ⟨t, (hticket.pusher t).2 hholder⟩)
      | reaper t => exact Or.inr (Or.inr ⟨t, (hticket.reaper t).2 hholder⟩)
      | queued =>
        have hcount := hticket.queued
        rw [if_pos hholder] at hcount
        exact Or.inl (List.count_pos_iff.1 (by omega))
  refine ⟨fun x => ?_, hway, fun hsettled x => ?_, ?_, fun t ht => ?_, hwoken⟩
  · have hcounts := hplaced.counts x
    split at hcounts
    · omega
    · omega
  · by_contra hx
    rcases hway x (Ne.symm hx) with ⟨t, ht⟩ | hlisted | ⟨t, ht⟩
    · rw [(hsettled.1 t).1] at ht
      cases ht
    · -- a list that nobody has to empty is empty
      have hempty : s.list = 0 := by
        by_contra hlist
        rcases hwoken hlist with hqueue | ⟨t, ht⟩ | ⟨t, ht⟩
        · exact hsettled.2 hqueue
        · rw [(hsettled.1 t).1] at ht
          cases ht
        · rw [(hsettled.1 t).2] at ht
          cases ht
      rw [hempty] at hlisted
      exact onList_null hlisted
    · rw [(hsettled.1 t).2] at ht
      exact onList_null ht
  · have hcount := hticket.queued
    split at hcount
    · omega
    · omega
  · have hcount := hticket.queued
    rw [(hticket.pusher t).1 ht] at hcount
    exact List.count_eq_zero.1 (by simpa using hcount)

/-- In every interleaving, deferred deletion loses nothing and queues its work item once at a time. -/
theorem reaper_losesNothing (next : ℕ → ℕ) (others : List ℕ) (steps : List (ReaperStep T)) :
    EveryState step LosesNothing (init T next others) steps :=
  (everyState_invariant (fun _ a h _ => h.step a) (inv_init next others)
    (everyStep_of_forall (G := fun _ => True) fun _ _ => trivial)).imp fun _ h => h.losesNothing

end Reaper

end XenOS.Ob
