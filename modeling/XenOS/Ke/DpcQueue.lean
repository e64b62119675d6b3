import Mathlib.Algebra.Group.Nat.Defs
import Mathlib.Data.List.Perm.Basic
import XenOS.General.Run

/-! DPC queues, one a processor. Whether a DPC is queued is tested, and its arguments are stored, before the lock of a
queue is taken. The steps of any number of threads interleave. -/

namespace XenOS.Ke

open General List
open Function (update update_self update_of_ne update_eq_self)

def highImportance : ℕ := 2

/-- `system_argument1` and `system_argument2`. -/
abbrev DpcArgs := ℕ × ℕ

/-- What initialization leaves fixed in a `KDPC`. -/
structure KDpc where
  importance : ℕ
  deferredRoutine : Option ℕ

/-- Where a thread is in the three functions. `before` are the arguments at the test. -/
inductive DpcPc (D P : Type*) where
  | idle
  | storeArg1 (d : D) (prcb : Option P) (args before : DpcArgs)
  | storeArg2 (d : D) (prcb : Option P) (args before : DpcArgs)
  | getPrcb (d : D) (prcb : Option P) (args before : DpcArgs)
  | insertLock (d : D) (p : P) (args : DpcArgs)
  | insertData (d : D) (p : P) (args : DpcArgs)
  | insertDepth (d : D) (p : P)
  | insertLink (d : D) (p : P)
  | readPrcb (d : D)
  | removeLock (d : D) (p : P)
  | removeUnlink (d : D) (p : P)
  | removeData (d : D) (p : P)
  | removeDepth (p : P)
  | retireLock (p : P)
  | retireUnlink (p : P)
  | retireDepth (d : D) (p : P)
  | retireRead (d : D) (p : P)
  | retireData (d : D) (p : P) (args : DpcArgs)
  | release (p : P) (call : Option (D × DpcArgs))
  | call (p : P) (d : D) (args : DpcArgs)

namespace DpcPc
variable {D P : Type*}

/-- The thread holds the lock of queue `p`. -/
def inSection (p : P) : DpcPc D P → Prop
  | insertData _ q _ | insertDepth _ q | insertLink _ q | removeUnlink _ q | removeData _ q | removeDepth q
  | retireUnlink q | retireDepth _ q | retireRead _ q | retireData _ q _ | release q _ => q = p
  | _ => False

/-- The DPC has its `dpc_data` and is not in the list. -/
def unlinked (d : D) (p : P) : DpcPc D P → Prop
  | insertDepth e q | insertLink e q | removeData e q | retireDepth e q | retireRead e q | retireData e q _ =>
    e = d ∧ q = p
  | _ => False

def ahead : DpcPc D P → ℕ
  | insertLink _ _ | removeData _ _ | removeDepth _ | retireDepth _ _ => 1
  | _ => 0

def owes : DpcPc D P → Option (D × DpcArgs)
  | release _ c => c
  | call _ d args => some (d, args)
  | _ => none

variable {pc : DpcPc D P}

theorem unlinked.inSection {d : D} {p : P} (h : pc.unlinked d p) : pc.inSection p := by
  cases pc <;> first | exact h.2 | exact h.elim

theorem unlinked.queue_eq {d : D} {p q : P} (h : pc.unlinked d q) (hp : pc.inSection p) : q = p := by
  cases pc <;> first | exact h.2.symm.trans hp | exact h.elim

theorem unlinked.dpc_eq {d e : D} {p q : P} (h : pc.unlinked e q) (hd : pc.unlinked d p) : e = d := by
  cases pc <;> first | exact h.1.symm.trans hd.1 | exact h.elim

end DpcPc

inductive DpcEvent where
  | inserted (args : DpcArgs)
  | retired (args : DpcArgs)
  | removed

namespace DpcEvent

def retired? : DpcEvent → Option DpcArgs
  | retired args => some args
  | _ => none

def isOpen : List DpcEvent → Bool
  | inserted _ :: _ => true
  | _ => false

/-- The last event first: insertions and removals alternate, and a removal has the arguments of its
insertion when it leads to a call. -/
def Alternates : List DpcEvent → Prop
  | [] => True
  | inserted _ :: log => isOpen log = false ∧ Alternates log
  | retired args :: inserted args' :: log => args = args' ∧ Alternates (inserted args' :: log)
  | removed :: inserted args' :: log => Alternates (inserted args' :: log)
  | _ => False

end DpcEvent

/-- The queues, the DPCs and the threads. For the record: the events of each DPC, the calls to be
made and those made, and for each refusal the arguments at its test and its return. -/
structure DpcQueues (D P T : Type*) where
  queue : P → List D
  depth : P → ℕ
  lock : P → Option T
  dpcData : D → Option P
  args : D → DpcArgs
  pc : T → DpcPc D P
  log : D → List DpcEvent
  due : D → List (T × DpcArgs)
  calls : D → List DpcArgs
  refusals : List (DpcArgs × DpcArgs)

inductive DpcStep (D P T : Type*) where
  | insert (t : T) (d : D) (prcb : Option P) (args : DpcArgs)
  | remove (t : T) (d : D)
  | retire (t : T) (p : P)
  | thread (t : T)

namespace DpcQueues
variable {D P T : Type*}

def init : DpcQueues D P T where
  queue _ := []
  depth _ := 0
  lock _ := none
  dpcData _ := none
  args _ := (0, 0)
  pc _ := .idle
  log _ := []
  due _ := []
  calls _ := []
  refusals := []

variable [DecidableEq D] [DecidableEq P] [DecidableEq T]

def goto (s : DpcQueues D P T) (t : T) (pc : DpcPc D P) : DpcQueues D P T := { s with pc := update s.pc t pc }

/-- `ke_acquire_spin_lock_at_dpc_level`: the thread waits while the lock is held. -/
def acquire (s : DpcQueues D P T) (t : T) (p : P) (pc : DpcPc D P) : DpcQueues D P T :=
  if s.lock p = none then { s with lock := update s.lock p (some t), pc := update s.pc t pc } else s

def threadStep (dpc : D → KDpc) (s : DpcQueues D P T) (t : T) : DpcQueues D P T :=
  match s.pc t with
  | .idle => s
  | .storeArg1 d prcb args before =>
    { s with
      args := update s.args d (args.1, (s.args d).2)
      pc := update s.pc t (.storeArg2 d prcb args before) }
  | .storeArg2 d prcb args before =>
    { s with
      args := update s.args d ((s.args d).1, args.2)
      pc := update s.pc t (.getPrcb d prcb args before) }
  | .getPrcb d none _ before =>
    -- without a processor block the insertion returns false, after the stores
    { s with pc := update s.pc t .idle, refusals := (before, s.args d) :: s.refusals }
  | .getPrcb d (some p) args _ => s.goto t (.insertLock d p args)
  | .insertLock d p args => s.acquire t p (.insertData d p args)
  | .insertData d p args =>
    { s with
      dpcData := update s.dpcData d (some p)
      pc := update s.pc t (.insertDepth d p)
      log := update s.log d (.inserted args :: s.log d) }
  | .insertDepth d p =>
    { s with
      depth := update s.depth p ((s.depth p + 1) % 2 ^ 32)
      pc := update s.pc t (.insertLink d p) }
  | .insertLink d p =>
    { s with
      queue := update s.queue p
        (if highImportance ≤ (dpc d).importance then d :: s.queue p else s.queue p ++ [d])
      pc := update s.pc t (.release p none) }
  | .readPrcb d =>
    match s.dpcData d with
    | none => { s with pc := update s.pc t .idle, refusals := (s.args d, s.args d) :: s.refusals }
    | some p => s.goto t (.removeLock d p)
  | .removeLock d p => s.acquire t p (.removeUnlink d p)
  | .removeUnlink d p =>
    -- the entry leaves the list that it is in
    { s with queue := fun q => (s.queue q).erase d, pc := update s.pc t (.removeData d p) }
  | .removeData d p =>
    { s with
      dpcData := update s.dpcData d none
      pc := update s.pc t (.removeDepth p)
      log := update s.log d (.removed :: s.log d) }
  | .removeDepth p =>
    { s with
      depth := update s.depth p (s.depth p - 1)
      pc := update s.pc t (.release p none) }
  | .retireLock p => s.acquire t p (.retireUnlink p)
  | .retireUnlink p =>
    match s.queue p with
    | [] => { s with depth := update s.depth p 0, pc := update s.pc t (.release p none) }
    | d :: rest =>
      { s with queue := update s.queue p rest, pc := update s.pc t (.retireDepth d p) }
  | .retireDepth d p =>
    { s with
      depth := update s.depth p (s.depth p - 1)
      pc := update s.pc t (.retireRead d p) }
  | .retireRead d p => s.goto t (.retireData d p (s.args d))
  | .retireData d p args =>
    { s with
      dpcData := update s.dpcData d none
      pc := update s.pc t (.release p (some (d, args)))
      log := update s.log d (.retired args :: s.log d)
      due := update s.due d ((t, args) :: s.due d) }
  | .release p none => { s with lock := update s.lock p none, pc := update s.pc t .idle }
  | .release p (some (d, args)) =>
    { s with lock := update s.lock p none, pc := update s.pc t (.call p d args) }
  | .call p d args =>
    { s with
      pc := update s.pc t (.retireLock p)
      due := update s.due d ((s.due d).erase (t, args))
      calls :=
        match (dpc d).deferredRoutine with
        | some _ => update s.calls d (args :: s.calls d)
        | none => s.calls }

def step (dpc : D → KDpc) (s : DpcQueues D P T) : DpcStep D P T → DpcQueues D P T
  | .insert t d prcb args =>
    match s.pc t with
    | .idle =>
      match s.dpcData d with
      | some _ => { s with refusals := (s.args d, s.args d) :: s.refusals }
      | none => s.goto t (.storeArg1 d prcb args (s.args d))
    | _ => s
  | .remove t d =>
    match s.pc t with
    | .idle =>
      match s.dpcData d with
      | some _ => s.goto t (.readPrcb d)
      | none => { s with refusals := (s.args d, s.args d) :: s.refusals }
    | _ => s
  | .retire t p =>
    match s.pc t with
    | .idle => s.goto t (.retireLock p)
    | _ => s
  | .thread t => s.threadStep dpc t

structure Sound (s : DpcQueues D P T) : Prop where
  nodup : ∀ p, (s.queue p).Nodup
  once : ∀ p q d, d ∈ s.queue p → d ∈ s.queue q → p = q
  queued : ∀ p d, s.lock p = none → (d ∈ s.queue p ↔ s.dpcData d = some p)
  alternates : ∀ d, DpcEvent.Alternates (s.log d)
  isOpen : ∀ d, DpcEvent.isOpen (s.log d) = true ↔ s.dpcData d ≠ none
  called : ∀ d, (s.calls d ++ (s.due d).map Prod.snd).Perm ((s.log d).filterMap DpcEvent.retired?)
  due : ∀ d, (∀ t args, (s.pc t).owes ≠ some (d, args)) → s.due d = []
  refused : ∀ r ∈ s.refusals, r.1 = r.2
  depth : ∀ p, s.lock p = none → s.depth p = (s.queue p).length

/-- Arguments of a queued DPC are not replaced; under the lock an insertion finds its DPC not
queued, its own arguments and a routine, and a removal finds the DPC on that queue; the depth fits
its word; without a processor block nothing new was stored. -/
def Spaced (dpc : D → KDpc) (s : DpcQueues D P T) : DpcStep D P T → Prop
  | .thread t =>
    match s.pc t with
    | .storeArg1 d _ args _ => s.dpcData d = none ∨ args.1 = (s.args d).1
    | .storeArg2 d _ args _ => s.dpcData d = none ∨ args.2 = (s.args d).2
    | .getPrcb d none _ before => before = s.args d
    | .insertData d _ args => s.dpcData d = none ∧ s.args d = args ∧ (dpc d).deferredRoutine ≠ none
    | .insertDepth _ p => s.depth p + 1 < 2 ^ 32
    | .removeUnlink d p => s.dpcData d = some p
    | _ => True
  | _ => True

/-! ### The invariant -/

/-- What a thread at `pc` relies on. -/
structure Relies (dpc : D → KDpc) (s : DpcQueues D P T) (t : T) (pc : DpcPc D P) : Prop where
  lock : ∀ p, pc.inSection p → s.lock p = some t
  unlinked : ∀ d p, pc.unlinked d p → s.dpcData d = some p ∧ d ∉ s.queue p
  depth : ∀ p, pc.inSection p → s.depth p = (s.queue p).length + pc.ahead
  read : ∀ d p args, pc = .retireData d p args → (s.log d).head? = some (.inserted args)
  owes : ∀ d args, pc.owes = some (d, args) → (t, args) ∈ s.due d ∧ (dpc d).deferredRoutine ≠ none

structure Inv (dpc : D → KDpc) (s : DpcQueues D P T) : Prop where
  nodup : ∀ p, (s.queue p).Nodup
  queued : ∀ p d, d ∈ s.queue p → s.dpcData d = some p
  data : ∀ d p, s.dpcData d = some p → d ∈ s.queue p ∨ ∃ t, (s.pc t).unlinked d p
  alternates : ∀ d, DpcEvent.Alternates (s.log d)
  isOpen : ∀ d, DpcEvent.isOpen (s.log d) = true ↔ s.dpcData d ≠ none
  args : ∀ d args, (s.log d).head? = some (.inserted args) → s.args d = args
  routine : ∀ d, s.dpcData d ≠ none → (dpc d).deferredRoutine ≠ none
  called : ∀ d, (s.calls d ++ (s.due d).map Prod.snd).Perm ((s.log d).filterMap DpcEvent.retired?)
  dueNodup : ∀ d, (s.due d).Nodup
  due : ∀ d t args, (t, args) ∈ s.due d → (s.pc t).owes = some (d, args)
  refused : ∀ r ∈ s.refusals, r.1 = r.2
  depth : ∀ p, s.lock p = none → s.depth p = (s.queue p).length
  relies : ∀ t, s.Relies dpc t (s.pc t)

section
variable {dpc : D → KDpc} {s s' : DpcQueues D P T} {t u : T} {d : D} {p : P}

omit [DecidableEq D] [DecidableEq P] [DecidableEq T] in
theorem Inv.sound (h : s.Inv dpc) : s.Sound where
  nodup := h.nodup
  once p q d hp hq := by
    have heq := (h.queued p d hp).symm.trans (h.queued q d hq)
    cases heq
    rfl
  queued p d hfree := by
    refine ⟨h.queued p d, fun hdata => ?_⟩
    rcases h.data d p hdata with hmem | ⟨t, ht⟩
    · exact hmem
    · have hlock := (h.relies t).lock p ht.inSection
      rw [hfree] at hlock
      cases hlock
  alternates := h.alternates
  isOpen := h.isOpen
  called := h.called
  due d hnone := by
    apply eq_nil_iff_forall_not_mem.2
    rintro ⟨t, args⟩ hmem
    exact hnone t args (h.due d t args hmem)
  refused := h.refused
  depth := h.depth

omit [DecidableEq D] [DecidableEq P] [DecidableEq T] in
theorem Relies.frame {pc : DpcPc D P} (h : s.Relies dpc u pc)
    (hsection : ∀ p, pc.inSection p → s'.lock p = s.lock p ∧ s'.queue p = s.queue p ∧ s'.depth p = s.depth p)
    (hdata : ∀ d p, pc.unlinked d p → s'.dpcData d = s.dpcData d ∧ s'.log d = s.log d)
    (hdue : ∀ d args, (u, args) ∈ s.due d → (u, args) ∈ s'.due d) : s'.Relies dpc u pc where
  lock p hp := (hsection p hp).1.trans (h.lock p hp)
  unlinked d p hd := by
    rw [(hdata d p hd).1, (hsection p hd.inSection).2.1]
    exact h.unlinked d p hd
  depth p hp := by
    rw [(hsection p hp).2.1, (hsection p hp).2.2]
    exact h.depth p hp
  read d p args hpc := by
    rw [(hdata d p (by rw [hpc]; exact ⟨rfl, rfl⟩)).2]
    exact h.read d p args hpc
  owes d args howes := ⟨hdue d args (h.owes d args howes).1, (h.owes d args howes).2⟩

omit [DecidableEq D] [DecidableEq P] [DecidableEq T] in
theorem Relies.outside {pc : DpcPc D P} (hsection : ∀ p, ¬pc.inSection p) (howes : pc.owes = none) :
    s.Relies dpc t pc where
  lock p hp := absurd hp (hsection p)
  unlinked d p hd := absurd hd.inSection (hsection p)
  depth p hp := absurd hp (hsection p)
  read d p args hpc := absurd (by rw [hpc]; rfl) (hsection p)
  owes d args h := by
    rw [howes] at h
    cases h

omit [DecidableEq D] [DecidableEq P] [DecidableEq T] in
theorem Inv.init (dpc : D → KDpc) : Inv dpc (init : DpcQueues D P T) where
  nodup p := nodup_nil
  queued p d h := absurd h not_mem_nil
  data d p h := by cases h
  alternates d := trivial
  isOpen d := ⟨(fun h => by cases h), fun h => absurd rfl h⟩
  args d args h := by cases h
  routine d h := absurd rfl h
  called d := .refl _
  dueNodup d := nodup_nil
  due d t args h := absurd h not_mem_nil
  refused r h := absurd h not_mem_nil
  depth p h := rfl
  relies t := .outside (fun _ h => h) rfl

namespace Inv

omit [DecidableEq D] [DecidableEq P] in
theorem unlinked_update {pc : DpcPc D P} (hpc : (s.pc t).unlinked d p → pc.unlinked d p)
    (h : ∃ u, (s.pc u).unlinked d p) : ∃ u, (update s.pc t pc u).unlinked d p := by
  obtain ⟨u, hu⟩ := h
  use u
  rcases eq_or_ne u t with rfl | hne
  · rw [update_self]
    exact hpc hu
  · rw [update_of_ne hne]
    exact hu

omit [DecidableEq D] [DecidableEq P] in
theorem owes_update (h : s.Inv dpc) {pc : DpcPc D P} (hpc : pc.owes = (s.pc t).owes) (d : D) (u : T) (args : DpcArgs)
    (hmem : (u, args) ∈ s.due d) : (update s.pc t pc u).owes = some (d, args) := by
  rcases eq_or_ne u t with rfl | hne
  · rw [update_self, hpc]
    exact h.due d u args hmem
  · rw [update_of_ne hne]
    exact h.due d u args hmem

omit [DecidableEq D] [DecidableEq P] in
theorem relies_update {pc : T → DpcPc D P} {pc' : DpcPc D P} (hown : s'.Relies dpc t pc')
    (hothers : ∀ u, u ≠ t → s'.Relies dpc u (pc u)) (u : T) : s'.Relies dpc u (update pc t pc' u) := by
  rcases eq_or_ne u t with rfl | hne
  · rw [update_self]
    exact hown
  · rw [update_of_ne hne]
    exact hothers u hne

omit [DecidableEq D] [DecidableEq P] [DecidableEq T] in
theorem apart (h : s.Inv dpc) (ht : (s.pc t).inSection p) (hne : u ≠ t) {q : P} (hu : (s.pc u).inSection q) : q ≠ p := by
  rintro rfl
  have heq := ((h.relies u).lock q hu).symm.trans ((h.relies t).lock q ht)
  exact hne (Option.some.inj heq)

omit [DecidableEq D] [DecidableEq P] in
theorem goto (h : s.Inv dpc) {pc : DpcPc D P} (hrelies : s.Relies dpc t pc)
    (hunlinked : ∀ d p, (s.pc t).unlinked d p → pc.unlinked d p) (howes : pc.owes = (s.pc t).owes) :
    (s.goto t pc).Inv dpc :=
  { h with
    data := fun d p hdata => (h.data d p hdata).imp_right (unlinked_update (hunlinked d p))
    due := h.owes_update howes
    relies := by
      apply relies_update
      · exact hrelies.frame (fun _ _ => ⟨rfl, rfl, rfl⟩) (fun _ _ _ => ⟨rfl, rfl⟩) fun _ _ => id
      · exact fun u _ => (h.relies u).frame (fun _ _ => ⟨rfl, rfl, rfl⟩) (fun _ _ _ => ⟨rfl, rfl⟩) fun _ _ => id }

omit [DecidableEq D] [DecidableEq P] in
theorem goto_outside (h : s.Inv dpc) {pc : DpcPc D P} (hfrom : ∀ p, ¬(s.pc t).inSection p) (hfromOwes : (s.pc t).owes = none)
    (hto : ∀ p, ¬pc.inSection p) (htoOwes : pc.owes = none) : (s.goto t pc).Inv dpc :=
  h.goto (.outside hto htoOwes) (fun _ p hd => absurd hd.inSection (hfrom p)) (htoOwes.trans hfromOwes.symm)

omit [DecidableEq P] [DecidableEq T] in
theorem storeArgs (h : s.Inv dpc) {args : DpcArgs} (hfree : s.dpcData d = none ∨ args = s.args d) :
    Inv dpc { s with args := update s.args d args } := by
  refine { h with args := fun e a hhead => ?_, relies := fun u => ?_ }
  · have hold := h.args e a hhead
    dsimp only
    rcases eq_or_ne e d with rfl | hne
    · rw [update_self]
      rcases hfree with hnone | hsame
      · have hopen : DpcEvent.isOpen (s.log e) = true := by
          cases hlog : s.log e with
          | nil =>
            rw [hlog] at hhead
            cases hhead
          | cons event log =>
            rw [hlog] at hhead
            cases hhead
            rfl
        exact absurd hnone ((h.isOpen e).1 hopen)
      · rw [hsame]
        exact hold
    · rw [update_of_ne hne]
      exact hold
  · exact (h.relies u).frame (fun _ _ => ⟨rfl, rfl, rfl⟩) (fun _ _ _ => ⟨rfl, rfl⟩) fun _ _ => id

omit [DecidableEq D] [DecidableEq P] [DecidableEq T] in
theorem refuse (h : s.Inv dpc) (args : DpcArgs) : Inv dpc { s with refusals := (args, args) :: s.refusals } := by
  refine { h with refused := fun r hr => ?_, relies := fun u => ?_ }
  · rcases mem_cons.1 hr with rfl | hr
    · rfl
    · exact h.refused r hr
  · exact (h.relies u).frame (fun _ _ => ⟨rfl, rfl, rfl⟩) (fun _ _ _ => ⟨rfl, rfl⟩) fun _ _ => id

omit [DecidableEq D] in
theorem acquire (h : s.Inv dpc) {pc : DpcPc D P} (hfrom : ∀ p, ¬(s.pc t).inSection p) (hfromOwes : (s.pc t).owes = none)
    (hto : ∀ q, pc.inSection q → q = p) (hunlinked : ∀ d q, ¬pc.unlinked d q) (hover : pc.ahead = 0)
    (howes : pc.owes = none) : (s.acquire t p pc).Inv dpc := by
  unfold DpcQueues.acquire
  split_ifs with hfree
  · refine
      { h with
        data := fun d q hdata => (h.data d q hdata).imp_right (unlinked_update fun hd => absurd hd.inSection (hfrom q))
        due := h.owes_update (howes.trans hfromOwes.symm), depth := fun q hq => ?_, relies := relies_update ?_ ?_ }
    · dsimp only at hq
      rcases eq_or_ne q p with rfl | hne
      · rw [update_self] at hq
        cases hq
      · rw [update_of_ne hne] at hq
        exact h.depth q hq
    · constructor
      · intro q hq
        obtain rfl := hto q hq
        exact update_self ..
      · exact fun d q hd => absurd hd (hunlinked d q)
      · intro q hq
        obtain rfl := hto q hq
        rw [hover]
        exact h.depth q hfree
      · intro d q args hpc
        exact absurd (by rw [hpc]; exact ⟨rfl, rfl⟩) (hunlinked d q)
      · intro d args hsome
        rw [howes] at hsome
        cases hsome
    · intro u _
      refine (h.relies u).frame (fun q hq => ⟨?_, rfl, rfl⟩) (fun _ _ _ => ⟨rfl, rfl⟩) fun _ _ => id
      apply update_of_ne
      rintro rfl
      have hheld := (h.relies u).lock q hq
      rw [hfree] at hheld
      cases hheld
  · exact h

omit [DecidableEq D] in
theorem relist (h : s.Inv dpc) (hsection : (s.pc t).inSection p) (hfromOwes : (s.pc t).owes = none) {pc : DpcPc D P}
    {list : List D} {depth : ℕ} (hto : ∀ q, pc.inSection q → q = p) (howes : pc.owes = none)
    (hread : ∀ d q args, pc ≠ .retireData d q args) (hnodup : list.Nodup) (hlist : ∀ d ∈ list, s.dpcData d = some p)
    (hkept : ∀ d, d ∈ s.queue p ∨ (s.pc t).unlinked d p → d ∈ list ∨ pc.unlinked d p)
    (hunlinked : ∀ d, pc.unlinked d p → s.dpcData d = some p ∧ d ∉ list) (hdepth : depth = list.length + pc.ahead) :
    Inv dpc { s with
      queue := update s.queue p list
      depth := update s.depth p depth
      pc := update s.pc t pc } := by
  refine
    { h with
      nodup := fun q => ?_, queued := fun q d hd => ?_, data := fun d q hdata => ?_
      due := h.owes_update (howes.trans hfromOwes.symm), depth := fun q hq => ?_, relies := relies_update ?_ ?_ }
  · dsimp only
    rcases eq_or_ne q p with rfl | hne
    · rw [update_self]
      exact hnodup
    · rw [update_of_ne hne]
      exact h.nodup q
  · dsimp only at hd
    rcases eq_or_ne q p with rfl | hne
    · rw [update_self] at hd
      exact hlist d hd
    · rw [update_of_ne hne] at hd
      exact h.queued q d hd
  · have hown : d ∈ list ∨ pc.unlinked d p →
        q = p → d ∈ update s.queue p list q ∨ ∃ u, (update s.pc t pc u).unlinked d q := by
      rintro (hmem | hd) rfl
      · left
        rw [update_self]
        exact hmem
      · refine .inr ⟨t, ?_⟩
        rw [update_self]
        exact hd
    rcases h.data d q hdata with hmem | ⟨u, hu⟩
    · rcases eq_or_ne q p with rfl | hne
      · exact hown (hkept d (.inl hmem)) rfl
      · left
        dsimp only
        rw [update_of_ne hne]
        exact hmem
    · rcases eq_or_ne u t with rfl | hne
      · have heq : q = p := hu.queue_eq hsection
        rw [heq] at hu
        exact hown (hkept d (.inr hu)) heq
      · refine .inr ⟨u, ?_⟩
        dsimp only
        rw [update_of_ne hne]
        exact hu
  · dsimp only
    have hne : q ≠ p := by
      rintro rfl
      have hheld := (h.relies t).lock q hsection
      rw [hq] at hheld
      cases hheld
    rw [update_of_ne hne, update_of_ne hne]
    exact h.depth q hq
  · constructor
    · intro q hq
      obtain rfl := hto q hq
      exact (h.relies t).lock q hsection
    · intro d q hd
      obtain rfl := hto q hd.inSection
      dsimp only
      rw [update_self]
      exact hunlinked d hd
    · intro q hq
      obtain rfl := hto q hq
      dsimp only
      rw [update_self, update_self]
      exact hdepth
    · exact fun d q args hpc => absurd hpc (hread d q args)
    · intro d args hsome
      rw [howes] at hsome
      cases hsome
  · intro u hne
    refine (h.relies u).frame (fun q hq => ?_) (fun _ _ _ => ⟨rfl, rfl⟩) fun _ _ => id
    have hqp := h.apart hsection hne hq
    exact ⟨rfl, update_of_ne hqp .., update_of_ne hqp ..⟩

variable {args : DpcArgs}

theorem insertData (h : s.Inv dpc) (hpc : s.pc t = .insertData d p args) (hnone : s.dpcData d = none)
    (hargs : s.args d = args) (hroutine : (dpc d).deferredRoutine ≠ none) : (s.threadStep dpc t).Inv dpc := by
  have hsection : (s.pc t).inSection p := by
    rw [hpc]
    rfl
  have hclosed : DpcEvent.isOpen (s.log d) = false := by
    cases hlog : DpcEvent.isOpen (s.log d) with
    | false => rfl
    | true => exact absurd hnone ((h.isOpen d).1 hlog)
  have hne : ∀ e q, s.dpcData e = some q → e ≠ d := by
    rintro e q hdata rfl
    rw [hnone] at hdata
    cases hdata
  unfold threadStep
  rw [hpc]
  refine
    { h with
      queued := fun q e he => ?_, data := fun e q hdata => ?_, alternates := fun e => ?_, isOpen := fun e => ?_
      args := fun e a hhead => ?_, routine := fun e hdata => ?_, called := fun e => ?_, due := h.owes_update ?_
      relies := relies_update ?_ ?_ }
  · have hold := h.queued q e he
    dsimp only
    rw [update_of_ne (hne e q hold)]
    exact hold
  · dsimp only at hdata ⊢
    rcases eq_or_ne e d with rfl | hed
    · rw [update_self] at hdata
      cases hdata
      refine .inr ⟨t, ?_⟩
      rw [update_self]
      exact ⟨rfl, rfl⟩
    · rw [update_of_ne hed] at hdata
      refine (h.data e q hdata).imp_right (unlinked_update fun hd => ?_)
      rw [hpc] at hd
      exact hd.elim
  · dsimp only
    rcases eq_or_ne e d with rfl | hed
    · rw [update_self]
      exact ⟨hclosed, h.alternates e⟩
    · rw [update_of_ne hed]
      exact h.alternates e
  · dsimp only
    rcases eq_or_ne e d with rfl | hed
    · rw [update_self, update_self]
      exact ⟨(fun _ heq => by cases heq), fun _ => rfl⟩
    · rw [update_of_ne hed, update_of_ne hed]
      exact h.isOpen e
  · dsimp only at hhead ⊢
    rcases eq_or_ne e d with rfl | hed
    · rw [update_self] at hhead
      cases hhead
      exact hargs
    · rw [update_of_ne hed] at hhead
      exact h.args e a hhead
  · dsimp only at hdata
    rcases eq_or_ne e d with rfl | hed
    · exact hroutine
    · rw [update_of_ne hed] at hdata
      exact h.routine e hdata
  · have hcalled := h.called e
    dsimp only
    rcases eq_or_ne e d with rfl | hed
    · rw [update_self]
      exact hcalled
    · rw [update_of_ne hed]
      exact hcalled
  · rw [hpc]
    rfl
  · constructor
    · rintro q rfl
      exact (h.relies t).lock p hsection
    · rintro e q ⟨rfl, rfl⟩
      refine ⟨update_self .., fun hmem => ?_⟩
      have hold := h.queued p d hmem
      rw [hnone] at hold
      cases hold
    · rintro q rfl
      have hdepth := (h.relies t).depth p hsection
      rw [hpc] at hdepth
      exact hdepth
    · exact fun e q a heq => by cases heq
    · exact fun e a heq => by cases heq
  · intro u hut
    refine (h.relies u).frame (fun _ _ => ⟨rfl, rfl, rfl⟩) (fun e q hd => ?_) fun _ _ => id
    have hed := hne e q ((h.relies u).unlinked e q hd).1
    exact ⟨update_of_ne hed .., update_of_ne hed ..⟩

omit [DecidableEq D] [DecidableEq P] [DecidableEq T] in
theorem log_inserted (h : s.Inv dpc) (hdata : s.dpcData d ≠ none) :
    ∃ args log, s.log d = .inserted args :: log := by
  have hopen := (h.isOpen d).2 hdata
  cases hlog : s.log d with
  | nil =>
    rw [hlog] at hopen
    cases hopen
  | cons event log =>
    rw [hlog] at hopen
    cases event with
    | inserted args => exact ⟨args, log, rfl⟩
    | retired _ | removed => cases hopen

omit [DecidableEq P] in
theorem takeOff (h : s.Inv dpc) (hfrom : (s.pc t).unlinked d p) {pc : DpcPc D P} {event : DpcEvent}
    {due : List (T × DpcArgs)} (hto : ∀ q, pc.inSection q → q = p) (hunlinked : ∀ e q, ¬pc.unlinked e q)
    (hover : pc.ahead = (s.pc t).ahead) (hclosed : DpcEvent.isOpen [event] = false)
    (halternates : ∀ args log, s.log d = .inserted args :: log → DpcEvent.Alternates (.inserted args :: log) →
      DpcEvent.Alternates (event :: .inserted args :: log))
    (hcalled : (s.calls d ++ due.map Prod.snd).Perm ((event :: s.log d).filterMap DpcEvent.retired?)) (hnodup : due.Nodup)
    (hdue : ∀ u args, (u, args) ∈ due → (update s.pc t pc u).owes = some (d, args))
    (hothers : ∀ e, e ≠ d → ∀ u args, (u, args) ∈ s.due e → (update s.pc t pc u).owes = some (e, args))
    (hkept : ∀ u args, (u, args) ∈ s.due d → (u, args) ∈ due)
    (howes : ∀ e args, pc.owes = some (e, args) → e = d ∧ (t, args) ∈ due) :
    Inv dpc { s with
      dpcData := update s.dpcData d none
      pc := update s.pc t pc
      log := update s.log d (event :: s.log d)
      due := update s.due d due } := by
  obtain ⟨hdata, hmem⟩ := (h.relies t).unlinked d p hfrom
  have hsome : s.dpcData d ≠ none := by
    rw [hdata]
    exact Option.some_ne_none p
  obtain ⟨args, log, hlog⟩ := h.log_inserted hsome
  have hdues : ∀ e u a, (u, a) ∈ s.due e → (u, a) ∈ update s.due d due e := by
    intro e u a hin
    rcases eq_or_ne e d with rfl | hed
    · rw [update_self]
      exact hkept u a hin
    · rw [update_of_ne hed]
      exact hin
  refine
    { h with
      queued := fun q e he => ?_, data := fun e q hdata => ?_, alternates := fun e => ?_, isOpen := fun e => ?_
      args := fun e a hhead => ?_, routine := fun e hdata => ?_, called := fun e => ?_, dueNodup := fun e => ?_
      due := fun e u a hin => ?_, relies := relies_update ?_ ?_ }
  · have hold := h.queued q e he
    dsimp only
    have hed : e ≠ d := by
      rintro rfl
      rw [hold] at hdata
      cases hdata
      exact hmem he
    rw [update_of_ne hed]
    exact hold
  · dsimp only at hdata
    rcases eq_or_ne e d with rfl | hed
    · rw [update_self] at hdata
      cases hdata
    · rw [update_of_ne hed] at hdata
      refine (h.data e q hdata).imp_right (unlinked_update fun hd => ?_)
      exact absurd (hd.dpc_eq hfrom) hed
  · dsimp only
    rcases eq_or_ne e d with rfl | hed
    · have hold := h.alternates e
      rw [update_self]
      rw [hlog] at hold ⊢
      exact halternates args log hlog hold
    · rw [update_of_ne hed]
      exact h.alternates e
  · dsimp only
    rcases eq_or_ne e d with rfl | hed
    · rw [update_self, update_self]
      refine ⟨fun hopen => ?_, fun hne => absurd rfl hne⟩
      have hfalse : DpcEvent.isOpen (event :: s.log e) = DpcEvent.isOpen [event] := by cases event <;> rfl
      rw [hfalse, hclosed] at hopen
      cases hopen
    · rw [update_of_ne hed, update_of_ne hed]
      exact h.isOpen e
  · dsimp only at hhead
    rcases eq_or_ne e d with rfl | hed
    · rw [update_self] at hhead
      cases hhead
      cases hclosed
    · rw [update_of_ne hed] at hhead
      exact h.args e a hhead
  · dsimp only at hdata
    rcases eq_or_ne e d with rfl | hed
    · exact h.routine e hsome
    · rw [update_of_ne hed] at hdata
      exact h.routine e hdata
  · dsimp only
    rcases eq_or_ne e d with rfl | hed
    · rw [update_self, update_self]
      exact hcalled
    · rw [update_of_ne hed, update_of_ne hed]
      exact h.called e
  · dsimp only
    rcases eq_or_ne e d with rfl | hed
    · rw [update_self]
      exact hnodup
    · rw [update_of_ne hed]
      exact h.dueNodup e
  · dsimp only at hin
    rcases eq_or_ne e d with rfl | hed
    · rw [update_self] at hin
      exact hdue u a hin
    · rw [update_of_ne hed] at hin
      exact hothers e hed u a hin
  · constructor
    · intro q hq
      obtain rfl := hto q hq
      exact (h.relies t).lock q hfrom.inSection
    · exact fun e q hd => absurd hd (hunlinked e q)
    · intro q hq
      obtain rfl := hto q hq
      rw [hover]
      exact (h.relies t).depth q hfrom.inSection
    · exact fun e q a hpc => absurd (by rw [hpc]; exact ⟨rfl, rfl⟩) (hunlinked e q)
    · intro e a heq
      obtain ⟨rfl, hin⟩ := howes e a heq
      refine ⟨?_, h.routine e hsome⟩
      dsimp only
      rw [update_self]
      exact hin
  · intro u hut
    refine (h.relies u).frame (fun _ _ => ⟨rfl, rfl, rfl⟩) (fun e q hd => ?_) fun e a hin => hdues e u a hin
    have hed : e ≠ d := by
      rintro rfl
      have hqp := h.apart hfrom.inSection hut hd.inSection
      have hold := ((h.relies u).unlinked e q hd).1
      rw [hdata] at hold
      cases hold
      exact hqp rfl
    exact ⟨update_of_ne hed .., update_of_ne hed ..⟩

theorem removeData (h : s.Inv dpc) (hpc : s.pc t = .removeData d p) : (s.threadStep dpc t).Inv dpc := by
  have howes : DpcPc.owes (.removeDepth p : DpcPc D P) = (s.pc t).owes := by
    rw [hpc]
    rfl
  have hnew : Inv dpc { s with
      dpcData := update s.dpcData d none
      pc := update s.pc t (.removeDepth p)
      log := update s.log d (.removed :: s.log d)
      due := update s.due d (s.due d) } := by
    apply h.takeOff
    · rw [hpc]
      exact ⟨rfl, rfl⟩
    · exact fun q hq => hq.symm
    · exact fun e q hd => hd
    · rw [hpc]
      rfl
    · rfl
    · exact fun args log _ halternates => halternates
    · exact h.called d
    · exact h.dueNodup d
    · exact h.owes_update howes d
    · exact fun e _ => h.owes_update howes e
    · exact fun u args hin => hin
    · exact fun e args heq => by cases heq
  rw [update_eq_self] at hnew
  unfold threadStep
  rw [hpc]
  exact hnew

theorem retireData (h : s.Inv dpc) (hpc : s.pc t = .retireData d p args) :
    (s.threadStep dpc t).Inv dpc := by
  have hhead := (h.relies t).read d p args hpc
  have hnone : (s.pc t).owes = none := by
    rw [hpc]
    rfl
  have hnot : ∀ e a, (t, a) ∉ s.due e := by
    intro e a hin
    have hsome := h.due e t a hin
    rw [hnone] at hsome
    cases hsome
  have hother : ∀ e u a, (u, a) ∈ s.due e →
      (update s.pc t (.release p (some (d, args))) u).owes = some (e, a) := by
    intro e u a hin
    have hne : u ≠ t := by
      rintro rfl
      exact hnot e a hin
    rw [update_of_ne hne]
    exact h.due e u a hin
  unfold threadStep
  rw [hpc]
  apply h.takeOff
  · rw [hpc]
    exact ⟨rfl, rfl⟩
  · exact fun q hq => hq.symm
  · exact fun e q hd => hd
  · rw [hpc]
    rfl
  · rfl
  · intro args' log hlog halternates
    rw [hlog] at hhead
    cases hhead
    exact ⟨rfl, halternates⟩
  · exact perm_middle.trans ((h.called d).cons args)
  · exact nodup_cons.2 ⟨hnot d args, h.dueNodup d⟩
  · intro u a hin
    rcases mem_cons.1 hin with heq | hin
    · cases heq
      rw [update_self]
      rfl
    · exact hother d u a hin
  · exact fun e _ => hother e
  · exact fun u a hin => mem_cons_of_mem _ hin
  · intro e a heq
    cases heq
    exact ⟨rfl, mem_cons_self⟩

omit [DecidableEq D] in
theorem unlock (h : s.Inv dpc) (hsection : (s.pc t).inSection p) (hover : (s.pc t).ahead = 0)
    (hfrom : ∀ d q, ¬(s.pc t).unlinked d q) {pc : DpcPc D P} (hto : ∀ q, ¬pc.inSection q) (howes : pc.owes = (s.pc t).owes) :
    Inv dpc { s with lock := update s.lock p none, pc := update s.pc t pc } := by
  refine
    { h with
      data := fun d q hdata => (h.data d q hdata).imp_right (unlinked_update fun hd => absurd hd (hfrom d q))
      due := h.owes_update howes, depth := fun q hq => ?_, relies := relies_update ?_ ?_ }
  · rcases eq_or_ne q p with rfl | hne
    · have hdepth := (h.relies t).depth q hsection
      rw [hover] at hdepth
      exact hdepth
    · dsimp only at hq
      rw [update_of_ne hne] at hq
      exact h.depth q hq
  · constructor
    · exact fun q hq => absurd hq (hto q)
    · exact fun d q hd => absurd hd.inSection (hto q)
    · exact fun q hq => absurd hq (hto q)
    · exact fun d q args hpc => absurd (by rw [hpc]; rfl) (hto q)
    · intro d args heq
      exact (h.relies t).owes d args (howes.symm.trans heq)
  · intro u hne
    refine (h.relies u).frame (fun q hq => ⟨?_, rfl, rfl⟩) (fun _ _ _ => ⟨rfl, rfl⟩) fun _ _ => id
    exact update_of_ne (h.apart hsection hne hq) ..

theorem call (h : s.Inv dpc) (hpc : s.pc t = .call p d args) : (s.threadStep dpc t).Inv dpc := by
  have howes : (s.pc t).owes = some (d, args) := by
    rw [hpc]
    rfl
  obtain ⟨hmem, hroutine⟩ := (h.relies t).owes d args howes
  obtain ⟨routine, hsome⟩ := Option.ne_none_iff_exists'.1 hroutine
  have hdue : ∀ e u a, (u, a) ∈ update s.due d ((s.due d).erase (t, args)) e → (u, a) ∈ s.due e ∧ u ≠ t := by
    intro e u a hin
    have hold : (u, a) ∈ s.due e := by
      rcases eq_or_ne e d with rfl | hne
      · rw [update_self] at hin
        exact mem_of_mem_erase hin
      · rwa [update_of_ne hne] at hin
    refine ⟨hold, ?_⟩
    rintro rfl
    have heq := (h.due e u a hold).symm.trans howes
    cases heq
    rw [update_self] at hin
    exact (h.dueNodup d).not_mem_erase hin
  unfold threadStep
  rw [hpc]
  dsimp only
  rw [hsome]
  refine
    { h with
      data := fun e q hdata => (h.data e q hdata).imp_right (unlinked_update fun hd => ?_)
      called := fun e => ?_, dueNodup := fun e => ?_, due := fun e u a hin => ?_, relies := relies_update ?_ ?_ }
  · rw [hpc] at hd
    exact hd.elim
  · have hcalled := h.called e
    dsimp only
    rcases eq_or_ne e d with rfl | hne
    · rw [update_self, update_self]
      have htaken : ((s.due e).map Prod.snd).Perm (args :: ((s.due e).erase (t, args)).map Prod.snd) :=
        (perm_cons_erase hmem).map Prod.snd
      exact (perm_middle.symm.trans (htaken.symm.append_left (s.calls e))).trans hcalled
    · rw [update_of_ne hne, update_of_ne hne]
      exact hcalled
  · dsimp only
    rcases eq_or_ne e d with rfl | hne
    · rw [update_self]
      exact (h.dueNodup e).erase _
    · rw [update_of_ne hne]
      exact h.dueNodup e
  · obtain ⟨hold, hne⟩ := hdue e u a hin
    dsimp only
    rw [update_of_ne hne]
    exact h.due e u a hold
  · exact .outside (fun q hq => hq) rfl
  · intro u hne
    refine (h.relies u).frame (fun _ _ => ⟨rfl, rfl, rfl⟩) (fun _ _ _ => ⟨rfl, rfl⟩) fun e a hin => ?_
    dsimp only
    rcases eq_or_ne e d with rfl | hed
    · rw [update_self]
      apply (mem_erase_of_ne _).2 hin
      rintro heq
      cases heq
      exact hne rfl
    · rwa [update_of_ne hed]

omit [DecidableEq D] in
theorem setDepth (h : s.Inv dpc) (hsection : (s.pc t).inSection p) (hfromOwes : (s.pc t).owes = none) {pc : DpcPc D P}
    {depth : ℕ} (hto : ∀ q, pc.inSection q → q = p) (howes : pc.owes = none)
    (hread : ∀ d q args, pc ≠ .retireData d q args) (hunlinked : ∀ d, pc.unlinked d p ↔ (s.pc t).unlinked d p)
    (hdepth : depth = (s.queue p).length + pc.ahead) :
    Inv dpc { s with depth := update s.depth p depth, pc := update s.pc t pc } := by
  have hnew : Inv dpc { s with
      queue := update s.queue p (s.queue p)
      depth := update s.depth p depth
      pc := update s.pc t pc } := by
    apply h.relist hsection hfromOwes hto howes hread (h.nodup p) (h.queued p) _ _ hdepth
    · exact fun d hd => hd.imp_right (hunlinked d).2
    · exact fun d hd => (h.relies t).unlinked d p ((hunlinked d).1 hd)
  rw [update_eq_self] at hnew
  exact hnew

omit [DecidableEq D] in
theorem setQueue (h : s.Inv dpc) (hsection : (s.pc t).inSection p) (hfromOwes : (s.pc t).owes = none) {pc : DpcPc D P}
    {list : List D} (hto : ∀ q, pc.inSection q → q = p) (howes : pc.owes = none)
    (hread : ∀ d q args, pc ≠ .retireData d q args) (hnodup : list.Nodup) (hlist : ∀ d ∈ list, s.dpcData d = some p)
    (hkept : ∀ d, d ∈ s.queue p ∨ (s.pc t).unlinked d p → d ∈ list ∨ pc.unlinked d p)
    (hunlinked : ∀ d, pc.unlinked d p → s.dpcData d = some p ∧ d ∉ list)
    (hdepth : (s.queue p).length + (s.pc t).ahead = list.length + pc.ahead) :
    Inv dpc { s with queue := update s.queue p list, pc := update s.pc t pc } := by
  have hnew : Inv dpc { s with
      queue := update s.queue p list
      depth := update s.depth p (s.depth p)
      pc := update s.pc t pc } :=
    h.relist hsection hfromOwes hto howes hread hnodup hlist hkept hunlinked (((h.relies t).depth p hsection).trans hdepth)
  rw [update_eq_self] at hnew
  exact hnew

section
variable (h : s.Inv dpc)
include h

theorem insertDepth (hpc : s.pc t = .insertDepth d p) (hlt : s.depth p + 1 < 2 ^ 32) :
    (s.threadStep dpc t).Inv dpc := by
  have hsection : (s.pc t).inSection p := by
    rw [hpc]
    rfl
  have hdepth := (h.relies t).depth p hsection
  rw [hpc] at hdepth
  unfold threadStep
  rw [hpc]
  dsimp only
  rw [Nat.mod_eq_of_lt hlt]
  apply h.setDepth hsection
  · rw [hpc]
    rfl
  · exact fun q hq => hq.symm
  · rfl
  · exact fun e q args heq => by cases heq
  · intro e
    rw [hpc]
    rfl
  · rw [hdepth]
    rfl

theorem insertLink (hpc : s.pc t = .insertLink d p) : (s.threadStep dpc t).Inv dpc := by
  have hsection : (s.pc t).inSection p := by
    rw [hpc]
    rfl
  obtain ⟨hdata, hmem⟩ := (h.relies t).unlinked d p (by rw [hpc]; exact ⟨rfl, rfl⟩)
  have hperm : (if highImportance ≤ (dpc d).importance then d :: s.queue p else s.queue p ++ [d]).Perm (d :: s.queue p) := by
    split_ifs
    · exact .refl _
    · exact perm_append_singleton d (s.queue p)
  unfold threadStep
  rw [hpc]
  apply h.setQueue hsection
  · rw [hpc]
    rfl
  · exact fun q hq => hq.symm
  · rfl
  · exact fun e q args heq => by cases heq
  · exact hperm.nodup_iff.2 (nodup_cons.2 ⟨hmem, h.nodup p⟩)
  · intro e he
    rcases mem_cons.1 (hperm.mem_iff.1 he) with rfl | he
    · exact hdata
    · exact h.queued p e he
  · rintro e (he | he)
    · exact .inl (hperm.mem_iff.2 (mem_cons_of_mem d he))
    · rw [hpc] at he
      exact .inl (hperm.mem_iff.2 (mem_cons.2 (.inl he.1.symm)))
  · exact fun e he => he.elim
  · rw [hperm.length_eq, hpc]
    rfl

theorem removeUnlink (hpc : s.pc t = .removeUnlink d p) (hdata : s.dpcData d = some p) :
    (s.threadStep dpc t).Inv dpc := by
  have hsection : (s.pc t).inSection p := by
    rw [hpc]
    rfl
  have hmem : d ∈ s.queue p := by
    rcases h.data d p hdata with hmem | ⟨u, hu⟩
    · exact hmem
    · rcases eq_or_ne u t with rfl | hne
      · rw [hpc] at hu
        exact hu.elim
      · exact absurd rfl (h.apart hsection hne hu.inSection)
  have hqueue : (fun q => (s.queue q).erase d) = update s.queue p ((s.queue p).erase d) := by
    funext q
    rcases eq_or_ne q p with rfl | hne
    · rw [update_self]
    · rw [update_of_ne hne]
      apply erase_of_not_mem
      intro hin
      have heq := (h.queued q d hin).symm.trans hdata
      cases heq
      exact hne rfl
  have hlength := length_erase_of_mem hmem
  have hpos := length_pos_of_mem hmem
  unfold threadStep
  rw [hpc]
  dsimp only
  rw [hqueue]
  apply h.setQueue hsection
  · rw [hpc]
    rfl
  · exact fun q hq => hq.symm
  · rfl
  · exact fun e q args heq => by cases heq
  · exact (h.nodup p).erase d
  · exact fun e he => h.queued p e (mem_of_mem_erase he)
  · rintro e (he | he)
    · rcases eq_or_ne e d with rfl | hne
      · exact .inr ⟨rfl, rfl⟩
      · exact .inl ((mem_erase_of_ne hne).2 he)
    · rw [hpc] at he
      exact he.elim
  · rintro e ⟨rfl, -⟩
    exact ⟨hdata, (h.nodup p).not_mem_erase⟩
  · rw [hpc, hlength]
    simp only [DpcPc.ahead]
    omega

theorem removeDepth (hpc : s.pc t = .removeDepth p) : (s.threadStep dpc t).Inv dpc := by
  have hsection : (s.pc t).inSection p := by
    rw [hpc]
    rfl
  have hdepth := (h.relies t).depth p hsection
  rw [hpc] at hdepth
  unfold threadStep
  rw [hpc]
  apply h.setDepth hsection
  · rw [hpc]
    rfl
  · exact fun q hq => hq.symm
  · rfl
  · exact fun e q args heq => by cases heq
  · intro e
    rw [hpc]
    rfl
  · rw [hdepth]
    rfl

theorem retireUnlink (hpc : s.pc t = .retireUnlink p) : (s.threadStep dpc t).Inv dpc := by
  have hsection : (s.pc t).inSection p := by
    rw [hpc]
    rfl
  have howes : (s.pc t).owes = none := by
    rw [hpc]
    rfl
  unfold threadStep
  rw [hpc]
  dsimp only
  cases hqueue : s.queue p with
  | nil =>
    apply h.setDepth hsection howes
    · exact fun q hq => hq.symm
    · rfl
    · exact fun e q args heq => by cases heq
    · intro e
      rw [hpc]
      rfl
    · rw [hqueue]
      rfl
  | cons d rest =>
    have hnodup := h.nodup p
    have hqueued := h.queued p
    rw [hqueue] at hnodup hqueued
    apply h.setQueue hsection howes
    · exact fun q hq => hq.symm
    · rfl
    · exact fun e q args heq => by cases heq
    · exact hnodup.of_cons
    · exact fun e he => hqueued e (mem_cons_of_mem d he)
    · rintro e (he | he)
      · rw [hqueue] at he
        rcases mem_cons.1 he with rfl | he
        · exact .inr ⟨rfl, rfl⟩
        · exact .inl he
      · rw [hpc] at he
        exact he.elim
    · rintro e ⟨rfl, -⟩
      exact ⟨hqueued d mem_cons_self, (nodup_cons.1 hnodup).1⟩
    · rw [hqueue, hpc]
      rfl

theorem retireDepth (hpc : s.pc t = .retireDepth d p) : (s.threadStep dpc t).Inv dpc := by
  have hsection : (s.pc t).inSection p := by
    rw [hpc]
    rfl
  have hdepth := (h.relies t).depth p hsection
  rw [hpc] at hdepth
  unfold threadStep
  rw [hpc]
  apply h.setDepth hsection
  · rw [hpc]
    rfl
  · exact fun q hq => hq.symm
  · rfl
  · exact fun e q args heq => by cases heq
  · intro e
    rw [hpc]
    rfl
  · rw [hdepth]
    rfl

theorem retireRead (hpc : s.pc t = .retireRead d p) : (s.threadStep dpc t).Inv dpc := by
  have hunlinked : (s.pc t).unlinked d p := by
    rw [hpc]
    exact ⟨rfl, rfl⟩
  obtain ⟨hdata, hmem⟩ := (h.relies t).unlinked d p hunlinked
  have hhead : (s.log d).head? = some (.inserted (s.args d)) := by
    obtain ⟨args, log, hlog⟩ := h.log_inserted (by rw [hdata]; exact Option.some_ne_none p)
    have hargs := h.args d args (by rw [hlog]; rfl)
    rw [hlog, hargs]
    rfl
  unfold threadStep
  rw [hpc]
  apply h.goto
  · constructor
    · rintro q rfl
      exact (h.relies t).lock p hunlinked.inSection
    · rintro e q ⟨rfl, rfl⟩
      exact ⟨hdata, hmem⟩
    · rintro q rfl
      have hdepth := (h.relies t).depth p hunlinked.inSection
      rw [hpc] at hdepth
      exact hdepth
    · rintro e q args heq
      cases heq
      exact hhead
    · exact fun e args heq => by cases heq
  · intro e q hd
    rw [hpc] at hd
    exact hd
  · rw [hpc]
    rfl

theorem thread (hspaced : s.Spaced dpc (.thread t)) : (s.threadStep dpc t).Inv dpc := by
  have houtside : ∀ {pc : DpcPc D P}, s.pc t = pc → (∀ q, ¬pc.inSection q) → ∀ q, ¬(s.pc t).inSection q := by
    rintro pc rfl hpc
    exact hpc
  unfold Spaced at hspaced
  dsimp only at hspaced
  cases hpc : s.pc t with
  | idle =>
    unfold threadStep
    rw [hpc]
    exact h
  | storeArg1 d prcb args before =>
    rw [hpc] at hspaced
    have hstored := h.storeArgs (hspaced.imp_right fun heq => Prod.ext heq rfl : _ ∨ (args.1, (s.args d).2) = s.args d)
    unfold threadStep
    rw [hpc]
    exact hstored.goto_outside (houtside hpc fun q hq => hq) (by rw [hpc]; rfl) (fun q hq => hq) rfl
  | storeArg2 d prcb args before =>
    rw [hpc] at hspaced
    have hstored := h.storeArgs (hspaced.imp_right fun heq => Prod.ext rfl heq : _ ∨ ((s.args d).1, args.2) = s.args d)
    unfold threadStep
    rw [hpc]
    exact hstored.goto_outside (houtside hpc fun q hq => hq) (by rw [hpc]; rfl) (fun q hq => hq) rfl
  | getPrcb d prcb args before =>
    rw [hpc] at hspaced
    unfold threadStep
    rw [hpc]
    cases prcb with
    | none =>
      obtain rfl := hspaced
      exact (h.refuse (s.args d)).goto_outside (houtside hpc fun q hq => hq) (by rw [hpc]; rfl) (fun q hq => hq) rfl
    | some p => exact h.goto_outside (houtside hpc fun q hq => hq) (by rw [hpc]; rfl) (fun q hq => hq) rfl
  | insertLock d p args =>
    unfold threadStep
    rw [hpc]
    exact h.acquire (houtside hpc fun q hq => hq) (by rw [hpc]; rfl) (fun q hq => hq.symm) (fun e q hd => hd) rfl rfl
  | insertData d p args =>
    rw [hpc] at hspaced
    exact h.insertData hpc hspaced.1 hspaced.2.1 hspaced.2.2
  | insertDepth d p =>
    rw [hpc] at hspaced
    exact h.insertDepth hpc hspaced
  | insertLink d p => exact h.insertLink hpc
  | readPrcb d =>
    unfold threadStep
    rw [hpc]
    dsimp only
    cases s.dpcData d with
    | none => exact (h.refuse (s.args d)).goto_outside (houtside hpc fun q hq => hq) (by rw [hpc]; rfl) (fun q hq => hq) rfl
    | some p => exact h.goto_outside (houtside hpc fun q hq => hq) (by rw [hpc]; rfl) (fun q hq => hq) rfl
  | removeLock d p =>
    unfold threadStep
    rw [hpc]
    exact h.acquire (houtside hpc fun q hq => hq) (by rw [hpc]; rfl) (fun q hq => hq.symm) (fun e q hd => hd) rfl rfl
  | removeUnlink d p =>
    rw [hpc] at hspaced
    exact h.removeUnlink hpc hspaced
  | removeData d p => exact h.removeData hpc
  | removeDepth p => exact h.removeDepth hpc
  | retireLock p =>
    unfold threadStep
    rw [hpc]
    exact h.acquire (houtside hpc fun q hq => hq) (by rw [hpc]; rfl) (fun q hq => hq.symm) (fun e q hd => hd) rfl rfl
  | retireUnlink p => exact h.retireUnlink hpc
  | retireDepth d p => exact h.retireDepth hpc
  | retireRead d p => exact h.retireRead hpc
  | retireData d p args => exact h.retireData hpc
  | release p c =>
    unfold threadStep
    rw [hpc]
    have hunlinked : ∀ e q, ¬(s.pc t).unlinked e q := by
      intro e q hd
      rw [hpc] at hd
      exact hd
    cases c with
    | none | some c => exact h.unlock (by rw [hpc]; rfl) (by rw [hpc]; rfl) hunlinked (fun q hq => hq) (by rw [hpc]; rfl)
  | call p d args => exact h.call hpc

theorem step (a : DpcStep D P T) (hspaced : s.Spaced dpc a) : (s.step dpc a).Inv dpc := by
  have houtside : ∀ {t}, s.pc t = .idle → ∀ q, ¬(s.pc t).inSection q := by
    intro t hpc q hq
    rw [hpc] at hq
    exact hq
  unfold DpcQueues.step
  cases a with
  | insert t d prcb args =>
    dsimp only
    split
    next hpc =>
      split
      · exact h.refuse (s.args d)
      · exact h.goto_outside (houtside hpc) (by rw [hpc]; rfl) (fun q hq => hq) rfl
    next => exact h
  | remove t d =>
    dsimp only
    split
    next hpc =>
      split
      · exact h.goto_outside (houtside hpc) (by rw [hpc]; rfl) (fun q hq => hq) rfl
      · exact h.refuse (s.args d)
    next => exact h
  | retire t p =>
    dsimp only
    split
    next hpc => exact h.goto_outside (houtside hpc) (by rw [hpc]; rfl) (fun q hq => hq) rfl
    next => exact h
  | thread t => exact h.thread hspaced

end

end Inv
end

/-- In every run whose steps all find what they must, a DPC that was queued is run or removed once. -/
theorem everyState_queuedOnce (dpc : D → KDpc) (steps : List (DpcStep D P T))
    (hspaced : EveryStep (step dpc) (Spaced dpc) init steps) : EveryState (step dpc) Sound init steps :=
  (everyState_invariant (fun _ a h hspaced => h.step a hspaced) (Inv.init dpc) hspaced).imp fun _ h => h.sound

instance (dpc : D → KDpc) (s : DpcQueues D P T) : (a : DpcStep D P T) → Decidable (Spaced dpc s a)
  | .thread _ => by
    simp only [Spaced]
    split <;> infer_instance
  | .insert _ _ _ _ | .remove _ _ | .retire _ _ => .isTrue trivial

/-- Two threads insert the DPCs false and true on processor false; while thread false runs DPC true there, thread true
removes DPC false and inserts it on processor true, where thread false tries to insert it as well and thread true runs it. -/
def twoProcessors : List (DpcStep Bool Bool Bool) :=
  let both : List (DpcStep Bool Bool Bool) := [.thread false, .thread true]
  [.insert false false (some false) (1, 2), .insert true true (some false) (3, 4)] ++ (replicate 13 both).flatten ++
    [.retire false false, .remove true false] ++ (replicate 11 both).flatten ++ [.insert true false (some true) (5, 6)] ++
    (replicate 9 both).flatten ++ [.insert false false (some true) (7, 8), .retire true true] ++ replicate 10 (.thread true)

/-- DPC 1 is of high importance. -/
def twoDpcs : Bool → KDpc
  | false => ⟨1, some 1⟩
  | true => ⟨2, some 2⟩

theorem everyState_queuedOnce_twoProcessors : EveryState (step twoDpcs) Sound init twoProcessors :=
  everyState_queuedOnce twoDpcs twoProcessors (by decide +kernel)

def twoInsertions : List (DpcStep Unit ℕ ℕ) :=
  [.insert 0 () (some 0) (1, 2), .insert 1 () (some 1) (1, 2)] ++ replicate 8 (.thread 0) ++ replicate 8 (.thread 1)

/-- Both insertions return true, and the DPC is on two queues. -/
theorem twoInsertions_queuedTwice : ¬EveryState (step fun _ : Unit => ⟨1, some 1⟩) Sound init twoInsertions := by
  intro h
  have hlast := everyState_iff_take.1 h twoInsertions.length
  rw [take_length] at hlast
  have hmem : ∀ p < 2, () ∈ (run (step fun _ : Unit => ⟨1, some 1⟩) init twoInsertions).queue p := by decide
  exact absurd (hlast.once 0 1 () (hmem 0 (by decide)) (hmem 1 (by decide))) (by decide)

end DpcQueues

end XenOS.Ke
