import Mathlib.Data.Int.Notation
import Mathlib.Data.List.Perm.Basic
import XenOS.General.Run

/-! The APC queues of a thread and their delivery. While a delivery is under way, its routines and others insert APCs and
disable them. -/

namespace XenOS.Ke.Apc

open General List
open Function (update update_self update_of_ne)

def passiveLevel : ℕ := 0

def apcLevel : ℕ := 1

structure Call where
  normalRoutine : Option ℕ
  normalContext : ℕ
  systemArgument1 : ℕ
  systemArgument2 : ℕ

/-- What `ke_initialize_apc` stores in an APC; what the kernel routine does to the call is not known. -/
structure KApc where
  apcMode : ℤ
  kernelRoutine : Option (Call → Call)
  normalRoutine : Option ℕ
  normalContext : ℕ

/-- Where the thread is in `ki_deliver_apc`, with the IRQL to go back to. -/
inductive Pc (A : Type*) where
  | idle
  | loop (oldIrql : ℕ)
  | section (oldIrql : ℕ)
  | kernel (oldIrql : ℕ) (apc : A)
  | normal (oldIrql : ℕ) (call : Call)
  | raise (oldIrql : ℕ)

namespace Pc
variable {A : Type*}

def popped : Pc A → List A
  | kernel _ apc => [apc]
  | _ => []

def owed : Pc A → List Call
  | normal _ call => [call]
  | _ => []

def oldIrql : Pc A → Option ℕ
  | idle => none
  | loop irql | «section» irql | kernel irql _ | normal irql _ | raise irql => some irql

end Pc

/-- The thread and its APCs. For the record: the kernel APCs inserted and those called; the normal
calls left and made, each with the disable count; the IRQL around each delivery; and the kernel list
at the last return. -/
structure State (A : Type*) where
  kernelList : List A
  userList : List A
  inserted : A → Bool
  args : A → ℕ × ℕ
  kernelApcPending : Bool
  userApcPending : Bool
  kernelApcDisable : ℤ
  irql : ℕ
  pc : Pc A
  accepted : List A
  kernelCalls : List A
  left : List Call
  normalCalls : List (Call × ℤ)
  calledAt : ℕ
  returns : List (ℕ × ℕ)
  undelivered : List A

inductive Step (A : Type*) where
  | insert (apc : A) (systemArgument1 systemArgument2 : ℕ)
  | disable (count : ℤ)
  | setIrql (irql : ℕ)
  | deliver
  | next

namespace State
variable {A : Type*}

def init : State A where
  kernelList := []
  userList := []
  inserted _ := false
  args _ := (0, 0)
  kernelApcPending := false
  userApcPending := false
  kernelApcDisable := 0
  irql := passiveLevel
  pc := .idle
  accepted := []
  kernelCalls := []
  left := []
  normalCalls := []
  calledAt := passiveLevel
  returns := []
  undelivered := []

variable [DecidableEq A]

/-- `ke_insert_queue_apc`: the flag is set before the mode is looked at; a negative mode is a large index. -/
def insert (apcs : A → KApc) (s : State A) (apc : A) (systemArgument1 systemArgument2 : ℕ) : State A :=
  if s.inserted apc then s
  else
    let s := { s with
      args := update s.args apc (systemArgument1, systemArgument2)
      inserted := update s.inserted apc true }
    if (apcs apc).apcMode = 0 then
      { s with kernelList := s.kernelList ++ [apc], kernelApcPending := true, accepted := s.accepted ++ [apc] }
    else if (apcs apc).apcMode = 1 then { s with userList := s.userList ++ [apc], userApcPending := true }
    else s

/-- The last lines of the delivery. -/
def finish (s : State A) (oldIrql : ℕ) : State A :=
  { s with
    irql := oldIrql
    pc := .idle
    returns := (s.calledAt, oldIrql) :: s.returns
    undelivered := s.kernelList }

def next (apcs : A → KApc) (s : State A) : State A :=
  match s.pc with
  | .idle => s
  | .loop oldIrql => if s.kernelApcPending then { s with pc := .section oldIrql } else s.finish oldIrql
  | .section oldIrql =>
    match s.kernelList with
    | [] => { s with kernelApcPending := false }.finish oldIrql
    | apc :: rest =>
      if s.inserted apc then
        { s with
          kernelList := rest
          inserted := update s.inserted apc false
          kernelApcPending := if rest.isEmpty then false else s.kernelApcPending
          irql := passiveLevel
          pc := .kernel oldIrql apc }
      else { s with pc := .loop oldIrql }
  | .kernel oldIrql apc =>
    match (apcs apc).kernelRoutine with
    | none => { s with pc := .raise oldIrql }
    | some kernelRoutine =>
      let call := kernelRoutine ⟨(apcs apc).normalRoutine, (apcs apc).normalContext, (s.args apc).1, (s.args apc).2⟩
      match call.normalRoutine with
      | none => { s with pc := .raise oldIrql, kernelCalls := s.kernelCalls ++ [apc] }
      | some _ =>
        { s with pc := .normal oldIrql call, kernelCalls := s.kernelCalls ++ [apc], left := s.left ++ [call] }
  | .normal oldIrql call =>
    { s with
      pc := .raise oldIrql
      normalCalls :=
        if s.kernelApcDisable = 0 then s.normalCalls ++ [(call, s.kernelApcDisable)] else s.normalCalls }
  | .raise oldIrql => { s with irql := apcLevel, pc := .loop oldIrql }

def step (apcs : A → KApc) (s : State A) : Step A → State A
  | .insert apc systemArgument1 systemArgument2 => s.insert apcs apc systemArgument1 systemArgument2
  | .disable count => { s with kernelApcDisable := count }
  | .setIrql irql =>
    match s.pc with
    | .idle => { s with irql }
    | _ => s
  | .deliver =>
    match s.pc with
    | .idle => { s with irql := apcLevel, pc := .loop s.irql, calledAt := s.irql }
    | _ => s
  | .next => s.next apcs

/-- Kernel routines are called once in the order of insertion, and none is left at the end of a
delivery; their normal routines follow in order while APCs are not disabled; the pending flag is
right; an APC on no list can be inserted; the IRQL is restored. -/
structure Complete (apcs : A → KApc) (s : State A) : Prop where
  kernel : s.accepted.filter (fun apc => (apcs apc).kernelRoutine.isSome) =
    s.kernelCalls ++ (s.pc.popped ++ s.kernelList).filter fun apc => (apcs apc).kernelRoutine.isSome
  normal : s.left = s.normalCalls.map Prod.fst ++ s.pc.owed
  enabled : ∀ c ∈ s.normalCalls, c.2 = 0
  pending : s.kernelApcPending = true ↔ s.kernelList ≠ []
  insertable : ∀ apc, s.inserted apc = true → apc ∈ s.kernelList ++ s.userList
  delivered : s.undelivered = []
  irql : ∀ r ∈ s.returns, r.2 = r.1

/-- A kernel or a user mode for an APC not yet queued, and no disabled APCs when a kernel routine
has left a normal one. -/
def Admitted (apcs : A → KApc) (s : State A) : Step A → Prop
  | .insert apc _ _ => s.inserted apc = true ∨ (apcs apc).apcMode = 0 ∨ (apcs apc).apcMode = 1
  | .next =>
    match s.pc with
    | .normal _ _ => s.kernelApcDisable = 0
    | _ => True
  | _ => True

/-! ### The invariant -/

structure Inv (apcs : A → KApc) (s : State A) : Prop extends s.Complete apcs where
  queued : ∀ apc ∈ s.kernelList ++ s.userList, s.inserted apc = true
  nodup : (s.kernelList ++ s.userList).Nodup
  old : ∀ irql, s.pc.oldIrql = some irql → irql = s.calledAt

variable {apcs : A → KApc} {s : State A}

omit [DecidableEq A] in
theorem inv_init (apcs : A → KApc) : Inv apcs (init : State A) where
  kernel := rfl
  normal := rfl
  enabled c hc := absurd hc not_mem_nil
  pending := by simp [init]
  insertable apc h := by cases h
  delivered := rfl
  irql r hr := absurd hr not_mem_nil
  queued apc h := absurd h not_mem_nil
  nodup := nodup_nil
  old irql h := by cases h

namespace Inv

/-- An APC that was on neither list and is now on one is marked as inserted, and the others are as before. -/
theorem linked (h : s.Inv apcs) {apc : A} {list : List A} (hnot : apc ∉ s.kernelList ++ s.userList)
    (hperm : list.Perm (apc :: (s.kernelList ++ s.userList))) (a : A) :
    (update s.inserted apc true a = true → a ∈ list) ∧ (a ∈ list → update s.inserted apc true a = true) := by
  refine ⟨fun ha => hperm.mem_iff.2 ?_, fun ha => ?_⟩
  · rcases eq_or_ne a apc with rfl | hne
    · exact mem_cons_self
    · rw [update_of_ne hne] at ha
      exact mem_cons_of_mem apc (h.insertable a ha)
  · rcases mem_cons.1 (hperm.mem_iff.1 ha) with rfl | hmem
    · rw [update_self]
    · have hne : a ≠ apc := by
        rintro rfl
        exact hnot hmem
      rw [update_of_ne hne]
      exact h.queued a hmem

theorem insertKernel (h : s.Inv apcs) {apc : A} (args : ℕ × ℕ) (hnew : s.inserted apc = false) :
    Inv apcs { s with
      args := update s.args apc args
      inserted := update s.inserted apc true
      kernelList := s.kernelList ++ [apc]
      kernelApcPending := true
      accepted := s.accepted ++ [apc] } := by
  have hnot : apc ∉ s.kernelList ++ s.userList := by
    intro hmem
    rw [h.queued apc hmem] at hnew
    cases hnew
  have hperm : (s.kernelList ++ [apc] ++ s.userList).Perm (apc :: (s.kernelList ++ s.userList)) := by
    rw [append_assoc]
    exact perm_middle
  refine
    { h with
      kernel := ?_, pending := ?_, insertable := fun a ha => ?_, queued := fun a ha => ?_
      nodup := hperm.nodup_iff.2 (nodup_cons.2 ⟨hnot, h.nodup⟩) }
  · dsimp only
    rw [← append_assoc, filter_append, filter_append, h.kernel, append_assoc]
  · simp
  · exact (h.linked hnot hperm a).1 ha
  · exact (h.linked hnot hperm a).2 ha

theorem insertUser (h : s.Inv apcs) {apc : A} (args : ℕ × ℕ) (hnew : s.inserted apc = false) :
    Inv apcs { s with
      args := update s.args apc args
      inserted := update s.inserted apc true
      userList := s.userList ++ [apc]
      userApcPending := true } := by
  have hnot : apc ∉ s.kernelList ++ s.userList := by
    intro hmem
    rw [h.queued apc hmem] at hnew
    cases hnew
  have hperm : (s.kernelList ++ (s.userList ++ [apc])).Perm (apc :: (s.kernelList ++ s.userList)) := by
    rw [← append_assoc]
    exact perm_append_singleton apc _
  refine
    { h with
      insertable := fun a ha => ?_, queued := fun a ha => ?_
      nodup := hperm.nodup_iff.2 (nodup_cons.2 ⟨hnot, h.nodup⟩) }
  · exact (h.linked hnot hperm a).1 ha
  · exact (h.linked hnot hperm a).2 ha

omit [DecidableEq A] in
theorem finish (h : s.Inv apcs) {oldIrql : ℕ} (hpopped : s.pc.popped = []) (howed : s.pc.owed = [])
    (hold : oldIrql = s.calledAt) (hlist : s.kernelList = []) : (s.finish oldIrql).Inv apcs := by
  have hkernel := h.kernel
  have hnormal := h.normal
  rw [hpopped] at hkernel
  rw [howed] at hnormal
  refine { h with kernel := hkernel, normal := hnormal, delivered := hlist, irql := fun r hr => ?_, old := nofun }
  rcases mem_cons.1 hr with rfl | hr
  · exact hold
  · exact h.irql r hr

omit [DecidableEq A] in
theorem goto (h : s.Inv apcs) {pc : Pc A} (irql : ℕ) (hpopped : pc.popped = s.pc.popped) (howed : pc.owed = s.pc.owed)
    (hold : ∀ old, pc.oldIrql = some old → old = s.calledAt) : Inv apcs { s with irql, pc } := by
  refine { h with kernel := ?_, normal := ?_, old := hold }
  · dsimp only
    rw [hpopped]
    exact h.kernel
  · dsimp only
    rw [howed]
    exact h.normal

theorem pop (h : s.Inv apcs) {oldIrql : ℕ} {apc : A} {rest : List A} (hpc : s.pc = .section oldIrql)
    (hlist : s.kernelList = apc :: rest) :
    Inv apcs { s with
      kernelList := rest
      inserted := update s.inserted apc false
      kernelApcPending := if rest.isEmpty then false else s.kernelApcPending
      irql := passiveLevel
      pc := .kernel oldIrql apc } := by
  have hkernel := h.kernel
  have hnormal := h.normal
  have hnodup := h.nodup
  have hqueued := h.queued
  have hinsertable := h.insertable
  have hpending := h.pending.2 (by rw [hlist]; exact cons_ne_nil apc rest)
  have hold := h.old oldIrql (by rw [hpc]; rfl)
  rw [hpc, hlist] at hkernel
  rw [hpc] at hnormal
  rw [hlist] at hnodup hqueued hinsertable
  obtain ⟨hnot, hnodup⟩ := nodup_cons.1 hnodup
  refine
    { h with
      kernel := hkernel, normal := hnormal, pending := ?_, insertable := fun a ha => ?_, queued := fun a ha => ?_, nodup := hnodup
      old := fun irql heq => ?_ }
  · dsimp only
    rw [hpending]
    cases rest <;> simp
  · dsimp only at ha
    have hne : a ≠ apc := by
      rintro rfl
      rw [update_self] at ha
      cases ha
    rw [update_of_ne hne] at ha
    exact (mem_cons.1 (hinsertable a ha)).resolve_left hne
  · have hne : a ≠ apc := by
      rintro rfl
      exact hnot ha
    dsimp only
    rw [update_of_ne hne]
    exact hqueued a (mem_cons_of_mem apc ha)
  · cases heq
    exact hold

omit [DecidableEq A] in
theorem kernelCall (h : s.Inv apcs) {oldIrql : ℕ} {apc : A} (hpc : s.pc = .kernel oldIrql apc)
    (hroutine : (apcs apc).kernelRoutine.isSome = true) {pc : Pc A} (hpopped : pc.popped = [])
    (hold : pc.oldIrql = some oldIrql) :
    Inv apcs { s with pc, kernelCalls := s.kernelCalls ++ [apc], left := s.left ++ pc.owed } := by
  have hkernel := h.kernel
  have hnormal := h.normal
  have holdIrql := h.old oldIrql (by rw [hpc]; rfl)
  rw [hpc] at hkernel hnormal
  refine { h with kernel := ?_, normal := ?_, old := fun irql heq => ?_ }
  · dsimp only
    rw [hkernel, hpopped]
    simp only [Pc.popped, singleton_append, filter_cons, hroutine, if_true, nil_append, append_assoc]
  · dsimp only
    rw [hnormal]
    simp only [Pc.owed, append_nil]
  · dsimp only at heq
    rw [hold] at heq
    cases heq
    exact holdIrql

theorem next (h : s.Inv apcs) (hadmitted : s.Admitted apcs .next) : (s.next apcs).Inv apcs := by
  have hold := h.old
  unfold Admitted at hadmitted
  dsimp only at hadmitted
  unfold State.next
  cases hpc : s.pc with
  | idle => exact h
  | loop oldIrql =>
    rw [hpc] at hold
    dsimp only
    split_ifs with hpending
    · exact h.goto s.irql (by rw [hpc]; rfl) (by rw [hpc]; rfl) hold
    · have hlist : s.kernelList = [] := by
        by_contra hne
        exact hpending (h.pending.2 hne)
      exact h.finish (by rw [hpc]; rfl) (by rw [hpc]; rfl) (hold oldIrql rfl) hlist
  | «section» oldIrql =>
    rw [hpc] at hold
    dsimp only
    split
    next hlist =>
      have hcleared : Inv apcs { s with kernelApcPending := false } := by
        refine { h with pending := ?_ }
        simp [hlist]
      exact hcleared.finish (by rw [hpc]; rfl) (by rw [hpc]; rfl) (hold oldIrql rfl) hlist
    next apc rest hlist =>
      have hinserted : s.inserted apc = true := h.queued apc (by rw [hlist]; exact mem_cons_self)
      rw [if_pos hinserted]
      exact h.pop hpc hlist
  | kernel oldIrql apc =>
    rw [hpc] at hold
    dsimp only
    cases hroutine : (apcs apc).kernelRoutine with
    | none =>
      have hkernel := h.kernel
      have hnormal := h.normal
      rw [hpc] at hkernel hnormal
      refine { h with kernel := ?_, normal := hnormal, old := hold }
      rw [hkernel]
      simp [Pc.popped, hroutine]
    | some kernelRoutine =>
      have hsome : (apcs apc).kernelRoutine.isSome = true := by
        rw [hroutine]
        rfl
      dsimp only
      split
      · have hcall := h.kernelCall hpc hsome (rfl : (Pc.raise oldIrql : Pc A).popped = []) rfl
        simp only [Pc.owed, append_nil] at hcall
        exact hcall
      · exact h.kernelCall hpc hsome rfl rfl
  | normal oldIrql call =>
    rw [hpc] at hold hadmitted
    have hkernel := h.kernel
    have hnormal := h.normal
    rw [hpc] at hkernel hnormal
    dsimp only
    rw [if_pos hadmitted]
    refine { h with kernel := hkernel, normal := ?_, enabled := fun c hc => ?_, old := hold }
    · dsimp only
      rw [hnormal, map_append]
      simp only [Pc.owed, append_nil, map_singleton]
    · rcases mem_append.1 hc with hc | hc
      · exact h.enabled c hc
      · rw [mem_singleton.1 hc]
        exact hadmitted
  | raise oldIrql =>
    rw [hpc] at hold
    exact h.goto apcLevel (by rw [hpc]; rfl) (by rw [hpc]; rfl) hold

theorem step (h : s.Inv apcs) (a : Step A) (hadmitted : s.Admitted apcs a) : (s.step apcs a).Inv apcs := by
  cases a with
  | insert apc a1 a2 =>
    unfold State.step State.insert
    dsimp only
    split_ifs with hinserted hkernel huser
    · exact h
    · exact h.insertKernel (a1, a2) (Bool.eq_false_iff.2 hinserted)
    · exact h.insertUser (a1, a2) (Bool.eq_false_iff.2 hinserted)
    · rcases hadmitted with htrue | hzero | hone
      · exact absurd htrue hinserted
      · exact absurd hzero hkernel
      · exact absurd hone huser
  | disable count => exact { h with }
  | setIrql irql =>
    unfold State.step
    dsimp only
    split
    · exact { h with }
    · exact h
  | deliver =>
    unfold State.step
    dsimp only
    split
    next hpc =>
      have hkernel := h.kernel
      have hnormal := h.normal
      rw [hpc] at hkernel hnormal
      refine { h with kernel := hkernel, normal := hnormal, old := fun irql heq => ?_ }
      cases heq
      rfl
    next => exact h
  | next => exact h.next hadmitted

theorem breaks (h : s.Inv apcs) (a : Step A) (hadmitted : ¬s.Admitted apcs a) : ¬(s.step apcs a).Complete apcs := by
  intro hcomplete
  cases a with
  | insert apc a1 a2 =>
    simp only [Admitted, not_or] at hadmitted
    obtain ⟨hinserted, hkernel, huser⟩ := hadmitted
    have hmem := hcomplete.insertable apc
    unfold State.step State.insert at hmem
    dsimp only at hmem
    rw [if_neg hinserted, if_neg hkernel, if_neg huser] at hmem
    exact hinserted (h.queued apc (hmem (update_self ..)))
  | disable count => exact hadmitted trivial
  | setIrql irql => exact hadmitted trivial
  | deliver => exact hadmitted trivial
  | next =>
    unfold Admitted at hadmitted
    dsimp only at hadmitted
    cases hpc : s.pc with
    | normal oldIrql call =>
      rw [hpc] at hadmitted
      have hbefore := h.normal
      have hafter := hcomplete.normal
      unfold State.step State.next at hafter
      dsimp only at hafter
      rw [hpc] at hbefore hafter
      dsimp only at hafter
      rw [if_neg hadmitted, hbefore] at hafter
      simp [Pc.owed] at hafter
    | idle | loop _ | «section» _ | kernel _ _ | raise _ =>
      rw [hpc] at hadmitted
      exact hadmitted trivial

end Inv

/-- Delivery is complete and in order in every state exactly if no insertion has another mode and no
normal routine is left while APCs are disabled. -/
theorem everyState_complete_iff (apcs : A → KApc) (steps : List (Step A)) :
    EveryState (step apcs) (Complete apcs) init steps ↔ EveryStep (step apcs) (Admitted apcs) init steps :=
  everyState_iff_everyStep (I := Inv apcs) (G := fun _ _ => True) (fun _ a h _ hadmitted => h.step a hadmitted)
    (fun _ h => h.toComplete) (fun _ a h _ hadmitted => h.breaks a hadmitted) (inv_init apcs)
    (everyStep_of_forall fun _ _ => trivial)

/-- An APC whose mode is neither is refused, and is on no list with its flag set. -/
theorem refused_stays : ¬EveryState (step fun _ : Unit => ⟨2, some id, none, 0⟩) (Complete fun _ => ⟨2, some id, none, 0⟩) init
    [.insert () 0 0] := by
  intro h
  have hmem := h.2.insertable () rfl
  cases hmem

end State

end XenOS.Ke.Apc
