import Mathlib.Algebra.Group.Nat.Defs
import Mathlib.Data.List.Basic
import XenOS.General.Run

/-! `EX_PUSH_LOCK`: a reader-writer lock in one word, taken by a load and a compare-exchange; the
last reader clears the flags in a second one after its decrement. The steps of any number of threads
interleave. -/

namespace XenOS.Ke

open General List
open Function (update update_self update_of_ne)

def exPushLockLocked : ℕ := 0x1
def exPushLockMultipleShared : ℕ := 0x8
def exPushLockShareInc : ℕ := 0x10

/-- The word while readers are in, without their number. -/
def exPushLockShared : ℕ := exPushLockLocked ||| exPushLockMultipleShared

/-- Where a thread is in the four functions. -/
inductive PushLockPc where
  | idle
  | loadExclusive
  | casExclusive
  | loadShared
  | casShared (current new : ℕ)
  | clear
  | panicked
  deriving DecidableEq

/-- The lock word and the threads; for the record, who holds the lock, a thread once for each time it holds it. -/
structure PushLock (T : Type*) where
  value : ℕ
  pc : T → PushLockPc
  exclusiveHolders : List T
  sharedHolders : List T

inductive PushLockStep (T : Type*) where
  | acquireExclusive (t : T)
  | releaseExclusive (t : T)
  | acquireShared (t : T)
  | releaseShared (t : T)
  | load (t : T)
  | cas (t : T)

namespace PushLock

variable {T : Type*}

def init (T : Type*) : PushLock T where
  value := 0
  pc _ := .idle
  exclusiveHolders := []
  sharedHolders := []

def admitsReader (current : ℕ) : Bool :=
  current &&& exPushLockLocked = 0 || current &&& exPushLockMultipleShared ≠ 0

/-- The word that a reader puts in the place of `current`. -/
def withReader (current : ℕ) : ℕ :=
  if current = 0 then exPushLockShared ||| exPushLockShareInc else current + exPushLockShareInc

variable [DecidableEq T]

/-- One step. A step that the thread is not at leaves the state as it is, and a thread releases only what it holds. -/
def step (s : PushLock T) : PushLockStep T → PushLock T
  | .acquireExclusive t => if s.pc t = .idle then { s with pc := update s.pc t .loadExclusive } else s
  | .releaseExclusive t =>
    if s.pc t = .idle ∧ t ∈ s.exclusiveHolders then
      { s with value := 0, exclusiveHolders := s.exclusiveHolders.erase t }
    else s
  | .acquireShared t => if s.pc t = .idle then { s with pc := update s.pc t .loadShared } else s
  | .releaseShared t =>
    if s.pc t = .idle ∧ t ∈ s.sharedHolders then
      let value := (s.value + (2 ^ 64 - exPushLockShareInc)) % 2 ^ 64
      { s with
        value
        pc := if value = exPushLockShared then update s.pc t .clear else s.pc
        sharedHolders := s.sharedHolders.erase t }
    else s
  | .load t =>
    match s.pc t with
    | .loadExclusive => if s.value = 0 then { s with pc := update s.pc t .casExclusive } else s
    | .loadShared =>
      if admitsReader s.value then
        -- a sum that overflows stops the thread
        if 2 ^ 64 ≤ withReader s.value then { s with pc := update s.pc t .panicked }
        else { s with pc := update s.pc t (.casShared s.value (withReader s.value)) }
      else s
    | _ => s
  | .cas t =>
    match s.pc t with
    | .casExclusive =>
      if s.value = 0 then
        { s with
          value := exPushLockLocked
          pc := update s.pc t .idle
          exclusiveHolders := t :: s.exclusiveHolders }
      else { s with pc := update s.pc t .loadExclusive }
    | .casShared current new =>
      if s.value = current then
        { s with
          value := new
          pc := update s.pc t .idle
          sharedHolders := t :: s.sharedHolders }
      else { s with pc := update s.pc t .loadShared }
    | .clear =>
      { s with
        value := if s.value = exPushLockShared then 0 else s.value
        pc := update s.pc t .idle }
    | _ => s

/-- Writers exclude all others, the word counts the readers, and a lock that nobody holds or is releasing can be taken
exclusively. -/
structure Excludes (s : PushLock T) : Prop where
  exclusive : s.exclusiveHolders.length ≤ 1
  shared : s.exclusiveHolders ≠ [] → s.sharedHolders = []
  count : s.value / exPushLockShareInc = s.sharedHolders.length
  free : s.exclusiveHolders = [] → s.sharedHolders = [] → (∀ t, s.pc t ≠ .clear) → s.value = 0
  acquirable : s.exclusiveHolders = [] → s.sharedHolders = [] → (∀ t, s.pc t ≠ .clear) → ∀ t, s.pc t = .idle →
    (run step s [.acquireExclusive t, .load t, .cas t]).exclusiveHolders = [t]

/-! ### The invariant -/

inductive Word (s : PushLock T) : Prop where
  | free (value : s.value = 0) (exclusive : s.exclusiveHolders = []) (shared : s.sharedHolders = [])
  | exclusive (t : T) (value : s.value = exPushLockLocked) (exclusive : s.exclusiveHolders = [t]) (shared : s.sharedHolders = [])
  | shared (value : s.value = exPushLockShared + exPushLockShareInc * s.sharedHolders.length) (lt : s.value < 2 ^ 64)
      (exclusive : s.exclusiveHolders = []) (clear : s.sharedHolders = [] → ∃ t, s.pc t = .clear)

structure Inv (s : PushLock T) : Prop where
  word : s.Word
  cas : ∀ t current new, s.pc t = .casShared current new → admitsReader current = true ∧ new = withReader current ∧ new < 2 ^ 64

theorem exPushLockShared_eq : exPushLockShared = 9 := rfl

theorem withReader_zero : withReader 0 = exPushLockShared + exPushLockShareInc := by decide

theorem withReader_shared (n : ℕ) : withReader (exPushLockShared + exPushLockShareInc * n) = exPushLockShared + exPushLockShareInc * (n + 1) := by
  rw [withReader, if_neg (by rw [exPushLockShared_eq]; omega), Nat.mul_succ, Nat.add_assoc]

namespace Inv
variable {s : PushLock T} {t : T}

section
variable (h : s.Inv)
include h

theorem move {pc : PushLockPc} (hfrom : s.pc t ≠ .clear)
    (hcas : ∀ current new, pc = .casShared current new → admitsReader current = true ∧ new = withReader current ∧ new < 2 ^ 64) :
    Inv { s with pc := update s.pc t pc } := by
  constructor
  · cases h.word with
    | free value exclusive shared => exact .free value exclusive shared
    | exclusive u value exclusive shared => exact .exclusive u value exclusive shared
    | shared value lt exclusive clear =>
      refine .shared value lt exclusive fun hnone => ?_
      obtain ⟨u, hu⟩ := clear hnone
      have hne : u ≠ t := fun heq => hfrom (heq ▸ hu)
      exact ⟨u, (update_of_ne hne ..).trans hu⟩
  · intro u current new hu
    rcases eq_or_ne u t with rfl | hne
    · simp only [update_self] at hu
      exact hcas current new hu
    · simp only [update_of_ne hne] at hu
      exact h.cas u current new hu

theorem cas_update {pc : PushLockPc} (hpc : ∀ current new, pc ≠ .casShared current new) (u : T) (current new : ℕ)
    (hu : update s.pc t pc u = .casShared current new) : admitsReader current = true ∧ new = withReader current ∧ new < 2 ^ 64 := by
  rcases eq_or_ne u t with rfl | hne
  · rw [update_self] at hu
    exact absurd hu (hpc current new)
  · rw [update_of_ne hne] at hu
    exact h.cas u current new hu

theorem releaseExclusive (hmem : t ∈ s.exclusiveHolders) :
    Inv { s with value := 0, exclusiveHolders := s.exclusiveHolders.erase t } := by
  refine ⟨?_, h.cas⟩
  cases h.word with
  | free value exclusive shared =>
    rw [exclusive] at hmem
    cases hmem
  | exclusive u value exclusive shared =>
    rw [exclusive] at hmem
    obtain rfl := mem_singleton.1 hmem
    refine .free rfl ?_ shared
    simp only [exclusive, erase_cons_head]
  | shared value lt exclusive clear =>
    rw [exclusive] at hmem
    cases hmem

theorem releaseShared (hmem : t ∈ s.sharedHolders) (hpc : s.pc t = .idle) : Inv (s.step (.releaseShared t)) := by
  have hlength := length_erase_of_mem hmem
  have hpos := length_pos_of_mem hmem
  unfold step
  dsimp only
  rw [if_pos ⟨hpc, hmem⟩]
  cases h.word with
  | free value exclusive shared | exclusive u value exclusive shared =>
    rw [shared] at hmem
    cases hmem
  | shared value lt exclusive clear =>
    have hvalue : (s.value + (2 ^ 64 - exPushLockShareInc)) % 2 ^ 64 =
        exPushLockShared + exPushLockShareInc * (s.sharedHolders.erase t).length := by
      rw [hlength]
      simp only [exPushLockShared_eq, exPushLockShareInc] at value lt ⊢
      omega
    rw [hvalue]
    constructor
    · refine .shared rfl ?_ exclusive fun hnone => ⟨t, ?_⟩
      · simp only
        rw [hlength]
        simp only [exPushLockShared_eq, exPushLockShareInc] at value lt ⊢
        omega
      · have hnone : s.sharedHolders.erase t = [] := hnone
        simp only [hnone, length_nil, Nat.mul_zero, Nat.add_zero, if_true, update_self]
    · intro u current new hu
      simp only at hu
      split_ifs at hu
      · exact h.cas_update (fun _ _ heq => by cases heq) u current new hu
      · exact h.cas u current new hu

theorem casExclusive (hvalue : s.value = 0) :
    Inv { s with value := exPushLockLocked, pc := update s.pc t .idle, exclusiveHolders := t :: s.exclusiveHolders } := by
  refine ⟨?_, h.cas_update fun _ _ heq => by cases heq⟩
  cases h.word with
  | free value exclusive shared => exact .exclusive t rfl (by simp only [exclusive]) shared
  | exclusive u value exclusive shared =>
    rw [hvalue] at value
    cases value
  | shared value lt exclusive clear =>
    rw [hvalue, exPushLockShared_eq] at value
    omega

theorem casShared {new : ℕ} (hpc : s.pc t = .casShared s.value new) :
    Inv { s with value := new, pc := update s.pc t .idle, sharedHolders := t :: s.sharedHolders } := by
  obtain ⟨hadmits, hnew, hlt⟩ := h.cas t s.value new hpc
  refine ⟨?_, h.cas_update fun _ _ heq => by cases heq⟩
  cases h.word with
  | free value exclusive shared =>
    refine .shared ?_ hlt exclusive fun hnone => absurd hnone (cons_ne_nil _ _)
    simp only [hnew, value, shared, withReader_zero, length_singleton, Nat.mul_one]
  | exclusive u value exclusive shared =>
    rw [value] at hadmits
    exact absurd hadmits (by decide)
  | shared value lt exclusive clear =>
    refine .shared ?_ hlt exclusive fun hnone => absurd hnone (cons_ne_nil _ _)
    simp only [hnew, length_cons]
    rw [value, withReader_shared]

/-- The compare-exchange that clears the flags finds them without readers or does nothing. -/
theorem clear (t : T) :
    Inv { s with value := if s.value = exPushLockShared then 0 else s.value, pc := update s.pc t .idle } := by
  refine ⟨?_, h.cas_update fun _ _ heq => by cases heq⟩
  cases h.word with
  | free value exclusive shared =>
    refine .free ?_ exclusive shared
    simp only [value]
    split_ifs <;> rfl
  | exclusive u value exclusive shared =>
    refine .exclusive u ?_ exclusive shared
    simp only [value]
    rfl
  | shared value lt exclusive clear =>
    by_cases hshared : s.value = exPushLockShared
    · refine .free (if_pos hshared) exclusive ?_
      apply eq_nil_of_length_eq_zero
      rw [hshared, exPushLockShareInc] at value
      simp only
      omega
    · refine .shared ((if_neg hshared).trans value) (by rw [if_neg hshared]; exact lt) exclusive fun hnone => ?_
      have hnone : s.sharedHolders = [] := hnone
      rw [hnone, length_nil, Nat.mul_zero, Nat.add_zero] at value
      exact absurd value hshared

theorem step (a : PushLockStep T) : (s.step a).Inv := by
  cases a with
  | acquireExclusive t | acquireShared t =>
    unfold PushLock.step
    dsimp only
    split_ifs with hpc
    · exact h.move (by simp [hpc]) fun _ _ heq => by cases heq
    · exact h
  | releaseExclusive t =>
    unfold PushLock.step
    dsimp only
    split_ifs with hheld
    · exact h.releaseExclusive hheld.2
    · exact h
  | releaseShared t =>
    by_cases hheld : s.pc t = .idle ∧ t ∈ s.sharedHolders
    · exact h.releaseShared hheld.2 hheld.1
    · unfold PushLock.step
      dsimp only
      rw [if_neg hheld]
      exact h
  | load t =>
    unfold PushLock.step
    dsimp only
    cases hpc : s.pc t with
    | loadExclusive =>
      dsimp only
      split_ifs
      · exact h.move (by simp [hpc]) fun _ _ heq => by cases heq
      · exact h
    | loadShared =>
      dsimp only
      split_ifs with hadmits hover
      · exact h.move (by simp [hpc]) fun _ _ heq => by cases heq
      · refine h.move (by simp [hpc]) fun _ _ heq => ?_
        cases heq
        exact ⟨hadmits, rfl, Nat.not_le.1 hover⟩
      · exact h
    | idle | casExclusive | casShared _ _ | clear | panicked => exact h
  | cas t =>
    unfold PushLock.step
    dsimp only
    cases hpc : s.pc t with
    | casExclusive =>
      dsimp only
      split_ifs with hvalue
      · exact h.casExclusive hvalue
      · exact h.move (by simp [hpc]) fun _ _ heq => by cases heq
    | casShared current new =>
      dsimp only
      split_ifs with hvalue
      · subst hvalue
        exact h.casShared hpc
      · exact h.move (by simp [hpc]) fun _ _ heq => by cases heq
    | clear => exact h.clear t
    | idle | loadExclusive | loadShared | panicked => exact h

end

theorem init (T : Type*) [DecidableEq T] : (PushLock.init T).Inv :=
  ⟨.free rfl rfl rfl, fun _ _ _ hpc => by cases hpc⟩

omit [DecidableEq T] in
theorem free (h : s.Inv) (hexclusive : s.exclusiveHolders = []) (hshared : s.sharedHolders = []) (hclear : ∀ t, s.pc t ≠ .clear) :
    s.value = 0 := by
  cases h.word with
  | free value _ _ => exact value
  | exclusive u value exclusive shared =>
    rw [hexclusive] at exclusive
    cases exclusive
  | shared value lt exclusive clear =>
    obtain ⟨t, ht⟩ := clear hshared
    exact absurd ht (hclear t)

theorem excludes (h : s.Inv) : s.Excludes := by
  refine ⟨?_, ?_, ?_, h.free, fun hexclusive hshared hclear t hpc => ?_⟩
  · cases h.word with
    | free value exclusive shared => simp [exclusive]
    | exclusive u value exclusive shared => simp [exclusive]
    | shared value lt exclusive clear => simp [exclusive]
  · intro hne
    cases h.word with
    | free value exclusive shared => exact shared
    | exclusive u value exclusive shared => exact shared
    | shared value lt exclusive clear => exact absurd exclusive hne
  · cases h.word with
    | free value exclusive shared => simp [value, shared]
    | exclusive u value exclusive shared => simp [value, shared, exPushLockLocked, exPushLockShareInc]
    | shared value lt exclusive clear =>
      simp only [exPushLockShared_eq, exPushLockShareInc] at value ⊢
      omega
  · have hvalue := h.free hexclusive hshared hclear
    simp [run, PushLock.step, hpc, hvalue, hexclusive]

end Inv

/-- In every interleaving of any number of threads. -/
theorem everyState_excludes (T : Type*) [DecidableEq T] (steps : List (PushLockStep T)) :
    EveryState step Excludes (init T) steps := by
  have hall : EveryStep step (fun _ _ => True) (init T) steps := everyStep_of_forall fun _ _ => trivial
  exact (everyState_invariant (fun _ a hs _ => hs.step a) (Inv.init T) hall).imp fun _ h => h.excludes

end PushLock

end XenOS.Ke
