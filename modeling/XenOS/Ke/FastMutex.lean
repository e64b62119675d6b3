import Mathlib.Algebra.GroupWithZero.Nat
import Mathlib.Data.Int.Init
import XenOS.General.Run

/-! `FAST_MUTEX`: a contender decrements a counter and spins while it is negative, a release
increments it. The IRQL to go back to is stored before the counter is touched. The steps of any
number of threads interleave. -/

namespace XenOS.Ke

open General Function
open Option (isSome_none isSome_some)

def apcLevel : ℕ := 1

/-- A sum in an `AtomicI32`, which wraps. -/
def wrapI32 (x : ℤ) : ℤ := x.bmod (2 ^ 32)

inductive FastMutexPc where
  | idle
  | saving (irql : ℕ)
  | counting
  | spinning
  | trying (irql : ℕ)
  | trySaving (irql : ℕ)
  | holding
  | releasing (irql : ℕ)
  | lowering (irql : ℕ)
  deriving DecidableEq

namespace FastMutexPc

/-- The mutex is taken by the thread, from the step that gets it to the increment that gives it back. -/
def owns : FastMutexPc → Bool
  | trySaving _ | holding | releasing _ => true
  | _ => false

/-- The thread has stored its IRQL and has not read it back. -/
def saved : FastMutexPc → Bool
  | counting | spinning | holding => true
  | _ => false

def inRelease : FastMutexPc → Bool
  | releasing _ | lowering _ => true
  | _ => false

end FastMutexPc

/-- The mutex and the threads with their IRQLs; for the record, the IRQL at which a thread began its last acquire. -/
structure FastMutex (T : Type*) where
  count : ℤ
  oldIrql : ℕ
  pc : T → FastMutexPc
  irql : T → ℕ
  began : T → ℕ

inductive FastMutexStep (T : Type*) where
  | acquire (t : T) (irql : ℕ)
  | saveIrql (t : T)
  | fetchSub (t : T)
  | spin (t : T)
  | tryAcquire (t : T) (irql : ℕ)
  | compareExchange (t : T)
  | trySaveIrql (t : T)
  | release (t : T)
  | fetchAdd (t : T)
  | lowerIrql (t : T)

namespace FastMutex

variable {T : Type*}

def init (irql : T → ℕ) : FastMutex T where
  count := 1
  oldIrql := 0
  pc _ := .idle
  irql := irql
  began := irql

variable [DecidableEq T]

/-- One step. A step that the thread is not at leaves the state as it is; a thread begins an acquire at any IRQL. -/
def step (s : FastMutex T) : FastMutexStep T → FastMutex T
  | .acquire t irql =>
    if s.pc t = .idle then
      { s with
        pc := update s.pc t (.saving irql)
        irql := update s.irql t apcLevel
        began := update s.began t irql }
    else s
  | .saveIrql t =>
    match s.pc t with
    | .saving irql => { s with oldIrql := irql, pc := update s.pc t .counting }
    | _ => s
  | .fetchSub t =>
    match s.pc t with
    | .counting =>
      { s with
        count := wrapI32 (s.count - 1)
        pc := update s.pc t (if s.count ≤ 0 then .spinning else .holding) }
    | _ => s
  | .spin t =>
    match s.pc t with
    | .spinning => if s.count < 0 then s else { s with pc := update s.pc t .holding }
    | _ => s
  | .tryAcquire t irql =>
    if s.pc t = .idle then
      { s with
        pc := update s.pc t (.trying irql)
        irql := update s.irql t apcLevel
        began := update s.began t irql }
    else s
  | .compareExchange t =>
    match s.pc t with
    | .trying irql =>
      if s.count = 1 then { s with count := 0, pc := update s.pc t (.trySaving irql) }
      else { s with pc := update s.pc t .idle, irql := update s.irql t irql }
    | _ => s
  | .trySaveIrql t =>
    match s.pc t with
    | .trySaving irql => { s with oldIrql := irql, pc := update s.pc t .holding }
    | _ => s
  | .release t =>
    match s.pc t with
    | .holding => { s with pc := update s.pc t (.releasing s.oldIrql) }
    | _ => s
  | .fetchAdd t =>
    match s.pc t with
    | .releasing irql => { s with count := wrapI32 (s.count + 1), pc := update s.pc t (.lowering irql) }
    | _ => s
  | .lowerIrql t =>
    match s.pc t with
    | .lowering irql => { s with pc := update s.pc t .idle, irql := update s.irql t irql }
    | _ => s

/-- One owner at a time; a spinning thread can go on when nobody owns or releases the mutex; who is out again is at the
IRQL it came with. -/
structure Sound (s : FastMutex T) : Prop where
  exclusive : ∀ t u, (s.pc t).owns = true → (s.pc u).owns = true → t = u
  progress : (∀ t, (s.pc t).owns = false) → (∀ t, (s.pc t).inRelease = false) → (∃ t, s.pc t = .spinning) → ¬ s.count < 0
  restored : ∀ t, s.pc t = .idle → s.irql t = s.began t

/-- Nobody contends while another thread spins, and no different IRQL is stored over one still to be
read back. -/
def Uncontended (s : FastMutex T) : FastMutexStep T → Prop
  | .saveIrql t => ∀ irql, s.pc t = .saving irql → ∀ u, (s.pc u).saved = true → irql = s.began u
  | .trySaveIrql t => ∀ irql, s.pc t = .trySaving irql → ∀ u, (s.pc u).saved = true → irql = s.began u
  | .fetchSub t => s.pc t = .counting → ∀ u, s.pc u ≠ .spinning
  | _ => True

/-! ### The invariant -/

def CarriesIrql (s : FastMutex T) (t : T) : Prop :=
  match s.pc t with
  | .idle => s.irql t = s.began t
  | .saving irql | .trying irql | .trySaving irql | .releasing irql | .lowering irql => irql = s.began t
  | .counting | .spinning | .holding => s.oldIrql = s.began t

structure Counts (s : FastMutex T) (owner waiter : Option T) : Prop where
  owns_iff : ∀ t, (s.pc t).owns = true ↔ owner = some t
  spins_iff : ∀ t, s.pc t = .spinning ↔ waiter = some t
  count : s.count = 1 - (if owner.isSome then 1 else 0) - (if waiter.isSome then 1 else 0)

structure Inv (s : FastMutex T) : Prop where
  counts : ∃ owner waiter, s.Counts owner waiter
  irql : ∀ t, s.CarriesIrql t

omit [DecidableEq T] in
theorem CarriesIrql.saved {s : FastMutex T} {t : T} (h : s.CarriesIrql t) (hsaved : (s.pc t).saved = true) : s.oldIrql = s.began t := by
  unfold CarriesIrql at h
  cases hpc : s.pc t with
  | counting | spinning | holding =>
    rw [hpc] at h
    exact h
  | idle | saving _ | trying _ | trySaving _ | releasing _ | lowering _ =>
    rw [hpc] at hsaved
    cases hsaved

omit [DecidableEq T] in
theorem CarriesIrql.other {s s' : FastMutex T} {u : T} (h : s.CarriesIrql u) (hpc : s'.pc u = s.pc u) (hirql : s'.irql u = s.irql u)
    (hbegan : s'.began u = s.began u) (hold : (s.pc u).saved = true → s'.oldIrql = s.began u) : s'.CarriesIrql u := by
  unfold CarriesIrql at h ⊢
  rw [hpc, hirql, hbegan]
  cases hu : s.pc u with
  | counting | spinning | holding => exact hold (by rw [hu]; rfl)
  | idle | saving _ | trying _ | trySaving _ | releasing _ | lowering _ =>
    rw [hu] at h
    exact h

namespace Counts
variable {s s' : FastMutex T} {owner waiter : Option T} {t : T} {pc : FastMutexPc}

theorem move (h : s.Counts owner waiter) (hpc : s'.pc = update s.pc t pc) (howns : pc.owns = (s.pc t).owns)
    (hspins : pc = .spinning ↔ s.pc t = .spinning) (hcount : s'.count = s.count) : s'.Counts owner waiter := by
  refine ⟨fun u => ?_, fun u => ?_, hcount.trans h.count⟩
  · rw [hpc, ← h.owns_iff]
    rcases eq_or_ne u t with rfl | hne
    · rw [update_self, howns]
    · rw [update_of_ne hne]
  · rw [hpc, ← h.spins_iff]
    rcases eq_or_ne u t with rfl | hne
    · rw [update_self, hspins]
    · rw [update_of_ne hne]

theorem own (h : s.Counts none waiter) (hpc : s'.pc = update s.pc t pc) (howns : pc.owns = true) {waiter' : Option T}
    (hwaiter : ∀ u, update s.pc t pc u = .spinning ↔ waiter' = some u)
    (hcount : s'.count = -(if waiter'.isSome then 1 else 0)) : s'.Counts (some t) waiter' := by
  refine ⟨fun u => ?_, fun u => ?_, ?_⟩
  · rw [hpc]
    rcases eq_or_ne u t with rfl | hne
    · rw [update_self, howns]
      exact ⟨fun _ => rfl, fun _ => rfl⟩
    · rw [update_of_ne hne, h.owns_iff]
      exact ⟨fun hnone => (Option.some_ne_none u hnone.symm).elim, fun heq => absurd (Option.some.inj heq).symm hne⟩
  · rw [hpc]
    exact hwaiter u
  · rw [hcount]
    simp only [isSome_some, if_true]
    omega

end Counts

theorem wrapI32_of_small {x : ℤ} (hlow : -2 ≤ x) (hhigh : x ≤ 2) : wrapI32 x = x := by
  unfold wrapI32
  apply Int.bmod_eq_of_le
  all_goals omega

namespace Inv
variable {s s' : FastMutex T} {t : T} {pc : FastMutexPc} {irql : ℕ}

theorem update (h : s.Inv) (hpc : s'.pc = update s.pc t pc) (hirql : ∀ u, u ≠ t → s'.irql u = s.irql u)
    (hbegan : ∀ u, u ≠ t → s'.began u = s.began u) (hold : ∀ u, u ≠ t → (s.pc u).saved = true → s'.oldIrql = s.began u)
    (hself : s'.CarriesIrql t) (hcounts : ∃ owner waiter, s'.Counts owner waiter) : s'.Inv := by
  refine ⟨hcounts, fun u => ?_⟩
  rcases eq_or_ne u t with rfl | hne
  · exact hself
  · exact (h.irql u).other (by rw [hpc, update_of_ne hne]) (hirql u hne) (hbegan u hne) (hold u hne)

omit [DecidableEq T] in
theorem kept (h : s.Inv) (u : T) (hsaved : (s.pc u).saved = true) : s.oldIrql = s.began u := (h.irql u).saved hsaved

section
variable (h : s.Inv)
include h

theorem begin (hidle : s.pc t = .idle) (howns : pc.owns = false) (hspins : pc ≠ .spinning)
    (hself : CarriesIrql { s with
      pc := Function.update s.pc t pc
      irql := Function.update s.irql t apcLevel
      began := Function.update s.began t irql } t) :
    Inv { s with
      pc := Function.update s.pc t pc
      irql := Function.update s.irql t apcLevel
      began := Function.update s.began t irql } := by
  obtain ⟨owner, waiter, hcounts⟩ := h.counts
  refine h.update rfl (fun u hu => Function.update_of_ne hu ..) (fun u hu => Function.update_of_ne hu ..) (fun u _ => h.kept u) hself
    ⟨owner, waiter, hcounts.move rfl ?_ ?_ rfl⟩
  · rw [hidle, howns]
    rfl
  · rw [hidle]
    exact ⟨fun heq => absurd heq hspins, fun heq => by cases heq⟩

theorem save (hpc : s.pc t = .saving irql ∨ s.pc t = .trySaving irql) (hother : ∀ u, (s.pc u).saved = true → irql = s.began u)
    (hto : (s.pc t = .saving irql → pc = .counting) ∧ (s.pc t = .trySaving irql → pc = .holding)) :
    Inv { s with oldIrql := irql, pc := Function.update s.pc t pc } := by
  obtain ⟨owner, waiter, hcounts⟩ := h.counts
  have hcarries := h.irql t
  unfold CarriesIrql at hcarries
  rcases hpc with hpc | hpc
  · obtain rfl := hto.1 hpc
    rw [hpc] at hcarries
    refine h.update rfl (fun _ _ => rfl) (fun _ _ => rfl) (fun u _ => hother u) ?_ ⟨owner, waiter, hcounts.move rfl ?_ ?_ rfl⟩
    · simp only [CarriesIrql, Function.update_self]
      exact hcarries
    · rw [hpc]
      rfl
    · simp [hpc]
  · obtain rfl := hto.2 hpc
    rw [hpc] at hcarries
    refine h.update rfl (fun _ _ => rfl) (fun _ _ => rfl) (fun u _ => hother u) ?_ ⟨owner, waiter, hcounts.move rfl ?_ ?_ rfl⟩
    · simp only [CarriesIrql, Function.update_self]
      exact hcarries
    · rw [hpc]
      rfl
    · simp [hpc]

theorem fetchSub (hpc : s.pc t = .counting) (halone : ∀ u, s.pc u ≠ .spinning) :
    Inv { s with count := wrapI32 (s.count - 1), pc := Function.update s.pc t (if s.count ≤ 0 then .spinning else .holding) } := by
  obtain ⟨owner, waiter, hcounts⟩ := h.counts
  have hnone : waiter = none := by
    cases waiter with
    | none => rfl
    | some u => exact absurd ((hcounts.spins_iff u).2 rfl) (halone u)
  subst hnone
  have hcount := hcounts.count
  simp only [isSome_none, Bool.false_eq_true, if_false] at hcount
  have hold := h.kept t (by rw [hpc]; rfl)
  have hself : ∀ p, p = .spinning ∨ p = .holding →
      CarriesIrql { s with count := wrapI32 (s.count - 1), pc := Function.update s.pc t p } t := by
    rintro p (rfl | rfl)
    all_goals simpa only [CarriesIrql, Function.update_self] using hold
  cases owner with
  | none =>
    simp only [isSome_none, Bool.false_eq_true, if_false] at hcount
    rw [if_neg (by omega)]
    refine h.update rfl (fun _ _ => rfl) (fun _ _ => rfl) (fun u _ => h.kept u) (hself _ (Or.inr rfl)) ⟨some t, none, ?_⟩
    refine hcounts.own rfl rfl (fun u => ?_) ?_
    · rcases eq_or_ne u t with rfl | hne
      · simp
      · rw [Function.update_of_ne hne]
        exact ⟨fun heq => absurd heq (halone u), fun heq => by cases heq⟩
    · simp only [wrapI32_of_small (show -2 ≤ s.count - 1 by omega) (by omega), isSome_none, Bool.false_eq_true, if_false]
      omega
  | some v =>
    simp only [isSome_some, if_true] at hcount
    rw [if_pos (by omega)]
    refine h.update rfl (fun _ _ => rfl) (fun _ _ => rfl) (fun u _ => h.kept u) (hself _ (Or.inl rfl)) ⟨some v, some t, fun u => ?_, fun u => ?_, ?_⟩
    · rw [← hcounts.owns_iff]
      rcases eq_or_ne u t with rfl | hne
      · simp only [Function.update_self, hpc]
        exact Iff.rfl
      · simp only [Function.update_of_ne hne]
    · rcases eq_or_ne u t with rfl | hne
      · simp only [Function.update_self]
      · simp only [Function.update_of_ne hne]
        exact ⟨fun heq => absurd heq (halone u), fun heq => absurd (Option.some.inj heq).symm hne⟩
    · simp only [wrapI32_of_small (show -2 ≤ s.count - 1 by omega) (by omega), isSome_some, if_true]
      omega

theorem spin (hpc : s.pc t = .spinning) (hcount : ¬ s.count < 0) : Inv { s with pc := Function.update s.pc t .holding } := by
  obtain ⟨owner, waiter, hcounts⟩ := h.counts
  obtain rfl := (hcounts.spins_iff t).1 hpc
  have hbefore := hcounts.count
  simp only [isSome_some, if_true] at hbefore
  have hold := h.kept t (by rw [hpc]; rfl)
  cases owner with
  | some v =>
    simp only [isSome_some, if_true] at hbefore
    omega
  | none =>
    simp only [isSome_none, Bool.false_eq_true, if_false] at hbefore
    refine h.update rfl (fun _ _ => rfl) (fun _ _ => rfl) (fun u _ => h.kept u) ?_ ⟨some t, none, ?_⟩
    · simpa only [CarriesIrql, Function.update_self] using hold
    refine hcounts.own rfl rfl (fun u => ?_) ?_
    · rcases eq_or_ne u t with rfl | hne
      · simp
      · rw [Function.update_of_ne hne, hcounts.spins_iff]
        exact ⟨fun heq => absurd (Option.some.inj heq).symm hne, fun heq => by cases heq⟩
    · simp only [isSome_none, Bool.false_eq_true, if_false]
      omega

theorem tryTake (hpc : s.pc t = .trying irql) (hcount : s.count = 1) :
    Inv { s with count := 0, pc := Function.update s.pc t (.trySaving irql) } := by
  obtain ⟨owner, waiter, hcounts⟩ := h.counts
  have hbefore := hcounts.count
  have hcarries := h.irql t
  unfold CarriesIrql at hcarries
  rw [hpc] at hcarries
  cases owner with
  | some v =>
    simp only [isSome_some, if_true] at hbefore
    split_ifs at hbefore <;> omega
  | none =>
    cases waiter with
    | some v =>
      simp only [isSome_some, if_true, isSome_none, Bool.false_eq_true, if_false] at hbefore
      omega
    | none =>
      refine h.update rfl (fun _ _ => rfl) (fun _ _ => rfl) (fun u _ => h.kept u) ?_ ⟨some t, none, ?_⟩
      · simpa only [CarriesIrql, Function.update_self] using hcarries
      refine hcounts.own rfl rfl (fun u => ?_) rfl
      rcases eq_or_ne u t with rfl | hne
      · simp
      · rw [Function.update_of_ne hne, hcounts.spins_iff]

theorem lower (hpc : s.pc t = .trying irql ∨ s.pc t = .lowering irql) :
    Inv { s with pc := Function.update s.pc t .idle, irql := Function.update s.irql t irql } := by
  obtain ⟨owner, waiter, hcounts⟩ := h.counts
  have hcarries := h.irql t
  unfold CarriesIrql at hcarries
  refine h.update rfl (fun u hu => Function.update_of_ne hu ..) (fun _ _ => rfl) (fun u _ => h.kept u) ?_
    ⟨owner, waiter, hcounts.move rfl ?_ ?_ rfl⟩
  · simp only [CarriesIrql, Function.update_self]
    rcases hpc with hpc | hpc
    all_goals
      rw [hpc] at hcarries
      exact hcarries
  · rcases hpc with hpc | hpc
    all_goals
      rw [hpc]
      rfl
  · rcases hpc with hpc | hpc
    all_goals simp [hpc]

theorem release (hpc : s.pc t = .holding) : Inv { s with pc := Function.update s.pc t (.releasing s.oldIrql) } := by
  obtain ⟨owner, waiter, hcounts⟩ := h.counts
  have hold := h.kept t (by rw [hpc]; rfl)
  refine h.update rfl (fun _ _ => rfl) (fun _ _ => rfl) (fun u _ => h.kept u) ?_ ⟨owner, waiter, hcounts.move rfl ?_ ?_ rfl⟩
  · simpa only [CarriesIrql, Function.update_self] using hold
  · rw [hpc]
    rfl
  · simp [hpc]

theorem fetchAdd (hpc : s.pc t = .releasing irql) :
    Inv { s with count := wrapI32 (s.count + 1), pc := Function.update s.pc t (.lowering irql) } := by
  obtain ⟨owner, waiter, hcounts⟩ := h.counts
  have hcarries := h.irql t
  unfold CarriesIrql at hcarries
  rw [hpc] at hcarries
  obtain rfl := (hcounts.owns_iff t).1 (by rw [hpc]; rfl)
  have hbefore := hcounts.count
  simp only [isSome_some, if_true] at hbefore
  refine h.update rfl (fun _ _ => rfl) (fun _ _ => rfl) (fun u _ => h.kept u) ?_ ⟨none, waiter, fun u => ?_, fun u => ?_, ?_⟩
  · simpa only [CarriesIrql, Function.update_self] using hcarries
  · rcases eq_or_ne u t with rfl | hne
    · simp [FastMutexPc.owns]
    · simp only [Function.update_of_ne hne, hcounts.owns_iff]
      exact ⟨fun heq => absurd (Option.some.inj heq).symm hne, fun heq => by cases heq⟩
  · rw [← hcounts.spins_iff]
    rcases eq_or_ne u t with rfl | hne
    · simp [hpc]
    · simp only [Function.update_of_ne hne]
  · rw [wrapI32_of_small (by split_ifs at hbefore <;> omega) (by split_ifs at hbefore <;> omega)]
    simp only [isSome_none, Bool.false_eq_true, if_false]
    omega

theorem step (a : FastMutexStep T) (ha : s.Uncontended a) : (s.step a).Inv := by
  cases a with
  | acquire t irql | tryAcquire t irql =>
    unfold FastMutex.step
    dsimp only
    split_ifs with hpc
    · exact h.begin hpc rfl (by simp) (by simp [CarriesIrql])
    · exact h
  | saveIrql t =>
    unfold FastMutex.step
    dsimp only
    cases hpc : s.pc t with
    | saving irql => exact h.save (Or.inl hpc) (ha irql hpc) ⟨fun _ => rfl, fun heq => absurd (hpc.symm.trans heq) (by simp)⟩
    | _ => exact h
  | trySaveIrql t =>
    unfold FastMutex.step
    dsimp only
    cases hpc : s.pc t with
    | trySaving irql => exact h.save (Or.inr hpc) (ha irql hpc) ⟨fun heq => absurd (hpc.symm.trans heq) (by simp), fun _ => rfl⟩
    | _ => exact h
  | fetchSub t =>
    unfold FastMutex.step
    dsimp only
    cases hpc : s.pc t with
    | counting => exact h.fetchSub hpc (ha hpc)
    | _ => exact h
  | spin t =>
    unfold FastMutex.step
    dsimp only
    cases hpc : s.pc t with
    | spinning =>
      dsimp only
      split_ifs with hcount
      · exact h
      · exact h.spin hpc hcount
    | _ => exact h
  | compareExchange t =>
    unfold FastMutex.step
    dsimp only
    cases hpc : s.pc t with
    | trying irql =>
      dsimp only
      split_ifs with hcount
      · exact h.tryTake hpc hcount
      · exact h.lower (Or.inl hpc)
    | _ => exact h
  | release t =>
    unfold FastMutex.step
    dsimp only
    cases hpc : s.pc t with
    | holding => exact h.release hpc
    | _ => exact h
  | fetchAdd t =>
    unfold FastMutex.step
    dsimp only
    cases hpc : s.pc t with
    | releasing irql => exact h.fetchAdd hpc
    | _ => exact h
  | lowerIrql t =>
    unfold FastMutex.step
    dsimp only
    cases hpc : s.pc t with
    | lowering irql => exact h.lower (Or.inr hpc)
    | _ => exact h

end

theorem init (irql : T → ℕ) : (FastMutex.init irql).Inv :=
  ⟨⟨none, none, fun _ => ⟨(fun h => by cases h), (fun h => by cases h)⟩, fun _ => ⟨(fun h => by cases h), (fun h => by cases h)⟩, rfl⟩,
    fun _ => rfl⟩

omit [DecidableEq T] in
theorem sound (h : s.Inv) : s.Sound := by
  obtain ⟨owner, waiter, hcounts⟩ := h.counts
  refine ⟨fun t u ht hu => ?_, fun hfree _ _ => ?_, fun t ht => ?_⟩
  · have hsame := ((hcounts.owns_iff t).1 ht).symm.trans ((hcounts.owns_iff u).1 hu)
    exact Option.some.inj hsame
  · have hcount := hcounts.count
    cases owner with
    | some v =>
      have howns := (hcounts.owns_iff v).2 rfl
      rw [hfree v] at howns
      cases howns
    | none =>
      simp only [isSome_none, Bool.false_eq_true, if_false] at hcount
      split_ifs at hcount <;> omega
  · have hcarries := h.irql t
    unfold CarriesIrql at hcarries
    rw [ht] at hcarries
    exact hcarries

end Inv

/-- In every interleaving in which nobody contends beside a spinning thread or overwrites a
different IRQL that is still needed. -/
theorem everyState_sound (irql : T → ℕ) {steps : List (FastMutexStep T)} (hsteps : EveryStep step Uncontended (init irql) steps) :
    EveryState step Sound (init irql) steps :=
  (everyState_invariant (fun _ a hs ha => hs.step a ha) (Inv.init irql) hsteps).imp fun _ h => h.sound

local instance neZeroTwo : NeZero 2 := ⟨by decide⟩

def twoThreads : List (FastMutexStep (Fin 2)) :=
  [.acquire 0 0, .saveIrql 0, .fetchSub 0, .acquire 1 0, .saveIrql 1, .fetchSub 1, .release 0, .fetchAdd 0, .spin 1, .lowerIrql 0]

theorem everyState_sound_twoThreads : EveryState step Sound (init fun _ : Fin 2 => 0) twoThreads := by
  refine everyState_sound _ ⟨trivial, ?_, ?_, trivial, ?_, ?_, trivial, trivial, trivial, trivial, trivial⟩
  · exact fun irql _ u hu => absurd hu (by revert u; decide)
  · exact fun _ => by decide
  · intro irql hirql u hu
    cases hirql
    revert u
    decide
  · exact fun _ => by decide

/-- Two threads wait when the owner releases the mutex: both go on spinning, and the mutex stays taken by nobody. -/
def threeThreads : List (FastMutexStep (Fin 3)) :=
  [.acquire 0 0, .saveIrql 0, .fetchSub 0, .acquire 1 0, .saveIrql 1, .fetchSub 1, .acquire 2 0, .saveIrql 2, .fetchSub 2,
    .release 0, .fetchAdd 0, .lowerIrql 0]

/-- The owner began at the passive level and is left at the level of the thread that waits for it. -/
def raisedWaiter : List (FastMutexStep (Fin 2)) :=
  [.acquire 0 0, .saveIrql 0, .fetchSub 0, .acquire 1 1, .saveIrql 1, .fetchSub 1, .release 0, .fetchAdd 0, .lowerIrql 0]

theorem threeThreads_stuck : ¬ EveryState step Sound (init fun _ : Fin 3 => 0) threeThreads ∧
    ¬ EveryState step Sound (init fun _ : Fin 2 => 0) raisedWaiter := by
  constructor
  · intro hall
    have hlast := everyState_iff_take.1 hall 12
    exact hlast.progress (by decide) (by decide) ⟨1, by decide⟩ (by decide)
  · intro hall
    have hlast := everyState_iff_take.1 hall 9
    exact absurd (hlast.restored 0 (by decide)) (by decide)

end FastMutex

end XenOS.Ke
