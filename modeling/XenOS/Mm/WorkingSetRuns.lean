import XenOS.Mm.WorkingSet

/-! The working set list over its runs. The word that ends the free chain reads as active: the
invariant leaves no room for a free entry, and a fresh list is free throughout. -/

namespace XenOS.Mm

open General

/-- The working set and, beside it, the entries added and not since removed or trimmed. -/
structure WsState where
  mmsupport : Mmsupport
  inUse : ℕ → Bool

/-- The operations, with what they find in memory: the pool for a growth, page table
entries and page frames for a trim. -/
inductive WsOp where
  | add (va : BitVec 64) (allocated : Bool) (pool : ℕ → Mmwsle)
  | remove (va : BitVec 64)
  | trim (pagesToTrim : ℕ) (ptes : ℕ → Pte) (db : PfnState)

namespace WsState

/-- The number of entries of the array. -/
def size (s : WsState) : ℕ := (s.mmsupport.vmWorkingSetList.map Mmwsl.wsleSize).getD 0

def step (s : WsState) : WsOp → WsState
  | .add va allocated pool =>
    ⟨(miAddPageToWorkingSet s.mmsupport va allocated pool).2,
      match s.mmsupport.vmWorkingSetList.bind (·.withFreeSlot allocated pool) with
      | some wsl => Function.update s.inUse wsl.firstFree true
      | none => s.inUse⟩
  | .remove va =>
    ⟨(miRemovePageFromWorkingSet s.mmsupport va).2,
      match s.mmsupport.vmWorkingSetList.bind (·.find va) with
      | some i => Function.update s.inUse i false
      | none => s.inUse⟩
  | .trim pagesToTrim ptes db =>
    ⟨(miTrimWorkingSet s.mmsupport ptes db pagesToTrim).2.1,
      match s.mmsupport.vmWorkingSetList with
      | some wsl => fun i => s.inUse i && i ∉ (trimLoop wsl ptes db pagesToTrim).givenBack
      | none => s.inUse⟩

/-- Active entries are those in use, the others form the free chain, no flag but `WSLE_VALID` is
set, and the counters agree. -/
structure Agrees (wsl : Mmwsl) (workingSetSize : ℕ) (inUse : ℕ → Bool) : Prop where
  active : ∀ i < wsl.wsleSize, (wsl.wsle i).isActive = inUse i
  chain : ∃ free, Walk u32Max (fun i => (wsl.wsle i).nextFree) wsl.firstFree free ∧
    ∀ i, i ∈ free ↔ i < wsl.wsleSize ∧ inUse i = false
  flags : ∀ i < wsl.wsleSize, inUse i → (wsl.wsle i).flags = wsleValid
  count : wsl.wsleCount = (List.range wsl.wsleSize).countP inUse
  size : workingSetSize = wsl.wsleCount

def WsInvariant (s : WsState) : Prop :=
  ∃ wsl, s.mmsupport.vmWorkingSetList = some wsl ∧ Agrees wsl s.mmsupport.workingSetSize s.inUse

end WsState

theorem Mmwsle.isActive_of_nextFree {e : Mmwsle} (h : e.nextFree = u32Max) : e.isActive = true := by
  have hodd : e.toNat % 2 = 1 := by
    unfold nextFree u32Max at h
    omega
  have hbit : (e &&& wsleValid).toNat = 1 := by
    rw [BitVec.toNat_and, show wsleValid.toNat = 1 from rfl, Nat.and_one_is_mod, hodd]
  simp only [isActive, decide_eq_true_eq]
  intro hzero
  rw [hzero] at hbit
  cases hbit

theorem WsState.Agrees.inUse_of_lt {wsl : Mmwsl} {n : ℕ} {inUse : ℕ → Bool} (h : Agrees wsl n inUse) {i : ℕ}
    (hi : i < wsl.wsleSize) : inUse i = true := by
  by_contra hfree
  obtain ⟨free, hwalk, hmem⟩ := h.chain
  have hi' : i ∈ free := (hmem i).2 ⟨hi, by simpa using hfree⟩
  rcases List.eq_nil_or_concat free with rfl | ⟨as, x, rfl⟩
  · cases hi'
  · -- the last free entry ends the chain, so it reads as active
    have hw : Walk u32Max (fun i => (wsl.wsle i).nextFree) wsl.firstFree (as ++ x :: []) := by simpa using hwalk
    have hend := Mmwsle.isActive_of_nextFree (by simpa using hw.next_eq)
    obtain ⟨hx, hunused⟩ := (hmem x).1 (by simp)
    rw [h.active x hx, hunused] at hend
    cases hend

namespace WsState

theorem not_wsInvariant_of_free {s : WsState} (hfree : ∃ i < s.size, s.inUse i = false) : ¬ s.WsInvariant := by
  obtain ⟨i, hi, hunused⟩ := hfree
  rintro ⟨wsl, hwsl, hagrees⟩
  have hsize : s.size = wsl.wsleSize := by simp [size, hwsl]
  rw [hagrees.inUse_of_lt (hsize ▸ hi)] at hunused
  cases hunused

/-- The invariant fails on a fresh list: its entries are free, and an array of no
entries still has a chain that starts at its first one. -/
theorem not_wsInvariant_of_init {m m' : Mmsupport} {minWs maxWs : ℕ} {wslAllocated wsleAllocated : Bool}
    {pool : ℕ → Mmwsle}
    (hinit : miInitializeWorkingSet (some m) minWs maxWs wslAllocated wsleAllocated pool = (.success, some m')) :
    ¬ WsInvariant ⟨m', fun _ => false⟩ := by
  simp only [miInitializeWorkingSet] at hinit
  split at hinit
  · cases hinit
  · split at hinit
    · cases hinit
    · cases hinit
      by_cases hsize : minWs * 2 % 2 ^ 64 = 0
      · rintro ⟨wsl, hwsl, hagrees⟩
        cases hwsl
        obtain ⟨free, hwalk, hmem⟩ := hagrees.chain
        obtain rfl : free = [] := List.eq_nil_iff_forall_not_mem.2 fun i hi => by
          have hlt : i < minWs * 2 % 2 ^ 64 := ((hmem i).1 hi).1
          omega
        have hend : 0 = u32Max := walk_nil.1 hwalk
        cases hend
      · exact not_wsInvariant_of_free ⟨0, Nat.pos_of_ne_zero hsize, rfl⟩

/-- No run keeps the invariant: it fails in the state the initialization leaves, and
in every later state that has a free entry. -/
theorem wsInvariant_never {m m' : Mmsupport} {minWs maxWs : ℕ} {wslAllocated wsleAllocated : Bool}
    {pool : ℕ → Mmwsle}
    (hinit : miInitializeWorkingSet (some m) minWs maxWs wslAllocated wsleAllocated pool = (.success, some m'))
    (ops : List WsOp) :
    ¬ EveryState step WsInvariant ⟨m', fun _ => false⟩ ops ∧
      EveryState step (fun s => (∃ i < s.size, s.inUse i = false) → ¬ s.WsInvariant) ⟨m', fun _ => false⟩ ops :=
  ⟨fun h => not_wsInvariant_of_init hinit h.first,
    everyState_iff_take.2 fun _ => not_wsInvariant_of_free⟩

def smallest : Mmsupport :=
  { vmWorkingSetList := some
      { firstFree := 0
        lastInitializedWsle := 1
        wsleCount := 0
        wsle := chainFree (fun _ => 0) 0 2 (2 ^ 64 - 1)
        wsleSize := 2 }
    initialized := true }

theorem smallest_init : miInitializeWorkingSet (some {}) 1 345 true true (fun _ => 0) = (.success, some smallest) := rfl

theorem wsInvariant_never_smallest : ¬ EveryState step WsInvariant ⟨smallest, fun _ => false⟩ [.add 0x1000 true fun _ => 0] :=
  (wsInvariant_never smallest_init _).1

/-- The first free entry holds the index 1 and reads as active. -/
theorem smallest_not_wsInvariant :
    miInitializeWorkingSet (some {}) 1 345 true true (fun _ => 0) = (.success, some smallest) ∧
      ¬ WsInvariant ⟨smallest, fun _ => false⟩ := by
  refine ⟨smallest_init, ?_⟩
  rintro ⟨wsl, hwsl, hagrees⟩
  cases hwsl
  exact absurd (hagrees.active 0 (by decide)) (by decide)

end WsState

end XenOS.Mm
