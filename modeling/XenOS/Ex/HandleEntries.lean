import XenOS.Ex.Handle
import Mathlib.Algebra.BigOperators.Intervals
import Mathlib.Algebra.Order.BigOperators.Group.Finset

/-! How many entries of a handle table name an object. A creation adds one, a destruction takes one
away; a creation that grows the table may take one beyond the array, which no lookup reaches. -/

namespace XenOS.Ex

open Finset (mem_range sum_congr)

structure WordBlock where
  entries : ℕ → HandleTableEntry
  words : ∀ i, (entries i).object < 2 ^ 64

abbrev WordPool := ℕ → Option WordBlock

def WordPool.blocks (pool : WordPool) : Pool := fun n => (pool n).map WordBlock.entries

theorem WordPool.words {pool : WordPool} {n : ℕ} {block : ℕ → HandleTableEntry} (h : pool.blocks n = some block) (i : ℕ) :
    (block i).object < 2 ^ 64 := by
  obtain ⟨b, -, rfl⟩ := Option.map_eq_some_iff.1 h
  exact b.words i

theorem encodeFreeNext_lt (next : ℕ) : encodeFreeNext next < 2 ^ 64 := by
  unfold encodeFreeNext usizeMax
  split <;> omega

theorem decodeFreeNext_bound {encoded : ℕ} (h : encoded < 2 ^ 64) :
    decodeFreeNext encoded < 2 ^ 61 ∨ decodeFreeNext encoded = usizeMax := by
  unfold decodeFreeNext
  split
  · exact Or.inr rfl
  · exact Or.inl (by omega)

theorem encodeFreeNext_odd (next : ℕ) : encodeFreeNext next % 2 = 1 := by
  unfold encodeFreeNext usizeMax
  split <;> omega

namespace HandleTable

/-- The number of entries that name an object. -/
def naming (t : HandleTable) (o : ℕ) : ℕ := ∑ i ∈ Finset.range t.tableSize, if (t.table i).getObject = o then 1 else 0

structure Sane (t : HandleTable) : Prop where
  pos : 0 < t.tableSize
  size : t.tableSize ≤ maxHandles
  reserved : (t.table 0).object = 0
  words : ∀ i, (t.table i).object < 2 ^ 64
  first : t.firstFreeIndex < 2 ^ 61 ∨ t.firstFreeIndex = usizeMax

theorem setEntry_table_self (t : HandleTable) (index : ℕ) (e : HandleTableEntry) :
    (t.setEntry index e).table index = e := Function.update_self _ _ _

variable {index : ℕ}

theorem setEntry_table_of_ne (t : HandleTable) {i : ℕ} (hi : i ≠ index) (e : HandleTableEntry) :
    (t.setEntry index e).table i = t.table i := Function.update_of_ne hi _ _

theorem naming_setEntry (t : HandleTable) (hi : index < t.tableSize) (e : HandleTableEntry) (o : ℕ) :
    (t.setEntry index e).naming o + (if (t.table index).getObject = o then 1 else 0) =
      t.naming o + if e.getObject = o then 1 else 0 := by
  have hmem : index ∈ Finset.range t.tableSize := mem_range.2 hi
  have hrest : ∑ i ∈ (Finset.range t.tableSize).erase index,
      (if ((t.setEntry index e).table i).getObject = o then 1 else 0) =
      ∑ i ∈ (Finset.range t.tableSize).erase index, if (t.table i).getObject = o then 1 else 0 := by
    refine sum_congr rfl fun i hi => ?_
    rw [setEntry_table_of_ne t (Finset.ne_of_mem_erase hi)]
  rw [naming, naming, show (t.setEntry index e).tableSize = t.tableSize from rfl, ← Finset.add_sum_erase _ _ hmem,
    ← Finset.add_sum_erase (Finset.range t.tableSize) _ hmem, hrest,
    setEntry_table_self]
  omega

theorem naming_setEntry_of_le (t : HandleTable) (hi : t.tableSize ≤ index) (e : HandleTableEntry) (o : ℕ) :
    (t.setEntry index e).naming o = t.naming o := by
  refine sum_congr rfl fun i hlt => ?_
  have hne : i ≠ index := by
    have := mem_range.1 hlt
    rintro rfl
    exact absurd this (Nat.not_lt.2 hi)
  rw [setEntry_table_of_ne t hne]

def grown (pool : Pool) (t : HandleTable) : Option HandleTable :=
  if t.firstFreeIndex = usizeMax ∨ t.tableSize ≤ t.firstFreeIndex then expGrowHandleTable pool t else some t

/-- The table in which a creation takes the entry `firstFreeIndex`. -/
def taking (pool : Pool) (t : HandleTable) : Option HandleTable :=
  match t.grown pool with
  | none => none
  | some t' => if (t'.table t.firstFreeIndex).isFree then some t' else none

def TakesInside (pool : Pool) (t : HandleTable) : Prop := ∃ t' ∈ t.taking pool, t.firstFreeIndex < t'.tableSize

def TakesOutside (pool : Pool) (t : HandleTable) : Prop := ∃ t' ∈ t.taking pool, t'.tableSize ≤ t.firstFreeIndex

end HandleTable

structure SameEntries (t t' : HandleTable) : Prop where
  naming : ∀ o ≠ 0, t'.naming o = t.naming o
  lookup : ∀ handle, exMapHandleToPointerFull t' handle = exMapHandleToPointerFull t handle

theorem SameEntries.refl (t : HandleTable) : SameEntries t t := ⟨fun _ _ => rfl, fun _ => rfl⟩

/-- One entry more, with the content `x`, names `x.1`. -/
structure OneMore (t t' : HandleTable) (x : ℕ × BitVec 32 × BitVec 32) : Prop where
  naming : ∀ o ≠ 0, t'.naming o = t.naming o + if o = x.1 then 1 else 0
  lookup : ∀ handle y, exMapHandleToPointerFull t handle = some y → exMapHandleToPointerFull t' handle = some y
  only : ∀ handle y, exMapHandleToPointerFull t' handle = some y → exMapHandleToPointerFull t handle = some y ∨ y = x

/-- One entry less names `object`. -/
def OneLess (t t' : HandleTable) (object : ℕ) : Prop :=
  ∀ o ≠ 0, t'.naming o + (if o = object then 1 else 0) = t.naming o

open HandleTable HandleTableEntry

section Lookup
variable {t t' : HandleTable} {handle object : ℕ} {access attributes : BitVec 32}

theorem lookup_some (h : exMapHandleToPointerFull t handle = some (object, access, attributes)) :
    ¬ (handle = nullHandle ∨ handle = invalidHandleValue) ∧ handleToIndex handle < t.tableSize ∧ object ≠ 0 ∧
      (t.table (handleToIndex handle)).getObject = object := by
  unfold exMapHandleToPointerFull at h
  split at h
  · cases h
  · rename_i hguard
    split at h
    · cases h
    · rename_i hvalid
      dsimp only at h
      split at h
      · cases h
      · rename_i hobject
        cases h
        simp only [isValidIndex, Bool.not_eq_true', decide_eq_false_iff_not, not_not] at hvalid
        exact ⟨hguard, hvalid, hobject, rfl⟩

variable {x : ℕ × BitVec 32 × BitVec 32}

theorem lookup_congr (t t' : HandleTable)
    (hsize : handleToIndex handle < t.tableSize → handleToIndex handle < t'.tableSize)
    (hentry : handleToIndex handle < t.tableSize → t'.table (handleToIndex handle) = t.table (handleToIndex handle))
    (h : exMapHandleToPointerFull t handle = some x) :
    exMapHandleToPointerFull t' handle = some x := by
  obtain ⟨hguard, hlt, hobject, hget⟩ := lookup_some h
  rw [exMapHandleToPointerFull, if_neg hguard] at h ⊢
  have hvalid : t.isValidIndex (handleToIndex handle) = true := by simpa [isValidIndex] using hlt
  have hvalid' : t'.isValidIndex (handleToIndex handle) = true := by simpa [isValidIndex] using hsize hlt
  rw [hvalid] at h
  rw [hvalid', hentry hlt]
  exact h

theorem lookup_eq (hsize : t'.tableSize = t.tableSize)
    (hentry : t'.table (handleToIndex handle) = t.table (handleToIndex handle)) :
    exMapHandleToPointerFull t' handle = exMapHandleToPointerFull t handle := by
  unfold exMapHandleToPointerFull
  dsimp only
  rw [isValidIndex, isValidIndex, hsize, hentry]

theorem naming_pos (h : exMapHandleToPointerFull t handle = some x) :
    0 < t.naming x.1 := by
  obtain ⟨-, hlt, -, hget⟩ := lookup_some h
  refine Finset.sum_pos' (fun _ _ => Nat.zero_le _) ⟨handleToIndex handle, mem_range.2 hlt, ?_⟩
  rw [if_pos hget]
  exact Nat.one_pos

theorem lookup_same_index {other : ℕ} (hi : handleToIndex other = handleToIndex handle)
    (hother : ¬ (other = nullHandle ∨ other = invalidHandleValue))
    (h : exMapHandleToPointerFull t handle = some x) : exMapHandleToPointerFull t other = some x := by
  rw [exMapHandleToPointerFull, if_neg (lookup_some h).1] at h
  rw [exMapHandleToPointerFull, if_neg hother, hi]
  exact h

theorem lookup_beyond (t : HandleTable) (hi : t.tableSize ≤ handleToIndex handle) :
    exMapHandleToPointerFull t handle = none := by
  cases h : exMapHandleToPointerFull t handle with
  | none => rfl
  | some x => exact absurd (lookup_some h).2.1 (Nat.not_lt.2 hi)

theorem lookup_ne_free {index : ℕ} (h : exMapHandleToPointerFull t handle = some x)
    (hfree : (t.table index).isFree = true) : handleToIndex handle ≠ index := by
  obtain ⟨-, -, hobject, hget⟩ := lookup_some h
  rintro rfl
  rw [getObject, if_pos hfree] at hget
  exact hobject hget.symm

end Lookup

/-! ### Growth -/

section Calls
variable {pool : WordPool} {t t' : HandleTable} {handle object : ℕ} {access attributes : BitVec 32}

theorem grow_keeps (ht : t.Sane) (hg : expGrowHandleTable pool.blocks t = some t') :
    t'.Sane ∧ t.tableSize ≤ t'.tableSize ∧ (∀ i < t.tableSize, t'.table i = t.table i) ∧
      ∀ i, t.tableSize ≤ i → i < t'.tableSize → (t'.table i).getObject = 0 := by
  unfold expGrowHandleTable at hg
  split at hg
  · cases hg
  · rename_i hlimit
    dsimp only at hg
    split at hg
    · cases hg
    · rename_i block hblock
      cases hg
      have hpos := ht.pos
      have hsize := ht.size
      have hmax : maxHandles = 2 ^ 24 := rfl
      have hle : t.tableSize ≤ min (t.tableSize * 2) maxHandles := by omega
      refine ⟨⟨by show 0 < min _ _; omega, Nat.min_le_right _ _, ?_, fun i => ?_, Or.inl ?_⟩, hle, fun i hi => ?_,
        fun i hi hlt => ?_⟩
      · show (if 0 < t.tableSize then t.table 0 else _).object = 0
        rw [if_pos hpos]
        exact ht.reserved
      · dsimp only
        split_ifs
        · exact ht.words i
        · exact encodeFreeNext_lt _
        · exact encodeFreeNext_lt _
        · exact WordPool.words hblock i
      · show t.tableSize < 2 ^ 61
        omega
      · dsimp only
        rw [if_pos hi]
      · dsimp only at hlt ⊢
        rw [if_neg (by omega), if_pos hlt]
        simp [getObject, isFree, encodeFreeNext_odd]

theorem SameEntries.grow (ht : t.Sane) (hg : expGrowHandleTable pool.blocks t = some t') : SameEntries t t' := by
  obtain ⟨-, hle, hkeep, hnew⟩ := grow_keeps ht hg
  refine ⟨fun o ho => ?_, fun handle => Option.ext fun x => ⟨fun hx => ?_, fun hx => ?_⟩⟩
  · rw [HandleTable.naming, HandleTable.naming]
    have hsub : Finset.range t.tableSize ⊆ Finset.range t'.tableSize := Finset.range_subset_range.2 hle
    rw [← Finset.sum_subset hsub]
    · exact sum_congr rfl fun i hi => by rw [hkeep i (mem_range.1 hi)]
    · intro i hi hnot
      rw [hnew i (by simpa using hnot) (mem_range.1 hi), if_neg (Ne.symm ho)]
  · obtain ⟨-, hlt, hobject, hget⟩ := lookup_some hx
    have hi : handleToIndex handle < t.tableSize := by
      by_contra hi
      rw [hnew _ (Nat.le_of_not_lt hi) hlt] at hget
      exact hobject hget.symm
    exact lookup_congr t' t (fun _ => hi) (fun _ => (hkeep _ hi).symm) hx
  · exact lookup_congr t t' hle.trans_lt' (fun hi => hkeep _ hi) hx

theorem grown_keeps (ht : t.Sane) (hg : t.grown pool.blocks = some t') : t'.Sane ∧ SameEntries t t' := by
  unfold grown at hg
  split at hg
  · exact ⟨(grow_keeps ht hg).1, .grow ht hg⟩
  · cases hg
    exact ⟨ht, .refl t⟩

/-! ### Creation and destruction -/

theorem indexToHandle_ne (index : ℕ) : indexToHandle index ≠ invalidHandleValue := by
  unfold indexToHandle invalidHandleValue usizeMax
  omega

/-- The table after the entry `firstFreeIndex` is taken. -/
def HandleTable.take (t : HandleTable) (index object : ℕ) (access attributes : BitVec 32) : HandleTable :=
  { t.setEntry index ⟨object, access, attributes⟩ with
    firstFreeIndex := (t.table index).getNextFreeIndex
    handleCount := t.handleCount + 1 }

theorem exCreateHandleEx_eq (ho : object ≠ 0) : exCreateHandleEx pool.blocks t object access attributes =
    match t.grown pool.blocks with
    | none => (invalidHandleValue, t)
    | some t' =>
      if (t'.table t.firstFreeIndex).isFree then
        (indexToHandle t.firstFreeIndex, t'.take t.firstFreeIndex object access attributes)
      else (invalidHandleValue, t') := by
  rw [exCreateHandleEx, if_neg ho]
  rfl

theorem exCreateHandleEx_of_taking (ho : object ≠ 0) (ht : t.taking pool.blocks = some t') :
    exCreateHandleEx pool.blocks t object access attributes =
      (indexToHandle t.firstFreeIndex, t'.take t.firstFreeIndex object access attributes) := by
  rw [exCreateHandleEx_eq ho]
  unfold taking at ht
  cases hg : t.grown pool.blocks with
  | none =>
    rw [hg] at ht
    cases ht
  | some t1 =>
    rw [hg] at ht
    dsimp only at ht ⊢
    split at ht
    · rename_i hfree
      cases ht
      rw [if_pos hfree]
    · cases ht

theorem exCreateHandleEx_of_not_taking (ho : object ≠ 0) (hnone : t.taking pool.blocks = none) :
    (exCreateHandleEx pool.blocks t object access attributes).1 = invalidHandleValue := by
  rw [exCreateHandleEx_eq ho]
  unfold taking at hnone
  cases hg : t.grown pool.blocks with
  | none => rfl
  | some t1 =>
    rw [hg] at hnone
    dsimp only at hnone ⊢
    split at hnone
    · cases hnone
    · rename_i hfree
      rw [if_neg hfree]

variable {index : ℕ}

theorem sane_take (ht : t.Sane) (hi : index ≠ 0) (ho : object < 2 ^ 64) :
    (t.take index object access attributes).Sane where
  pos := ht.pos
  size := ht.size
  reserved := by
    show ((t.setEntry index _).table 0).object = 0
    rw [setEntry_table_of_ne t hi.symm]
    exact ht.reserved
  words i := by
    show ((t.setEntry index _).table i).object < 2 ^ 64
    by_cases h : i = index
    · rw [h, setEntry_table_self]
      exact ho
    · rw [setEntry_table_of_ne t h]
      exact ht.words i
  first := decodeFreeNext_bound (ht.words index)

theorem create_none (access attributes : BitVec 32) (ht : t.Sane) (ho : object ≠ 0) (hnone : t.taking pool.blocks = none) :
    (exCreateHandleEx pool.blocks t object access attributes).1 = invalidHandleValue ∧
      (exCreateHandleEx pool.blocks t object access attributes).2.Sane ∧
      SameEntries t (exCreateHandleEx pool.blocks t object access attributes).2 := by
  refine ⟨exCreateHandleEx_of_not_taking ho hnone, ?_⟩
  rw [exCreateHandleEx_eq ho]
  unfold taking at hnone
  cases hg : t.grown pool.blocks with
  | none => exact ⟨ht, .refl t⟩
  | some t1 =>
    obtain ⟨hsane, hsame⟩ := grown_keeps ht hg
    rw [hg] at hnone
    dsimp only at hnone ⊢
    split at hnone
    · cases hnone
    · rename_i hfree
      rw [if_neg hfree]
      exact ⟨hsane, hsame⟩

theorem getObject_mk (haligned : object % 8 = 0) : getObject ⟨object, access, attributes⟩ = object := by
  have hodd : object % 2 = 0 := by omega
  simp [getObject, isFree, hodd, haligned]

theorem lookup_take_of_ne (hi : handleToIndex handle ≠ index) :
    exMapHandleToPointerFull (t.take index object access attributes) handle = exMapHandleToPointerFull t handle :=
  lookup_eq rfl (setEntry_table_of_ne t hi _)

theorem lookup_take (hi : handleToIndex handle = index) (haligned : object % 8 = 0)
    {x : ℕ × BitVec 32 × BitVec 32}
    (h : exMapHandleToPointerFull (t.take index object access attributes) handle = some x) :
    x = (object, access, attributes) := by
  obtain ⟨hguard, hlt, -, -⟩ := lookup_some h
  rw [exMapHandleToPointerFull, if_neg hguard] at h
  have hvalid : (t.take index object access attributes).isValidIndex (handleToIndex handle) = true := by
    simpa [isValidIndex] using hlt
  have hentry : (t.take index object access attributes).table (handleToIndex handle) = ⟨object, access, attributes⟩ := by
    rw [hi]
    exact setEntry_table_self t index _
  rw [hvalid, hentry] at h
  dsimp only at h
  rw [if_neg (by decide), getObject_mk haligned] at h
  split at h
  · cases h
  · exact (Option.some.inj h).symm

theorem OneMore.take (hsame : SameEntries t t') (hi : index < t'.tableSize)
    (hfree : (t'.table index).isFree = true) (ho : object % 8 = 0) :
    OneMore t (t'.take index object access attributes) (object, access, attributes) where
  naming o hne := by
    have hcount := naming_setEntry t' hi ⟨object, access, attributes⟩ o
    have hold : (t'.table index).getObject = 0 := by simp [getObject, hfree]
    rw [hold, if_neg (Ne.symm hne), getObject_mk ho, hsame.naming o hne] at hcount
    show (t'.setEntry index _).naming o = _
    rw [show (if o = object then 1 else 0) = if object = o then 1 else 0 by simp only [eq_comm]]
    exact hcount
  lookup handle y hy := by
    rw [← hsame.lookup] at hy
    rw [lookup_take_of_ne (lookup_ne_free hy hfree), hy]
  only handle y hy := by
    by_cases hi : handleToIndex handle = index
    · exact Or.inr (lookup_take hi ho hy)
    · left
      rw [← hsame.lookup, ← hy, lookup_take_of_ne hi]

theorem SameEntries.take (hsame : SameEntries t t') (hi : t'.tableSize ≤ index) :
    SameEntries t (t'.take index object access attributes) where
  naming o ho := (naming_setEntry_of_le t' hi _ o).trans (hsame.naming o ho)
  lookup handle := by
    by_cases hat : handleToIndex handle = index
    · rw [lookup_beyond (t'.take index object access attributes) (hat ▸ hi), ← hsame.lookup, lookup_beyond t' (hat ▸ hi)]
    · rw [lookup_take_of_ne hat, hsame.lookup]

theorem handleToIndex_indexToHandle (index : ℕ) : handleToIndex (indexToHandle index) = index % 2 ^ 62 := by
  unfold handleToIndex indexToHandle
  omega

def HandleTable.free (t : HandleTable) (index : ℕ) : HandleTable :=
  { t.setEntry index ⟨encodeFreeNext t.firstFreeIndex, 0, 0⟩ with
    firstFreeIndex := index
    handleCount := t.handleCount - 1 }

theorem free_table_self (t : HandleTable) (index : ℕ) :
    (t.free index).table index = ⟨encodeFreeNext t.firstFreeIndex, 0, 0⟩ := setEntry_table_self t index _

theorem lookup_free_of_ne (hi : handleToIndex handle ≠ index) :
    exMapHandleToPointerFull (t.free index) handle = exMapHandleToPointerFull t handle :=
  lookup_eq rfl (setEntry_table_of_ne t hi _)

theorem destroy_named (ht : t.Sane) (hguard : ¬ (handle = nullHandle ∨ handle = invalidHandleValue))
    (hi : handleToIndex handle < t.tableSize) (hget : (t.table (handleToIndex handle)).getObject = object)
    (ho : object ≠ 0) :
    exDestroyHandle t handle = (true, t.free (handleToIndex handle)) ∧ (t.free (handleToIndex handle)).Sane ∧
      OneLess t (t.free (handleToIndex handle)) object := by
  have hbusy : (t.table (handleToIndex handle)).isFree = false := by
    by_contra hfree
    rw [getObject, if_pos (by simpa using hfree)] at hget
    exact ho hget.symm
  have hne : handleToIndex handle ≠ 0 := by
    intro h0
    rw [h0, getObject, ht.reserved] at hget
    split at hget
    · exact ho hget.symm
    · exact ho (by simpa using hget.symm)
  refine ⟨?_, ?_, fun o hone => ?_⟩
  · rw [exDestroyHandle, if_neg hguard]
    simp [HandleTable.isValidIndex, hi, hbusy, HandleTable.free]
  · have hmax : maxHandles = 2 ^ 24 := rfl
    have hsize := ht.size
    refine ⟨ht.pos, ht.size, ?_, fun i => ?_, Or.inl (show handleToIndex handle < 2 ^ 61 by omega)⟩
    · show ((t.setEntry _ _).table 0).object = 0
      rw [setEntry_table_of_ne t hne.symm]
      exact ht.reserved
    · show ((t.setEntry _ _).table i).object < 2 ^ 64
      by_cases h : i = handleToIndex handle
      · rw [h, setEntry_table_self]
        exact encodeFreeNext_lt _
      · rw [setEntry_table_of_ne t h]
        exact ht.words i
  · have hcount := naming_setEntry t hi ⟨encodeFreeNext t.firstFreeIndex, 0, 0⟩ o
    have hnew : getObject ⟨encodeFreeNext t.firstFreeIndex, 0, 0⟩ = 0 := by
      simp [getObject, isFree, encodeFreeNext_odd]
    rw [hnew, if_neg (Ne.symm hone), hget] at hcount
    show (t.setEntry _ _).naming o + _ = _
    rw [show (if o = object then 1 else 0) = if object = o then 1 else 0 by simp only [eq_comm]]
    exact hcount

theorem destroy_lookup (ht : t.Sane) (h : exMapHandleToPointerFull t handle = some (object, access, attributes)) :
    exDestroyHandle t handle = (true, t.free (handleToIndex handle)) ∧ (t.free (handleToIndex handle)).Sane ∧
      OneLess t (t.free (handleToIndex handle)) object := by
  obtain ⟨hguard, hlt, hobject, hget⟩ := lookup_some h
  exact destroy_named ht hguard hlt hget hobject

theorem taking_spec (ht : t.Sane) (hg : t.taking pool.blocks = some t') :
    t'.Sane ∧ SameEntries t t' ∧ (t'.table t.firstFreeIndex).isFree = true ∧ t.firstFreeIndex ≠ 0 := by
  unfold taking at hg
  split at hg
  · cases hg
  · rename_i t1 hgrown
    split at hg
    · rename_i hfree
      cases hg
      obtain ⟨hsane, hsame⟩ := grown_keeps ht hgrown
      refine ⟨hsane, hsame, hfree, fun h0 => ?_⟩
      rw [h0, isFree, hsane.reserved] at hfree
      exact absurd hfree (by decide)
    · cases hg

theorem SameEntries.giveBack (hsame : SameEntries t t') (hfree : (t'.table index).isFree = true)
    (hmore : OneMore t (t'.take index object access attributes) (object, access, attributes))
    (hless : OneLess (t'.take index object access attributes) ((t'.take index object access attributes).free index) object) :
    SameEntries t ((t'.take index object access attributes).free index) where
  naming o ho := by
    have h := hless o ho
    rw [hmore.naming o ho] at h
    exact Nat.add_right_cancel h
  lookup handle := by
    by_cases hi : handleToIndex handle = index
    · have hnone {t : HandleTable} (hfree : (t.table index).isFree = true) : exMapHandleToPointerFull t handle = none := by
        cases h : exMapHandleToPointerFull t handle with
        | none => rfl
        | some x => exact absurd hi (lookup_ne_free h hfree)
      rw [← hsame.lookup, hnone hfree, hnone (by rw [free_table_self]; exact decide_eq_true (encodeFreeNext_odd _))]
    · rw [lookup_free_of_ne hi, lookup_take_of_ne hi, hsame.lookup]

theorem create_inside (access attributes : BitVec 32) (ht : t.Sane) (ho : object ≠ 0) (haligned : object % 8 = 0) (hlt : object < 2 ^ 64)
    (h : t.TakesInside pool.blocks) :
    let r := exCreateHandleEx pool.blocks t object access attributes
    r.1 ≠ invalidHandleValue ∧ r.2.Sane ∧ OneMore t r.2 (object, access, attributes) ∧ (exDestroyHandle r.2 r.1).2.Sane ∧
      SameEntries t (exDestroyHandle r.2 r.1).2 := by
  obtain ⟨t1, hg, hi⟩ := h
  have hg : t.taking pool.blocks = some t1 := hg
  obtain ⟨hsane, hsame, hfree, hne⟩ := taking_spec ht hg
  have hmax : maxHandles = 2 ^ 24 := rfl
  have hsize := hsane.size
  rw [exCreateHandleEx_of_taking ho hg]
  have hmore : OneMore t (t1.take t.firstFreeIndex object access attributes) (object, access, attributes) :=
    .take hsame hi hfree haligned
  have hsane' : (t1.take t.firstFreeIndex object access attributes).Sane := sane_take hsane hne hlt
  have hindex : handleToIndex (indexToHandle t.firstFreeIndex) = t.firstFreeIndex := by
    rw [handleToIndex_indexToHandle]
    omega
  have hentry : ((t1.take t.firstFreeIndex object access attributes).table t.firstFreeIndex).getObject = object := by
    show ((t1.setEntry _ _).table _).getObject = object
    rw [setEntry_table_self, getObject_mk haligned]
  have hguard : ¬ (indexToHandle t.firstFreeIndex = nullHandle ∨ indexToHandle t.firstFreeIndex = invalidHandleValue) := by
    rintro (h0 | hinvalid)
    · rw [h0] at hindex
      exact hne hindex.symm
    · exact indexToHandle_ne _ hinvalid
  obtain ⟨hdestroy, hsane'', hless⟩ := destroy_named hsane' hguard (by rw [hindex]; exact hi)
    (by rw [hindex]; exact hentry) ho
  rw [hindex] at hdestroy hsane'' hless
  dsimp only
  rw [hdestroy]
  exact ⟨indexToHandle_ne _, hsane', hmore, hsane'', .giveBack hsame hfree hmore hless⟩

theorem create_outside (access attributes : BitVec 32) (ht : t.Sane) (ho : object ≠ 0) (hlt : object < 2 ^ 64) (h : t.TakesOutside pool.blocks) :
    let r := exCreateHandleEx pool.blocks t object access attributes
    r.1 ≠ invalidHandleValue ∧ r.2.Sane ∧ SameEntries t r.2 ∧ (exDestroyHandle r.2 r.1).2 = r.2 := by
  obtain ⟨t1, hg, hi⟩ := h
  have hg : t.taking pool.blocks = some t1 := hg
  obtain ⟨hsane, hsame, -, hne⟩ := taking_spec ht hg
  have hcall : exCreateHandleEx pool.blocks t object access attributes =
      (indexToHandle t.firstFreeIndex, t1.take t.firstFreeIndex object access attributes) :=
    exCreateHandleEx_of_taking ho hg
  rw [hcall]
  refine ⟨indexToHandle_ne _, sane_take hsane hne hlt, .take hsame hi, ?_⟩
  have hmax : maxHandles = 2 ^ 24 := rfl
  have husize : usizeMax = 2 ^ 64 - 1 := rfl
  have hsize := hsane.size
  have hbeyond : ¬ handleToIndex (indexToHandle t.firstFreeIndex) < t1.tableSize := by
    rw [handleToIndex_indexToHandle]
    rcases ht.first with hfirst | hfirst <;> omega
  dsimp only
  rw [exDestroyHandle]
  split
  · rfl
  · have hvalid : (t1.take t.firstFreeIndex object access attributes).isValidIndex
        (handleToIndex (indexToHandle t.firstFreeIndex)) = false := by
      rw [HandleTable.isValidIndex, decide_eq_false_iff_not]
      exact hbeyond
    simp [hvalid]

theorem fresh_spec (block : WordBlock) : (exCreateHandleTable block.entries).Sane ∧
    ∀ o ≠ 0, (exCreateHandleTable block.entries).naming o = 0 := by
  have hmax : maxHandles = 2 ^ 24 := rfl
  have hentries : handleTableEntrySize = 256 := rfl
  refine ⟨⟨show 0 < 256 by omega, show 256 ≤ maxHandles by omega, rfl, fun i => ?_, Or.inl (show 1 < 2 ^ 61 by omega)⟩,
    fun o ho => ?_⟩
  · show ((exCreateHandleTable block.entries).table i).object < 2 ^ 64
    simp only [exCreateHandleTable]
    split_ifs
    · exact Nat.two_pow_pos 64
    · exact encodeFreeNext_lt (i + 1)
    · exact encodeFreeNext_lt usizeMax
    · exact block.words i
  · refine Finset.sum_eq_zero fun i hi => if_neg ?_
    have hlt : i < handleTableEntrySize := mem_range.1 hi
    have hget : ((exCreateHandleTable block.entries).table i).getObject = 0 := by
      simp only [exCreateHandleTable]
      split_ifs
      · rfl
      · simp [getObject, isFree, encodeFreeNext_odd]
      · simp [getObject, isFree, encodeFreeNext_odd]
    rw [hget]
    exact Ne.symm ho

theorem create_made (access attributes : BitVec 32) (ht : t.Sane) (ho : object ≠ 0) (haligned : object % 8 = 0) (h : t.TakesInside pool.blocks) :
    exMapHandleToPointerFull (exCreateHandleEx pool.blocks t object access attributes).2
        (indexToHandle t.firstFreeIndex) = some (object, access, attributes) ∧
      exMapHandleToPointerFull t (indexToHandle t.firstFreeIndex) = none := by
  obtain ⟨t1, hg, hi⟩ := h
  have hg : t.taking pool.blocks = some t1 := hg
  obtain ⟨hsane, hsame, hfree, hne⟩ := taking_spec ht hg
  have hmax : maxHandles = 2 ^ 24 := rfl
  have hsize := hsane.size
  have hindex : handleToIndex (indexToHandle t.firstFreeIndex) = t.firstFreeIndex := by
    rw [handleToIndex_indexToHandle]
    omega
  constructor
  · have hguard : ¬ (indexToHandle t.firstFreeIndex = nullHandle ∨ indexToHandle t.firstFreeIndex = invalidHandleValue) := by
      rintro (h0 | hinvalid)
      · rw [h0] at hindex
        exact hne hindex.symm
      · exact indexToHandle_ne _ hinvalid
    rw [exCreateHandleEx_of_taking ho hg, exMapHandleToPointerFull, if_neg hguard, hindex]
    have hvalid : (t1.take t.firstFreeIndex object access attributes).isValidIndex t.firstFreeIndex = true :=
      decide_eq_true hi
    have hentry : (t1.take t.firstFreeIndex object access attributes).table t.firstFreeIndex = ⟨object, access, attributes⟩ :=
      setEntry_table_self t1 t.firstFreeIndex _
    rw [hvalid, hentry]
    dsimp only
    rw [if_neg (by decide), getObject_mk haligned, if_neg ho]
  · rw [← hsame.lookup]
    cases hold : exMapHandleToPointerFull t1 (indexToHandle t.firstFreeIndex) with
    | none => rfl
    | some x => exact absurd hindex (lookup_ne_free hold hfree)

theorem exDestroyHandle_cases (t : HandleTable) (handle : ℕ) :
    (exDestroyHandle t handle).2 = t ∨ (exDestroyHandle t handle).2 = t.free (handleToIndex handle) := by
  unfold exDestroyHandle
  split
  · exact Or.inl rfl
  · dsimp only
    split
    · exact Or.inl rfl
    · split
      · exact Or.inl rfl
      · exact Or.inr rfl

theorem destroy_only {other : ℕ} {x : ℕ × BitVec 32 × BitVec 32}
    (hx : exMapHandleToPointerFull (exDestroyHandle t handle).2 other = some x) :
    exMapHandleToPointerFull t other = some x := by
  rcases exDestroyHandle_cases t handle with h | h
  · rwa [h] at hx
  · rw [h] at hx
    have hfree : ((t.free (handleToIndex handle)).table (handleToIndex handle)).isFree = true := by
      rw [free_table_self]
      exact decide_eq_true (encodeFreeNext_odd _)
    rwa [lookup_free_of_ne (lookup_ne_free hx hfree)] at hx

theorem destroy_other {other : ℕ} (hi : handleToIndex other ≠ handleToIndex handle) :
    exMapHandleToPointerFull (exDestroyHandle t handle).2 other = exMapHandleToPointerFull t other := by
  rcases exDestroyHandle_cases t handle with h | h
  · rw [h]
  · rw [h, lookup_free_of_ne hi]

end Calls

end XenOS.Ex
