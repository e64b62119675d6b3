import Mathlib.Data.List.Count
import Mathlib.Data.List.Perm.Basic
import XenOS.Ex.Handle
import XenOS.General.Run
import XenOS.General.Walk

/-! Handle tables over their runs, beside the finite map of what was stored under each live index.
They agree as long as no call grows the table in the middle of a creation or names index 0. -/

namespace XenOS.Ex

open General HandleTable HandleTableEntry List Option
open Function (update update_self update_of_ne)

/-! ### Entries -/

theorem decodeFreeNext_encodeFreeNext {next : ℕ} (h : next = usizeMax ∨ next < 2 ^ 61) :
    decodeFreeNext (encodeFreeNext next) = next := by
  have hmax : usizeMax = 2 ^ 64 - 1 := rfl
  by_cases hnext : next = usizeMax
  · simp [decodeFreeNext, encodeFreeNext, hnext]
  · rw [encodeFreeNext, if_neg hnext, decodeFreeNext, if_neg (by omega)]
    omega

theorem isFree_encodeFreeNext (next : ℕ) (access attributes : BitVec 32) :
    (mk (encodeFreeNext next) access attributes).isFree = true := by
  have hmax : usizeMax = 2 ^ 64 - 1 := rfl
  rw [isFree, decide_eq_true_iff]
  show encodeFreeNext next % 2 = 1
  rw [encodeFreeNext]
  split <;> omega

variable {e : HandleTableEntry}

theorem isFree_object (h : e.object % 8 = 0) : e.isFree = false := by
  simp only [isFree, decide_eq_false_iff_not]
  omega

theorem getObject_object (h : e.object % 8 = 0) : e.getObject = e.object := by
  rw [getObject, isFree_object h]
  simp [h]

theorem getObject_free (h : e.isFree = true) : e.getObject = 0 := by
  simp [getObject, h]

namespace HandleTable

def nextFree (t : HandleTable) (index : ℕ) : ℕ := (t.table index).getNextFreeIndex

theorem nextFree_setEntry (t : HandleTable) (index : ℕ) (e : HandleTableEntry) :
    (t.setEntry index e).nextFree = update t.nextFree index e.getNextFreeIndex := by
  funext i
  by_cases hi : i = index
  · subst hi
    simp [nextFree, setEntry]
  · simp [nextFree, setEntry, hi]

end HandleTable

/-! ### The loops of a creation at a fixed index -/

section Loops
variable {t : HandleTable} {index cur fuel : ℕ} {as bs xs : List ℕ}

theorem findFree_of_walk (prev : Option ℕ) (hw : Walk usizeMax t.nextFree cur (as ++ index :: bs)) (hfuel : as.length < fuel) :
    findFree t index fuel prev cur = some (as.getLast?.or prev, index) := by
  induction as generalizing cur prev fuel with
  | nil =>
    obtain ⟨rfl, -, -⟩ := walk_cons.1 hw
    cases fuel with
    | zero => omega
    | succ fuel => simp [findFree]
  | cons a as ih =>
    have hnodup := hw.nodup
    obtain ⟨rfl, hne, hw⟩ := walk_cons.1 hw
    have hindex : cur ≠ index := by
      rintro rfl
      simp at hnodup
    cases fuel with
    | zero => omega
    | succ fuel =>
      rw [findFree, if_neg (by tauto)]
      have hlast : ((cur :: as).getLast?).or prev = as.getLast?.or (some cur) := by
        rw [getLast?_cons]
        cases as.getLast? <;> rfl
      rw [hlast]
      exact ih (some cur) hw (by simpa using hfuel)

theorem findFree_of_notMem (prev : Option ℕ) (hw : Walk usizeMax t.nextFree cur xs) (hindex : index ∉ xs) (hfuel : xs.length < fuel) :
    ∃ prev', findFree t index fuel prev cur = some (prev', usizeMax) := by
  induction xs generalizing cur prev fuel with
  | nil =>
    obtain rfl := walk_nil.1 hw
    cases fuel with
    | zero => omega
    | succ fuel => exact ⟨prev, by simp [findFree]⟩
  | cons a as ih =>
    obtain ⟨rfl, hne, hw⟩ := walk_cons.1 hw
    simp only [mem_cons, not_or] at hindex
    cases fuel with
    | zero => omega
    | succ fuel =>
      rw [findFree, if_neg (by tauto)]
      exact ih (some cur) hw hindex.2 (by simpa using hfuel)

theorem nextFree_unlinkFree {p : Option ℕ} :
    (unlinkFree t p index).nextFree =
      match p with
      | none => t.nextFree
      | some q => update t.nextFree q (decodeFreeNext (encodeFreeNext (t.nextFree index))) := by
  cases p with
  | none => rfl
  | some q => exact t.nextFree_setEntry q _

end Loops

/-! ### The map -/

structure HandleMap where
  table : HandleTable
  live : ℕ → Option (ℕ × BitVec 32 × BitVec 32)

inductive HandleOp where
  | create (pool : Pool) (object : ℕ) (access attributes : BitVec 32)
  | createAt (pool : Pool) (handle object : ℕ) (access attributes : BitVec 32)
  | change (handle newObject : ℕ) (newAccess : BitVec 32)
  | destroy (handle : ℕ)

namespace HandleMap

def step (s : HandleMap) : HandleOp → HandleMap
  | .create pool object access attributes =>
    let (handle, t) := exCreateHandleEx pool s.table object access attributes
    ⟨t, if handle = invalidHandleValue then s.live
      else update s.live (handleToIndex handle) (some (object, access, attributes))⟩
  | .createAt pool handle object access attributes =>
    match exCreateHandleAt pool s.table handle object access attributes with
    | some (true, t) => ⟨t, update s.live (handleToIndex handle) (some (object, access, attributes))⟩
    | some (false, t) => ⟨t, s.live⟩
    | none => s
  | .change handle newObject newAccess =>
    let (changed, t) := exChangeHandle s.table handle newObject newAccess
    ⟨t, if changed then
        update s.live (handleToIndex handle)
          ((s.live (handleToIndex handle)).map fun stored => (newObject, newAccess, stored.2.2))
      else s.live⟩
  | .destroy handle =>
    let (destroyed, t) := exDestroyHandle s.table handle
    ⟨t, if destroyed then update s.live (handleToIndex handle) none else s.live⟩

def fresh (block : ℕ → HandleTableEntry) : HandleMap := ⟨exCreateHandleTable block, fun _ => none⟩

def Admitted : HandleOp → Prop
  | .create _ object _ _ => object ≠ 0 ∧ object % 8 = 0 ∧ object < 2 ^ 64
  | .createAt _ handle object _ _ => (object ≠ 0 ∧ object % 8 = 0 ∧ object < 2 ^ 64) ∧ handle < 2 ^ 64
  | .change handle newObject _ => (newObject ≠ 0 ∧ newObject % 8 = 0 ∧ newObject < 2 ^ 64) ∧ handle < 2 ^ 64
  | .destroy handle => handle < 2 ^ 64

def Full (s : HandleMap) : Prop := ∀ i, 0 < i → i < s.table.tableSize → s.live i ≠ none

def OutOfReach (pool : Pool) (t : HandleTable) (index : ℕ) : Prop :=
  maxHandles ≤ index ∨ t.tableSize ≤ index ∧ expGrowHandleTable pool t = none

/-- The answer is the one of a finite map. A creation fails only on a full table that cannot grow,
at a fixed index only if that is reserved, live or out of reach; a change or removal succeeds on
live indices; a call that fails changes nothing, growth apart. -/
def Answers (s : HandleMap) : HandleOp → Prop
  | .create pool object access attributes =>
    let (handle, t) := exCreateHandleEx pool s.table object access attributes
    (handle ≠ invalidHandleValue → handle ≠ nullHandle ∧ s.live (handleToIndex handle) = none) ∧
      (handle = invalidHandleValue → s.Full ∧ expGrowHandleTable pool s.table = none ∧ t = s.table)
  | .createAt pool handle object access attributes =>
    ∃ created t, exCreateHandleAt pool s.table handle object access attributes = some (created, t) ∧
      (created = true → handleToIndex handle ≠ 0 ∧ s.live (handleToIndex handle) = none) ∧
      (created = false →
        (handleToIndex handle = 0 ∨ s.live (handleToIndex handle) ≠ none ∨
          OutOfReach pool t (handleToIndex handle)) ∧
        (handleToIndex handle < s.table.tableSize → t = s.table))
  | .change handle newObject newAccess =>
    let (changed, t) := exChangeHandle s.table handle newObject newAccess
    (changed = true ↔ s.live (handleToIndex handle) ≠ none) ∧ (changed = false → t = s.table)
  | .destroy handle =>
    let (destroyed, t) := exDestroyHandle s.table handle
    (destroyed = true ↔ s.live (handleToIndex handle) ≠ none) ∧ (destroyed = false → t = s.table)

/-- The table is the map: the free list ends in `usize::MAX` and holds each unoccupied entry above
index 0 once, the count is that of the occupied entries, and each lookup gives what the map has. -/
structure IsMap (s : HandleMap) (free : List ℕ) : Prop where
  walk : Walk usizeMax s.table.nextFree s.table.firstFreeIndex free
  acyclic : free.Nodup
  unoccupied : ∀ i, i ∈ free ↔ 0 < i ∧ i < s.table.tableSize ∧ s.live i = none
  tagged : ∀ i, i ∈ free ↔ i < s.table.tableSize ∧ (s.table.table i).isFree = true
  count : s.table.handleCount.toNat = (range s.table.tableSize).countP fun i => (s.live i).isSome
  full : ∀ handle < 2 ^ 64, exMapHandleToPointerFull s.table handle = s.live (handleToIndex handle)
  withAccess : ∀ handle < 2 ^ 64, exMapHandleToPointerEx s.table handle =
    (s.live (handleToIndex handle)).map fun stored => (stored.1, stored.2.1)
  pointer : ∀ handle < 2 ^ 64, exMapHandleToPointer s.table handle =
    ((s.live (handleToIndex handle)).map Prod.fst).getD 0

/-- No creation finds the free list empty while the table can grow, and no change or removal
names the index 0 by a non-null handle. -/
def Safe (s : HandleMap) : HandleOp → Prop
  | .create pool _ _ _ => s.table.firstFreeIndex = usizeMax → expGrowHandleTable pool s.table = none
  | .createAt _ _ _ _ _ => True
  | .change handle _ _ => handleToIndex handle = 0 → handle = nullHandle
  | .destroy handle => handleToIndex handle = 0 → handle = nullHandle

/-- What every safe call keeps. -/
structure Inv (s : HandleMap) : Prop where
  size : handleTableEntrySize ≤ s.table.tableSize
  limit : s.table.tableSize ≤ maxHandles
  list : ∃ free, Walk usizeMax s.table.nextFree s.table.firstFreeIndex free ∧
    (∀ i, i ∈ free ↔ 0 < i ∧ i < s.table.tableSize ∧ s.live i = none) ∧
    s.table.handleCount.toNat + free.length + 1 = s.table.tableSize
  tagged : ∀ i, 0 < i → i < s.table.tableSize → s.live i = none → (s.table.table i).isFree = true
  stored : ∀ i object access attributes, s.live i = some (object, access, attributes) →
    (0 < i ∧ i < s.table.tableSize) ∧ s.table.table i = ⟨object, access, attributes⟩ ∧ object ≠ 0 ∧ object % 8 = 0
  reserved : (s.table.table 0).object = 0

variable {s : HandleMap}

/-! ### The invariant gives the map -/

theorem count_live {live : ℕ → Option (ℕ × BitVec 32 × BitVec 32)} {size : ℕ} {free : List ℕ} (hpos : 0 < size)
    (hzero : live 0 = none) (hnodup : free.Nodup) (hfree : ∀ i, i ∈ free ↔ 0 < i ∧ i < size ∧ live i = none) :
    ((range size).countP fun i => (live i).isSome) + free.length + 1 = size := by
  have hperm : ((range size).filter fun i => !(live i).isSome).Perm (0 :: free) := by
    refine (perm_ext_iff_of_nodup (nodup_range.filter _) (nodup_cons.2 ⟨?_, hnodup⟩)).2 fun i => ?_
    · simp [hfree]
    · simp only [mem_filter, mem_range, mem_cons, hfree, not_isSome, isNone_iff_eq_none]
      rcases Nat.eq_zero_or_pos i with rfl | hi
      · simp [hpos, hzero]
      · have : i ≠ 0 := by omega
        tauto
  have hlength := length_eq_countP_add_countP (l := range size) fun i => (live i).isSome
  have hnot := hperm.length_eq
  rw [← countP_eq_length_filter] at hnot
  simp only [length_range, length_cons, decide_not, Bool.decide_eq_true] at hlength hnot
  omega

section
variable (h : s.Inv)
include h

theorem Inv.live_zero : s.live 0 = none := by
  cases hlive : s.live 0 with
  | none => rfl
  | some stored =>
    have := (h.stored 0 _ _ _ hlive).1.1
    omega

variable {i : ℕ}

theorem Inv.live_outOfRange (hi : s.table.tableSize ≤ i) : s.live i = none := by
  cases hlive : s.live i with
  | none => rfl
  | some stored =>
    have := (h.stored i _ _ _ hlive).1.2
    omega

theorem Inv.getObject_of_none (hi : i < s.table.tableSize) (hlive : s.live i = none) :
    (s.table.table i).getObject = 0 := by
  rcases Nat.eq_zero_or_pos i with rfl | hpos
  · rw [getObject_object (by rw [h.reserved]), h.reserved]
  · exact getObject_free (h.tagged i hpos hi hlive)

theorem Inv.isFree_iff (hi : i < s.table.tableSize) :
    (s.table.table i).isFree = true ↔ 0 < i ∧ s.live i = none := by
  constructor
  · intro hfree
    rcases Nat.eq_zero_or_pos i with rfl | hpos
    · rw [isFree_object (by rw [h.reserved])] at hfree
      cases hfree
    · cases hlive : s.live i with
      | none => exact ⟨hpos, rfl⟩
      | some stored =>
        obtain ⟨-, hentry, -, halign⟩ := h.stored i _ _ _ hlive
        rw [isFree_object (by rw [hentry]; exact halign)] at hfree
        cases hfree
  · rintro ⟨hpos, hlive⟩
    exact h.tagged i hpos hi hlive

theorem Inv.lookup {handle : ℕ} (hh : handle < 2 ^ 64) :
    exMapHandleToPointerFull s.table handle = s.live (handleToIndex handle) ∧
      exMapHandleToPointerEx s.table handle =
        (s.live (handleToIndex handle)).map (fun stored => (stored.1, stored.2.1)) ∧
      exMapHandleToPointer s.table handle = ((s.live (handleToIndex handle)).map Prod.fst).getD 0 := by
  unfold exMapHandleToPointerFull exMapHandleToPointerEx exMapHandleToPointer
  have hmax : maxHandles = 2 ^ 24 := rfl
  have hlimit := h.limit
  by_cases hnull : handle = nullHandle ∨ handle = invalidHandleValue
  · have hlive : s.live (handleToIndex handle) = none := by
      rcases hnull with rfl | rfl
      · exact h.live_zero
      · refine h.live_outOfRange ?_
        have : handleToIndex invalidHandleValue = 2 ^ 62 - 1 := rfl
        omega
    simp [hnull, hlive]
  · by_cases hvalid : handleToIndex handle < s.table.tableSize
    · cases hlive : s.live (handleToIndex handle) with
      | none => simp [hnull, hvalid, isValidIndex, h.getObject_of_none hvalid hlive]
      | some stored =>
        obtain ⟨object, access, attributes⟩ := stored
        obtain ⟨-, hentry, hne, halign⟩ := h.stored _ _ _ _ hlive
        have hobject : (HandleTableEntry.mk object access attributes).getObject = object := getObject_object halign
        simp [hnull, hvalid, isValidIndex, hobject, hentry, hne]
    · have hlive : s.live (handleToIndex handle) = none := h.live_outOfRange (by omega)
      simp [hnull, hvalid, isValidIndex, hlive]

theorem Inv.isMap : ∃ free, s.IsMap free := by
  obtain ⟨free, hwalk, hfree, hcount⟩ := h.list
  have hsize := h.size
  have hlive := count_live (by unfold handleTableEntrySize at hsize; omega) h.live_zero hwalk.nodup hfree
  exact ⟨free,
    { walk := hwalk
      acyclic := hwalk.nodup
      unoccupied := hfree
      tagged := fun i => by
        rw [hfree]
        constructor
        · rintro ⟨hpos, hi, hnone⟩
          exact ⟨hi, (h.isFree_iff hi).2 ⟨hpos, hnone⟩⟩
        · rintro ⟨hi, htag⟩
          obtain ⟨hpos, hnone⟩ := (h.isFree_iff hi).1 htag
          exact ⟨hpos, hi, hnone⟩
      count := by omega
      full := fun handle hh => (h.lookup hh).1
      withAccess := fun handle hh => (h.lookup hh).2.1
      pointer := fun handle hh => (h.lookup hh).2.2 }⟩

end

/-! ### Growth -/

theorem Inv.encodable (h : s.Inv) : s.table.firstFreeIndex = usizeMax ∨ s.table.firstFreeIndex < 2 ^ 61 := by
  obtain ⟨free, hwalk, hfree, -⟩ := h.list
  cases free with
  | nil => exact Or.inl (walk_nil.1 hwalk)
  | cons x xs =>
    obtain ⟨hx, -, -⟩ := walk_cons.1 hwalk
    have hmem := (hfree x).1 (by simp)
    have hlimit := h.limit
    have hmax : maxHandles = 2 ^ 24 := rfl
    omega

variable {pool : Pool}

theorem Inv.grow {t : HandleTable} (h : s.Inv) (hg : expGrowHandleTable pool s.table = some t) :
    Inv ⟨t, s.live⟩ ∧ s.table.tableSize < t.tableSize ∧ t.firstFreeIndex = s.table.tableSize := by
  obtain ⟨free, hwalk, hfree, hcount⟩ := h.list
  have hsize := h.size
  have hencodable := h.encodable
  have hmax : maxHandles = 2 ^ 24 := rfl
  have hmin : handleTableEntrySize = 256 := rfl
  have husize : usizeMax = 2 ^ 64 - 1 := rfl
  simp only [expGrowHandleTable] at hg
  split at hg
  · cases hg
  split at hg
  · cases hg
  obtain ⟨new, hnew⟩ : ∃ new, new = min (s.table.tableSize * 2) maxHandles := ⟨_, rfl⟩
  rw [← hnew] at hg
  obtain ⟨old, hold⟩ : ∃ old, old = s.table.tableSize := ⟨_, rfl⟩
  have hlt : old < new := by omega
  simp only [some.injEq] at hg
  have hbelow : ∀ i, i < old → t.table i = s.table.table i := fun i hi => by
    rw [← hg]
    exact if_pos (hold ▸ hi)
  have habove : ∀ i, old ≤ i → i < new →
      t.table i = ⟨encodeFreeNext (if i < new - 1 then i + 1 else s.table.firstFreeIndex), 0, 0⟩ := fun i hi hlt => by
    rw [← hg]
    simp only
    rw [if_neg (by omega), if_pos hlt]
  have htsize : t.tableSize = new := by rw [← hg]
  have htfirst : t.firstFreeIndex = old := by rw [← hg, hold]
  have htcount : t.handleCount = s.table.handleCount := by rw [← hg]
  have hrow : Walk usizeMax t.nextFree old (range' old (new - old) ++ free) := by
    refine Walk.row (h := s.table.firstFreeIndex) (hwalk.congr fun i hi => ?_) (by omega) (by omega)
      (fun i hi hilt => ?_) ?_
    · have := (hfree i).1 hi
      simp only [nextFree, hbelow i (by omega)]
    · simp only [nextFree, habove i hi (by omega), getNextFreeIndex]
      rw [if_pos (by omega), decodeFreeNext_encodeFreeNext (by omega)]
    · have hlast : old + (new - old) - 1 = new - 1 := by omega
      simp only [nextFree, hlast, habove (new - 1) (by omega) (by omega), getNextFreeIndex]
      rw [if_neg (by omega), decodeFreeNext_encodeFreeNext hencodable]
  refine ⟨
    { size := by show _ ≤ t.tableSize; omega
      limit := by show t.tableSize ≤ _; omega
      list := ⟨_, htfirst ▸ hrow, fun i => ?_, ?_⟩
      tagged := fun i hpos hi hnone => ?_
      stored := fun i object access attributes hlive => ?_
      reserved := ?_ }, by omega, by omega⟩
  · rw [mem_append, mem_range', hfree, htsize]
    constructor
    · rintro (⟨j, hj, rfl⟩ | ⟨hpos, hi, hnone⟩)
      · exact ⟨by omega, by omega, h.live_outOfRange (by omega)⟩
      · exact ⟨hpos, by omega, hnone⟩
    · rintro ⟨hpos, hi, hnone⟩
      by_cases hi' : i < old
      · exact Or.inr ⟨hpos, by omega, hnone⟩
      · exact Or.inl ⟨i - old, by omega, by omega⟩
  · show t.handleCount.toNat + _ + 1 = t.tableSize
    simp only [length_append, length_range', htcount, htsize]
    omega
  · by_cases hi' : i < old
    · show (t.table i).isFree = true
      rw [hbelow i hi']
      exact h.tagged i hpos (by omega) hnone
    · show (t.table i).isFree = true
      rw [habove i (by omega) (htsize ▸ hi)]
      exact isFree_encodeFreeNext _ _ _
  · obtain ⟨hrange, hentry, hobject⟩ := h.stored i object access attributes hlive
    refine ⟨⟨hrange.1, ?_⟩, ?_, hobject⟩
    · show i < t.tableSize
      omega
    · show t.table i = _
      rw [hbelow i (by omega), hentry]
  · show (t.table 0).object = 0
    rw [hbelow 0 (by omega), h.reserved]

/-! ### The calls -/

variable {object : ℕ} {access attributes : BitVec 32}

theorem Inv.occupy {t : HandleTable} {index : ℕ} {as bs : List ℕ} (h : s.Inv)
    (hlist : Walk usizeMax s.table.nextFree s.table.firstFreeIndex (as ++ index :: bs))
    (hwalk : Walk usizeMax t.nextFree t.firstFreeIndex (as ++ bs))
    (hsize : t.tableSize = s.table.tableSize) (hcount : t.handleCount = s.table.handleCount + 1)
    (hentry : t.table index = ⟨object, access, attributes⟩)
    (htagged : ∀ i ∈ as ++ bs, (t.table i).isFree = true)
    (hframe : ∀ i, i ∉ as ++ index :: bs → t.table i = s.table.table i)
    (hobject : object ≠ 0 ∧ object % 8 = 0) :
    Inv ⟨t, update s.live index (some (object, access, attributes))⟩ := by
  obtain ⟨free, hfreewalk, hfree, hfreecount⟩ := h.list
  obtain rfl := hfreewalk.unique hlist
  have hnodup := hlist.nodup
  have hlimit := h.limit
  have hmax : maxHandles = 2 ^ 24 := rfl
  obtain ⟨hpos, hin, hnone⟩ := (hfree index).1 (by simp)
  have hindex : index ∉ as ++ bs := by
    simp only [nodup_append, nodup_cons, mem_cons] at hnodup
    simp only [mem_append, not_or]
    exact ⟨fun ha => hnodup.2.2 index ha index (Or.inl rfl) rfl, hnodup.2.1.1⟩
  have hfree' : ∀ i, i ∈ as ++ bs ↔ 0 < i ∧ i < t.tableSize ∧
      update s.live index (some (object, access, attributes)) i = none := by
    intro i
    by_cases hi : i = index
    · subst hi
      simp only [update_self]
      simp [hindex]
    · rw [update_of_ne hi, hsize, ← hfree]
      simp [hi]
  refine
    { size := hsize ▸ h.size
      limit := hsize ▸ h.limit
      list := ⟨as ++ bs, hwalk, hfree', ?_⟩
      tagged := fun i hi hlt hlive => htagged i ((hfree' i).2 ⟨hi, hlt, hlive⟩)
      stored := fun i object' access' attributes' hlive => ?_
      reserved := ?_ }
  · have hadd : t.handleCount.toNat = s.table.handleCount.toNat + 1 := by
      rw [hcount, BitVec.toNat_add]
      simp only [length_append, length_cons] at hfreecount
      show (s.table.handleCount.toNat + 1) % 2 ^ 32 = _
      omega
    simp only [length_append, length_cons] at hfreecount ⊢
    omega
  · by_cases hi : i = index
    · subst hi
      simp only [update_self, some.injEq, Prod.mk.injEq] at hlive
      obtain ⟨rfl, rfl, rfl⟩ := hlive
      exact ⟨⟨hpos, hsize ▸ hin⟩, hentry, hobject⟩
    · simp only [update_of_ne hi] at hlive
      obtain ⟨hrange, hstored, hobject'⟩ := h.stored i _ _ _ hlive
      refine ⟨⟨hrange.1, hsize ▸ hrange.2⟩, ?_, hobject'⟩
      show t.table i = _
      rw [hframe i, hstored]
      intro hmem
      rw [((hfree i).1 hmem).2.2] at hlive
      cases hlive
  · show (t.table 0).object = 0
    rw [hframe 0, h.reserved]
    intro hmem
    exact absurd ((hfree 0).1 hmem).1 (by omega)

theorem indexToHandle_spec {index : ℕ} (hpos : 0 < index) (hlt : index < 2 ^ 62 - 1) :
    handleToIndex (indexToHandle index) = index ∧ indexToHandle index ≠ nullHandle ∧
      indexToHandle index ≠ invalidHandleValue := by
  have hinvalid : invalidHandleValue = 2 ^ 64 - 1 := rfl
  simp only [handleToIndex, indexToHandle, nullHandle, hinvalid]
  omega

theorem Inv.create_of_cons (pool : Pool) (access attributes : BitVec 32) {x : ℕ} {xs : List ℕ}
    (h : s.Inv) (hlist : Walk usizeMax s.table.nextFree s.table.firstFreeIndex (x :: xs))
    (hobject : object ≠ 0 ∧ object % 8 = 0) :
    ∃ t, exCreateHandleEx pool s.table object access attributes = (indexToHandle x, t) ∧
      Inv ⟨t, update s.live x (some (object, access, attributes))⟩ ∧
      (0 < x ∧ x < s.table.tableSize) ∧ s.live x = none := by
  obtain ⟨free, hwalk, hfree, -⟩ := h.list
  obtain rfl := hwalk.unique hlist
  obtain ⟨hpos, hlt, hnone⟩ := (hfree x).1 (by simp)
  obtain ⟨hfirst, hne, htail⟩ := walk_cons.1 hlist
  let t : HandleTable :=
    { s.table.setEntry x ⟨object, access, attributes⟩ with
      firstFreeIndex := s.table.nextFree x
      handleCount := s.table.handleCount + 1 }
  refine ⟨t, ?_, ?_, ⟨hpos, hlt⟩, hnone⟩
  · rw [exCreateHandleEx, if_neg hobject.1]
    simp only [hfirst]
    rw [if_neg (by omega)]
    simp only [h.tagged x hpos hlt hnone, if_true]
    rfl
  · have hx := (nodup_cons.1 hlist.nodup).1
    have hother : ∀ i, i ≠ x → t.table i = s.table.table i := fun i hi => update_of_ne hi _ _
    have hne : ∀ i ∈ xs, i ≠ x := by
      rintro i hi rfl
      exact hx hi
    refine h.occupy (show Walk _ _ _ ([] ++ x :: xs) from hlist) (htail.congr fun i hi => ?_) rfl rfl (update_self _ _ _)
      (fun i hi => ?_) (fun i hi => hother i ?_) hobject
    · simp only [nextFree, hother i (hne i hi)]
    · have hmem := (hfree i).1 (mem_cons_of_mem _ hi)
      rw [hother i (hne i hi)]
      exact h.tagged i hmem.1 hmem.2.1 hmem.2.2
    · rintro rfl
      exact hi (by simp)

theorem create_of_full (hfirst : s.table.firstFreeIndex = usizeMax)
    (hgrow : expGrowHandleTable pool s.table = none) :
    exCreateHandleEx pool s.table object access attributes = (invalidHandleValue, s.table) := by
  rw [exCreateHandleEx]
  split
  · rfl
  · simp [hfirst, hgrow]

theorem Inv.full_of_nil (h : s.Inv) (hlist : Walk usizeMax s.table.nextFree s.table.firstFreeIndex []) : s.Full := by
  obtain ⟨free, hwalk, hfree, -⟩ := h.list
  obtain rfl := hwalk.unique hlist
  intro i hpos hlt hnone
  exact absurd ((hfree i).2 ⟨hpos, hlt, hnone⟩) not_mem_nil

theorem Inv.create (h : s.Inv) (ha : Admitted (.create pool object access attributes))
    (hs : s.Safe (.create pool object access attributes)) :
    s.Answers (.create pool object access attributes) ∧ (s.step (.create pool object access attributes)).Inv := by
  obtain ⟨free, hwalk, hfree, -⟩ := h.list
  have hlimit := h.limit
  have hmax : maxHandles = 2 ^ 24 := rfl
  cases free with
  | nil =>
    have hfull : exCreateHandleEx pool s.table object access attributes = (invalidHandleValue, s.table) :=
      create_of_full (walk_nil.1 hwalk) (hs (walk_nil.1 hwalk))
    simp only [Answers, step, hfull]
    exact ⟨⟨fun hne => absurd rfl hne, fun _ => ⟨h.full_of_nil hwalk, hs (walk_nil.1 hwalk), trivial⟩⟩, h⟩
  | cons x xs =>
    obtain ⟨t, hcreate, hinv, ⟨hpos, hlt⟩, hnone⟩ :=
      h.create_of_cons pool access attributes hwalk ⟨ha.1, ha.2.1⟩
    obtain ⟨hindex, hnull, hvalid⟩ := indexToHandle_spec hpos (by omega)
    simp only [Answers, step, hcreate, hindex, if_neg hvalid]
    exact ⟨⟨fun _ => ⟨hnull, hnone⟩, fun he => absurd he hvalid⟩, hinv⟩

variable {handle : ℕ}

theorem Inv.named (h : s.Inv) (hs : handleToIndex handle = 0 → handle = nullHandle) :
    (handle = nullHandle ∨ handle = invalidHandleValue) ∧ s.live (handleToIndex handle) = none ∨
      ¬ (handle = nullHandle ∨ handle = invalidHandleValue) ∧
        (¬ handleToIndex handle < s.table.tableSize ∧ s.live (handleToIndex handle) = none ∨
          handleToIndex handle < s.table.tableSize ∧
            ((s.table.table (handleToIndex handle)).isFree = true ∧ s.live (handleToIndex handle) = none ∨
              (s.table.table (handleToIndex handle)).isFree = false ∧ s.live (handleToIndex handle) ≠ none)) := by
  have hmax : maxHandles = 2 ^ 24 := rfl
  have hlimit := h.limit
  by_cases hnull : handle = nullHandle ∨ handle = invalidHandleValue
  · refine Or.inl ⟨hnull, ?_⟩
    rcases hnull with rfl | rfl
    · exact h.live_zero
    · refine h.live_outOfRange ?_
      have : handleToIndex invalidHandleValue = 2 ^ 62 - 1 := rfl
      omega
  · refine Or.inr ⟨hnull, ?_⟩
    by_cases hlt : handleToIndex handle < s.table.tableSize
    · refine Or.inr ⟨hlt, ?_⟩
      have hpos : 0 < handleToIndex handle := Nat.pos_of_ne_zero fun he => hnull (Or.inl (hs he))
      have hfree := h.isFree_iff hlt
      by_cases hlive : s.live (handleToIndex handle) = none
      · exact Or.inl ⟨hfree.2 ⟨hpos, hlive⟩, hlive⟩
      · exact Or.inr ⟨by simpa [hlive] using hfree, hlive⟩
    · exact Or.inl ⟨hlt, h.live_outOfRange (by omega)⟩

theorem Inv.destroy (h : s.Inv) (hs : s.Safe (.destroy handle)) :
    s.Answers (.destroy handle) ∧ (s.step (.destroy handle)).Inv := by
  rcases h.named hs with ⟨hnull, hlive⟩ | ⟨hnull, ⟨hvalid, hlive⟩ | ⟨hlt, ⟨hfree, hlive⟩ | ⟨hfree, hlive⟩⟩⟩
  · simp only [Answers, step, exDestroyHandle, if_pos hnull, hlive]
    exact ⟨by simp, h⟩
  · simp only [Answers, step, exDestroyHandle, if_neg hnull, isValidIndex, hvalid, hlive]
    exact ⟨by simp, by simpa using h⟩
  · simp only [Answers, step, exDestroyHandle, if_neg hnull, isValidIndex, hlt, hfree, hlive]
    exact ⟨by simp, by simpa using h⟩
  obtain ⟨index, hindex⟩ : ∃ index, index = handleToIndex handle := ⟨_, rfl⟩
  rw [← hindex] at hlt hfree hlive
  let t : HandleTable :=
    { s.table.setEntry index ⟨encodeFreeNext s.table.firstFreeIndex, 0, 0⟩ with
      firstFreeIndex := index
      handleCount := s.table.handleCount - 1 }
  have hcall : exDestroyHandle s.table handle = (true, t) := by
    simp [exDestroyHandle, if_neg hnull, isValidIndex, ← hindex, hlt, hfree, t]
  simp only [Answers, step, hcall, ← hindex, if_true]
  refine ⟨by simp [hlive], ?_⟩
  obtain ⟨stored, hstored⟩ := ne_none_iff_exists'.1 hlive
  obtain ⟨⟨hpos, -⟩, -⟩ := h.stored _ _ _ _ hstored
  obtain ⟨free, hwalk, hmem, hcount⟩ := h.list
  have hnotMem : index ∉ free := fun hi => hlive ((hmem index).1 hi).2.2
  have hlimit := h.limit
  have hmax : maxHandles = 2 ^ 24 := rfl
  have husize : usizeMax = 2 ^ 64 - 1 := rfl
  have hother : ∀ i, i ≠ index → t.table i = s.table.table i := fun i hi => update_of_ne hi _ _
  have hnext : t.nextFree = update s.table.nextFree index s.table.firstFreeIndex := by
    refine (s.table.nextFree_setEntry index _).trans ?_
    rw [getNextFreeIndex, decodeFreeNext_encodeFreeNext h.encodable]
  refine
    { size := h.size
      limit := h.limit
      list := ⟨index :: free, ?_, fun i => ?_, ?_⟩
      tagged := fun i hi hit hnone => ?_
      stored := fun i object access attributes hi => ?_
      reserved := ?_ }
  · show Walk usizeMax t.nextFree index (index :: free)
    rw [hnext]
    exact hwalk.push hnotMem (by omega)
  · show i ∈ index :: free ↔ 0 < i ∧ i < s.table.tableSize ∧ update s.live index none i = none
    by_cases hi : i = index
    · subst hi
      simp [hpos, hlt]
    · rw [mem_cons, update_of_ne hi, hmem]
      simp [hi]
  · show (s.table.handleCount - 1).toNat + (index :: free).length + 1 = s.table.tableSize
    have hcountpos : 0 < s.table.handleCount.toNat := by
      -- the free list and index 0 leave room for the live entry
      have hlength := count_live (by omega) h.live_zero hwalk.nodup hmem
      have : 0 < (range s.table.tableSize).countP fun i => (s.live i).isSome :=
        countP_pos_iff.2 ⟨index, by simpa using hlt, by simp [hstored]⟩
      omega
    have hsub : (s.table.handleCount - 1).toNat = s.table.handleCount.toNat - 1 := by
      rw [BitVec.toNat_sub]
      show (2 ^ 32 - 1 + s.table.handleCount.toNat) % 2 ^ 32 = _
      omega
    simp only [length_cons]
    omega
  · show (t.table i).isFree = true
    by_cases hi' : i = index
    · subst hi'
      simp only [t, setEntry, update_self]
      exact isFree_encodeFreeNext _ _ _
    · simp only [update_of_ne hi'] at hnone
      rw [hother i hi']
      exact h.tagged i hi hit hnone
  · by_cases hi' : i = index
    · subst hi'
      simp at hi
    · simp only [update_of_ne hi'] at hi
      obtain ⟨hrange, hentry, hobject⟩ := h.stored i _ _ _ hi
      exact ⟨hrange, (hother i hi').trans hentry, hobject⟩
  · show (t.table 0).object = 0
    rw [hother 0 (by omega), h.reserved]

theorem Inv.change {newObject : ℕ} {newAccess : BitVec 32} (h : s.Inv)
    (ha : Admitted (.change handle newObject newAccess)) (hs : s.Safe (.change handle newObject newAccess)) :
    s.Answers (.change handle newObject newAccess) ∧ (s.step (.change handle newObject newAccess)).Inv := by
  rcases h.named hs with ⟨hnull, hlive⟩ | ⟨hnull, ⟨hvalid, hlive⟩ | ⟨hlt, ⟨hfree, hlive⟩ | ⟨hfree, hlive⟩⟩⟩
  · simp only [Answers, step, exChangeHandle, if_pos hnull, hlive]
    exact ⟨by simp, h⟩
  · simp only [Answers, step, exChangeHandle, if_neg hnull, isValidIndex, hvalid, hlive]
    exact ⟨by simp, by simpa using h⟩
  · simp only [Answers, step, exChangeHandle, if_neg hnull, isValidIndex, hlt, hfree, hlive]
    exact ⟨by simp, by simpa using h⟩
  obtain ⟨index, hindex⟩ : ∃ index, index = handleToIndex handle := ⟨_, rfl⟩
  rw [← hindex] at hlt hfree hlive
  obtain ⟨⟨object, access, attributes⟩, hstored⟩ := ne_none_iff_exists'.1 hlive
  obtain ⟨⟨hpos, -⟩, hentry, -⟩ := h.stored _ _ _ _ hstored
  let t : HandleTable := s.table.setEntry index ⟨newObject, newAccess, attributes⟩
  have hcall : exChangeHandle s.table handle newObject newAccess = (true, t) := by
    rw [hentry] at hfree
    simp [exChangeHandle, if_neg hnull, isValidIndex, ← hindex, hlt, hfree, hentry, t]
  simp only [Answers, step, hcall, ← hindex, if_true]
  refine ⟨by simp [hlive], ?_⟩
  obtain ⟨free, hwalk, hmem, hcount⟩ := h.list
  have hother : ∀ i, i ≠ index → t.table i = s.table.table i := fun i hi => update_of_ne hi _ _
  have hnone_iff : ∀ i, update s.live index
      ((s.live index).map fun stored => (newObject, newAccess, stored.2.2)) i = none ↔ s.live i = none := by
    intro i
    by_cases hi : i = index
    · subst hi
      simp [hstored]
    · rw [update_of_ne hi]
  refine
    { size := h.size
      limit := h.limit
      list := ⟨free, hwalk.congr fun i hi => ?_, fun i => ?_, hcount⟩
      tagged := fun i hi hit hnone => ?_
      stored := fun i object' access' attributes' hi => ?_
      reserved := ?_ }
  · show (s.table.table i).getNextFreeIndex = (t.table i).getNextFreeIndex
    rw [hother i]
    rintro rfl
    exact hlive ((hmem i).1 hi).2.2
  · exact (hmem i).trans (by rw [← hnone_iff]; rfl)
  · have hnone' := (hnone_iff i).1 hnone
    show (t.table i).isFree = true
    rw [hother i (by rintro rfl; exact hlive hnone')]
    exact h.tagged i hi hit hnone'
  · by_cases hi' : i = index
    · subst hi'
      simp only [update_self, hstored, map_some, some.injEq, Prod.mk.injEq] at hi
      obtain ⟨rfl, rfl, rfl⟩ := hi
      exact ⟨⟨hpos, hlt⟩, update_self _ _ _, ha.1.1, ha.1.2.1⟩
    · simp only [update_of_ne hi'] at hi
      obtain ⟨hrange, hentry', hobject⟩ := h.stored i _ _ _ hi
      exact ⟨hrange, (hother i hi').trans hentry', hobject⟩
  · show (t.table 0).object = 0
    rw [hother 0 (by omega), h.reserved]

theorem Inv.growToIndex (pool : Pool) (index : ℕ) {fuel : ℕ} (h : s.Inv) (hfuel : maxHandles < s.table.tableSize + fuel) :
    ∃ reached t, growToIndex pool index fuel s.table = some (reached, t) ∧ Inv ⟨t, s.live⟩ ∧
      (reached = true → index < t.tableSize) ∧
      (reached = false → t.tableSize ≤ index ∧ expGrowHandleTable pool t = none) ∧
      (index < s.table.tableSize → reached = true ∧ t = s.table) := by
  induction fuel generalizing s with
  | zero =>
    have := h.limit
    omega
  | succ fuel ih =>
    by_cases hlt : index < s.table.tableSize
    · exact ⟨true, s.table, by simp [Ex.growToIndex, isValidIndex, hlt], h, fun _ => hlt,
        nofun, fun _ => ⟨rfl, rfl⟩⟩
    · cases hgrow : expGrowHandleTable pool s.table with
      | none =>
        exact ⟨false, s.table, by simp [Ex.growToIndex, isValidIndex, hlt, hgrow], h,
          nofun, fun _ => ⟨by omega, hgrow⟩, fun hi => absurd hi hlt⟩
      | some t =>
        obtain ⟨hinv, hsize, -⟩ := h.grow hgrow
        obtain ⟨reached, t', hloop, hinv', hreach, hfail, -⟩ := ih hinv (show maxHandles < t.tableSize + fuel by omega)
        refine ⟨reached, t', ?_, hinv', hreach, hfail, fun hi => absurd hi hlt⟩
        rw [← hloop]
        simp [Ex.growToIndex, isValidIndex, hlt, hgrow]

theorem Inv.occupyAt {index : ℕ} {as bs : List ℕ} (h : s.Inv)
    (hlist : Walk usizeMax s.table.nextFree s.table.firstFreeIndex (as ++ index :: bs))
    (hobject : object ≠ 0 ∧ object % 8 = 0) :
    Inv ⟨{ (unlinkFree s.table as.getLast? index).setEntry index ⟨object, access, attributes⟩ with
        handleCount := s.table.handleCount + 1 }, update s.live index (some (object, access, attributes))⟩ := by
  obtain ⟨free, hwalk, hfree, -⟩ := h.list
  obtain rfl := hwalk.unique hlist
  have hlimit := h.limit
  have hmax : maxHandles = 2 ^ 24 := rfl
  have hnodup := hlist.nodup
  simp only [nodup_append, nodup_cons, mem_cons] at hnodup
  have hindex : ∀ i ∈ as ++ bs, i ≠ index := by
    rintro i hi rfl
    rcases mem_append.1 hi with hi | hi
    · exact hnodup.2.2 i hi i (Or.inl rfl) rfl
    · exact hnodup.2.1.1 hi
  have hmem : ∀ i ∈ as ++ bs, i ∈ as ++ index :: bs := fun i hi => by
    simp only [mem_append, mem_cons] at hi ⊢
    tauto
  have htagged : ∀ i ∈ as ++ bs, (s.table.table i).isFree = true := fun i hi => by
    obtain ⟨hpos, hlt, hnone⟩ := (hfree i).1 (hmem i hi)
    exact h.tagged i hpos hlt hnone
  have hencodable : decodeFreeNext (encodeFreeNext (s.table.nextFree index)) = s.table.nextFree index := by
    refine decodeFreeNext_encodeFreeNext ?_
    rw [hlist.next_eq]
    cases bs with
    | nil => exact Or.inl rfl
    | cons b bs =>
      have := (hfree b).1 (by simp)
      simp only [headD_cons]
      omega
  have hset : ∀ (t : HandleTable) (e : HandleTableEntry), (t.setEntry index e).table index = e ∧
      ∀ i, i ≠ index → (t.setEntry index e).table i = t.table i := fun t e =>
    ⟨update_self _ _ _, fun i hi => update_of_ne hi _ _⟩
  have herase := hlist.erase (v := (HandleTableEntry.mk object access attributes).getNextFreeIndex)
  rcases eq_nil_or_concat as with rfl | ⟨init, q, has⟩
  · refine h.occupy hlist ?_ rfl rfl (hset _ _).1 (fun i hi => ?_) (fun i hi => ?_) hobject
    · show Walk usizeMax (setEntry _ _ _).nextFree (s.table.nextFree index) _
      rw [nextFree_setEntry]
      simp only [getLastD_nil, if_true] at herase
      exact herase
    · simp only [(hset _ _).2 i (hindex i hi)]
      exact htagged i hi
    · exact (hset _ _).2 i (by rintro rfl; simp at hi)
  · rw [concat_eq_append] at has
    have hq : q ≠ usizeMax := fun he => hlist.2 (by simp [has, he])
    have hlast : as.getLast? = some q := by simp [has]
    rw [hlast]
    refine h.occupy hlist ?_ rfl rfl (hset _ _).1 (fun i hi => ?_) (fun i hi => ?_) hobject
    · show Walk usizeMax (setEntry _ _ _).nextFree s.table.firstFreeIndex _
      rw [nextFree_setEntry, nextFree_unlinkFree]
      simp only [hencodable]
      have hlastD : as.getLastD usizeMax = q := by simp [has]
      simp only [hlastD, if_neg hq] at herase
      exact herase
    · simp only [(hset _ _).2 i (hindex i hi)]
      show (update s.table.table q _ i).isFree = true
      by_cases hiq : i = q
      · rw [hiq, update_self]
        exact isFree_encodeFreeNext _ _ _
      · rw [update_of_ne hiq]
        exact htagged i hi
    · have hi' : i ≠ index ∧ i ≠ q := by
        simp only [has, mem_append, mem_cons, not_mem_nil, or_false, not_or] at hi
        exact ⟨hi.2.1, hi.1.2⟩
      refine ((hset _ _).2 i hi'.1).trans ?_
      exact update_of_ne hi'.2 _ _

theorem Inv.createAt (h : s.Inv) (ha : Admitted (.createAt pool handle object access attributes)) :
    s.Answers (.createAt pool handle object access attributes) ∧
      (s.step (.createAt pool handle object access attributes)).Inv := by
  have hmax : maxHandles = 2 ^ 24 := rfl
  by_cases hnull : handle = nullHandle ∨ handle = invalidHandleValue
  · have hcall : exCreateHandleAt pool s.table handle object access attributes = some (false, s.table) := by
      rw [exCreateHandleAt, if_pos (Or.inr hnull)]
    simp only [Answers, step, hcall]
    refine ⟨⟨false, s.table, rfl, nofun, fun _ => ⟨?_, fun _ => rfl⟩⟩, h⟩
    rcases hnull with rfl | rfl
    · exact Or.inl rfl
    · exact Or.inr (Or.inr (Or.inl (by decide)))
  obtain ⟨index, hindex⟩ : ∃ index, index = handleToIndex handle := ⟨_, rfl⟩
  obtain ⟨reached, t, hloop, hinv, hreach, hfail, hsame⟩ :=
    h.growToIndex pool index (show maxHandles < s.table.tableSize + (maxHandles + 1) by omega)
  have hguard : ¬ (object = 0 ∨ handle = nullHandle ∨ handle = invalidHandleValue) := by
    have := ha.1.1
    tauto
  cases reached with
  | false =>
    have hcall : exCreateHandleAt pool s.table handle object access attributes = some (false, t) := by
      rw [exCreateHandleAt, if_neg hguard]
      simp only [← hindex, hloop]
    simp only [Answers, step, hcall, ← hindex]
    refine ⟨⟨false, t, rfl, nofun, fun _ => ⟨Or.inr (Or.inr (Or.inr (hfail rfl))), fun hi => ?_⟩⟩, hinv⟩
    exact (hsame hi).2
  | true =>
    obtain ⟨free, hwalk, hfree, hcount⟩ := hinv.list
    have hlimit : t.tableSize ≤ maxHandles := hinv.limit
    have hlt := hreach rfl
    have husize : usizeMax = 2 ^ 64 - 1 := rfl
    have hlength : free.length < t.tableSize + 1 := by
      simp only at hcount
      omega
    by_cases hmem : index ∈ free
    · obtain ⟨as, bs, rfl⟩ := append_of_mem hmem
      have hfind := findFree_of_walk none hwalk
        (show as.length < t.tableSize + 1 by simp only [length_append, length_cons] at hlength; omega)
      rw [or_none] at hfind
      have hcall : exCreateHandleAt pool s.table handle object access attributes =
          some (true, { (unlinkFree t as.getLast? index).setEntry index ⟨object, access, attributes⟩ with
            handleCount := t.handleCount + 1 }) := by
        rw [exCreateHandleAt, if_neg hguard]
        simp only [← hindex, hloop, hfind]
        simp
      obtain ⟨hpos, -, hnone⟩ := (hfree index).1 hmem
      simp only [Answers, step, hcall, ← hindex]
      exact ⟨⟨true, _, rfl, fun _ => ⟨by omega, hnone⟩, nofun⟩,
        hinv.occupyAt hwalk ⟨ha.1.1, ha.1.2.1⟩⟩
    · obtain ⟨prev, hfind⟩ := findFree_of_notMem none hwalk hmem hlength
      have hcall : exCreateHandleAt pool s.table handle object access attributes = some (false, t) := by
        rw [exCreateHandleAt, if_neg hguard]
        simp only [← hindex, hloop, hfind]
        rw [if_pos (by omega)]
      simp only [Answers, step, hcall, ← hindex]
      refine ⟨⟨false, t, rfl, nofun, fun _ => ⟨?_, fun hi => (hsame hi).2⟩⟩, hinv⟩
      by_cases hzero : index = 0
      · exact Or.inl hzero
      · exact Or.inr (Or.inl fun hnone => hmem ((hfree index).2 ⟨by omega, hlt, hnone⟩))

theorem Inv.step {op : HandleOp} (h : s.Inv) (ha : Admitted op) (hs : s.Safe op) : s.Answers op ∧ (s.step op).Inv := by
  cases op with
  | create pool object access attributes => exact h.create ha hs
  | createAt pool handle object access attributes => exact h.createAt ha
  | change handle newObject newAccess => exact h.change ha hs
  | destroy handle => exact h.destroy hs

/-! ### The unsafe calls -/

/-- A creation that grows the table uses the index it read before: the entry in front of the array. -/
theorem Inv.not_create (h : s.Inv) (ha : Admitted (.create pool object access attributes))
    (hs : ¬ s.Safe (.create pool object access attributes)) :
    ¬ (s.Answers (.create pool object access attributes) ∧
      ∃ free, (s.step (.create pool object access attributes)).IsMap free) := by
  simp only [Safe, not_forall] at hs
  obtain ⟨hfirst, hgrow⟩ := hs
  obtain ⟨t, hgrow⟩ := ne_none_iff_exists'.1 hgrow
  obtain ⟨hinv, hsize, -⟩ := h.grow hgrow
  have hlimit : t.tableSize ≤ maxHandles := hinv.limit
  have hmax : maxHandles = 2 ^ 24 := rfl
  rintro ⟨hanswers, free, hmap⟩
  cases hfree : (t.table usizeMax).isFree with
  | true =>
    let t' : HandleTable :=
      { t.setEntry usizeMax ⟨object, access, attributes⟩ with
        firstFreeIndex := t.nextFree usizeMax
        handleCount := t.handleCount + 1 }
    have hcall : exCreateHandleEx pool s.table object access attributes = (indexToHandle usizeMax, t') := by
      rw [exCreateHandleEx, if_neg ha.1]
      simp only [hfirst, hgrow, true_or, if_true, hfree]
      rfl
    have hsize' : t'.tableSize = t.tableSize := rfl
    have hne : indexToHandle usizeMax ≠ invalidHandleValue := by decide
    simp only [HandleMap.step, hcall, if_neg hne] at hmap
    have hlookup := hmap.full (indexToHandle usizeMax) (by decide)
    have hindex : handleToIndex (indexToHandle usizeMax) = 2 ^ 62 - 1 := rfl
    have hvalid : t'.isValidIndex (handleToIndex (indexToHandle usizeMax)) = false := by
      simp only [isValidIndex, decide_eq_false_iff_not]
      omega
    simp only [update_self, exMapHandleToPointerFull, hvalid] at hlookup
    split at hlookup <;> cases hlookup
  | false =>
    have hcall : exCreateHandleEx pool s.table object access attributes = (invalidHandleValue, t) := by
      rw [exCreateHandleEx, if_neg ha.1]
      simp [hfirst, hgrow, hfree]
    simp only [Answers, hcall] at hanswers
    obtain ⟨-, -, rfl⟩ := hanswers.2 trivial
    omega

theorem Inv.reserved_guards (h : s.Inv) (hzero : handleToIndex handle = 0) (hne : handle ≠ nullHandle) :
    ¬ (handle = nullHandle ∨ handle = invalidHandleValue) ∧ s.table.isValidIndex 0 = true ∧
      (s.table.table 0).isFree = false ∧ s.live (handleToIndex handle) = none := by
  have hsize := h.size
  have hmin : handleTableEntrySize = 256 := rfl
  refine ⟨?_, ?_, isFree_object (by rw [h.reserved]), hzero ▸ h.live_zero⟩
  · rintro (he | rfl)
    · exact hne he
    · exact absurd hzero (by decide)
  · simp only [isValidIndex, decide_eq_true_eq]
    omega

theorem Inv.not_destroy (h : s.Inv) (hs : ¬ s.Safe (.destroy handle)) : ¬ s.Answers (.destroy handle) := by
  simp only [Safe, not_forall] at hs
  obtain ⟨hzero, hne⟩ := hs
  obtain ⟨hguard, hvalid, hfree, hlive⟩ := h.reserved_guards hzero hne
  have hcall : (exDestroyHandle s.table handle).1 = true := by
    rw [exDestroyHandle, if_neg hguard]
    simp [hzero, hvalid, hfree]
  intro hanswers
  exact hanswers.1.1 hcall hlive

theorem Inv.not_change (h : s.Inv) {newObject : ℕ} {newAccess : BitVec 32}
    (hs : ¬ s.Safe (.change handle newObject newAccess)) :
    ¬ s.Answers (.change handle newObject newAccess) := by
  simp only [Safe, not_forall] at hs
  obtain ⟨hzero, hne⟩ := hs
  obtain ⟨hguard, hvalid, hfree, hlive⟩ := h.reserved_guards hzero hne
  have hcall : (exChangeHandle s.table handle newObject newAccess).1 = true := by
    rw [exChangeHandle, if_neg hguard]
    simp [hzero, hvalid, hfree]
  intro hanswers
  exact hanswers.1.1 hcall hlive

theorem Inv.not_safe (h : s.Inv) {op : HandleOp} (ha : Admitted op) (hs : ¬ s.Safe op) :
    ¬ (s.Answers op ∧ ∃ free, (s.step op).IsMap free) := by
  cases op with
  | create pool object access attributes => exact h.not_create ha hs
  | createAt pool handle object access attributes => exact absurd trivial hs
  | change handle newObject newAccess => exact fun hd => h.not_change hs hd.1
  | destroy handle => exact fun hd => h.not_destroy hs hd.1

/-! ### Runs -/

theorem inv_fresh (block : ℕ → HandleTableEntry) : (fresh block).Inv := by
  have husize : usizeMax = 2 ^ 64 - 1 := rfl
  have hmin : handleTableEntrySize = 256 := rfl
  have hentry : ∀ i, 0 < i → i < 256 → (exCreateHandleTable block).table i =
      ⟨encodeFreeNext (if i < 255 then i + 1 else usizeMax), 0, 0⟩ := fun i hpos hlt => by
    simp only [exCreateHandleTable, hmin]
    rw [if_neg (by omega)]
    split
    · rfl
    · rfl
  have hnext : ∀ i, 0 < i → i < 256 → (exCreateHandleTable block).nextFree i =
      if i < 255 then i + 1 else usizeMax := fun i hpos hlt => by
    rw [nextFree, hentry i hpos hlt]
    refine decodeFreeNext_encodeFreeNext ?_
    split <;> omega
  refine
    { size := Nat.le_refl 256
      limit := show 256 ≤ maxHandles by decide
      list := ⟨range' 1 255, ?_, fun i => ?_, ?_⟩
      tagged := fun i hpos hlt _ => ?_
      stored := fun i object access attributes hlive => by cases hlive
      reserved := rfl }
  · have hrow := Walk.row (walk_nil.2 rfl : Walk usizeMax (exCreateHandleTable block).nextFree usizeMax [])
      (show 0 < 255 by omega) (show 1 + 255 ≤ usizeMax by omega)
      (fun i hi hlt => by rw [hnext i (by omega) (by omega), if_pos (by omega)]) (hnext 255 (by omega) (by omega))
    rw [append_nil] at hrow
    exact hrow
  · rw [mem_range']
    show _ ↔ 0 < i ∧ i < 256 ∧ none = none
    constructor
    · rintro ⟨j, hj, rfl⟩
      exact ⟨by omega, by omega, rfl⟩
    · rintro ⟨hpos, hlt, -⟩
      exact ⟨i - 1, by omega, by omega⟩
  · rw [length_range']
    rfl
  · show ((exCreateHandleTable block).table i).isFree = true
    rw [hentry i hpos hlt]
    exact isFree_encodeFreeNext _ _ _

/-- A fresh table is a map, and every call of a run answers like a map and leaves one exactly
if every call of it is safe. -/
theorem finiteMap_iff (block : ℕ → HandleTableEntry) (ops : List HandleOp) (hops : ∀ op ∈ ops, Admitted op) :
    (∃ free, (fresh block).IsMap free) ∧
      (EveryStep HandleMap.step (fun s op => s.Answers op ∧ ∃ free, (s.step op).IsMap free) (fresh block) ops ↔
        EveryStep HandleMap.step Safe (fresh block) ops) := by
  have hinv := inv_fresh block
  refine ⟨hinv.isMap, everyStep_iff (G := fun _ op => Admitted op) (fun _ _ hi ha hs => (hi.step ha hs).2)
    (fun _ _ hi ha hs => ⟨(hi.step ha hs).1, (hi.step ha hs).2.isMap⟩) (fun _ _ hi ha hs => hi.not_safe ha hs) hinv ?_⟩
  exact everyStep_of_forall hops

def noPool : Pool := fun _ => none

def zeroBlock : ℕ → HandleTableEntry := fun _ => ⟨0, 0, 0⟩

def twoHandles : List HandleOp :=
  [.create noPool 0x1000 1 0, .create noPool 0x2000 3 1, .change 4 0x3000 7, .destroy 4, .destroy 8,
    .createAt noPool 8 0x4000 1 0]

theorem finiteMap_twoHandles : EveryStep HandleMap.step
    (fun s op => s.Answers op ∧ ∃ free, (s.step op).IsMap free) (fresh zeroBlock) twoHandles := by
  refine (finiteMap_iff zeroBlock twoHandles ?_).2.2 ?_
  · simp [twoHandles, Admitted]
  · exact ⟨fun h => absurd h (by decide), fun h => absurd h (by decide), fun h => absurd h (by decide),
      fun h => absurd h (by decide), fun h => absurd h (by decide), trivial, trivial⟩

/-- The handle 1 names the reserved entry, which a fresh table agrees to remove. -/
theorem reserved_removed : ¬ EveryStep HandleMap.step
    (fun s op => s.Answers op ∧ ∃ free, (s.step op).IsMap free) (fresh zeroBlock) [.destroy 1] := by
  rintro ⟨⟨hanswers, -⟩, -⟩
  exact hanswers.1.1 rfl rfl

end HandleMap

end XenOS.Ex
