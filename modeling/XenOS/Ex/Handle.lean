import Mathlib.Algebra.Group.Nat.Defs
import Mathlib.Tactic.Common

/-! Handle tables of the executive (`ex/handle.rs`): an array with a free list threaded through it.
A free entry has bit 0 of its `object` word set and the next free index above it. Index 0 is neither
free nor used. At `usize::MAX` the array gives the memory before it. -/

namespace XenOS.Ex

def usizeMax : ℕ := 2 ^ 64 - 1

def invalidHandleValue : ℕ := usizeMax

def nullHandle : ℕ := 0

def handleTableEntrySize : ℕ := 256

def maxHandles : ℕ := 16 * 1024 * 1024

def encodeFreeNext (next : ℕ) : ℕ :=
  if next = usizeMax then usizeMax else next * 8 % 2 ^ 64 + 1

def decodeFreeNext (encoded : ℕ) : ℕ :=
  if encoded = usizeMax then usizeMax else encoded / 8

structure HandleTableEntry where
  object : ℕ
  grantedAccess : BitVec 32
  handleAttributes : BitVec 32
  deriving DecidableEq

namespace HandleTableEntry

def isFree (e : HandleTableEntry) : Bool := e.object % 2 = 1

def getObject (e : HandleTableEntry) : ℕ :=
  if e.isFree then 0 else e.object - e.object % 8

def getNextFreeIndex (e : HandleTableEntry) : ℕ := decodeFreeNext e.object

end HandleTableEntry

structure HandleTable where
  table : ℕ → HandleTableEntry
  tableSize : ℕ
  firstFreeIndex : ℕ
  handleCount : BitVec 32

namespace HandleTable

def isValidIndex (t : HandleTable) (index : ℕ) : Bool := index < t.tableSize

def setEntry (t : HandleTable) (index : ℕ) (e : HandleTableEntry) : HandleTable :=
  { t with table := Function.update t.table index e }

end HandleTable

def handleToIndex (handle : ℕ) : ℕ := handle / 4

def indexToHandle (index : ℕ) : ℕ := index * 4 % 2 ^ 64

/-- What the pool answers to a request for so many entries: a block with its old contents, or nothing. -/
abbrev Pool := ℕ → Option (ℕ → HandleTableEntry)

/-- Double the array. The new entries go to the front of the free list. -/
def expGrowHandleTable (pool : Pool) (t : HandleTable) : Option HandleTable :=
  if maxHandles ≤ t.tableSize then none
  else
    let newSize := min (t.tableSize * 2) maxHandles
    match pool newSize with
    | none => none
    | some block =>
      some
        { t with
          table := fun i =>
            if i < t.tableSize then t.table i
            else if i < newSize then
              ⟨encodeFreeNext (if i < newSize - 1 then i + 1 else t.firstFreeIndex), 0, 0⟩
            else block i
          tableSize := newSize
          firstFreeIndex := t.tableSize }

def exCreateHandleTable (block : ℕ → HandleTableEntry) : HandleTable :=
  { table := fun i =>
      if i = 0 then ⟨0, 0, 0⟩
      else if i < handleTableEntrySize - 1 then ⟨encodeFreeNext (i + 1), 0, 0⟩
      else if i < handleTableEntrySize then ⟨encodeFreeNext usizeMax, 0, 0⟩
      else block i
    tableSize := handleTableEntrySize
    firstFreeIndex := 1
    handleCount := 0 }

/-- `free_index` is read before the growth and used after it. -/
def exCreateHandleEx (pool : Pool) (t : HandleTable) (object : ℕ) (access handleAttributes : BitVec 32) :
    ℕ × HandleTable :=
  if object = 0 then (invalidHandleValue, t)
  else
    let freeIndex := t.firstFreeIndex
    match if freeIndex = usizeMax ∨ t.tableSize ≤ freeIndex then expGrowHandleTable pool t else some t with
    | none => (invalidHandleValue, t)
    | some t =>
      let entry := t.table freeIndex
      if entry.isFree then
        (indexToHandle freeIndex,
          { t.setEntry freeIndex ⟨object, access, handleAttributes⟩ with
            firstFreeIndex := entry.getNextFreeIndex
            handleCount := t.handleCount + 1 })
      else (invalidHandleValue, t)

def exDestroyHandle (t : HandleTable) (handle : ℕ) : Bool × HandleTable :=
  if handle = nullHandle ∨ handle = invalidHandleValue then (false, t)
  else
    let index := handleToIndex handle
    if !t.isValidIndex index then (false, t)
    else if (t.table index).isFree then (false, t)
    else
      (true,
        { t.setEntry index ⟨encodeFreeNext t.firstFreeIndex, 0, 0⟩ with
          firstFreeIndex := index
          handleCount := t.handleCount - 1 })

def exMapHandleToPointer (t : HandleTable) (handle : ℕ) : ℕ :=
  if handle = nullHandle ∨ handle = invalidHandleValue then 0
  else if !t.isValidIndex (handleToIndex handle) then 0
  else (t.table (handleToIndex handle)).getObject

def exMapHandleToPointerEx (t : HandleTable) (handle : ℕ) : Option (ℕ × BitVec 32) :=
  if handle = nullHandle ∨ handle = invalidHandleValue then none
  else if !t.isValidIndex (handleToIndex handle) then none
  else
    let entry := t.table (handleToIndex handle)
    if entry.getObject = 0 then none else some (entry.getObject, entry.grantedAccess)

def exMapHandleToPointerFull (t : HandleTable) (handle : ℕ) : Option (ℕ × BitVec 32 × BitVec 32) :=
  if handle = nullHandle ∨ handle = invalidHandleValue then none
  else if !t.isValidIndex (handleToIndex handle) then none
  else
    let entry := t.table (handleToIndex handle)
    if entry.getObject = 0 then none else some (entry.getObject, entry.grantedAccess, entry.handleAttributes)

def growToIndex (pool : Pool) (index : ℕ) : ℕ → HandleTable → Option (Bool × HandleTable)
  | 0, _ => none
  | fuel + 1, t =>
    if t.isValidIndex index then some (true, t)
    else
      match expGrowHandleTable pool t with
      | none => some (false, t)
      | some t => growToIndex pool index fuel t

def findFree (t : HandleTable) (index : ℕ) : ℕ → Option ℕ → ℕ → Option (Option ℕ × ℕ)
  | 0, _, _ => none
  | fuel + 1, prev, cur =>
    if cur = usizeMax ∨ cur = index then some (prev, cur)
    else findFree t index fuel (some cur) (t.table cur).getNextFreeIndex

/-- Link the entry before `index` to the one after it. -/
def unlinkFree (t : HandleTable) (prev : Option ℕ) (index : ℕ) : HandleTable :=
  let nextFree := (t.table index).getNextFreeIndex
  match prev with
  | none => { t with firstFreeIndex := nextFree }
  | some p => t.setEntry p { t.table p with object := encodeFreeNext nextFree }

def exCreateHandleAt (pool : Pool) (t : HandleTable) (handle object : ℕ) (access handleAttributes : BitVec 32) :
    Option (Bool × HandleTable) :=
  if object = 0 ∨ handle = nullHandle ∨ handle = invalidHandleValue then some (false, t)
  else
    let index := handleToIndex handle
    match growToIndex pool index (maxHandles + 1) t with
    | none => none
    | some (false, t) => some (false, t)
    | some (true, t) =>
      match findFree t index (t.tableSize + 1) none t.firstFreeIndex with
      | none => none
      | some (prev, cur) =>
        if cur ≠ index then some (false, t)
        else
          some (true,
            { (unlinkFree t prev index).setEntry index ⟨object, access, handleAttributes⟩ with
              handleCount := t.handleCount + 1 })

def exChangeHandle (t : HandleTable) (handle newObject : ℕ) (newAccess : BitVec 32) : Bool × HandleTable :=
  if handle = nullHandle ∨ handle = invalidHandleValue then (false, t)
  else
    let index := handleToIndex handle
    if !t.isValidIndex index then (false, t)
    else if (t.table index).isFree then (false, t)
    else (true, t.setEntry index { t.table index with object := newObject, grantedAccess := newAccess })

end XenOS.Ex
