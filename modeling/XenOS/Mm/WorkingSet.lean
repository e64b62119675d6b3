import XenOS.General.Run
import XenOS.Mm.PageFault

/-! The working set list of a process. An entry is the address and flags of a page in use, or the
index of the next free entry; nothing in it tells the two apart. -/

namespace XenOS.Mm

open General

def mmMinimumWorkingSetDefault : ℕ := 50
def mmMaxTrimPages : ℕ := 64

/-- `u32::MAX`, the end of the free chain. -/
def u32Max : ℕ := 2 ^ 32 - 1

abbrev Mmwsle := BitVec 64

def wsleValid : Mmwsle := 1#64 <<< 0
def wsleLocked : Mmwsle := 1#64 <<< 1

namespace Mmwsle

def virtualAddress (e : Mmwsle) : BitVec 64 := e &&& ~~~0xFFF#64

/-- The flag bits stay as they are. -/
def setVirtualAddress (e : Mmwsle) (va : BitVec 64) : Mmwsle := (va &&& ~~~0xFFF#64) ||| (e &&& 0xFFF#64)

def flags (e : Mmwsle) : BitVec 64 := e &&& 0xFFF#64

def isActive (e : Mmwsle) : Bool := e &&& wsleValid ≠ 0

def setValid (e : Mmwsle) (valid : Bool) : Mmwsle := if valid then e ||| wsleValid else e &&& ~~~wsleValid

/-- `next_free_index as u32`. -/
def nextFree (e : Mmwsle) : ℕ := e.toNat % 2 ^ 32

/-- Store an index in `next_free_index`: the whole word. -/
def ofIndex (i : ℕ) : Mmwsle := BitVec.ofNat 64 i

end Mmwsle

/-- `MMWSL`. Only the first `wsleSize` words of `wsle` are entries. -/
structure Mmwsl where
  firstFree : ℕ
  lastInitializedWsle : ℕ
  wsleCount : ℕ
  wsle : ℕ → Mmwsle
  wsleSize : ℕ

/-- `MMSUPPORT`, without the fields the list operations do not use. -/
structure Mmsupport where
  vmWorkingSetList : Option Mmwsl := none
  initialized : Bool := false
  workingSetSize : ℕ := 0
  peakWorkingSetSize : ℕ := 0
  minimumWorkingSetSize : ℕ := mmMinimumWorkingSetDefault
  maximumWorkingSetSize : ℕ := 345
  trimCount : ℕ := 0

/-- Entries `start` up to `size` chained by index; the last one holds `last`. -/
def chainFree (wsle : ℕ → Mmwsle) (start size last : ℕ) (i : ℕ) : Mmwsle :=
  if start ≤ i ∧ i < size then Mmwsle.ofIndex (if i + 1 = size then last else i + 1) else wsle i

/-- `mi_initialize_working_set`. The pool gives the list and the array or not;
`pool` is what the new array held. -/
def miInitializeWorkingSet (mmsupport : Option Mmsupport) (minWs maxWs : ℕ) (wslAllocated wsleAllocated : Bool)
    (pool : ℕ → Mmwsle) : Ntstatus × Option Mmsupport :=
  match mmsupport with
  | none => (.invalidParameter, none)
  | some m =>
    let m :=
      { m with
        minimumWorkingSetSize := max minWs mmMinimumWorkingSetDefault
        maximumWorkingSetSize := max maxWs minWs }
    if !wslAllocated then (.noMemory, some m) else
    let initialWsleCount := minWs * 2 % 2 ^ 64
    if !wsleAllocated then (.noMemory, some m) else
    let wsl : Mmwsl :=
      { firstFree := 0
        lastInitializedWsle := (initialWsleCount % 2 ^ 32 + (2 ^ 32 - 1)) % 2 ^ 32
        wsleCount := 0
        wsle := chainFree pool 0 initialWsleCount (2 ^ 64 - 1)
        wsleSize := initialWsleCount }
    (.success, some { m with vmWorkingSetList := some wsl, initialized := true })

def miExpandWorkingSetList (wsl : Mmwsl) (allocated : Bool) (pool : ℕ → Mmwsle) : Option Mmwsl :=
  if !allocated then none else
  let newSize := wsl.wsleSize * 2
  let copied := fun i => if i < wsl.wsleSize then wsl.wsle i else pool i
  some
    { wsl with
      wsle := chainFree copied wsl.wsleSize newSize wsl.firstFree
      firstFree := wsl.wsleSize % 2 ^ 32
      wsleSize := newSize
      lastInitializedWsle := (newSize % 2 ^ 32 + (2 ^ 32 - 1)) % 2 ^ 32 }

/-- The list with a slot at `firstFree`: grown if the chain is at its end. -/
def Mmwsl.withFreeSlot (wsl : Mmwsl) (allocated : Bool) (pool : ℕ → Mmwsle) : Option Mmwsl :=
  if wsl.firstFree = u32Max then miExpandWorkingSetList wsl allocated pool else some wsl

/-- Take the slot at `firstFree` for an address. -/
def Mmwsl.take (wsl : Mmwsl) (va : BitVec 64) : Mmwsl :=
  let index := wsl.firstFree
  let entry := wsl.wsle index
  { wsl with
    firstFree := entry.nextFree
    wsle := Function.update wsl.wsle index ((entry.setVirtualAddress va).setValid true)
    wsleCount := (wsl.wsleCount + 1) % 2 ^ 32 }

/-- Give slot `i` back to the free chain. The count wraps, as without overflow checks. -/
def Mmwsl.giveBack (wsl : Mmwsl) (i : ℕ) : Mmwsl :=
  { wsl with
    wsle := Function.update wsl.wsle i (Mmwsle.ofIndex wsl.firstFree)
    firstFree := i % 2 ^ 32
    wsleCount := (wsl.wsleCount + (2 ^ 32 - 1)) % 2 ^ 32 }

def miAddPageToWorkingSet (m : Mmsupport) (va : BitVec 64) (allocated : Bool) (pool : ℕ → Mmwsle) :
    Bool × Mmsupport :=
  match m.vmWorkingSetList.bind (·.withFreeSlot allocated pool) with
  | none => (false, m)
  | some wsl =>
    let current := fetchAdd m.workingSetSize 1
    (true,
      { m with
        vmWorkingSetList := some (wsl.take va)
        workingSetSize := current
        peakWorkingSetSize := max current m.peakWorkingSetSize })

/-- The first active entry with the address. -/
def Mmwsl.find (wsl : Mmwsl) (va : BitVec 64) : Option ℕ :=
  (List.range wsl.wsleSize).find? fun i =>
    (wsl.wsle i).isActive && (wsl.wsle i).virtualAddress == va &&& ~~~0xFFF#64

def miRemovePageFromWorkingSet (m : Mmsupport) (va : BitVec 64) : Bool × Mmsupport :=
  match m.vmWorkingSetList with
  | none => (false, m)
  | some wsl =>
    match wsl.find va with
    | none => (false, m)
    | some i =>
      (true,
        { m with
          vmWorkingSetList := some (wsl.giveBack i)
          workingSetSize := fetchSub m.workingSetSize 1 })

structure TrimLoop where
  wsl : Mmwsl
  ptes : ℕ → Pte
  db : PfnState
  trimmed : ℕ := 0
  givenBack : List ℕ := []

/-- One turn of the loop of `mi_trim_working_set`. -/
def TrimLoop.turn (maxTrim : ℕ) (t : TrimLoop) (i : ℕ) : TrimLoop :=
  if maxTrim ≤ t.trimmed then t else
  let entry := t.wsl.wsle i
  if !entry.isActive then t else
  if entry.flags &&& wsleLocked ≠ 0 then t else
  let address := mmGetPteAddress entry.virtualAddress.toNat
  let pteValue := t.ptes address
  if pteValue &&& pteValid = 0 then { t with wsl := t.wsl.giveBack i, givenBack := i :: t.givenBack }
  else
    let r := miTrimPage t.db pteValue
    { wsl := t.wsl.giveBack i
      ptes := Function.update t.ptes address r.1
      db := r.2
      trimmed := t.trimmed + 1
      givenBack := i :: t.givenBack }

/-- The loop of `mi_trim_working_set`. -/
def trimLoop (wsl : Mmwsl) (ptes : ℕ → Pte) (db : PfnState) (pagesToTrim : ℕ) : TrimLoop :=
  (List.range wsl.wsleSize).foldl (TrimLoop.turn (min pagesToTrim mmMaxTrimPages)) { wsl, ptes, db }

/-- `mi_trim_working_set`: the number of trimmed pages and the new states. -/
def miTrimWorkingSet (m : Mmsupport) (ptes : ℕ → Pte) (db : PfnState) (pagesToTrim : ℕ) :
    ℕ × Mmsupport × (ℕ → Pte) × PfnState :=
  match m.vmWorkingSetList with
  | none => (0, m, ptes, db)
  | some wsl =>
    let t := trimLoop wsl ptes db pagesToTrim
    (t.trimmed,
      { m with
        vmWorkingSetList := some t.wsl
        workingSetSize := fetchSub m.workingSetSize t.trimmed
        trimCount := (m.trimCount + t.trimmed) % 2 ^ 32 },
      t.ptes, t.db)

end XenOS.Mm
