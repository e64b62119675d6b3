import XenOS.Mm.Pte

/-! The page frame database: one `Mmpfn` per physical page, five page lists threaded through their
links, and the operations that move pages. Every operation runs under `MM_PFN_LOCK` and is one step.
-/

namespace XenOS.Mm

/-- `MMLISTS`: where a page is, as its `page_location` records it. -/
inductive MmLists where
  | zeroedPageList | freePageList | standbyPageList | modifiedPageList | modifiedNoWritePageList
  | badPageList | activeAndValid | transitionPage
  deriving DecidableEq, Repr

inductive PageList where
  | zeroed | free | standby | modified | bad
  deriving DecidableEq, Repr

/-- The `list_name` of a head. -/
def PageList.name : PageList → MmLists
  | .zeroed => .zeroedPageList
  | .free => .freePageList
  | .standby => .standbyPageList
  | .modified => .modifiedPageList
  | .bad => .badPageList

theorem PageList.name_injective : Function.Injective PageList.name := by
  intro L L' h
  cases L <;> cases L' <;> simp_all [PageList.name]

theorem PageList.active_ne_name (L : PageList) : MmLists.activeAndValid ≠ L.name := by
  cases L <;> simp [PageList.name]

/-- `LIST_HEAD`: the sentinel of the links. -/
def listHead : ℕ := usizeMax

structure MmpfnList where
  total : ℕ := 0
  flink : ℕ := listHead
  blink : ℕ := listHead
  deriving DecidableEq, Repr

namespace PfnFlags

def writeInProgress : BitVec 8 := 0x01#8
def modified : BitVec 8 := 0x04#8

end PfnFlags

/-- `MMPFN`; its default is `MMPFN::new()`. -/
structure Mmpfn where
  flink : ℕ := listHead
  blink : ℕ := listHead
  pteAddress : ℕ := 0
  referenceCount : ℕ := 0
  flags : BitVec 8 := 0
  pageLocation : MmLists := .freePageList
  originalPte : Pte := 0
  shareCount : ℕ := 0
  deriving DecidableEq, Repr

def Mmpfn.setFlag (e : Mmpfn) (flag : BitVec 8) : Mmpfn := { e with flags := e.flags ||| flag }

def Mmpfn.clearFlag (e : Mmpfn) (flag : BitVec 8) : Mmpfn := { e with flags := e.flags &&& ~~~flag }

/-- `reference_count.saturating_add(1)`, sixteen bits wide. -/
def Mmpfn.addReference (e : Mmpfn) : Mmpfn := { e with referenceCount := min (e.referenceCount + 1) 0xFFFF }

/-- `reference_count.saturating_sub(1)`. -/
def Mmpfn.dropReference (e : Mmpfn) : Mmpfn := { e with referenceCount := e.referenceCount - 1 }

/-- The database by page frame number, of which those from `startPfn` to `endPfn` exist, the list
heads and the counters. -/
structure PfnState where
  startPfn : ℕ
  endPfn : ℕ
  entries : ℕ → Mmpfn
  heads : PageList → MmpfnList
  availablePages : ℕ
  modifiedPageCount : ℕ
  standbyPageCount : ℕ

namespace PfnState

variable (σ : PfnState)

def isValidPfn (pfn : ℕ) : Prop := σ.startPfn ≤ pfn ∧ pfn < σ.endPfn

instance (pfn : ℕ) : Decidable (σ.isValidPfn pfn) := inferInstanceAs (Decidable (_ ∧ _))

def getPfnEntry (pfn : ℕ) : Option Mmpfn := if σ.isValidPfn pfn then some (σ.entries pfn) else none

/-- `if let Some(entry) = get_pfn_entry_mut(pfn) { .. }`. -/
def modifyEntry (pfn : ℕ) (f : Mmpfn → Mmpfn) : PfnState :=
  if σ.isValidPfn pfn then { σ with entries := Function.update σ.entries pfn (f (σ.entries pfn)) } else σ

def modifyHead (L : PageList) (f : MmpfnList → MmpfnList) : PfnState :=
  { σ with heads := Function.update σ.heads L (f (σ.heads L)) }

/-- Store a `blink`: in the neighbour's entry, or in the head when there is none. -/
def setBlink (list : PageList) (neighbour value : ℕ) : PfnState :=
  if neighbour ≠ listHead then σ.modifyEntry neighbour fun e => { e with blink := value }
  else σ.modifyHead list fun h => { h with blink := value }

/-- Store a `flink`: in the neighbour's entry, or in the head when there is none. -/
def setFlink (list : PageList) (neighbour value : ℕ) : PfnState :=
  if neighbour ≠ listHead then σ.modifyEntry neighbour fun e => { e with flink := value }
  else σ.modifyHead list fun h => { h with flink := value }

/-- The database after `PfnDatabase::init`, with empty lists. -/
def init (startPfn endPfn : ℕ) : PfnState where
  startPfn := startPfn
  endPfn := endPfn
  entries _ := {}
  heads _ := {}
  availablePages := 0
  modifiedPageCount := 0
  standbyPageCount := 0

end PfnState

def PageList.available (L : PageList) : Bool := L = .free ∨ L = .zeroed

/-- `mi_insert_page_in_list`: at the head of the list. -/
def miInsertPageInList (σ : PfnState) (list : PageList) (pfn : ℕ) : PfnState :=
  if ¬ σ.isValidPfn pfn then σ else
  let oldHead := (σ.heads list).flink
  let σ := σ.modifyEntry pfn fun e =>
    { e with flink := oldHead, blink := listHead, pageLocation := list.name }
  let σ := σ.setBlink list oldHead pfn
  let σ := σ.modifyHead list fun h => { h with flink := pfn, total := fetchAdd h.total 1 }
  { σ with availablePages := if list.available then fetchAdd σ.availablePages 1 else σ.availablePages }

/-- `mi_remove_page_from_list`: unlinks by the links of the entry, whatever list
they belong to, and leaves `page_location` to the caller. -/
def miRemovePageFromList (σ : PfnState) (list : PageList) (pfn : ℕ) : PfnState :=
  if ¬ σ.isValidPfn pfn then σ else
  let oldFlink := (σ.entries pfn).flink
  let oldBlink := (σ.entries pfn).blink
  let σ := σ.setBlink list oldFlink oldBlink
  let σ := σ.setFlink list oldBlink oldFlink
  let σ := σ.modifyEntry pfn fun e => { e with flink := listHead, blink := listHead }
  let σ := σ.modifyHead list fun h => { h with total := fetchSub h.total 1 }
  { σ with availablePages := if list.available then fetchSub σ.availablePages 1 else σ.availablePages }

def miRemoveAnyPage (σ : PfnState) (list : PageList) : Option (ℕ × PfnState) :=
  let head := (σ.heads list).flink
  if head = listHead then none else some (head, miRemovePageFromList σ list head)

/-- The tail shared by the zeroed and the free branch of `mi_allocate_pfn`. -/
def PfnState.activate (σ : PfnState) (pfn : ℕ) : PfnState :=
  σ.modifyEntry pfn fun e => { e with pageLocation := .activeAndValid, referenceCount := 1 }

/-- `mi_allocate_pfn`. Clearing the page touches no modelled state. -/
def miAllocatePfn (σ : PfnState) : Option (ℕ × PfnState) :=
  match miRemoveAnyPage σ .zeroed with
  | some (pfn, σ) => some (pfn, σ.activate pfn)
  | none =>
    match miRemoveAnyPage σ .free with
    | some (pfn, σ) => some (pfn, σ.activate pfn)
    | none => none

def miFreePfn (σ : PfnState) (pfn : ℕ) : PfnState :=
  let σ := σ.modifyEntry pfn fun e => { e with referenceCount := 0, shareCount := 0, pteAddress := 0 }
  miInsertPageInList σ .free pfn

def miInsertPageInStandbyList (σ : PfnState) (pfn : ℕ) : PfnState :=
  let σ := σ.modifyEntry pfn fun e =>
    { e with pageLocation := .standbyPageList }.clearFlag PfnFlags.modified
  let σ := miInsertPageInList σ .standby pfn
  { σ with standbyPageCount := fetchAdd σ.standbyPageCount 1 }

def miInsertPageInModifiedList (σ : PfnState) (pfn : ℕ) : PfnState :=
  let σ := σ.modifyEntry pfn fun e =>
    { e with pageLocation := .modifiedPageList }.setFlag PfnFlags.modified
  let σ := miInsertPageInList σ .modified pfn
  { σ with modifiedPageCount := fetchAdd σ.modifiedPageCount 1 }

def miRemovePageFromStandbyList (σ : PfnState) (pfn : ℕ) : PfnState :=
  let σ := miRemovePageFromList σ .standby pfn
  { σ with standbyPageCount := fetchSub σ.standbyPageCount 1 }

def miRemovePageFromModifiedList (σ : PfnState) (pfn : ℕ) : PfnState :=
  let σ := miRemovePageFromList σ .modified pfn
  { σ with modifiedPageCount := fetchSub σ.modifiedPageCount 1 }

/-- `mi_unlink_page_from_list`: the list is the one `page_location` names. -/
def miUnlinkPageFromList (σ : PfnState) (pfn : ℕ) : PfnState :=
  match σ.getPfnEntry pfn with
  | none => σ
  | some entry =>
    match entry.pageLocation with
    | .zeroedPageList => miRemovePageFromList σ .zeroed pfn
    | .freePageList => miRemovePageFromList σ .free pfn
    | .standbyPageList =>
      miRemovePageFromList { σ with standbyPageCount := fetchSub σ.standbyPageCount 1 } .standby pfn
    | .modifiedPageList =>
      miRemovePageFromList { σ with modifiedPageCount := fetchSub σ.modifiedPageCount 1 } .modified pfn
    | .badPageList => miRemovePageFromList σ .bad pfn
    | _ => σ

/-- `mi_repurpose_standby_page`, with the address of the entry to clear, if a former owner is
recorded. -/
def miRepurposeStandbyPage (σ : PfnState) : Option (ℕ × PfnState × Option ℕ) :=
  match miRemoveAnyPage σ .standby with
  | none => none
  | some (pfn, σ) =>
    let σ := { σ with standbyPageCount := fetchSub σ.standbyPageCount 1 }
    let clear :=
      match σ.getPfnEntry pfn with
      | some entry => if entry.pteAddress ≠ 0 then some entry.pteAddress else none
      | none => none
    let σ := σ.modifyEntry pfn fun e =>
      { e with pageLocation := .activeAndValid, referenceCount := 1, pteAddress := 0, originalPte := 0 }
    some (pfn, σ, clear)

/-- `mi_allocate_pfn_ex`: zeroed, then free, then a repurposed standby page. -/
def miAllocatePfnEx (σ : PfnState) : Option (ℕ × PfnState × Option ℕ) :=
  match miRemoveAnyPage σ .zeroed with
  | some (pfn, σ) => some (pfn, σ.activate pfn, none)
  | none =>
    match miRemoveAnyPage σ .free with
    | some (pfn, σ) => some (pfn, σ.activate pfn, none)
    | none => miRepurposeStandbyPage σ

/-- `mi_get_modified_page_for_write`: the head of the modified list, left linked,
with the original contents and the address of its entry. -/
def miGetModifiedPageForWrite (σ : PfnState) : Option ((ℕ × Pte × ℕ) × PfnState) :=
  let pfn := (σ.heads .modified).flink
  if pfn = listHead then none else
  match σ.getPfnEntry pfn with
  | none => none
  | some entry =>
    some ((pfn, entry.originalPte, entry.pteAddress),
      σ.modifyEntry pfn fun e => e.setFlag PfnFlags.writeInProgress)

def miCompleteModifiedPageWrite (σ : PfnState) (pfn : ℕ) (success : Bool) : PfnState :=
  let σ := miRemovePageFromModifiedList σ pfn
  let σ := σ.modifyEntry pfn fun e =>
    (e.clearFlag PfnFlags.writeInProgress).clearFlag PfnFlags.modified
  if success then miInsertPageInStandbyList σ pfn else miInsertPageInModifiedList σ pfn

def miMakeTransitionPage (σ : PfnState) (pfn : ℕ) (isDirty : Bool) : PfnState :=
  if isDirty then miInsertPageInModifiedList σ pfn else miInsertPageInStandbyList σ pfn

def miResolveTransitionPage (σ : PfnState) (pfn : ℕ) : PfnState :=
  (miUnlinkPageFromList σ pfn).modifyEntry pfn fun e =>
    { e with pageLocation := .activeAndValid }.addReference

def Mmpfn.pin (e : Mmpfn) : Mmpfn :=
  let e := e.addReference
  if e.pageLocation = .standbyPageList ∨ e.pageLocation = .modifiedPageList then
    { e with pageLocation := .activeAndValid }
  else e

/-- `mi_pin_pfn`: a standby or modified page becomes active without leaving its list. -/
def miPinPfn (σ : PfnState) (pfn : ℕ) : PfnState := σ.modifyEntry pfn Mmpfn.pin

def miUnpinPfn (σ : PfnState) (pfn : ℕ) : PfnState := σ.modifyEntry pfn Mmpfn.dropReference

end XenOS.Mm
