import XenOS.Mm.PageFault
import XenOS.General.Run

/-! Protections of private pages. A commit packs the `MM_*` code of a `PAGE_*` protection into a
demand-zero entry, from which a fault makes hardware bits; `NtProtectVirtualMemory` makes its own
for a present page. -/

namespace XenOS.Mm

open General

def pageNoaccess : BitVec 32 := 0x01#32
def pageReadonly : BitVec 32 := 0x02#32
def pageReadwrite : BitVec 32 := 0x04#32
def pageWritecopy : BitVec 32 := 0x08#32
def pageExecute : BitVec 32 := 0x10#32
def pageExecuteRead : BitVec 32 := 0x20#32
def pageExecuteReadwrite : BitVec 32 := 0x40#32
def pageExecuteWritecopy : BitVec 32 := 0x80#32
def pageGuard : BitVec 32 := 0x100#32
def pageNocache : BitVec 32 := 0x200#32
def pageWritecombine : BitVec 32 := 0x400#32

def mmNocache : BitVec 32 := 0x08#32
def mmGuardpage : BitVec 32 := 0x10#32
def mmWritecombine : BitVec 32 := 0x18#32

/-- `MM_NOACCESS`: the code of no access shares its bits with write combining. -/
def mmNoaccess : BitVec 32 := BitVec.ofNat 32 mmZeroAccess ||| mmWritecombine

/-- `protect & 0xFF`: the protection without its modifiers. -/
def baseProtect (protect : BitVec 32) : BitVec 32 := protect &&& 0xFF#32

/-- `is_valid_protection`: exactly one base protection. -/
def isValidProtection (protect : BitVec 32) : Prop :=
  baseProtect protect ∈ [pageNoaccess, pageReadonly, pageReadwrite, pageWritecopy, pageExecute, pageExecuteRead,
    pageExecuteReadwrite, pageExecuteWritecopy]

instance (protect : BitVec 32) : Decidable (isValidProtection protect) := inferInstanceAs (Decidable (_ ∈ _))

/-- The `match` of `mi_convert_protection`. -/
def mmBaseProtection (base : BitVec 32) : BitVec 32 :=
  if base = pageNoaccess then mmNoaccess
  else if base = pageReadonly then BitVec.ofNat 32 mmReadonly
  else if base = pageReadwrite then BitVec.ofNat 32 mmReadwrite
  else if base = pageWritecopy then BitVec.ofNat 32 mmWritecopy
  else if base = pageExecute then BitVec.ofNat 32 mmExecute
  else if base = pageExecuteRead then BitVec.ofNat 32 mmExecuteRead
  else if base = pageExecuteReadwrite then BitVec.ofNat 32 mmExecuteReadwrite
  else if base = pageExecuteWritecopy then BitVec.ofNat 32 mmExecuteWritecopy
  else mmNoaccess

def miConvertProtection (protect : BitVec 32) : BitVec 32 :=
  let modifiers := protect &&& 0xFF00#32
  let result := mmBaseProtection (baseProtect protect)
  let result := if modifiers &&& pageGuard ≠ 0 then result ||| mmGuardpage else result
  let result := if modifiers &&& pageNocache ≠ 0 then result ||| mmNocache else result
  if modifiers &&& pageWritecombine ≠ 0 then result ||| mmWritecombine else result

def miProtectionToPteMask (mmProtect : BitVec 32) : Pte :=
  let base := (mmProtect &&& 7#32).toNat
  if base = mmZeroAccess then 0
  else
    let flags : Pte :=
      if base = mmReadonly ∨ base = mmExecute ∨ base = mmExecuteRead then pteValid else pteValid ||| pteReadwrite
    let flags := if base = mmReadonly ∨ base = mmReadwrite ∨ base = mmWritecopy then flags ||| pteNx else flags
    if mmProtect &&& mmNocache ≠ 0 then flags ||| pteDisableCache else flags

/-- What the loop of `mi_protect_virtual_memory_internal` stores over an entry. -/
def protectPte (mmProtect : BitVec 32) (pteValue : Pte) : Pte :=
  if pteValue &&& pteValid ≠ 0 then pfnBits (ptePfn pteValue) ||| miProtectionToPteMask mmProtect ||| pteValid
  else if pteValue ≠ 0 then (pteValue &&& ~~~0x3E0#64) ||| ((mmProtect.setWidth 64 &&& 0x1F#64) <<< 5)
  else pteValue

/-- What `mi_handle_copy_on_write` stores, once `mi_allocate_pfn` gave `newPfn`. -/
def copyOnWritePte (newPfn : BitVec 40) (pteValue : Pte) : Pte :=
  pfnBits newPfn.toNat ||| pteValid ||| pteReadwrite |||
    (pteValue &&& (pteUser ||| pteNx ||| pteGlobal ||| pteDisableCache))

/-- What `mi_resolve_not_present_fault` leaves in the entry; `frame` is what
`mi_allocate_pfn` gives. -/
def resolveNotPresentPte (frame : Option (BitVec 40)) (pteValue : Pte) : Pte :=
  if pteValue = 0 then pteValue
  else if pteValue &&& PteState.demandZero ≠ 0 then
    match frame with
    | some pfn => validPte pfn.toNat (softwareProtection pteValue)
    | none => pteValue
  else if pteValue &&& PteState.transition ≠ 0 then validPte (ptePfn pteValue) (softwareProtection pteValue)
  else if pteValue &&& PteState.guard ≠ 0 then miHandleGuardPageFault pteValue
  else pteValue

/-- A private page: its entry, the protection last asked for and whether by
`NtProtectVirtualMemory`, and whether it was copied. -/
structure Page where
  pte : Pte := 0
  protect : BitVec 32 := pageNoaccess
  reprotected : Bool := false
  copied : Bool := false
  deriving DecidableEq, Repr

namespace Page

/-- One page of `mi_commit_pages`. -/
def commit (protect : BitVec 32) (_page : Page) : Page where
  pte := miMakeDemandZeroPte (miConvertProtection protect)
  protect := protect

/-- One page of `mi_protect_virtual_memory_internal`. -/
def reprotect (newProtect : BitVec 32) (page : Page) : Page :=
  { page with pte := protectPte (miConvertProtection newProtect) page.pte, protect := newProtect, reprotected := true }

/-- An access that does not go through reaches `MmAccessFault`; `committed` is the
answer of `mi_check_vad_for_fault`. -/
def access (isWrite committed : Bool) (frame : Option (BitVec 40)) (page : Page) : Page :=
  if page.pte &&& pteValid ≠ 0 then
    if isWrite ∧ page.pte &&& pteWritecopy ≠ 0 then
      match frame with
      | some newPfn => { page with pte := copyOnWritePte newPfn page.pte, copied := true }
      | none => page
    else page
  else if committed then { page with pte := resolveNotPresentPte frame page.pte }
  else page

end Page

abbrev PrivatePages := ℕ → Page

def pageAlign (address : ℕ) : ℕ := address / pageSize * pageSize

def pageAlignUp (address : ℕ) : ℕ := (address + (pageSize - 1)) / pageSize * pageSize

/-- The addresses `start_va + i * PAGE_SIZE` of a loop over pages. -/
def pageAddresses (startVa pageCount : ℕ) : List ℕ := (List.range pageCount).map fun i => startVa + i * pageSize

def forPages (f : Page → Page) (entries : List ℕ) (s : PrivatePages) : PrivatePages :=
  entries.foldl (fun s e => Function.update s e (f (s e))) s

/-- `mi_commit_pages`. A page whose page tables cannot be made is skipped. -/
def miCommitPages (startVa pageCount : ℕ) (protect : BitVec 32) (hierarchy : ℕ → Bool) (s : PrivatePages) :
    PrivatePages :=
  forPages (Page.commit protect) (((pageAddresses startVa pageCount).filter hierarchy).map mmGetPteAddress) s

/-- The entries that `NtProtectVirtualMemory` goes through. -/
def protectedEntries (requestedBase requestedSize : ℕ) : List ℕ :=
  let startVa := pageAlign requestedBase
  let endVa := pageAlignUp (requestedBase + requestedSize)
  (pageAddresses startVa ((endVa - startVa) / pageSize)).map mmGetPteAddress

/-- Calls and accesses. What the address space (the VADs, the commit limit) answers
is left open: `admitted` calls get past it. -/
inductive ProtectionOp where
  | allocate (startVa pageCount : ℕ) (protect : BitVec 32) (hierarchy : ℕ → Bool) (admitted : Bool)
  | protect (requestedBase requestedSize : ℕ) (newProtect : BitVec 32) (admitted : Bool)
  | access (va : ℕ) (isWrite committed : Bool) (frame : Option (BitVec 40))

namespace ProtectionOp

/-- A call gets past the checks before the page loop. -/
def Reaches : ProtectionOp → Prop
  | .allocate _ _ newProtect _ admitted => isValidProtection newProtect ∧ admitted
  | .protect _ requestedSize newProtect admitted =>
    requestedSize ≠ 0 ∧ isValidProtection newProtect ∧ admitted
  | .access .. => True

instance (op : ProtectionOp) : Decidable op.Reaches := by
  cases op <;> unfold Reaches <;> infer_instance

end ProtectionOp

namespace PrivatePages

def step (s : PrivatePages) (op : ProtectionOp) : PrivatePages :=
  if op.Reaches then
    match op with
    | .allocate startVa pageCount protect hierarchy _ => miCommitPages startVa pageCount protect hierarchy s
    | .protect requestedBase requestedSize newProtect _ =>
      forPages (Page.reprotect newProtect) (protectedEntries requestedBase requestedSize) s
    | .access va isWrite committed frame =>
      forPages (Page.access isWrite committed frame) [mmGetPteAddress va] s
  else s

end PrivatePages

end XenOS.Mm
