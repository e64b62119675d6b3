import XenOS.General.TreeWalk
import XenOS.Mm.Commit
import XenOS.Mm.VadRuns

/-! Queries on the tree of virtual address descriptors. The walks keep their path on a stack of 64
entries; each answers a full stack in its own way. -/

namespace XenOS.Mm

open General

namespace MmAvlTable

def traversalStack : ℕ := 64

/-- `MMVAD_SHORT::start_address`; the shift drops what does not fit. -/
def startAddress (t : MmAvlTable) (vad : ℕ) : ℕ := t.startingVpn vad * pageSize % 2 ^ 64

def walkUp {ρ σ : Type} (t : MmAvlTable) (full : Option ρ) (visit : σ → ℕ → Except ρ σ) (s : σ) : Option (Except ρ σ) :=
  walk 0 t.tree.leftChild t.tree.rightChild traversalStack full visit (t.nodeCount + 1) [] t.tree.root s

def walkDown {ρ σ : Type} (t : MmAvlTable) (full : Option ρ) (visit : σ → ℕ → Except ρ σ) (s : σ) :
    Option (Except ρ σ) :=
  walk 0 t.tree.rightChild t.tree.leftChild traversalStack full visit (t.nodeCount + 1) [] t.tree.root s

/-- `mi_find_vad`, by address. -/
def findVad (t : MmAvlTable) (va : ℕ) : Option ℕ := t.miFindVad (va / pageSize)

def miFindVadForRange (t : MmAvlTable) (startVpn endVpn : ℕ) : Option ℕ := do
  let vad ← t.findVad (startVpn * pageSize % 2 ^ 64)
  if vad = 0 then return 0
  else if t.startingVpn vad ≤ startVpn ∧ endVpn ≤ t.endingVpn vad then return vad
  else return 0

/-- One node of the walk of `mi_check_vad_conflict`. -/
def conflictAt (t : MmAvlTable) (startVpn endVpn : ℕ) (_ : Unit) (current : ℕ) : Except Bool Unit :=
  if t.startingVpn current ≤ endVpn ∧ startVpn ≤ t.endingVpn current then .error true
  else if endVpn < t.startingVpn current then .error false
  else .ok ()

/-- `mi_check_vad_conflict`; a full stack counts as no conflict. -/
def miCheckVadConflict (t : MmAvlTable) (startVpn endVpn : ℕ) : Option Bool :=
  if t.tree.root = 0 then some false
  else do
    let first ← t.findVad (startVpn * pageSize % 2 ^ 64)
    if first ≠ 0 then return true
    let last ← t.findVad (endVpn * pageSize % 2 ^ 64)
    if last ≠ 0 then return true
    match ← t.walkUp (some false) (t.conflictAt startVpn endVpn) () with
    | .error conflict => return conflict
    | .ok () => return false

/-- One node of the walk of `mi_find_next_vad_start`. -/
def nextStartAt (t : MmAvlTable) (vpn bestStart : ℕ) (node : ℕ) : Except ℕ ℕ :=
  if vpn < t.startingVpn node then
    .error (if t.startAddress node < bestStart then t.startAddress node else bestStart)
  else .ok bestStart

/-- `mi_find_next_vad_start`; a full stack is popped and the walk goes on. -/
def miFindNextVadStart (t : MmAvlTable) (address : ℕ) : Option ℕ :=
  if t.tree.root = 0 then some (mmHighestUserAddress + 1)
  else do
    match ← t.walkUp none (t.nextStartAt (address / pageSize)) (mmHighestUserAddress + 1) with
    | .error bestStart => return bestStart
    | .ok bestStart => return bestStart

/-! ### Free ranges

Where a sum or a difference overflows the kernel stops, and the result is `none`. -/

/-- `x & !(align - 1)`, for a positive alignment. -/
def maskDown (x align : ℕ) : ℕ := x &&& (2 ^ 64 - align)

/-- `(x + align - 1) & !(align - 1)`. -/
def maskUp (x align : ℕ) : Option ℕ :=
  if align = 0 ∨ 2 ^ 64 ≤ x + align then none else some (maskDown (x + align - 1) align)

/-- One node of `mi_find_gap_bottom_up`; the state is the first page after the last region. -/
def gapBefore (t : MmAvlTable) (pagesNeeded alignPages currentVpn node : ℕ) : Except (Option ℕ) ℕ :=
  match maskUp currentVpn alignPages with
  | none => .error none
  | some gapStart =>
    let gapEnd := t.startingVpn node
    if gapStart < gapEnd ∧ pagesNeeded ≤ gapEnd - gapStart then .error (some (gapStart * pageSize % 2 ^ 64))
    else if 2 ^ 64 ≤ t.endingVpn node + 1 then .error none
    else .ok (t.endingVpn node + 1)

def miFindGapBottomUp (t : MmAvlTable) (pagesNeeded alignPages lowestVpn highestVpn : ℕ) : Option ℕ := do
  match ← t.walkUp (some (some 0)) (t.gapBefore pagesNeeded alignPages) lowestVpn with
  | .error answer => answer
  | .ok currentVpn =>
    let gapStart ← maskUp currentVpn alignPages
    if gapStart < highestVpn ∧ pagesNeeded ≤ highestVpn - gapStart then return gapStart * pageSize % 2 ^ 64
    else return 0

/-- The check of the gap from `gapStart` to `gapEnd`: the highest place in it, unless below the
window. -/
def gapFit (pagesNeeded alignPages lowestVpn gapStart gapEnd : ℕ) : Option ℕ :=
  if gapStart < gapEnd ∧ pagesNeeded ≤ gapEnd - gapStart then
    let result := maskDown (gapEnd - pagesNeeded) alignPages * pageSize % 2 ^ 64
    if lowestVpn * pageSize ≤ result then some result else none
  else none

/-- One node of `mi_find_gap_top_down`; the state is the start of the last region. -/
def gapAfter (t : MmAvlTable) (pagesNeeded alignPages lowestVpn currentVpn node : ℕ) : Except (Option ℕ) ℕ :=
  if 2 ^ 64 ≤ t.endingVpn node + 1 then .error none
  else
    match maskUp (t.endingVpn node + 1) alignPages with
    | none => .error none
    | some gapStart =>
      match gapFit pagesNeeded alignPages lowestVpn gapStart currentVpn with
      | some result => .error (some result)
      | none => .ok (t.startingVpn node)

def miFindGapTopDown (t : MmAvlTable) (pagesNeeded alignPages lowestVpn highestVpn : ℕ) : Option ℕ := do
  match ← t.walkDown (some (some 0)) (t.gapAfter pagesNeeded alignPages lowestVpn) highestVpn with
  | .error answer => answer
  | .ok currentVpn =>
    let gapStart ← maskUp lowestVpn alignPages
    match gapFit pagesNeeded alignPages lowestVpn gapStart currentVpn with
    | some result => return result
    | none => return 0

def miFindEmptyAddressRange (t : MmAvlTable) (size alignment : ℕ) (topDown : Bool) : Option ℕ :=
  if size = 0 then some 0
  else if 2 ^ 64 ≤ size + pageSize then none
  else
    let pagesNeeded := (size + pageSize - 1) / pageSize
    let alignPages := alignment / pageSize
    let lowestVpn := mmLowestUserAddress / pageSize
    let highestVpn := mmHighestUserAddress / pageSize
    if t.tree.root = 0 then do
      let startVpn ← maskUp lowestVpn alignPages
      if startVpn + pagesNeeded ≤ highestVpn then return startVpn * pageSize % 2 ^ 64 else return 0
    else if topDown then t.miFindGapTopDown pagesNeeded alignPages lowestVpn highestVpn
    else t.miFindGapBottomUp pagesNeeded alignPages lowestVpn highestVpn

end MmAvlTable

end XenOS.Mm
