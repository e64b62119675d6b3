import XenOS.General.TreeHeap
import XenOS.Mm.Types

/-! The virtual address descriptors of a process: an AVL tree of page number ranges with parent and
child pointers, one map for each field. Loops carry fuel that grows with the number of nodes; `none`
if it runs out. -/

namespace XenOS.Mm

open General

/-- `MM_AVL_TABLE`, and the fields of the `MMVAD_SHORT` nodes. -/
structure MmAvlTable where
  tree : TreeHeap ℕ 0
  nodeCount : ℕ
  startingVpn : ℕ → ℕ
  endingVpn : ℕ → ℕ
  flags : ℕ → BitVec 32
  balance : ℕ → ℤ

namespace MmAvlTable

/-- `MM_AVL_TABLE::new`; the memory of the nodes is whatever it is. -/
def new (t : MmAvlTable) : MmAvlTable := { t with tree := { t.tree with root := 0 }, nodeCount := 0 }

def setFlags (t : MmAvlTable) (vad : ℕ) (value : BitVec 32) : MmAvlTable :=
  { t with flags := Function.update t.flags vad value }

def setRange (t : MmAvlTable) (vad start ending : ℕ) : MmAvlTable :=
  { t with
    startingVpn := Function.update t.startingVpn vad start
    endingVpn := Function.update t.endingVpn vad ending }

def setBalance (t : MmAvlTable) (node : ℕ) (value : ℤ) : MmAvlTable :=
  { t with balance := Function.update t.balance node value }

/-- `MMVAD_SHORT::new` written to fresh memory; a null pointer stays null. -/
def miAllocateVadShort (t : MmAvlTable) (vad : ℕ) : MmAvlTable :=
  if vad = 0 then t
  else
    let t := { t with tree := ((t.tree.setParent vad 0).setLeftChild vad 0).setRightChild vad 0 }
    ((t.setRange vad 0 0).setFlags vad 0).setBalance vad 0

def findLoop (t : MmAvlTable) (vpn : ℕ) : ℕ → ℕ → Option ℕ
  | 0, _ => none
  | fuel + 1, current =>
    if current = 0 then some 0
    else if vpn < t.startingVpn current then findLoop t vpn fuel (t.tree.leftChild current)
    else if t.endingVpn current < vpn then findLoop t vpn fuel (t.tree.rightChild current)
    else some current

/-- `mi_find_vad`, by page number. -/
def miFindVad (t : MmAvlTable) (vpn : ℕ) : Option ℕ := findLoop t vpn (t.nodeCount + 1) t.tree.root

def getHeight (t : MmAvlTable) : ℕ → ℕ → Option ℕ
  | 0, _ => none
  | fuel + 1, node =>
    if node = 0 then some 0
    else do
      let leftHeight ← getHeight t fuel (t.tree.leftChild node)
      let rightHeight ← getHeight t fuel (t.tree.rightChild node)
      return 1 + if leftHeight > rightHeight then leftHeight else rightHeight

def miGetHeight (t : MmAvlTable) (node : ℕ) : Option ℕ := getHeight t (t.nodeCount + 1) node

/-- A cast to `i8`. -/
def asI8 (i : ℤ) : ℤ := i.bmod 256

def miGetBalance (t : MmAvlTable) (node : ℕ) : Option ℤ :=
  if node = 0 then some 0
  else do
    let leftHeight ← t.miGetHeight (t.tree.leftChild node)
    let rightHeight ← t.miGetHeight (t.tree.rightChild node)
    return asI8 ((rightHeight : ℤ) - leftHeight)

def miUpdateBalance (t : MmAvlTable) (node : ℕ) : Option MmAvlTable :=
  if node = 0 then some t else (t.miGetBalance node).map (t.setBalance node)

/-- The pointer stores of `mi_rotate_left`, with `y` the right child of `x`. -/
def relinkLeft (tree : TreeHeap ℕ 0) (x y : ℕ) : TreeHeap ℕ 0 :=
  let tree := tree.setRightChild x (tree.leftChild y)
  let tree := tree.adopt (tree.leftChild y) x
  let tree := tree.setParent y (tree.parent x)
  let tree := tree.replaceChild (tree.parent x) x y
  let tree := tree.setLeftChild y x
  tree.setParent x y

/-- The pointer stores of `mi_rotate_right`, with `x` the left child of `y`. -/
def relinkRight (tree : TreeHeap ℕ 0) (x y : ℕ) : TreeHeap ℕ 0 :=
  let tree := tree.setLeftChild y (tree.rightChild x)
  let tree := tree.adopt (tree.rightChild x) y
  let tree := tree.setParent x (tree.parent y)
  let tree := tree.replaceChild (tree.parent y) y x
  let tree := tree.setRightChild x y
  tree.setParent y x

def miRotateLeft (t : MmAvlTable) (x : ℕ) : Option MmAvlTable :=
  let y := t.tree.rightChild x
  if y = 0 then some t
  else do
    let t ← { t with tree := relinkLeft t.tree x y }.miUpdateBalance x
    t.miUpdateBalance y

def miRotateRight (t : MmAvlTable) (y : ℕ) : Option MmAvlTable :=
  let x := t.tree.leftChild y
  if x = 0 then some t
  else do
    let t ← { t with tree := relinkRight t.tree x y }.miUpdateBalance y
    t.miUpdateBalance x

/-- The branch of `mi_rebalance_tree` for a left-heavy node. -/
def fixLeftHeavy (t : MmAvlTable) (node : ℕ) : Option MmAvlTable :=
  let left := t.tree.leftChild node
  (if left ≠ 0 ∧ 0 < t.balance left then t.miRotateLeft left else some t).bind fun t => t.miRotateRight node

/-- The branch of `mi_rebalance_tree` for a right-heavy node. -/
def fixRightHeavy (t : MmAvlTable) (node : ℕ) : Option MmAvlTable :=
  let right := t.tree.rightChild node
  (if right ≠ 0 ∧ t.balance right < 0 then t.miRotateRight right else some t).bind fun t => t.miRotateLeft node

/-- The body of the loop of `mi_rebalance_tree`. -/
def rebalanceNode (t : MmAvlTable) (node : ℕ) : Option MmAvlTable :=
  (t.miUpdateBalance node).bind fun t =>
    if t.balance node < -1 then t.fixLeftHeavy node
    else if 1 < t.balance node then t.fixRightHeavy node
    else some t

def rebalanceLoop : ℕ → MmAvlTable → ℕ → Option MmAvlTable
  | 0, _, _ => none
  | fuel + 1, t, node =>
    if node = 0 then some t
    else do
      let t ← t.rebalanceNode node
      rebalanceLoop fuel t (t.tree.parent node)

def miRebalanceTree (t : MmAvlTable) (node : ℕ) : Option MmAvlTable := rebalanceLoop (2 * t.nodeCount + 2) t node

/-- The descent of `mi_insert_vad`: the parent of the new node and the side, or nothing
where the ranges overlap. -/
def descend (t : MmAvlTable) (newStart newEnd : ℕ) : ℕ → ℕ → ℕ → Bool → Option (Option (ℕ × Bool))
  | 0, _, _, _ => none
  | fuel + 1, parent, current, goLeft =>
    if current = 0 then some (some (parent, goLeft))
    else if newEnd < t.startingVpn current then descend t newStart newEnd fuel current (t.tree.leftChild current) true
    else if t.endingVpn current < newStart then descend t newStart newEnd fuel current (t.tree.rightChild current) false
    else some none

/-- The reset of the node at the start of `mi_insert_vad`. -/
def resetNode (t : MmAvlTable) (vad : ℕ) : MmAvlTable :=
  { t with tree := (t.tree.setLeftChild vad 0).setRightChild vad 0 }.setBalance vad 0

def attach (t : MmAvlTable) (vad parent : ℕ) (goLeft : Bool) : MmAvlTable :=
  let tree := t.tree.setParent vad parent
  let tree := if goLeft then tree.setLeftChild parent vad else tree.setRightChild parent vad
  { t with tree, nodeCount := t.nodeCount + 1 }

def miInsertVad (t : MmAvlTable) (vad : ℕ) : Option (Ntstatus × MmAvlTable) :=
  if vad = 0 then some (.noMemory, t)
  else
    let newStart := t.startingVpn vad
    let newEnd := t.endingVpn vad
    let t := t.resetNode vad
    if t.tree.root = 0 then
      some (.success, { t with tree := { t.tree with root := vad }.setParent vad 0, nodeCount := 1 })
    else do
      let place ← t.descend newStart newEnd (t.nodeCount + 1) 0 t.tree.root false
      match place with
      | none => return (.conflictingAddresses, t)
      | some (parent, goLeft) =>
        let t ← (t.attach vad parent goLeft).miRebalanceTree vad
        return (.success, t)

def minimumLoop (t : MmAvlTable) : ℕ → ℕ → Option ℕ
  | 0, _ => none
  | fuel + 1, node =>
    if node ≠ 0 ∧ t.tree.leftChild node ≠ 0 then minimumLoop t fuel (t.tree.leftChild node) else some node

def miFindMinimum (t : MmAvlTable) (node : ℕ) : Option ℕ := minimumLoop t (t.nodeCount + 1) node

/-- The pointer stores of `mi_remove_vad` for a node with two children, and where the
rebalancing starts. -/
def transplant (tree : TreeHeap ℕ 0) (vad left right parent successor : ℕ) : TreeHeap ℕ 0 × ℕ :=
  let successorParent := tree.parent successor
  let successorRight := tree.rightChild successor
  let (tree, rebalanceStart) :=
    if successorParent = vad then (tree, successor)
    else
      let tree := tree.setLeftChild successorParent successorRight
      let tree := tree.adopt successorRight successorParent
      let tree := tree.setRightChild successor right
      (tree.setParent right successor, successorParent)
  let tree := tree.setLeftChild successor left
  let tree := tree.setParent left successor
  let tree := tree.setParent successor parent
  (tree.replaceChild parent vad successor, rebalanceStart)

/-- The four cases of `mi_remove_vad`. -/
def unlink (t : MmAvlTable) (vad : ℕ) : Option (MmAvlTable × ℕ) :=
  let parent := t.tree.parent vad
  let left := t.tree.leftChild vad
  let right := t.tree.rightChild vad
  if left = 0 ∧ right = 0 then some ({ t with tree := t.tree.replaceChild parent vad 0 }, parent)
  else if left = 0 then some ({ t with tree := (t.tree.replaceChild parent vad right).setParent right parent }, parent)
  else if right = 0 then some ({ t with tree := (t.tree.replaceChild parent vad left).setParent left parent }, parent)
  else do
    let successor ← t.miFindMinimum right
    let (tree, rebalanceStart) := transplant t.tree vad left right parent successor
    return ({ t with tree }.setBalance successor (t.balance vad), rebalanceStart)

def clearLinks (t : MmAvlTable) (vad : ℕ) : MmAvlTable :=
  { t with tree := ((t.tree.setParent vad 0).setLeftChild vad 0).setRightChild vad 0 }

def miRemoveVad (t : MmAvlTable) (vad : ℕ) : Option MmAvlTable :=
  if vad = 0 then some t
  else do
    let (t, rebalanceStart) ← t.unlink vad
    let t := { t with nodeCount := t.nodeCount - 1 }.clearLinks vad
    if rebalanceStart ≠ 0 then t.miRebalanceTree rebalanceStart else some t

/-- `mi_split_vad`; `newVad` is what the allocation returns. -/
def miSplitVad (t : MmAvlTable) (vad splitVpn newVad : ℕ) : Option (ℕ × MmAvlTable) :=
  if vad = 0 then some (0, t)
  else
    let originalStart := t.startingVpn vad
    let originalEnd := t.endingVpn vad
    if splitVpn ≤ originalStart ∨ originalEnd < splitVpn then some (0, t)
    else if newVad = 0 then some (0, t)
    else do
      let t := t.miAllocateVadShort newVad
      let t := (t.setRange newVad splitVpn originalEnd).setFlags newVad (t.flags vad)
      let t := t.setRange vad originalStart (splitVpn - 1)
      let (status, t) ← t.miInsertVad newVad
      -- on failure the new node goes back to the pool
      if status ≠ .success then return (0, t.setRange vad originalStart originalEnd)
      else return (newVad, t)

end MmAvlTable

end XenOS.Mm
