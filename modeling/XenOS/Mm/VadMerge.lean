import XenOS.Mm.VadRuns

/-! Merging a region with a neighbour, which is found through the parent pointers: the left one
takes over the pages, and the right node leaves the tree. -/

namespace XenOS.Mm

open General BinaryTree TreeHeap List

inductive VadType where
  | vadPrivateMemory
  | vadMapped
  | vadImage
  | vadAwe
  | vadLargePages
  | vadRotatePhysical
  deriving DecidableEq, Repr

namespace MmvadFlags

/-- The fields of `MMVAD_FLAGS`, which are packed in a word. -/
def vadType (value : BitVec 32) : VadType :=
  match (value &&& 0x7#32).toNat with
  | 1 => .vadMapped
  | 2 => .vadImage
  | 3 => .vadAwe
  | 4 => .vadLargePages
  | 5 => .vadRotatePhysical
  | _ => .vadPrivateMemory

def protection (value : BitVec 32) : BitVec 32 := (value >>> 3) &&& 0x1F#32

def setProtection (value p : BitVec 32) : BitVec 32 := (value &&& ~~~(0x1F#32 <<< 3)) ||| ((p &&& 0x1F#32) <<< 3)

def commit (value : BitVec 32) : Bool := value &&& (1#32 <<< 8) ≠ 0

def privateMemory (value : BitVec 32) : Bool := value &&& (1#32 <<< 9) ≠ 0

def setVadType (value : BitVec 32) (t : VadType) : BitVec 32 := (value &&& ~~~0x7#32) ||| BitVec.ofNat 32 t.ctorIdx

def setCommit (value : BitVec 32) (c : Bool) : BitVec 32 :=
  if c then value ||| (1#32 <<< 8) else value &&& ~~~(1#32 <<< 8)

def setPrivateMemory (value : BitVec 32) (p : Bool) : BitVec 32 :=
  if p then value ||| (1#32 <<< 9) else value &&& ~~~(1#32 <<< 9)

def noChange (value : BitVec 32) : Bool := value &&& (1#32 <<< 10) ≠ 0

end MmvadFlags

/-- What the flags say about a page. -/
@[ext] structure VadAttributes where
  vadType : VadType
  protection : BitVec 32
  commit : Bool
  privateMemory : Bool
  noChange : Bool
  deriving DecidableEq, Repr

def vadAttributes (value : BitVec 32) : VadAttributes where
  vadType := MmvadFlags.vadType value
  protection := MmvadFlags.protection value
  commit := MmvadFlags.commit value
  privateMemory := MmvadFlags.privateMemory value
  noChange := MmvadFlags.noChange value

namespace MmAvlTable

def successorLoop (t : MmAvlTable) : ℕ → ℕ → ℕ → Option ℕ
  | 0, _, _ => none
  | fuel + 1, current, parent =>
    if parent ≠ 0 ∧ current = t.tree.rightChild parent then successorLoop t fuel parent (t.tree.parent parent)
    else some parent

def miFindSuccessor (t : MmAvlTable) (node : ℕ) : Option ℕ :=
  if node = 0 then some 0
  else if t.tree.rightChild node ≠ 0 then t.miFindMinimum (t.tree.rightChild node)
  else t.successorLoop (t.nodeCount + 1) node (t.tree.parent node)

def maximumLoop (t : MmAvlTable) : ℕ → ℕ → Option ℕ
  | 0, _ => none
  | fuel + 1, pred => if t.tree.rightChild pred ≠ 0 then maximumLoop t fuel (t.tree.rightChild pred) else some pred

def predecessorLoop (t : MmAvlTable) : ℕ → ℕ → ℕ → Option ℕ
  | 0, _, _ => none
  | fuel + 1, current, parent =>
    if parent ≠ 0 ∧ current = t.tree.leftChild parent then predecessorLoop t fuel parent (t.tree.parent parent)
    else some parent

def miFindPredecessor (t : MmAvlTable) (node : ℕ) : Option ℕ :=
  if node = 0 then some 0
  else if t.tree.leftChild node ≠ 0 then t.maximumLoop (t.nodeCount + 1) (t.tree.leftChild node)
  else t.predecessorLoop (t.nodeCount + 1) node (t.tree.parent node)

/-- `mi_can_merge_vads`. The ranges are those of two nodes in order, so that the sum does not
overflow. -/
def miCanMergeVads (t : MmAvlTable) (left right : ℕ) : Bool :=
  left ≠ 0 ∧ right ≠ 0 ∧ t.endingVpn left + 1 = t.startingVpn right ∧
    MmvadFlags.vadType (t.flags left) = MmvadFlags.vadType (t.flags right) ∧
    MmvadFlags.protection (t.flags left) = MmvadFlags.protection (t.flags right) ∧
    MmvadFlags.commit (t.flags left) = MmvadFlags.commit (t.flags right) ∧
    MmvadFlags.privateMemory (t.flags left) = MmvadFlags.privateMemory (t.flags right)

def withEnding (t : MmAvlTable) (endingVpn : ℕ → ℕ) : MmAvlTable := { t with endingVpn }

def mergeVads (t : MmAvlTable) (left right : ℕ) : Option MmAvlTable :=
  (t.withEnding (Function.update t.endingVpn left (t.endingVpn right))).miRemoveVad right

def miTryMergeVad (t : MmAvlTable) (vad : ℕ) : Option (Bool × MmAvlTable) :=
  if vad = 0 then some (false, t)
  else do
    let next ← t.miFindSuccessor vad
    if next ≠ 0 ∧ t.miCanMergeVads vad next then
      let t ← t.mergeVads vad next
      return (true, t)
    else
      let prev ← t.miFindPredecessor vad
      if prev ≠ 0 ∧ t.miCanMergeVads prev vad then
        let t ← t.mergeVads prev vad
        return (true, t)
      else return (false, t)

variable {t t' : MmAvlTable} {c : List (Frame ℕ)} {u v l r : BinaryTree ℕ} {vad : ℕ} {endingVpn : ℕ → ℕ}

theorem successorLoop_spec {fuel : ℕ} (hf : t.tree.Focus c v) (hv : v ≠ .nil) (hfuel : c.length < fuel) :
    t.successorLoop fuel (rootOf 0 v) (top 0 c) = some ((after c).headD 0) := by
  induction c generalizing v fuel with
  | nil =>
    obtain ⟨fuel, rfl⟩ := Nat.exists_eq_add_one.2 hfuel
    exact if_neg fun hc => hc.1 rfl
  | cons f c ih =>
    obtain ⟨fuel, rfl⟩ := Nat.exists_eq_add_one.2 (Nat.zero_lt_of_lt hfuel)
    have hne : rootOf 0 v ≠ 0 := fun h0 => hv ((rootOf_eq_nil hf.rep).1 h0)
    cases f with
    | left a r =>
      have hroot : rootOf 0 v ∈ inorder v := rootOf_mem hv
      have hnotr : rootOf 0 v ∉ inorder r := fun hr =>
        notMem_around hf.nodup hroot (mem_around mem_cons_self hr)
      obtain ⟨ha, hp, hl, hr, -⟩ := hf.hole
      refine if_neg fun hc => ?_
      exact ne_rootOf hne hnotr (hc.2.trans hr)
    | right a l =>
      have hf' := TreeHeap.focus_cons.1 hf
      obtain ⟨ha, hp, hl, hr, -⟩ := hf.hole
      rw [successorLoop, if_pos ⟨ha, hr.symm⟩, show top 0 (.right a l :: c) = a from rfl, hp]
      exact ih hf' (by rintro ⟨⟩) (by simpa using hfuel)

theorem predecessorLoop_spec {fuel : ℕ} (hf : t.tree.Focus c v) (hv : v ≠ .nil) (hfuel : c.length < fuel) :
    t.predecessorLoop fuel (rootOf 0 v) (top 0 c) = some ((before c).getLastD 0) := by
  induction c generalizing v fuel with
  | nil =>
    obtain ⟨fuel, rfl⟩ := Nat.exists_eq_add_one.2 hfuel
    exact if_neg fun hc => hc.1 rfl
  | cons f c ih =>
    obtain ⟨fuel, rfl⟩ := Nat.exists_eq_add_one.2 (Nat.zero_lt_of_lt hfuel)
    have hne : rootOf 0 v ≠ 0 := fun h0 => hv ((rootOf_eq_nil hf.rep).1 h0)
    cases f with
    | left a r =>
      have hf' := TreeHeap.focus_cons.1 hf
      obtain ⟨ha, hp, hl, hr, -⟩ := hf.hole
      rw [predecessorLoop, if_pos ⟨ha, hl.symm⟩, show top 0 (.left a r :: c) = a from rfl, hp]
      exact ih hf' (by rintro ⟨⟩) (by simpa using hfuel)
    | right a l =>
      have hroot : rootOf 0 v ∈ inorder v := rootOf_mem hv
      have hnotl : rootOf 0 v ∉ inorder l := fun hl =>
        notMem_around hf.nodup hroot (mem_around mem_cons_self hl)
      obtain ⟨ha, hp, hl, hr, -⟩ := hf.hole
      rw [predecessorLoop, if_neg fun hc => ne_rootOf hne hnotl (hc.2.trans hl)]
      simp [before, top, Frame.value]

theorem maximumLoop_spec {p fuel : ℕ} (hrep : t.tree.Rep p v) (hv : v ≠ .nil) (hfuel : v.height < fuel) :
    t.maximumLoop fuel (rootOf 0 v) = some ((inorder v).getLastD 0) := by
  induction v generalizing p fuel with
  | nil => exact absurd rfl hv
  | node a l r ihl ihr =>
    obtain ⟨fuel, rfl⟩ := Nat.exists_eq_add_one.2 (Nat.zero_lt_of_lt hfuel)
    obtain ⟨ha, -, -, hra, -, hr⟩ := hrep
    simp only [height] at hfuel
    rw [maximumLoop, rootOf, hra]
    by_cases hrne : r = .nil
    · subst hrne
      rw [if_neg (by simp [rootOf])]
      simp
    · have hroot : rootOf 0 r ≠ 0 := fun h0 => hrne ((rootOf_eq_nil hr).1 h0)
      rw [if_pos hroot, ihr hr hrne (by omega)]
      have hne : inorder r ≠ [] := ne_nil_of_mem (show rootOf 0 r ∈ inorder r from rootOf_mem hrne)
      simp [getLastD_eq_getLast?, getLast?_append, getLast?_cons, getLast?_eq_some_getLast hne]

theorem IsTree.neighbours (h : t.IsTree u) (hv : vad ∈ inorder u) :
    ∃ as bs, inorder u = as ++ vad :: bs ∧ t.miFindSuccessor vad = some (bs.headD 0) ∧
      t.miFindPredecessor vad = some (as.getLastD 0) := by
  obtain ⟨c, l, r, rfl⟩ := exists_plug hv
  have hf := focus_plug.1 h.focus
  obtain ⟨hv0, hp, hl, hr, hrepl, hrepr⟩ := hf.tree.rep
  have hlen : c.length < t.nodeCount + 1 := by
    have := length_lt_numNodes_plug (c := c) (t := .node vad l r)
    rw [hf.count]
    omega
  have hheight : (BinaryTree.node vad l r).height ≤ t.nodeCount := hf.height_le
  simp only [height] at hheight
  have hne : BinaryTree.node vad l r ≠ .nil := by rintro ⟨⟩
  refine ⟨before c ++ inorder l, inorder r ++ after c, by rw [inorder_plug]; simp, ?_, ?_⟩
  · rw [MmAvlTable.miFindSuccessor, if_neg hv0, hr, hp]
    by_cases hrne : r = .nil
    · subst hrne
      rw [if_neg (by simp [rootOf])]
      exact successorLoop_spec hf.tree hne hlen
    · rw [if_pos fun h0 => hrne ((rootOf_eq_nil hrepr).1 h0)]
      have hheightr : r.height < t.nodeCount + 1 := by omega
      obtain ⟨cr, successor, sr, rfl, hleft, hmin⟩ := minimumLoop_spec r hrepr hrne hheightr
      rw [miFindMinimum, hmin, inorder_plug, before_eq_nil hleft]
      simp
  · rw [MmAvlTable.miFindPredecessor, if_neg hv0, hl, hp]
    by_cases hlne : l = .nil
    · subst hlne
      rw [if_neg (by simp [rootOf])]
      have hloop : t.predecessorLoop (t.nodeCount + 1) vad (top 0 c) = some ((before c).getLastD 0) :=
        predecessorLoop_spec hf.tree hne hlen
      simpa using hloop
    · have hne' : inorder l ≠ [] := ne_nil_of_mem (show rootOf 0 l ∈ inorder l from rootOf_mem hlne)
      rw [if_pos fun h0 => hlne ((rootOf_eq_nil hrepl).1 h0), maximumLoop_spec hrepl hlne (by omega)]
      simp [getLastD_eq_getLast?, getLast?_append, getLast?_eq_some_getLast hne']

theorem getHeight_withEnding (fuel node : ℕ) : (t.withEnding endingVpn).getHeight fuel node = t.getHeight fuel node := by
  induction fuel generalizing node with
  | zero => rfl
  | succ fuel ih => simp only [getHeight, withEnding] at ih ⊢; simp only [ih]

theorem miUpdateBalance_withEnding (node : ℕ) :
    (t.withEnding endingVpn).miUpdateBalance node = (t.miUpdateBalance node).map (withEnding · endingVpn) := by
  unfold miUpdateBalance miGetBalance miGetHeight
  split_ifs with h0
  · rfl
  · simp only [show (t.withEnding endingVpn).tree = t.tree from rfl, show (t.withEnding endingVpn).nodeCount = t.nodeCount from rfl,
      getHeight_withEnding, Option.map_map]
    rfl

theorem miRotateLeft_withEnding (x : ℕ) :
    (t.withEnding endingVpn).miRotateLeft x = (t.miRotateLeft x).map (withEnding · endingVpn) := by
  unfold miRotateLeft
  simp only [show (t.withEnding endingVpn).tree = t.tree from rfl]
  split_ifs with h0
  · rfl
  · change ((withEnding { t with tree := relinkLeft t.tree x (t.tree.rightChild x) } endingVpn).miUpdateBalance x).bind _ = _
    rw [miUpdateBalance_withEnding]
    cases ({ t with tree := relinkLeft t.tree x (t.tree.rightChild x) }.miUpdateBalance x) with
    | none => rfl
    | some t1 => exact miUpdateBalance_withEnding _

theorem miRotateRight_withEnding (y : ℕ) :
    (t.withEnding endingVpn).miRotateRight y = (t.miRotateRight y).map (withEnding · endingVpn) := by
  unfold miRotateRight
  simp only [show (t.withEnding endingVpn).tree = t.tree from rfl]
  split_ifs with h0
  · rfl
  · change ((withEnding { t with tree := relinkRight t.tree (t.tree.leftChild y) y } endingVpn).miUpdateBalance y).bind _ = _
    rw [miUpdateBalance_withEnding]
    cases ({ t with tree := relinkRight t.tree (t.tree.leftChild y) y }.miUpdateBalance y) with
    | none => rfl
    | some t1 => exact miUpdateBalance_withEnding _

theorem fixLeftHeavy_withEnding (node : ℕ) :
    (t.withEnding endingVpn).fixLeftHeavy node = (t.fixLeftHeavy node).map (withEnding · endingVpn) := by
  unfold fixLeftHeavy
  simp only [show (t.withEnding endingVpn).tree = t.tree from rfl, show (t.withEnding endingVpn).balance = t.balance from rfl]
  split_ifs with h0
  · rw [miRotateLeft_withEnding]
    cases t.miRotateLeft (t.tree.leftChild node) with
    | none => rfl
    | some t1 => exact miRotateRight_withEnding _
  · exact miRotateRight_withEnding _

theorem fixRightHeavy_withEnding (node : ℕ) :
    (t.withEnding endingVpn).fixRightHeavy node = (t.fixRightHeavy node).map (withEnding · endingVpn) := by
  unfold fixRightHeavy
  simp only [show (t.withEnding endingVpn).tree = t.tree from rfl, show (t.withEnding endingVpn).balance = t.balance from rfl]
  split_ifs with h0
  · rw [miRotateRight_withEnding]
    cases t.miRotateRight (t.tree.rightChild node) with
    | none => rfl
    | some t1 => exact miRotateLeft_withEnding _
  · exact miRotateLeft_withEnding _

theorem rebalanceNode_withEnding (node : ℕ) :
    (t.withEnding endingVpn).rebalanceNode node = (t.rebalanceNode node).map (withEnding · endingVpn) := by
  unfold rebalanceNode
  rw [miUpdateBalance_withEnding]
  cases t.miUpdateBalance node with
  | none => rfl
  | some t1 =>
    simp only [Option.map_some, Option.bind_some, show (t1.withEnding endingVpn).balance = t1.balance from rfl]
    split_ifs
    · exact fixLeftHeavy_withEnding _
    · exact fixRightHeavy_withEnding _
    · rfl

theorem rebalanceLoop_withEnding (fuel node : ℕ) :
    rebalanceLoop fuel (t.withEnding endingVpn) node = (rebalanceLoop fuel t node).map (withEnding · endingVpn) := by
  induction fuel generalizing t node with
  | zero => rfl
  | succ fuel ih =>
    unfold rebalanceLoop
    split_ifs with h0
    · rfl
    · rw [rebalanceNode_withEnding]
      cases t.rebalanceNode node with
      | none => rfl
      | some t1 => exact ih (t := t1) _

theorem minimumLoop_withEnding (fuel node : ℕ) : (t.withEnding endingVpn).minimumLoop fuel node = t.minimumLoop fuel node := by
  induction fuel generalizing node with
  | zero => rfl
  | succ fuel ih => simp only [minimumLoop, ih]; rfl

theorem unlink_withEnding (vad : ℕ) :
    (t.withEnding endingVpn).unlink vad = (t.unlink vad).map fun r => (r.1.withEnding endingVpn, r.2) := by
  unfold unlink miFindMinimum
  simp only [show (t.withEnding endingVpn).tree = t.tree from rfl, show (t.withEnding endingVpn).nodeCount = t.nodeCount from rfl,
    minimumLoop_withEnding]
  split_ifs
  · rfl
  · rfl
  · rfl
  · cases t.minimumLoop (t.nodeCount + 1) (t.tree.rightChild vad) <;> rfl

theorem miRemoveVad_withEnding (vad : ℕ) :
    (t.withEnding endingVpn).miRemoveVad vad = (t.miRemoveVad vad).map (withEnding · endingVpn) := by
  unfold miRemoveVad
  split_ifs with h0
  · rfl
  · rw [unlink_withEnding]
    cases t.unlink vad with
    | none => rfl
    | some r =>
      simp only [Option.map_some, Option.bind_eq_bind, Option.bind_some]
      split_ifs
      · exact rebalanceLoop_withEnding (t := { r.1 with nodeCount := r.1.nodeCount - 1 }.clearLinks vad) _ _
      · rfl

structure Merged (t : MmAvlTable) (left right : ℕ) (t' : MmAvlTable) : Prop where
  inv : ∃ u', t'.Inv u'
  reachable : ∀ p, t'.Reachable p ↔ t.Reachable p ∧ p ≠ right
  startingVpn : t'.startingVpn = t.startingVpn
  endingVpn : t'.endingVpn = Function.update t.endingVpn left (t.endingVpn right)
  flags : t'.flags = t.flags

theorem Inv.mergeVads {as bs : List ℕ} {left right : ℕ} (h : t.Inv u) (hu : inorder u = as ++ left :: right :: bs) :
    ∃ t', t.mergeVads left right = some t' ∧ Merged t left right t' := by
  have hright : right ∈ inorder u := by rw [hu]; simp
  have hnodup := h.isTree.nodup
  rw [hu] at hnodup
  obtain ⟨t1, u', hret, hr⟩ := h.isTree.miRemoveVad hright
  -- the removal takes the one node out of the order
  have herase : ∀ as' bs' : List ℕ, inorder u = as' ++ right :: bs' → (inorder u).erase right = as' ++ bs' := fun as' bs' hs => by
    have hd := h.isTree.nodup
    rw [hs] at hd ⊢
    have hn : right ∉ as' := fun hm => (nodup_append.1 hd).2.2 _ hm _ mem_cons_self rfl
    rw [erase_append_right _ hn, erase_cons_head]
  have hu' : inorder u' = as ++ left :: bs := by
    obtain ⟨as', bs', h1, h2⟩ := hr.nodes
    rw [h2, ← herase as' bs' h1, herase (as ++ [left]) bs (by rw [hu]; simp)]
    simp
  have hleft : left ≠ right := by
    rintro rfl
    simp [nodup_append] at hnodup
  have hordered := h.isTree.ordered
  rw [hu] at hordered
  obtain ⟨hoa, hob, hoab⟩ := pairwise_append.1 hordered
  obtain ⟨holeft, hob⟩ := pairwise_cons.1 hob
  obtain ⟨horight, hob⟩ := pairwise_cons.1 hob
  have hrange := h.nonempty right hright
  have hlr := holeft right mem_cons_self
  have hl := h.nonempty left (by rw [hu]; simp)
  let e := Function.update t.endingVpn left (t.endingVpn right)
  have he : ∀ q, q ≠ left → e q = t.endingVpn q := fun q hq => Function.update_of_ne hq _ _
  have hel : e left = t.endingVpn right := Function.update_self ..
  have hne : ∀ q ∈ as ++ bs, q ≠ left := by
    rintro q hq rfl
    simp only [nodup_append, nodup_cons, mem_cons, mem_append] at hnodup hq
    rcases hq with hq | hq
    · exact hnodup.2.2 q hq q (Or.inl rfl) rfl
    · exact hnodup.2.1.1 (Or.inr hq)
  unfold Precedes at hlr
  refine ⟨t1.withEnding e, by rw [MmAvlTable.mergeVads, miRemoveVad_withEnding, hret]; rfl, ?_⟩
  have hnonempty : ∀ q ∈ inorder u', (t1.withEnding e).startingVpn q ≤ (t1.withEnding e).endingVpn q := fun q hq => by
    have hq0 := h.nonempty q (by
      rw [hu]
      rw [hu'] at hq
      simp only [mem_append, mem_cons] at hq ⊢
      tauto)
    show t1.startingVpn q ≤ e q
    rw [hr.same.startingVpn]
    by_cases hql : q = left
    · subst hql
      rw [hel]
      omega
    · rw [he q hql]
      exact hq0
  have hisTree : (t1.withEnding e).IsTree u' :=
    { focus := ⟨hr.isTree.focus.tree, hr.isTree.focus.count⟩
      balanced := hr.isTree.balanced
      cached := hr.isTree.cached
      ordered := by
        have hpre : ∀ p q, (t1.withEnding e).Precedes p q ↔ e p < t.startingVpn q := fun p q => by
          simp only [Precedes, withEnding, hr.same.startingVpn]
        rw [hu']
        refine pairwise_append.2 ⟨hoa.imp_of_mem fun {p q} hp hq hpq => ?_,
          pairwise_cons.2 ⟨fun q hq => ?_, hob.imp_of_mem fun {p q} hp hq hpq => ?_⟩, fun p hp q hq => ?_⟩
        · rw [hpre, he p (hne p (mem_append_left _ hp))]
          exact hpq
        · rw [hpre, hel]
          exact horight q hq
        · rw [hpre, he p (hne p (mem_append_right _ hp))]
          exact hpq
        · rw [hpre, he p (hne p (mem_append_left _ hp))]
          refine hoab p hp q ?_
          rcases mem_cons.1 hq with rfl | hq
          · exact mem_cons_self
          · exact mem_cons_of_mem _ (mem_cons_of_mem _ hq)
      ranges := fun q hq => Nat.le_succ_of_le (hnonempty q hq) }
  refine ⟨⟨u', hisTree, hnonempty⟩, fun p => ?_, hr.same.startingVpn, rfl, hr.same.flags⟩
  rw [hisTree.reachable_iff, h.isTree.reachable_iff, hu', hu]
  simp only [nodup_append, nodup_cons, mem_cons, mem_append] at hnodup ⊢
  constructor
  · intro hp
    refine ⟨by tauto, ?_⟩
    rintro rfl
    rcases hp with hp | rfl | hp
    · exact hnodup.2.2 p hp p (Or.inr (Or.inl rfl)) rfl
    · exact hleft rfl
    · exact hnodup.2.1.2.1 hp
  · rintro ⟨hp, hne⟩
    tauto

end MmAvlTable

end XenOS.Mm
