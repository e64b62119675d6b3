import Mathlib.Data.List.Pairwise
import XenOS.General.Run
import XenOS.Mm.VadRemove

/-! The tree of virtual address descriptors over its runs: insertions of fresh nodes,
removals and splits keep a well-formed AVL tree of disjoint ranges. -/

namespace XenOS.Mm

open General BinaryTree TreeHeap List
open Function (update update_self update_of_ne update_idem)

/-- The operations: an insertion names the range of the fresh node, a split what its allocation
returns. -/
inductive VadOp where
  | insert (vad startingVpn endingVpn : ℕ)
  | remove (vad : ℕ)
  | split (vad splitVpn newVad : ℕ)

namespace MmAvlTable

def step (t : MmAvlTable) : VadOp → MmAvlTable
  | .insert vad startingVpn endingVpn => (((t.setRange vad startingVpn endingVpn).miInsertVad vad).map Prod.snd).getD t
  | .remove vad => (t.miRemoveVad vad).getD t
  | .split vad splitVpn newVad => ((t.miSplitVad vad splitVpn newVad).map Prod.snd).getD t

inductive Reachable (t : MmAvlTable) : ℕ → Prop
  | root : t.tree.root ≠ 0 → Reachable t t.tree.root
  | left {p : ℕ} : Reachable t p → t.tree.leftChild p ≠ 0 → Reachable t (t.tree.leftChild p)
  | right {p : ℕ} : Reachable t p → t.tree.rightChild p ≠ 0 → Reachable t (t.tree.rightChild p)

def Admitted (t : MmAvlTable) : VadOp → Prop
  | .insert vad startingVpn endingVpn => vad ≠ 0 ∧ ¬ t.Reachable vad ∧ startingVpn ≤ endingVpn
  | .remove vad => t.Reachable vad
  | .split vad _ newVad => t.Reachable vad ∧ (newVad = 0 ∨ ¬ t.Reachable newVad)

structure WellFormed (t : MmAvlTable) (u : BinaryTree ℕ) : Prop where
  root : t.tree.root = rootOf 0 u
  links : t.tree.Rep 0 u
  acyclic : (inorder u).Nodup
  reachable : ∀ p, t.Reachable p ↔ p ∈ inorder u
  ranges : ∀ p ∈ inorder u, t.startingVpn p ≤ t.endingVpn p
  ordered : (inorder u).Pairwise fun p q => t.endingVpn p < t.startingVpn q
  nodeCount : t.nodeCount = u.numNodes
  balanced : Balanced u
  cached : Cached t.balance u

structure SameTree (t t' : MmAvlTable) : Prop where
  root : t'.tree.root = t.tree.root
  nodeCount : t'.nodeCount = t.nodeCount
  nodes : ∀ p, t.Reachable p → SameAt t.tree t'.tree p ∧ t'.balance p = t.balance p ∧
    t'.startingVpn p = t.startingVpn p ∧ t'.endingVpn p = t.endingVpn p ∧ t'.flags p = t.flags p

/-- The call returns; an insertion is refused exactly when its range meets one of the tree,
and then leaves the tree as it is. -/
def Answers (t : MmAvlTable) : VadOp → Prop
  | .insert vad startingVpn endingVpn =>
    ∃ status t', (t.setRange vad startingVpn endingVpn).miInsertVad vad = some (status, t') ∧
      (status = .conflictingAddresses ↔
        ∃ p, t.Reachable p ∧ t.startingVpn p ≤ endingVpn ∧ startingVpn ≤ t.endingVpn p) ∧
      (status = .conflictingAddresses → t.SameTree t')
  | .remove vad => (t.miRemoveVad vad).isSome
  | .split vad splitVpn newVad => (t.miSplitVad vad splitVpn newVad).isSome

/-- What every operation keeps. -/
structure Inv (t : MmAvlTable) (u : BinaryTree ℕ) : Prop where
  isTree : t.IsTree u
  nonempty : ∀ q ∈ inorder u, t.startingVpn q ≤ t.endingVpn q

variable {t t' : MmAvlTable} {u u' : BinaryTree ℕ} {vad : ℕ}

theorem reachable_of_rep (h : t.tree.Rep 0 u) (hroot : t.tree.root = rootOf 0 u) {c : List (Frame ℕ)} {v : BinaryTree ℕ}
    (hv : plug c v = u) (hne : rootOf 0 v ≠ 0) (hf : t.Focus c v) : t.Reachable (rootOf 0 v) := by
  induction c generalizing v with
  | nil =>
    obtain rfl : v = u := hv
    rw [← hroot] at hne ⊢
    exact .root hne
  | cons f c ih =>
    have hf' := focus_cons.1 hf
    have hparent : t.Reachable (rootOf 0 (f.plug v)) := by
      refine ih hv ?_ hf'
      cases f <;> exact hf'.tree.rep.1
    cases f with
    | left a r =>
      obtain ⟨-, -, hl, -⟩ := hf'.tree.rep
      rw [← hl] at hne ⊢
      exact .left hparent hne
    | right a l =>
      obtain ⟨-, -, -, hr, -⟩ := hf'.tree.rep
      rw [← hr] at hne ⊢
      exact .right hparent hne

theorem IsTree.reachable_iff (h : t.IsTree u) {p : ℕ} : t.Reachable p ↔ p ∈ inorder u := by
  constructor
  · intro hp
    induction hp with
    | root hroot =>
      rw [h.root_eq] at hroot ⊢
      exact rootOf_mem fun e => hroot (by rw [e]; rfl)
    | left _ hne ih =>
      obtain ⟨c, l, r, rfl⟩ := exists_plug ih
      obtain ⟨-, -, hl, -⟩ := (focus_plug.1 h.focus).tree.rep
      rw [hl] at hne ⊢
      rw [inorder_plug]
      have : rootOf 0 l ∈ inorder l := rootOf_mem fun e => hne (by rw [e]; rfl)
      simp [this]
    | right _ hne ih =>
      obtain ⟨c, l, r, rfl⟩ := exists_plug ih
      obtain ⟨-, -, -, hr, -⟩ := (focus_plug.1 h.focus).tree.rep
      rw [hr] at hne ⊢
      rw [inorder_plug]
      have : rootOf 0 r ∈ inorder r := rootOf_mem fun e => hne (by rw [e]; rfl)
      simp [this]
  · intro hp
    obtain ⟨c, l, r, rfl⟩ := exists_plug hp
    have hf := focus_plug.1 h.focus
    exact reachable_of_rep h.focus.tree.rep h.root_eq rfl hf.tree.rep.1 hf

theorem Inv.wellFormed (h : t.Inv u) : t.WellFormed u where
  root := h.isTree.root_eq
  links := h.isTree.focus.tree.rep
  acyclic := h.isTree.nodup
  reachable _ := h.isTree.reachable_iff
  ranges := h.nonempty
  ordered := h.isTree.ordered
  nodeCount := h.isTree.focus.count
  balanced := h.isTree.balanced
  cached := h.isTree.cached

theorem inv_new (t : MmAvlTable) : t.new.Inv .nil where
  isTree := ⟨⟨⟨rfl, trivial, nodup_nil⟩, rfl⟩, trivial, trivial, Pairwise.nil, fun _ hq => absurd hq not_mem_nil⟩
  nonempty _ hq := absurd hq not_mem_nil

section
variable (h : t.Inv u)
include h

theorem Inv.setRange {a b : ℕ} (hv : vad ∉ inorder u) : (t.setRange vad a b).Inv u := by
  have hne : ∀ q ∈ inorder u, q ≠ vad := by
    rintro q hq rfl
    exact hv hq
  refine ⟨h.isTree.congr rfl rfl fun q hq => ⟨SameAt.refl _ q, rfl, update_of_ne (hne q hq) _ _,
    update_of_ne (hne q hq) _ _⟩, fun q hq => ?_⟩
  have hs : (t.setRange vad a b).startingVpn q = t.startingVpn q := update_of_ne (hne q hq) _ _
  have he : (t.setRange vad a b).endingVpn q = t.endingVpn q := update_of_ne (hne q hq) _ _
  rw [hs, he]
  exact h.nonempty q hq

theorem Inserted.inv (hi : Inserted t u vad t' u') (hrange : t.startingVpn vad ≤ t.endingVpn vad) : t'.Inv u' := by
  refine ⟨hi.isTree, fun q hq => ?_⟩
  obtain ⟨as, bs, hu, hu', -⟩ := hi.nodes
  rw [hi.same.startingVpn, hi.same.endingVpn]
  rw [hu'] at hq
  have hold := h.nonempty q
  rw [hu] at hold
  rcases mem_append.1 hq with hq | hq
  · exact hold (mem_append_left _ hq)
  · rcases mem_cons.1 hq with rfl | hq
    · exact hrange
    · exact hold (mem_append_right _ hq)

theorem Inv.insert {a b : ℕ} (hv : vad ≠ 0) (hfresh : ¬ t.Reachable vad) (hab : a ≤ b) :
    t.Answers (.insert vad a b) ∧ ∃ u', (t.step (.insert vad a b)).Inv u' := by
  rw [h.isTree.reachable_iff] at hfresh
  have h0 := h.setRange (a := a) (b := b) hfresh
  have hs : (t.setRange vad a b).startingVpn vad = a := update_self ..
  have he : (t.setRange vad a b).endingVpn vad = b := update_self ..
  have hne : ∀ q ∈ inorder u, q ≠ vad := by
    rintro q hq rfl
    exact hfresh hq
  have hsq : ∀ q ∈ inorder u, (t.setRange vad a b).startingVpn q = t.startingVpn q :=
    fun q hq => update_of_ne (hne q hq) _ _
  have heq : ∀ q ∈ inorder u, (t.setRange vad a b).endingVpn q = t.endingVpn q :=
    fun q hq => update_of_ne (hne q hq) _ _
  rcases h0.isTree.miInsertVad hv hfresh (by rw [hs, he]; omega) with ⟨t', u', hret, hi⟩ | ⟨q, hq, hq1, hq2, hret⟩
  · refine ⟨⟨.success, t', hret, ⟨fun e => (by cases e), ?_⟩, fun e => (by cases e)⟩, u', ?_⟩
    · rintro ⟨p, hp, hp1, hp2⟩
      rw [h.isTree.reachable_iff] at hp
      obtain ⟨as, bs, hu, -, has, hbs⟩ := hi.nodes
      rw [hs] at has
      rw [he] at hbs
      have hpu := hp
      rw [hu] at hp
      rcases mem_append.1 hp with hp | hp
      · have := has p hp
        rw [heq p hpu] at this
        omega
      · have := hbs p hp
        rw [hsq p hpu] at this
        omega
    · simp only [step, hret]
      exact hi.inv h0 (by rwa [hs, he])
  · rw [he, hsq q hq] at hq1
    rw [hs, heq q hq] at hq2
    have h1 := h0.isTree.resetNode hfresh
    refine ⟨⟨_, _, hret, ⟨fun _ => ⟨q, h.isTree.reachable_iff.2 hq, hq1, hq2⟩, fun _ => rfl⟩, fun _ => ⟨rfl, rfl, fun p hp => ?_⟩⟩,
      u, ?_⟩
    · rw [h.isTree.reachable_iff] at hp
      have hpv := hne p hp
      exact ⟨(sameAt_setLeftChild hpv).trans (sameAt_setRightChild hpv), update_of_ne hpv _ _, hsq p hp, heq p hp, rfl⟩
    · simp only [step, hret]
      exact ⟨h1, h0.nonempty⟩

theorem Inv.remove (hv : t.Reachable vad) : t.Answers (.remove vad) ∧ ∃ u', (t.step (.remove vad)).Inv u' := by
  obtain ⟨t', u', hret, hr⟩ := h.isTree.miRemoveVad (h.isTree.reachable_iff.1 hv)
  simp only [Answers, step, hret]
  refine ⟨rfl, u', hr.isTree, fun q hq => ?_⟩
  obtain ⟨as, bs, hu, hu'⟩ := hr.nodes
  show t'.startingVpn q ≤ t'.endingVpn q
  rw [hr.same.startingVpn, hr.same.endingVpn]
  refine h.nonempty q ?_
  rw [hu]
  rw [hu'] at hq
  simp only [mem_append, mem_cons] at hq ⊢
  tauto

theorem Inv.shrink (htree : t'.tree = t.tree) (hcount : t'.nodeCount = t.nodeCount)
    (hs : ∀ q ∈ inorder u, t'.balance q = t.balance q ∧ t'.startingVpn q = t.startingVpn q ∧
      t'.endingVpn q ≤ t.endingVpn q ∧ t.startingVpn q ≤ t'.endingVpn q) : t'.Inv u where
  isTree :=
    { focus := ⟨htree ▸ h.isTree.focus.tree, hcount.trans h.isTree.focus.count⟩
      balanced := h.isTree.balanced
      cached := h.isTree.cached.congr fun q hq => (hs q hq).1
      ordered := h.isTree.ordered.imp_of_mem fun {p q} hp hq hpq => by
        have h1 := (hs p hp).2.2.1
        have h2 := (hs q hq).2.1
        unfold Precedes at hpq ⊢
        omega
      ranges := fun q hq => by
        have h1 := hs q hq
        omega }
  nonempty q hq := by
    have h1 := hs q hq
    omega

theorem Inv.allocate (hv : vad ∉ inorder u) : (t.miAllocateVadShort vad).Inv u := by
  unfold miAllocateVadShort
  split
  · exact h
  · have hne : ∀ q ∈ inorder u, q ≠ vad := by
      rintro q hq rfl
      exact hv hq
    refine ⟨h.isTree.congr rfl rfl fun q hq => ⟨?_, update_of_ne (hne q hq) _ _,
      update_of_ne (hne q hq) _ _, update_of_ne (hne q hq) _ _⟩, fun q hq => ?_⟩
    · exact ((sameAt_setParent (hne q hq)).trans (sameAt_setLeftChild (hne q hq))).trans (sameAt_setRightChild (hne q hq))
    · have := h.nonempty q hq
      simpa [MmAvlTable.setRange, setFlags, setBalance, hne q hq] using this

end

structure SplitOff (t : MmAvlTable) (vad splitVpn newVad : ℕ) (t' : MmAvlTable) : Prop where
  inv : ∃ u', t'.Inv u'
  inside : t.startingVpn vad < splitVpn ∧ splitVpn ≤ t.endingVpn vad
  reachable : ∀ p, t'.Reachable p ↔ t.Reachable p ∨ p = newVad
  startingVpn : t'.startingVpn = update t.startingVpn newVad splitVpn
  endingVpn : t'.endingVpn = update (update t.endingVpn newVad (t.endingVpn vad)) vad (splitVpn - 1)
  flags : t'.flags = update t.flags newVad (t.flags vad)

/-- A split that is refused leaves everything alone. The second half meets nothing: it was part of a range
of the tree. -/
theorem Inv.miSplitVad {newVad : ℕ} (h : t.Inv u) (hv : t.Reachable vad) (hnew : newVad = 0 ∨ ¬ t.Reachable newVad) (splitVpn : ℕ) :
    ((splitVpn ≤ t.startingVpn vad ∨ t.endingVpn vad < splitVpn) ∨ newVad = 0) ∧ t.miSplitVad vad splitVpn newVad = some (0, t) ∨
      newVad ≠ 0 ∧ ∃ t', t.miSplitVad vad splitVpn newVad = some (newVad, t') ∧ SplitOff t vad splitVpn newVad t' := by
  have hvu := h.isTree.reachable_iff.1 hv
  have hv0 := h.isTree.ne_zero hvu
  by_cases hin : splitVpn ≤ t.startingVpn vad ∨ t.endingVpn vad < splitVpn
  · refine Or.inl ⟨Or.inl hin, ?_⟩
    rw [MmAvlTable.miSplitVad, if_neg hv0]
    simp only [if_pos hin]
  by_cases hn0 : newVad = 0
  · refine Or.inl ⟨Or.inr hn0, ?_⟩
    rw [MmAvlTable.miSplitVad, if_neg hv0]
    simp only [if_neg hin, if_pos hn0]
  have hfresh : newVad ∉ inorder u := fun hm => (hnew.resolve_left hn0) (h.isTree.reachable_iff.2 hm)
  have hne : vad ≠ newVad := by
    rintro rfl
    exact hfresh hvu
  have h0 := h.allocate hfresh
  let t0 := t.miAllocateVadShort newVad
  let t1 := ((t0.setRange newVad splitVpn (t.endingVpn vad)).setFlags newVad (t0.flags vad)).setRange vad (t.startingVpn vad)
    (splitVpn - 1)
  have hs1 : t1.startingVpn = update t.startingVpn newVad splitVpn := by
    simp only [t1, t0, miAllocateVadShort, if_neg hn0, MmAvlTable.setRange, setFlags, setBalance, update_idem]
    rw [Function.update_eq_self_iff, update_of_ne hne]
  have he1 : t1.endingVpn = update (update t.endingVpn newVad (t.endingVpn vad)) vad (splitVpn - 1) := by
    simp only [t1, t0, miAllocateVadShort, if_neg hn0, MmAvlTable.setRange, setFlags, setBalance, update_idem]
  have hf1 : t1.flags = update t.flags newVad (t.flags vad) := by
    simp only [t1, t0, miAllocateVadShort, if_neg hn0, MmAvlTable.setRange, setFlags, setBalance, update_idem,
      update_of_ne hne]
  have hne' : ∀ q ∈ inorder u, q ≠ newVad := by
    rintro q hq rfl
    exact hfresh hq
  have hs0 : ∀ q ∈ inorder u, t0.startingVpn q = t.startingVpn q ∧ t0.endingVpn q = t.endingVpn q := fun q hq => by
    simp only [t0, miAllocateVadShort, if_neg hn0, MmAvlTable.setRange, setFlags, setBalance]
    exact ⟨update_of_ne (hne' q hq) _ _, update_of_ne (hne' q hq) _ _⟩
  have hstart : ∀ q ∈ inorder u, t1.startingVpn q = t.startingVpn q := fun q hq => by
    rw [hs1, update_of_ne (hne' q hq)]
  have hending : ∀ q ∈ inorder u, q ≠ vad → t1.endingVpn q = t.endingVpn q := fun q hq hqv => by
    rw [he1, update_of_ne hqv, update_of_ne (hne' q hq)]
  have hev : t1.endingVpn vad = splitVpn - 1 := update_self ..
  have h1 : t1.Inv u := by
    refine h0.shrink rfl rfl fun q hq => ⟨rfl, ?_⟩
    obtain ⟨h2, h3⟩ := hs0 q hq
    have h4 := hstart q hq
    have hnonempty := h.nonempty q hq
    show t1.startingVpn q = t0.startingVpn q ∧ t1.endingVpn q ≤ t0.endingVpn q ∧ t0.startingVpn q ≤ t1.endingVpn q
    by_cases hqv : q = vad
    · subst hqv
      omega
    · have h5 := hending q hq hqv
      omega
  have hsn : t1.startingVpn newVad = splitVpn := by rw [hs1, update_self]
  have hen : t1.endingVpn newVad = t.endingVpn vad := by rw [he1, update_of_ne hne.symm, update_self]
  have hsplit : t.miSplitVad vad splitVpn newVad = (t1.miInsertVad newVad).bind fun x =>
      if x.1 ≠ .success then some (0, x.2.setRange vad (t.startingVpn vad) (t.endingVpn vad)) else some (newVad, x.2) := by
    rw [MmAvlTable.miSplitVad, if_neg hv0]
    simp only [if_neg hin, if_neg hn0]
    rfl
  rcases h1.isTree.miInsertVad hn0 hfresh (by omega) with ⟨t', u', hret, hi⟩ | ⟨q, hq, hq1, hq2, -⟩
  · refine Or.inr ⟨hn0, t', by rw [hsplit, hret]; rfl, ?_⟩
    exact
      { inv := ⟨u', hi.inv h1 (by omega)⟩
        inside := by omega
        reachable := fun p => by
          obtain ⟨as, bs, hu, hu', -⟩ := hi.nodes
          rw [hi.isTree.reachable_iff, h.isTree.reachable_iff, hu, hu']
          simp only [mem_append, mem_cons]
          tauto
        startingVpn := hi.same.startingVpn.trans hs1
        endingVpn := hi.same.endingVpn.trans he1
        flags := hi.same.flags.trans hf1 }
  · -- the range that it meets would meet the split one
    exfalso
    have hqv : q ≠ vad := by
      rintro rfl
      omega
    have h2 := hstart q hq
    have h3 := hending q hq hqv
    have hapart : t.Precedes q vad ∨ t.Precedes vad q := by
      have hsymm : (inorder u).Pairwise fun p q => t.Precedes p q ∨ t.Precedes q p := h.isTree.ordered.imp Or.inl
      have : Std.Symm fun p q => t.Precedes p q ∨ t.Precedes q p := ⟨fun _ _ => Or.symm⟩
      exact hsymm.forall hq hvu hqv
    unfold Precedes at hapart
    omega

theorem Inv.split {splitVpn newVad : ℕ} (h : t.Inv u) (hv : t.Reachable vad) (hnew : newVad = 0 ∨ ¬ t.Reachable newVad) :
    t.Answers (.split vad splitVpn newVad) ∧ ∃ u', (t.step (.split vad splitVpn newVad)).Inv u' := by
  simp only [Answers, step]
  rcases h.miSplitVad hv hnew splitVpn with ⟨-, hret⟩ | ⟨-, t', hret, hsplit⟩
  · rw [hret]
    exact ⟨rfl, u, h⟩
  · rw [hret]
    exact ⟨rfl, hsplit.inv⟩

theorem Inv.step {op : VadOp} (h : t.Inv u) (ha : t.Admitted op) : t.Answers op ∧ ∃ u', (t.step op).Inv u' := by
  cases op with
  | insert vad a b => exact h.insert ha.1 ha.2.1 ha.2.2
  | remove vad => exact h.remove ha
  | split vad splitVpn newVad => exact h.split ha.1 ha.2

/-- From an empty table every operation returns, an insertion is refused exactly on an overlap, and
the tree stays well formed. -/
theorem vadTree_wellFormed {t : MmAvlTable} {ops : List VadOp} (hops : EveryStep step Admitted t.new ops) :
    EveryState step (fun t => ∃ u, t.WellFormed u) t.new ops ∧ EveryStep step Answers t.new ops := by
  have keep : ∀ s op, (∃ u, Inv s u) → Admitted s op → ∃ u, Inv (s.step op) u := fun _ _ ⟨_, hi⟩ ha => (hi.step ha).2
  have h0 : ∃ u, Inv t.new u := ⟨.nil, inv_new t⟩
  exact ⟨(everyState_invariant keep h0 hops).imp fun _ ⟨u, hi⟩ => ⟨u, hi.wellFormed⟩,
    everyStep_of_invariant keep (fun _ _ ⟨_, hi⟩ ha => (hi.step ha).1) h0 hops⟩

theorem mem_of_reachable (t : MmAvlTable) (nodes : List ℕ) (hroot : t.tree.root = 0 ∨ t.tree.root ∈ nodes)
    (hclosed : ∀ p ∈ nodes, (t.tree.leftChild p = 0 ∨ t.tree.leftChild p ∈ nodes) ∧
      (t.tree.rightChild p = 0 ∨ t.tree.rightChild p ∈ nodes)) {p : ℕ} (h : t.Reachable p) : p ∈ nodes := by
  induction h with
  | root hne => exact hroot.resolve_left hne
  | left _ hne ih => exact (hclosed _ ih).1.resolve_left hne
  | right _ hne ih => exact (hclosed _ ih).2.resolve_left hne

/-- Memory that holds zeros. -/
def blank : MmAvlTable :=
  { tree := ⟨0, fun _ => 0, fun _ => 0, fun _ => 0⟩
    nodeCount := 0
    startingVpn := fun _ => 0
    endingVpn := fun _ => 0
    flags := fun _ => 0
    balance := fun _ => 0 }

/-- The third insertion rotates; the middle region is split and its lower half removed. -/
def rotation : List VadOp := [.insert 1 20 29, .insert 2 30 39, .insert 3 40 49, .split 2 35 4, .remove 2]

theorem admitted_rotation : EveryStep step Admitted blank.new rotation :=
  ⟨⟨by decide, fun h => absurd (mem_of_reachable _ [] (by decide) (by decide) h) (by decide), by decide⟩,
    ⟨by decide, fun h => absurd (mem_of_reachable _ [1] (by decide) (by decide) h) (by decide), by decide⟩,
    ⟨by decide, fun h => absurd (mem_of_reachable _ [1, 2] (by decide) (by decide) h) (by decide), by decide⟩,
    ⟨.root (by decide), Or.inr fun h => absurd (mem_of_reachable _ [1, 2, 3] (by decide) (by decide) h) (by decide)⟩,
    .root (by decide), trivial⟩

theorem vadTree_wellFormed_rotation :
    EveryState step (fun t => ∃ u, t.WellFormed u) blank.new rotation :=
  (vadTree_wellFormed admitted_rotation).1

end MmAvlTable

end XenOS.Mm
