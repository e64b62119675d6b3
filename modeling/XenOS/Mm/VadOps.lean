import XenOS.Mm.VadBalance

/-! Insertion and removal on a table that represents an AVL tree with its ranges in
order: a new node splits the ranges into those below and those above it, unless one of
them overlaps. -/

namespace XenOS.Mm

open General BinaryTree TreeHeap
open List (mem_append mem_cons not_mem_nil pairwise_append)

namespace MmAvlTable

/-- The first range ends before the second starts. -/
def Precedes (t : MmAvlTable) (p q : ℕ) : Prop := t.endingVpn p < t.startingVpn q

/-- The table represents an AVL tree of ranges in order. A range may be empty; then it ends
one page before its start. -/
structure IsTree (t : MmAvlTable) (u : BinaryTree ℕ) : Prop where
  focus : t.Focus [] u
  balanced : Balanced u
  cached : Cached t.balance u
  ordered : (inorder u).Pairwise t.Precedes
  ranges : ∀ q ∈ inorder u, t.startingVpn q ≤ t.endingVpn q + 1

structure SameRanges (t t' : MmAvlTable) : Prop where
  startingVpn : t'.startingVpn = t.startingVpn
  endingVpn : t'.endingVpn = t.endingVpn
  flags : t'.flags = t.flags

theorem SameRanges.precedes {t t' : MmAvlTable} (h : SameRanges t t') : t'.Precedes = t.Precedes := by
  funext p q
  rw [Precedes, Precedes, h.startingVpn, h.endingVpn]

variable {t t' : MmAvlTable} {c : List (Frame ℕ)} {u v l r : BinaryTree ℕ} {vad : ℕ}

section
variable (h : t.IsTree u)
include h

theorem IsTree.root_eq : t.tree.root = rootOf 0 u := h.focus.tree.hole

theorem IsTree.root_eq_zero : t.tree.root = 0 ↔ u = .nil := by
  rw [h.root_eq]
  exact TreeHeap.rootOf_eq_nil h.focus.tree.rep

theorem IsTree.nodup : (inorder u).Nodup := h.focus.nodup

theorem IsTree.ne_zero {q : ℕ} (hq : q ∈ inorder u) : q ≠ 0 := h.focus.tree.rep.ne_nil hq

theorem IsTree.nodeCount_eq : t.nodeCount = (inorder u).length := by
  rw [length_inorder]
  exact h.focus.count

theorem IsTree.congr (hroot : t'.tree.root = t.tree.root) (hcount : t'.nodeCount = t.nodeCount)
    (hs : ∀ q ∈ inorder u, SameAt t.tree t'.tree q ∧ t'.balance q = t.balance q ∧
      t'.startingVpn q = t.startingVpn q ∧ t'.endingVpn q = t.endingVpn q) : t'.IsTree u where
  focus := ⟨h.focus.tree.congr hroot fun q hq => (hs q hq).1, hcount.trans h.focus.count⟩
  balanced := h.balanced
  cached := h.cached.congr fun q hq => (hs q hq).2.1
  ordered := h.ordered.imp_of_mem fun hp hq hpq => by
    unfold Precedes at hpq ⊢
    rwa [(hs _ hp).2.2.2, (hs _ hq).2.2.1]
  ranges q hq := by
    rw [(hs q hq).2.2.1, (hs q hq).2.2.2]
    exact h.ranges q hq

end

theorem IsTree.of_climb {h : ℕ} (hf : t'.Focus [] (climb c v)) (hv : Balanced v) (hc : Suits h c) (hup : v.height ≤ h + 1)
    (hdown : h ≤ v.height + 1) (hcached : Cached t'.balance (climb c v))
    (hordered : (inorder (plug c v)).Pairwise t'.Precedes)
    (hranges : ∀ q ∈ inorder (plug c v), t'.startingVpn q ≤ t'.endingVpn q + 1) : t'.IsTree (climb c v) where
  focus := hf
  balanced := balanced_climb hv hc hup hdown
  cached := hcached
  ordered := by rwa [inorder_climb]
  ranges := by rwa [inorder_climb]

theorem cached_plug {balance : ℕ → ℤ} (h : Cached balance (plug c u)) : Cached balance u ∧ CachedAround balance c := by
  induction c generalizing u with
  | nil => exact ⟨h, fun f hf => absurd hf not_mem_nil⟩
  | cons f c ih =>
    obtain ⟨hf, hc⟩ := ih (u := f.plug u) h
    cases f with
    | left a r =>
      refine ⟨hf.2.1, fun g hg => ?_⟩
      rcases mem_cons.1 hg with rfl | hg
      · exact hf.2.2
      · exact hc g hg
    | right a l =>
      refine ⟨hf.2.2, fun g hg => ?_⟩
      rcases mem_cons.1 hg with rfl | hg
      · exact hf.2.1
      · exact hc g hg

/-! ### Insertion -/

theorem IsTree.resetNode (h : t.IsTree u) (hv : vad ∉ inorder u) : (t.resetNode vad).IsTree u :=
  h.congr rfl rfl fun q hq => by
    have hne : q ≠ vad := by
      rintro rfl
      exact hv hq
    exact ⟨(sameAt_setLeftChild hne).trans (sameAt_setRightChild hne), Function.update_of_ne hne _ _, rfl, rfl⟩

def side : List (Frame ℕ) → Bool
  | [] => false
  | f :: _ => f.isLeft

theorem descend_spec (newStart newEnd : ℕ) (v : BinaryTree ℕ) : ∀ {c : List (Frame ℕ)} {fuel : ℕ},
    t.Focus c v → (inorder (plug c v)).Pairwise t.Precedes →
    (∀ q ∈ inorder (plug c v), t.startingVpn q ≤ t.endingVpn q + 1) →
    (∀ q ∈ before c, t.endingVpn q < newStart) → (∀ q ∈ after c, newEnd < t.startingVpn q) → v.height < fuel →
    (∃ c', plug c' .nil = plug c v ∧ (∀ q ∈ before c', t.endingVpn q < newStart) ∧
      (∀ q ∈ after c', newEnd < t.startingVpn q) ∧
      t.descend newStart newEnd fuel (top 0 c) (rootOf 0 v) (side c) = some (some (top 0 c', side c'))) ∨
    (∃ q ∈ inorder v, t.startingVpn q ≤ newEnd ∧ newStart ≤ t.endingVpn q ∧
      t.descend newStart newEnd fuel (top 0 c) (rootOf 0 v) (side c) = some none) := by
  induction v with
  | nil =>
    intro c fuel _ _ _ hb ha hfuel
    obtain ⟨fuel, rfl⟩ := Nat.exists_eq_add_one.2 hfuel
    exact Or.inl ⟨c, rfl, hb, ha, if_pos rfl⟩
  | node x l r ihl ihr =>
    intro c fuel hf hordered hranges hb ha hfuel
    obtain ⟨fuel, rfl⟩ := Nat.exists_eq_add_one.2 (Nat.zero_lt_of_lt hfuel)
    obtain ⟨hx, -, hlx, hrx, -⟩ := hf.tree.rep
    simp only [height] at hfuel
    have hheightl : l.height < fuel := by omega
    have hheightr : r.height < fuel := by omega
    have hfl : t.Focus (.left x r :: c) l := focus_cons.2 hf
    have hfr : t.Focus (.right x l :: c) r := focus_cons.2 hf
    have hpair := hordered
    rw [inorder_plug, inorder_node] at hpair
    have hlow : ∀ q ∈ inorder l, t.Precedes q x := fun q hq => by
      have := (pairwise_append.1 (pairwise_append.1 (pairwise_append.1 hpair).1).2.1).2.2
      exact this q hq x (by simp)
    have hhigh : ∀ q ∈ inorder r, t.Precedes x q :=
      List.pairwise_cons.1 (pairwise_append.1 (pairwise_append.1 (pairwise_append.1 hpair).1).2.1).2.1 |>.1
    have hmem : ∀ q ∈ inorder (.node x l r), q ∈ inorder (plug c (.node x l r)) := fun q hq => by
      rw [inorder_plug]
      exact List.mem_append_left _ (List.mem_append_right _ hq)
    have hrx' := hranges x (hmem x (by simp))
    rw [descend, rootOf, if_neg hx]
    split_ifs with h1 h2
    · -- below this node
      have hafter : ∀ q ∈ after (.left x r :: c), newEnd < t.startingVpn q := fun q hq => by
        simp only [after, mem_append, mem_cons] at hq
        rcases hq with (rfl | hq) | hq
        · exact h1
        · have := hhigh q hq
          unfold Precedes at this
          omega
        · exact ha q hq
      rw [hlx]
      rcases ihl hfl hordered hranges hb hafter hheightl with ⟨c', hc', hb', ha', hd⟩ | ⟨q, hq, hq1, hq2, hd⟩
      · exact Or.inl ⟨c', hc', hb', ha', hd⟩
      · exact Or.inr ⟨q, by simp [hq], hq1, hq2, hd⟩
    · -- above this node
      have hbefore : ∀ q ∈ before (.right x l :: c), t.endingVpn q < newStart := fun q hq => by
        simp only [before, mem_append, mem_cons, not_mem_nil, or_false] at hq
        rcases hq with hq | hq | rfl
        · exact hb q hq
        · have := hlow q hq
          unfold Precedes at this
          omega
        · exact h2
      rw [hrx]
      rcases ihr hfr hordered hranges hbefore ha hheightr with ⟨c', hc', hb', ha', hd⟩ | ⟨q, hq, hq1, hq2, hd⟩
      · exact Or.inl ⟨c', hc', hb', ha', hd⟩
      · exact Or.inr ⟨q, by simp [hq], hq1, hq2, hd⟩
    · exact Or.inr ⟨x, by simp, by omega, by omega, rfl⟩

structure Inserted (t : MmAvlTable) (u : BinaryTree ℕ) (vad : ℕ) (t' : MmAvlTable) (u' : BinaryTree ℕ) : Prop where
  isTree : t'.IsTree u'
  same : SameRanges t t'
  nodes : ∃ as bs, inorder u = as ++ bs ∧ inorder u' = as ++ vad :: bs ∧
    (∀ q ∈ as, t.endingVpn q < t.startingVpn vad) ∧ ∀ q ∈ bs, t.endingVpn vad < t.startingVpn q

theorem pairwise_insert {as bs : List ℕ} (h : (as ++ bs).Pairwise t.Precedes)
    (ha : ∀ q ∈ as, t.endingVpn q < t.startingVpn vad) (hb : ∀ q ∈ bs, t.endingVpn vad < t.startingVpn q) :
    (as ++ vad :: bs).Pairwise t.Precedes := by
  obtain ⟨h1, h2, h3⟩ := pairwise_append.1 h
  refine pairwise_append.2 ⟨h1, List.pairwise_cons.2 ⟨hb, h2⟩, fun p hp q hq => ?_⟩
  rcases mem_cons.1 hq with rfl | hq
  · exact ha p hp
  · exact h3 p hp q hq

theorem IsTree.of_same {h : ℕ} (hf : t'.Focus [] (climb c v)) (hs : SameRanges t t') (hv : Balanced v) (hc : Suits h c)
    (hup : v.height ≤ h + 1) (hdown : h ≤ v.height + 1) (hcached : Cached t'.balance (climb c v))
    (hordered : (inorder (plug c v)).Pairwise t.Precedes)
    (hranges : ∀ q ∈ inorder (plug c v), t.startingVpn q ≤ t.endingVpn q + 1) : t'.IsTree (climb c v) :=
  IsTree.of_climb hf hv hc hup hdown hcached (by rwa [hs.precedes]) (by rwa [hs.startingVpn, hs.endingVpn])

theorem IsTree.attach (h : t.IsTree u) (hv : vad ≠ 0) (hfresh : vad ∉ inorder u) (hl : t.tree.leftChild vad = 0)
    (hr : t.tree.rightChild vad = 0) (hbal : t.balance vad = 0) (hrange : t.startingVpn vad ≤ t.endingVpn vad + 1)
    {f : Frame ℕ} (hc : plug (f :: c) .nil = u) (hb : ∀ q ∈ before (f :: c), t.endingVpn q < t.startingVpn vad)
    (ha : ∀ q ∈ after (f :: c), t.endingVpn vad < t.startingVpn q) :
    ∃ t' u', (t.attach vad f.value f.isLeft).miRebalanceTree vad = some t' ∧ Inserted t u vad t' u' := by
  subst hc
  let leaf : BinaryTree ℕ := .node vad .nil .nil
  let t1 := t.attach vad f.value f.isLeft
  have hsplit : inorder (plug (f :: c) .nil) = before (f :: c) ++ after (f :: c) := by
    rw [inorder_plug]
    simp
  have hsplit' : inorder (plug (f :: c) leaf) = before (f :: c) ++ vad :: after (f :: c) := by
    rw [inorder_plug]
    simp [leaf]
  have hhole := focus_plug.1 h.focus
  rw [hsplit] at hfresh
  have hf1 : t1.Focus (f :: c) leaf := by
    refine ⟨hhole.tree.fill hv hfresh hl hr, ?_⟩
    have hcount := h.nodeCount_eq
    rw [← length_inorder, hsplit']
    rw [hsplit] at hcount
    simp only [List.length_append, List.length_cons] at hcount ⊢
    show t.nodeCount + 1 = _
    omega
  have hleaf : Balanced leaf := ⟨trivial, trivial, by simp, by simp⟩
  have hreb : rebalance leaf = leaf := rebalance_of_balanced (by simp) (by simp)
  obtain ⟨-, hsuits⟩ := balanced_plug.1 h.balanced
  obtain ⟨-, haround⟩ := cached_plug h.cached
  -- the new node first
  obtain ⟨t2, hstep, hfixed⟩ := hf1.rebalanceNode (l := .nil) (r := .nil) trivial trivial trivial trivial (by simp) (by simp)
  obtain ⟨t3, k, hk, hloop, hf3, hs3, hc3, hc3'⟩ :=
    hfixed.next_turn (2 * t.nodeCount + 2) hf1.tree.nodup (by rw [hreb]; simp [leaf]) (by rwa [hreb]) haround
  rw [show rebalance (.node vad .nil .nil) = leaf from hreb] at hf3 hc3
  have hlen : (f :: c).length ≤ t.nodeCount := by
    have := length_lt_numNodes_plug (c := f :: c) (t := (.nil : BinaryTree ℕ))
    rw [h.focus.count]
    exact Nat.le_trans (Nat.le_add_right _ _) this
  -- then the nodes above it
  obtain ⟨t4, hrest, hf4, hs4, hc4⟩ :=
    rebalanceLoop_climb (f :: c) hf3 hleaf hc3 hc3' hsuits (by simp [leaf]) (by simp)
      (show 2 * (f :: c).length < 2 * t.nodeCount + 2 + 1 - k by omega)
  have hsame : SameRanges t t4 := ⟨(hs3.trans hs4).startingVpn, (hs3.trans hs4).endingVpn, (hs3.trans hs4).flags⟩
  have hordered := h.ordered
  rw [hsplit] at hordered
  refine ⟨t4, climb (f :: c) leaf, ?_, ?_, hsame, before (f :: c), after (f :: c), hsplit, ?_, hb, ha⟩
  · have hfuel : 2 * (t.attach vad f.value f.isLeft).nodeCount + 2 = 2 * t.nodeCount + 2 + 1 + 1 := by
      show 2 * (t.nodeCount + 1) + 2 = _
      omega
    rw [miRebalanceTree, hfuel, rebalanceLoop, if_neg hv, hstep]
    simp only [Option.bind_eq_bind, Option.bind_some]
    rw [hloop, hrest]
  · refine IsTree.of_same hf4 hsame hleaf hsuits (by simp [leaf]) (by simp) hc4 ?_ ?_
    · rw [hsplit']
      exact pairwise_insert hordered hb ha
    · rw [hsplit']
      intro q hq
      rcases mem_append.1 hq with hq | hq
      · exact h.ranges q (by rw [hsplit]; exact List.mem_append_left _ hq)
      · rcases mem_cons.1 hq with rfl | hq
        · exact hrange
        · exact h.ranges q (by rw [hsplit]; exact List.mem_append_right _ hq)
  · rw [inorder_climb, hsplit']

theorem inserted_first (hv : vad ≠ 0) (hl : t.tree.leftChild vad = 0) (hr : t.tree.rightChild vad = 0)
    (hbal : t.balance vad = 0) (hrange : t.startingVpn vad ≤ t.endingVpn vad + 1) :
    Inserted t .nil vad { t with tree := { t.tree with root := vad }.setParent vad 0, nodeCount := 1 }
      (.node vad .nil .nil) where
  isTree :=
    { focus := ⟨⟨rfl, ⟨hv, Function.update_self .., hl, hr, trivial, trivial⟩, by simp [plug]⟩, rfl⟩
      balanced := ⟨trivial, trivial, by simp, by simp⟩
      cached := ⟨by simpa using hbal, trivial, trivial⟩
      ordered := by simp
      ranges := by simpa using hrange }
  same := ⟨rfl, rfl, rfl⟩
  nodes := ⟨[], [], by simp⟩

theorem IsTree.miInsertVad (h : t.IsTree u) (hv : vad ≠ 0) (hfresh : vad ∉ inorder u)
    (hrange : t.startingVpn vad ≤ t.endingVpn vad + 1) :
    (∃ t' u', t.miInsertVad vad = some (.success, t') ∧ Inserted t u vad t' u') ∨
    (∃ q ∈ inorder u, t.startingVpn q ≤ t.endingVpn vad ∧ t.startingVpn vad ≤ t.endingVpn q ∧
      t.miInsertVad vad = some (.conflictingAddresses, t.resetNode vad)) := by
  have h0 := h.resetNode hfresh
  have hl0 : (t.resetNode vad).tree.leftChild vad = 0 := Function.update_self ..
  have hr0 : (t.resetNode vad).tree.rightChild vad = 0 := Function.update_self ..
  have hb0 : (t.resetNode vad).balance vad = 0 := Function.update_self ..
  have hinserted : ∀ t' u', Inserted (t.resetNode vad) u vad t' u' → Inserted t u vad t' u' := fun t' u' hi =>
    ⟨hi.isTree, ⟨hi.same.1, hi.same.2, hi.same.3⟩, hi.nodes⟩
  rw [MmAvlTable.miInsertVad, if_neg hv]
  dsimp only
  by_cases hroot : (t.resetNode vad).tree.root = 0
  · rw [if_pos hroot]
    obtain rfl := h0.root_eq_zero.1 hroot
    exact Or.inl ⟨_, _, rfl, hinserted _ _ (inserted_first hv hl0 hr0 hb0 hrange)⟩
  · rw [if_neg hroot, h0.root_eq]
    have hheight : u.height < (t.resetNode vad).nodeCount + 1 := Nat.lt_succ_of_le h0.focus.height_le
    rcases descend_spec (t.startingVpn vad) (t.endingVpn vad) u (c := []) h0.focus h0.ordered h0.ranges
      (fun q hq => absurd hq not_mem_nil) (fun q hq => absurd hq not_mem_nil) hheight with
      ⟨c', hc', hb', ha', hd⟩ | ⟨q, hq, hq1, hq2, hd⟩
    · cases c' with
      | nil =>
        -- a hole at the root would mean an empty tree
        obtain rfl : (.nil : BinaryTree ℕ) = u := hc'
        exact absurd (h0.root_eq_zero.2 rfl) hroot
      | cons f c' =>
        obtain ⟨t', u', hreb, hi⟩ := h0.attach hv hfresh hl0 hr0 hb0 hrange hc' hb' ha'
        refine Or.inl ⟨t', u', ?_, hinserted _ _ hi⟩
        rw [show (t.resetNode vad).descend (t.startingVpn vad) (t.endingVpn vad) ((t.resetNode vad).nodeCount + 1) 0
          (rootOf 0 u) false = some (some (f.value, f.isLeft)) from hd]
        simp only [Option.bind_eq_bind, Option.bind_some, hreb]
        rfl
    · refine Or.inr ⟨q, hq, hq1, hq2, ?_⟩
      rw [show (t.resetNode vad).descend (t.startingVpn vad) (t.endingVpn vad) ((t.resetNode vad).nodeCount + 1) 0
        (rootOf 0 u) false = some none from hd]
      rfl

end MmAvlTable

end XenOS.Mm
