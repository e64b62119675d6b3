import XenOS.Mm.Vad

/-! The rotations and the rebalancing loop on the tree that the nodes represent. -/

namespace XenOS.Mm

open General BinaryTree TreeHeap List
open Function (update update_self update_of_ne)

section Rotations
variable {s : TreeHeap ℕ 0} {c : List (Frame ℕ)} {a b d : BinaryTree ℕ} {x y q : ℕ}

/-- The nodes of a rotation are all different. -/
structure Apart (c : List (Frame ℕ)) (a b d : BinaryTree ℕ) (x y : ℕ) : Prop where
  context : (before c ++ after c).Nodup
  inner : (inorder b).Nodup
  xy : x ≠ y
  outside : ∀ q ∈ before c ++ after c, q ≠ x ∧ q ≠ y ∧ q ∉ inorder a ∧ q ∉ inorder b ∧ q ∉ inorder d
  first : ∀ q ∈ inorder a, q ≠ x ∧ q ≠ y ∧ q ∉ inorder b
  second : ∀ q ∈ inorder b, q ≠ x ∧ q ≠ y
  third : ∀ q ∈ inorder d, q ≠ x ∧ q ≠ y ∧ q ∉ inorder b

theorem apart_of_nodup (h : (before c ++ (inorder a ++ x :: (inorder b ++ y :: inorder d)) ++ after c).Nodup) :
    Apart c a b d x y := by
  have hall : ((before c ++ after c) ++ x :: y :: (inorder a ++ (inorder b ++ inorder d))).Nodup := by
    refine (Perm.nodup_iff ?_).1 h
    rw [perm_iff_count]
    intro q
    simp only [count_append, count_cons]
    omega
  obtain ⟨hc, ht, hct⟩ := nodup_append.1 hall
  obtain ⟨hx, ht⟩ := nodup_cons.1 ht
  obtain ⟨hy, ht⟩ := nodup_cons.1 ht
  obtain ⟨-, ht, habd⟩ := nodup_append.1 ht
  obtain ⟨hb, -, hbd⟩ := nodup_append.1 ht
  simp only [mem_cons, mem_append, not_or] at hx hy
  refine ⟨hc, hb, hx.1, fun q hq => ?_, fun q hq => ?_, fun q hq => ?_, fun q hq => ?_⟩
  · refine ⟨hct q hq x (by simp), hct q hq y (by simp), fun hmem => ?_, fun hmem => ?_, fun hmem => ?_⟩
    all_goals exact hct q hq q (by simp [hmem]) rfl
  · exact ⟨fun heq => hx.2.1 (heq ▸ hq), fun heq => hy.1 (heq ▸ hq), fun hmem => habd q hq q (mem_append_left _ hmem) rfl⟩
  · exact ⟨fun heq => hx.2.2.1 (heq ▸ hq), fun heq => hy.2.1 (heq ▸ hq)⟩
  · exact ⟨fun heq => hx.2.2.2 (heq ▸ hq), fun heq => hy.2.2 (heq ▸ hq), fun hmem => hbd q hmem q hq rfl⟩

theorem Apart.symm (h : Apart c a b d x y) : Apart c d b a y x where
  context := h.context
  inner := h.inner
  xy := h.xy.symm
  outside q hq := by
    have := h.outside q hq
    tauto
  first q hq := by
    have := h.third q hq
    tauto
  second q hq := (h.second q hq).symm
  third q hq := by
    have := h.first q hq
    tauto

open MmAvlTable in
theorem focus_relinkLeft (h : s.Focus c (.node x a (.node y b d))) :
    (relinkLeft s x y).Focus c (.node y (.node x a b) d) := by
  obtain ⟨hole, ⟨hx, hpx, hlx, hrx, ha, hy, hpy, hly, hry, hb, hd⟩, hnd⟩ := h
  rw [inorder_plug] at hnd
  have hap : Apart c a b d x y := apart_of_nodup hnd
  have hxc : x ∉ before c ++ after c := fun hm => (hap.outside x hm).1 rfl
  have hyc : y ∉ before c ++ after c := fun hm => (hap.outside y hm).2.1 rfl
  have hxt : x ≠ top 0 c := ne_top hx hxc
  have hyt : y ≠ top 0 c := ne_top hy hyc
  have hxb : x ≠ rootOf 0 b := ne_rootOf hx fun hm => (hap.second x hm).1 rfl
  have hyb : y ≠ rootOf 0 b := ne_rootOf hy fun hm => (hap.second y hm).2 rfl
  -- the stores one by one
  let s1 := s.setRightChild x (rootOf 0 b)
  let s2 := s1.adopt (rootOf 0 b) x
  let s3 := s2.setParent y (top 0 c)
  let s4 := s3.replaceChild (top 0 c) x y
  let s5 := (s4.setLeftChild y x).setParent x y
  have h2 : s2.parent x = top 0 c := (sameAt_adopt hxb).parent.trans hpx
  have h3 : s3.parent x = top 0 c := (sameAt_setParent hap.xy).parent.trans h2
  have hstores : relinkLeft s x y = s5 := by
    simp only [relinkLeft, leftChild_setRightChild, hly]
    rw [show ((s.setRightChild x (rootOf 0 b)).adopt (rootOf 0 b) x).parent x = top 0 c from h2]
    rw [show (((s.setRightChild x (rootOf 0 b)).adopt (rootOf 0 b) x).setParent y (top 0 c)).parent x = top 0 c from h3]
  -- what they leave alone
  have hfirst : ∀ q, q ≠ x → q ≠ y → q ≠ rootOf 0 b → SameAt s s3 q := fun q hqx hqy hqb =>
    ((sameAt_setRightChild hqx).trans (sameAt_adopt hqb)).trans (sameAt_setParent hqy)
  have hlast : ∀ q, q ≠ x → q ≠ y → SameAt s4 s5 q := fun q hqx hqy =>
    (sameAt_setLeftChild hqy).trans (sameAt_setParent hqx)
  have hsub : ∀ {t : BinaryTree ℕ} {p : ℕ}, s.Rep p t →
      (∀ q ∈ inorder t, q ≠ x ∧ q ≠ y ∧ q ∉ inorder b ∧ q ∉ before c ++ after c) → s5.Rep p t := fun hrep hq =>
    hrep.congr fun q hm => by
      obtain ⟨hqx, hqy, hqb, hqc⟩ := hq q hm
      have hq0 := hrep.ne_nil hm
      exact ((hfirst q hqx hqy (ne_rootOf hq0 hqb)).trans (sameAt_replaceChild (ne_top hq0 hqc))).trans
        (hlast q hqx hqy)
  have hb2 : s2.Rep x b := (hb.congr fun q hq => sameAt_setRightChild (hap.second q hq).1).adopt hap.inner
  have hb5 : s5.Rep x b := hb2.congr fun q hq => by
    obtain ⟨hqx, hqy⟩ := hap.second q hq
    have hqt : q ≠ top 0 c := ne_top (hb.ne_nil hq) fun hm => (hap.outside q hm).2.2.2.1 hq
    exact ((sameAt_setParent hqy).trans (sameAt_replaceChild hqt)).trans (hlast q hqx hqy)
  have hole3 : s3.Hole x c := hole.congr root_adopt fun q hq => by
    obtain ⟨hqx, hqy, -, hqb, -⟩ := hap.outside q hq
    exact hfirst q hqx hqy (ne_rootOf (hole.ne_nil hq) hqb)
  have hole5 : s5.Hole y c := (hole3.replaceChild hx hxc hap.context).congr rfl fun q hq =>
    hlast q (hap.outside q hq).1 (hap.outside q hq).2.1
  have hx4 : SameAt s3 s4 x := sameAt_replaceChild hxt
  have hy4 : SameAt s3 s4 y := sameAt_replaceChild hyt
  rw [hstores]
  refine ⟨hole5, ⟨hy, ?_, ?_, ?_, ⟨hx, ?_, ?_, ?_, ?_, hb5⟩, ?_⟩, ?_⟩
  · calc s5.parent y = s4.parent y := update_of_ne hap.xy.symm _ _
      _ = s3.parent y := hy4.parent
      _ = top 0 c := update_self ..
  · exact update_self ..
  · exact hy4.rightChild.trans (((sameAt_setRightChild hap.xy.symm).trans (sameAt_adopt hyb)).rightChild.trans hry)
  · exact update_self ..
  · calc s5.leftChild x = s4.leftChild x := update_of_ne hap.xy _ _
      _ = s3.leftChild x := hx4.leftChild
      _ = s.leftChild x := congrFun leftChild_adopt x
      _ = rootOf 0 a := hlx
  · calc s5.rightChild x = s3.rightChild x := hx4.rightChild
      _ = s1.rightChild x := congrFun rightChild_adopt x
      _ = rootOf 0 b := update_self ..
  · exact hsub ha fun q hq => ⟨(hap.first q hq).1, (hap.first q hq).2.1, (hap.first q hq).2.2,
      fun hm => (hap.outside q hm).2.2.1 hq⟩
  · exact hsub hd fun q hq => ⟨(hap.third q hq).1, (hap.third q hq).2.1, (hap.third q hq).2.2,
      fun hm => (hap.outside q hm).2.2.2.2 hq⟩
  · rw [inorder_plug]
    simpa using hnd

open MmAvlTable in
theorem focus_relinkRight (h : s.Focus c (.node y (.node x a b) d)) :
    (relinkRight s x y).Focus c (.node x a (.node y b d)) := by
  obtain ⟨hole, ⟨hy, hpy, hly, hry, ⟨hx, hpx, hlx, hrx, ha, hb⟩, hd⟩, hnd⟩ := h
  rw [inorder_plug] at hnd
  have hap : Apart c d b a y x := (apart_of_nodup (by simpa using hnd)).symm
  have hyc : y ∉ before c ++ after c := fun hm => (hap.outside y hm).1 rfl
  have hxc : x ∉ before c ++ after c := fun hm => (hap.outside x hm).2.1 rfl
  have hyt : y ≠ top 0 c := ne_top hy hyc
  have hxt : x ≠ top 0 c := ne_top hx hxc
  have hyb : y ≠ rootOf 0 b := ne_rootOf hy fun hm => (hap.second y hm).1 rfl
  have hxb : x ≠ rootOf 0 b := ne_rootOf hx fun hm => (hap.second x hm).2 rfl
  -- the stores one by one
  let s1 := s.setLeftChild y (rootOf 0 b)
  let s2 := s1.adopt (rootOf 0 b) y
  let s3 := s2.setParent x (top 0 c)
  let s4 := s3.replaceChild (top 0 c) y x
  let s5 := (s4.setRightChild x y).setParent y x
  have h2 : s2.parent y = top 0 c := (sameAt_adopt hyb).parent.trans hpy
  have h3 : s3.parent y = top 0 c := (sameAt_setParent hap.xy).parent.trans h2
  have hstores : relinkRight s x y = s5 := by
    simp only [relinkRight, rightChild_setLeftChild, hrx]
    rw [show ((s.setLeftChild y (rootOf 0 b)).adopt (rootOf 0 b) y).parent y = top 0 c from h2]
    rw [show (((s.setLeftChild y (rootOf 0 b)).adopt (rootOf 0 b) y).setParent x (top 0 c)).parent y = top 0 c from h3]
  -- what they leave alone
  have hfirst : ∀ q, q ≠ y → q ≠ x → q ≠ rootOf 0 b → SameAt s s3 q := fun q hqy hqx hqb =>
    ((sameAt_setLeftChild hqy).trans (sameAt_adopt hqb)).trans (sameAt_setParent hqx)
  have hlast : ∀ q, q ≠ y → q ≠ x → SameAt s4 s5 q := fun q hqy hqx =>
    (sameAt_setRightChild hqx).trans (sameAt_setParent hqy)
  have hsub : ∀ {t : BinaryTree ℕ} {p : ℕ}, s.Rep p t →
      (∀ q ∈ inorder t, q ≠ y ∧ q ≠ x ∧ q ∉ inorder b ∧ q ∉ before c ++ after c) → s5.Rep p t := fun hrep hq =>
    hrep.congr fun q hm => by
      obtain ⟨hqy, hqx, hqb, hqc⟩ := hq q hm
      have hq0 := hrep.ne_nil hm
      exact ((hfirst q hqy hqx (ne_rootOf hq0 hqb)).trans (sameAt_replaceChild (ne_top hq0 hqc))).trans
        (hlast q hqy hqx)
  have hb2 : s2.Rep y b := (hb.congr fun q hq => sameAt_setLeftChild (hap.second q hq).1).adopt hap.inner
  have hb5 : s5.Rep y b := hb2.congr fun q hq => by
    obtain ⟨hqy, hqx⟩ := hap.second q hq
    have hqt : q ≠ top 0 c := ne_top (hb.ne_nil hq) fun hm => (hap.outside q hm).2.2.2.1 hq
    exact ((sameAt_setParent hqx).trans (sameAt_replaceChild hqt)).trans (hlast q hqy hqx)
  have hole3 : s3.Hole y c := hole.congr root_adopt fun q hq => by
    obtain ⟨hqy, hqx, -, hqb, -⟩ := hap.outside q hq
    exact hfirst q hqy hqx (ne_rootOf (hole.ne_nil hq) hqb)
  have hole5 : s5.Hole x c := (hole3.replaceChild hy hyc hap.context).congr rfl fun q hq =>
    hlast q (hap.outside q hq).1 (hap.outside q hq).2.1
  have hy4 : SameAt s3 s4 y := sameAt_replaceChild hyt
  have hx4 : SameAt s3 s4 x := sameAt_replaceChild hxt
  rw [hstores]
  refine ⟨hole5, ⟨hx, ?_, ?_, ?_, ?_, ⟨hy, ?_, ?_, ?_, hb5, ?_⟩⟩, ?_⟩
  · calc s5.parent x = s4.parent x := update_of_ne hap.xy.symm _ _
      _ = s3.parent x := hx4.parent
      _ = top 0 c := update_self ..
  · exact hx4.leftChild.trans (((sameAt_setLeftChild hap.xy.symm).trans (sameAt_adopt hxb)).leftChild.trans hlx)
  · exact update_self ..
  · exact hsub ha fun q hq => ⟨(hap.third q hq).1, (hap.third q hq).2.1, (hap.third q hq).2.2,
      fun hm => (hap.outside q hm).2.2.2.2 hq⟩
  · exact update_self ..
  · calc s5.leftChild y = s3.leftChild y := hy4.leftChild
      _ = s1.leftChild y := congrFun leftChild_adopt y
      _ = rootOf 0 b := update_self ..
  · calc s5.rightChild y = s4.rightChild y := update_of_ne hap.xy _ _
      _ = s3.rightChild y := hy4.rightChild
      _ = s.rightChild y := congrFun rightChild_adopt y
      _ = rootOf 0 d := hry
  · exact hsub hd fun q hq => ⟨(hap.first q hq).1, (hap.first q hq).2.1, (hap.first q hq).2.2,
      fun hm => (hap.outside q hm).2.2.1 hq⟩
  · rw [inorder_plug]
    simpa using hnd

end Rotations

/-! ### Heights and cached balances -/

def Cached (balance : ℕ → ℤ) : BinaryTree ℕ → Prop
  | .nil => True
  | .node a l r => balance a = (r.height : ℤ) - l.height ∧ Cached balance l ∧ Cached balance r

theorem Cached.congr {balance balance' : ℕ → ℤ} {u : BinaryTree ℕ} (h : Cached balance u)
    (hb : ∀ q ∈ inorder u, balance' q = balance q) : Cached balance' u := by
  induction u with
  | nil => trivial
  | node a l r ihl ihr =>
    obtain ⟨ha, hl, hr⟩ := h
    exact ⟨(hb a (by simp)).trans ha, ihl hl fun q hq => hb q (by simp [hq]), ihr hr fun q hq => hb q (by simp [hq])⟩

theorem asI8_eq {i : ℤ} (h : -128 ≤ i) (h' : i < 128) : MmAvlTable.asI8 i = i := by
  unfold MmAvlTable.asI8 Int.bmod
  dsimp only
  split <;> omega

namespace MmAvlTable

structure Focus (t : MmAvlTable) (c : List (Frame ℕ)) (u : BinaryTree ℕ) : Prop where
  tree : t.tree.Focus c u
  count : t.nodeCount = (plug c u).numNodes

/-- What rebalancing leaves alone. -/
structure SameData (t t' : MmAvlTable) : Prop where
  nodeCount : t'.nodeCount = t.nodeCount
  startingVpn : t'.startingVpn = t.startingVpn
  endingVpn : t'.endingVpn = t.endingVpn
  flags : t'.flags = t.flags

theorem SameData.refl (t : MmAvlTable) : SameData t t := ⟨rfl, rfl, rfl, rfl⟩

theorem SameData.trans {t t' t'' : MmAvlTable} (h : SameData t t') (h' : SameData t' t'') : SameData t t'' :=
  ⟨h'.nodeCount.trans h.nodeCount, h'.startingVpn.trans h.startingVpn, h'.endingVpn.trans h.endingVpn,
    h'.flags.trans h.flags⟩

variable {t : MmAvlTable} {c : List (Frame ℕ)} {f : Frame ℕ} {u l r a b d : BinaryTree ℕ} {x y : ℕ}

theorem focus_cons : t.Focus (f :: c) u ↔ t.Focus c (f.plug u) :=
  ⟨fun h => ⟨TreeHeap.focus_cons.1 h.tree, h.count⟩, fun h => ⟨TreeHeap.focus_cons.2 h.tree, h.count⟩⟩

theorem focus_plug : t.Focus [] (plug c u) ↔ t.Focus c u := by
  induction c generalizing u with
  | nil => rfl
  | cons f c ih => exact ih.trans focus_cons.symm

theorem getHeight_eq {p fuel : ℕ} (h : t.tree.Rep p u) (hfuel : u.height < fuel) :
    t.getHeight fuel (rootOf 0 u) = some u.height := by
  induction u generalizing p fuel with
  | nil =>
    obtain ⟨fuel, rfl⟩ := Nat.exists_eq_add_one.2 hfuel
    exact if_pos rfl
  | node a l r ihl ihr =>
    obtain ⟨ha, hp, hl, hr, hrl, hrr⟩ := h
    obtain ⟨fuel, rfl⟩ := Nat.exists_eq_add_one.2 (Nat.zero_lt_of_lt hfuel)
    simp only [height] at hfuel
    rw [getHeight, rootOf, if_neg ha, hl, hr, ihl hrl (by omega), ihr hrr (by omega)]
    simp only [Option.bind_eq_bind, Option.bind_some, height]
    congr 1
    split <;> omega

theorem Focus.height_le (h : t.Focus c u) : u.height ≤ t.nodeCount := by
  have := height_le_numNodes u
  have := length_lt_numNodes_plug (c := c) (t := u)
  have := h.count
  omega

theorem Focus.miGetBalance (h : t.Focus c (.node x l r)) : t.miGetBalance x = some (asI8 ((r.height : ℤ) - l.height)) := by
  obtain ⟨hx, hp, hl, hr, hrl, hrr⟩ := h.tree.rep
  have hheight := h.height_le
  simp only [height] at hheight
  rw [MmAvlTable.miGetBalance, if_neg hx, hl, hr, miGetHeight, miGetHeight, getHeight_eq hrl (by omega),
    getHeight_eq hrr (by omega)]
  rfl

theorem Focus.miUpdateBalance (h : t.Focus c (.node x l r)) :
    t.miUpdateBalance x = some (t.setBalance x (asI8 ((r.height : ℤ) - l.height))) := by
  rw [MmAvlTable.miUpdateBalance, if_neg h.tree.rep.1, h.miGetBalance]
  rfl

theorem Focus.setBalance {q : ℕ} {i : ℤ} (h : t.Focus c u) : (t.setBalance q i).Focus c u := ⟨h.tree, h.count⟩

theorem numNodes_plug_congr (h : (inorder u).length = (inorder d).length) : (plug c u).numNodes = (plug c d).numNodes := by
  rw [← length_inorder, ← length_inorder, inorder_plug, inorder_plug]
  simp [h]

theorem Focus.miRotateLeft (h : t.Focus c (.node x a (.node y b d))) :
    ∃ t', t.miRotateLeft x = some t' ∧ t'.Focus c (.node y (.node x a b) d) ∧ SameData t t' ∧
      t'.balance = update (update t.balance x (asI8 ((b.height : ℤ) - a.height))) y
        (asI8 ((d.height : ℤ) - (node x a b).height)) := by
  obtain ⟨hx, hp, hl, hr, ha, hy, -⟩ := h.tree.rep
  have h1 : { t with tree := relinkLeft t.tree x y }.Focus c (.node y (.node x a b) d) :=
    ⟨focus_relinkLeft h.tree, h.count.trans (numNodes_plug_congr (by simp))⟩
  have h2 : { t with tree := relinkLeft t.tree x y }.Focus (.left y d :: c) (.node x a b) := focus_cons.2 h1
  refine ⟨_, ?_, h1.setBalance.setBalance, ⟨rfl, rfl, rfl, rfl⟩, rfl⟩
  have hrx : t.tree.rightChild x = y := hr
  rw [MmAvlTable.miRotateLeft]
  simp only [hrx, if_neg hy, h2.miUpdateBalance, Option.bind_eq_bind, Option.bind_some]
  exact h1.setBalance.miUpdateBalance

theorem Focus.miRotateRight (h : t.Focus c (.node y (.node x a b) d)) :
    ∃ t', t.miRotateRight y = some t' ∧ t'.Focus c (.node x a (.node y b d)) ∧ SameData t t' ∧
      t'.balance = update (update t.balance y (asI8 ((d.height : ℤ) - b.height))) x
        (asI8 (((node y b d).height : ℤ) - a.height)) := by
  obtain ⟨hy, hp, hl, hr, ⟨hx, -⟩, -⟩ := h.tree.rep
  have h1 : { t with tree := relinkRight t.tree x y }.Focus c (.node x a (.node y b d)) :=
    ⟨focus_relinkRight h.tree, h.count.trans (numNodes_plug_congr (by simp))⟩
  have h2 : { t with tree := relinkRight t.tree x y }.Focus (.right x a :: c) (.node y b d) := focus_cons.2 h1
  refine ⟨_, ?_, h1.setBalance.setBalance, ⟨rfl, rfl, rfl, rfl⟩, rfl⟩
  have hly : t.tree.leftChild y = x := hl
  rw [MmAvlTable.miRotateRight]
  simp only [hly, if_neg hx, h2.miUpdateBalance, Option.bind_eq_bind, Option.bind_some]
  exact h1.setBalance.miUpdateBalance

end MmAvlTable

end XenOS.Mm
