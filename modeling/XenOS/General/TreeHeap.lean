import XenOS.General.Avl

/-! Binary trees laid out in memory with parent pointers, one map for each field. A tree in a
context is represented piece by piece, so that stores outside a piece leave it alone. -/

namespace XenOS.General

open BinaryTree
open Function (update update_self update_of_ne)
open List (mem_append mem_append_left mem_append_right mem_cons nodup_append nodup_cons)

variable {α : Type*}

/-- The pointers of a tree in memory; `nil` is the null pointer. -/
structure TreeHeap (α : Type*) (nil : α) where
  root : α
  parent : α → α
  leftChild : α → α
  rightChild : α → α

def rootOf (nil : α) : BinaryTree α → α
  | .nil => nil
  | .node a _ _ => a

/-- The pointer to the node around the hole. -/
def top (nil : α) : List (Frame α) → α
  | [] => nil
  | f :: _ => f.value

namespace TreeHeap
variable {nil : α}

/-- The tree hangs below `p`. -/
def Rep (s : TreeHeap α nil) : α → BinaryTree α → Prop
  | _, .nil => True
  | p, .node a l r => a ≠ nil ∧ s.parent a = p ∧ s.leftChild a = rootOf nil l ∧ s.rightChild a = rootOf nil r ∧
      s.Rep a l ∧ s.Rep a r

def Hole (s : TreeHeap α nil) : α → List (Frame α) → Prop
  | p, [] => s.root = p
  | p, .left a r :: c => a ≠ nil ∧ s.parent a = top nil c ∧ s.leftChild a = p ∧ s.rightChild a = rootOf nil r ∧
      s.Rep a r ∧ s.Hole a c
  | p, .right a l :: c => a ≠ nil ∧ s.parent a = top nil c ∧ s.leftChild a = rootOf nil l ∧ s.rightChild a = p ∧
      s.Rep a l ∧ s.Hole a c

structure Focus (s : TreeHeap α nil) (c : List (Frame α)) (t : BinaryTree α) : Prop where
  hole : s.Hole (rootOf nil t) c
  rep : s.Rep (top nil c) t
  nodup : (inorder (plug c t)).Nodup

variable {s s' : TreeHeap α nil} {t : BinaryTree α} {c : List (Frame α)} {f : Frame α} {p q x y : α}

theorem focus_cons : s.Focus (f :: c) t ↔ s.Focus c (f.plug t) := by
  constructor
  · rintro ⟨hole, rep, nodup⟩
    cases f with
    | left a r =>
      obtain ⟨ha, hp, hl, hr, hrep, hc⟩ := hole
      exact ⟨hc, ⟨ha, hp, hl, hr, rep, hrep⟩, nodup⟩
    | right a l =>
      obtain ⟨ha, hp, hl, hr, hrep, hc⟩ := hole
      exact ⟨hc, ⟨ha, hp, hl, hr, hrep, rep⟩, nodup⟩
  · rintro ⟨hole, rep, nodup⟩
    cases f with
    | left a r =>
      obtain ⟨ha, hp, hl, hr, hrep, hrep'⟩ := rep
      exact ⟨⟨ha, hp, hl, hr, hrep', hole⟩, hrep, nodup⟩
    | right a l =>
      obtain ⟨ha, hp, hl, hr, hrep, hrep'⟩ := rep
      exact ⟨⟨ha, hp, hl, hr, hrep, hole⟩, hrep', nodup⟩

theorem focus_append {c c' : List (Frame α)} : s.Focus (c ++ c') t ↔ s.Focus c' (plug c t) := by
  induction c generalizing t with
  | nil => rfl
  | cons f c ih => exact focus_cons.trans (ih.trans (by rfl))

theorem Rep.ne_nil (h : s.Rep p t) (hq : q ∈ inorder t) : q ≠ nil := by
  induction t generalizing p with
  | nil => cases hq
  | node a l r ihl ihr =>
    obtain ⟨ha, -, -, -, hl, hr⟩ := h
    rcases mem_append.1 hq with hq | hq
    · exact ihl hl hq
    · rcases mem_cons.1 hq with rfl | hq
      · exact ha
      · exact ihr hr hq

theorem Hole.ne_nil (h : s.Hole p c) (hq : q ∈ before c ++ after c) : q ≠ nil := by
  induction c generalizing p with
  | nil => cases hq
  | cons f c ih =>
    have hq' := (around_cons_perm f c).mem_iff.1 hq
    simp only [mem_cons, mem_append] at hq'
    cases f with
    | left a r | right a l =>
      obtain ⟨ha, -, -, -, hrep, hc⟩ := h
      rcases hq' with rfl | hq' | hq'
      · exact ha
      · exact hrep.ne_nil hq'
      · exact ih hc (mem_append.2 hq')

theorem rootOf_eq_nil (h : s.Rep p t) : rootOf nil t = nil ↔ t = .nil := by
  cases t with
  | nil => simp [rootOf]
  | node a l r => simpa [rootOf] using h.1

theorem rootOf_mem (h : t ≠ .nil) : rootOf nil t ∈ inorder t := by
  cases t with
  | nil => exact absurd rfl h
  | node a l r => simp [rootOf]

theorem top_mem (h : c ≠ []) : top nil c ∈ before c ++ after c := by
  cases c with
  | nil => exact absurd rfl h
  | cons f c => cases f <;> simp [top, Frame.value, before, after]

theorem ne_top (hq : q ≠ nil) (hqc : q ∉ before c ++ after c) : q ≠ top nil c := by
  rintro rfl
  by_cases hc : c = []
  · subst hc
    exact hq rfl
  · exact hqc (top_mem hc)

theorem ne_rootOf (hq : q ≠ nil) (hqt : q ∉ inorder t) : q ≠ rootOf nil t := by
  rintro rfl
  by_cases ht : t = .nil
  · subst ht
    exact hq rfl
  · exact hqt (rootOf_mem ht)

theorem Hole.top_ne_nil (h : s.Hole p c) (hc : c ≠ []) : top nil c ≠ nil := by
  cases c with
  | nil => exact absurd rfl hc
  | cons f c => cases f <;> exact h.1

/-! ### Frames -/

structure SameAt (s s' : TreeHeap α nil) (q : α) : Prop where
  parent : s'.parent q = s.parent q
  leftChild : s'.leftChild q = s.leftChild q
  rightChild : s'.rightChild q = s.rightChild q

theorem SameAt.refl (s : TreeHeap α nil) (q : α) : SameAt s s q := ⟨rfl, rfl, rfl⟩

theorem SameAt.trans {s'' : TreeHeap α nil} (h : SameAt s s' q) (h' : SameAt s' s'' q) : SameAt s s'' q :=
  ⟨h'.parent.trans h.parent, h'.leftChild.trans h.leftChild, h'.rightChild.trans h.rightChild⟩

theorem Rep.congr (h : s.Rep p t) (hs : ∀ q ∈ inorder t, SameAt s s' q) : s'.Rep p t := by
  induction t generalizing p with
  | nil => trivial
  | node a l r ihl ihr =>
    obtain ⟨ha, hp, hl, hr, hrl, hrr⟩ := h
    obtain ⟨h1, h2, h3⟩ := hs a (by simp)
    exact ⟨ha, h1.trans hp, h2.trans hl, h3.trans hr, ihl hrl fun q hq => hs q (by simp [hq]),
      ihr hrr fun q hq => hs q (by simp [hq])⟩

theorem Hole.congr (h : s.Hole p c) (hroot : s'.root = s.root) (hs : ∀ q ∈ before c ++ after c, SameAt s s' q) :
    s'.Hole p c := by
  induction c generalizing p with
  | nil => exact hroot.trans h
  | cons f c ih =>
    cases f with
    | left a r =>
      obtain ⟨ha, hp, hl, hr, hrep, hc⟩ := h
      obtain ⟨h1, h2, h3⟩ := hs a (by simp [after])
      exact ⟨ha, h1.trans hp, h2.trans hl, h3.trans hr, hrep.congr fun q hq => hs q (by simp [after, hq]),
        ih hc fun q hq => hs q (by simp [before, after] at hq ⊢; tauto)⟩
    | right a l =>
      obtain ⟨ha, hp, hl, hr, hrep, hc⟩ := h
      obtain ⟨h1, h2, h3⟩ := hs a (by simp [before])
      exact ⟨ha, h1.trans hp, h2.trans hl, h3.trans hr, hrep.congr fun q hq => hs q (by simp [before, hq]),
        ih hc fun q hq => hs q (by simp [before, after] at hq ⊢; tauto)⟩

theorem Focus.congr (h : s.Focus c t) (hroot : s'.root = s.root) (hs : ∀ q ∈ inorder (plug c t), SameAt s s' q) :
    s'.Focus c t := by
  rw [inorder_plug] at hs
  refine ⟨h.hole.congr hroot fun q hq => hs q ?_, h.rep.congr fun q hq => hs q (by simp [hq]), h.nodup⟩
  simp only [mem_append] at hq ⊢
  tauto

theorem notMem_around (hnd : (inorder (plug c t)).Nodup) (hq : q ∈ inorder t) : q ∉ before c ++ after c := fun hqc => by
  rw [inorder_plug] at hnd
  obtain ⟨hbefore, -, hafter⟩ := nodup_append.1 hnd
  rcases mem_append.1 hqc with hqb | hqa
  · exact (nodup_append.1 hbefore).2.2 q hqb q hq rfl
  · exact hafter q (mem_append_right _ hq) q hqa rfl

theorem nodup_around (h : (inorder (plug c t)).Nodup) : (before c ++ after c).Nodup := by
  rw [inorder_plug] at h
  refine h.sublist ?_
  rw [List.append_assoc]
  exact List.Sublist.append (List.Sublist.refl _) (List.sublist_append_right _ _)

theorem nodup_inner (h : (inorder (plug c t)).Nodup) : (inorder t).Nodup := by
  rw [inorder_plug] at h
  exact (nodup_append.1 (nodup_append.1 h).1).2.1

variable [DecidableEq α]

/-! ### Stores -/

def setParent (s : TreeHeap α nil) (q p : α) : TreeHeap α nil := { s with parent := update s.parent q p }

def setLeftChild (s : TreeHeap α nil) (q p : α) : TreeHeap α nil := { s with leftChild := update s.leftChild q p }

def setRightChild (s : TreeHeap α nil) (q p : α) : TreeHeap α nil :=
  { s with rightChild := update s.rightChild q p }

def adopt (s : TreeHeap α nil) (child parent : α) : TreeHeap α nil :=
  if child = nil then s else s.setParent child parent

/-- Store `new` where `old` hangs: in its parent, or in the root. -/
def replaceChild (s : TreeHeap α nil) (parent old new : α) : TreeHeap α nil :=
  if parent = nil then { s with root := new }
  else if s.leftChild parent = old then s.setLeftChild parent new
  else s.setRightChild parent new

theorem sameAt_setParent (hq : q ≠ x) : SameAt s (s.setParent x y) q := ⟨update_of_ne hq _ _, rfl, rfl⟩

theorem sameAt_setLeftChild (hq : q ≠ x) : SameAt s (s.setLeftChild x y) q := ⟨rfl, update_of_ne hq _ _, rfl⟩

theorem sameAt_setRightChild (hq : q ≠ x) : SameAt s (s.setRightChild x y) q := ⟨rfl, rfl, update_of_ne hq _ _⟩

theorem sameAt_adopt (hq : q ≠ x) : SameAt s (s.adopt x y) q := by
  unfold adopt
  split
  · exact SameAt.refl s q
  · exact sameAt_setParent hq

theorem sameAt_replaceChild (hq : q ≠ p) : SameAt s (s.replaceChild p x y) q := by
  unfold replaceChild
  split
  · exact ⟨rfl, rfl, rfl⟩
  · split
    · exact sameAt_setLeftChild hq
    · exact sameAt_setRightChild hq

@[simp] theorem leftChild_setRightChild : (s.setRightChild x y).leftChild = s.leftChild := rfl

@[simp] theorem rightChild_setLeftChild : (s.setLeftChild x y).rightChild = s.rightChild := rfl

@[simp] theorem parent_replaceChild : (s.replaceChild p x y).parent = s.parent := by
  unfold replaceChild
  split
  · rfl
  · split <;> rfl

@[simp] theorem leftChild_adopt : (s.adopt x y).leftChild = s.leftChild := by
  unfold adopt
  split <;> rfl

@[simp] theorem rightChild_adopt : (s.adopt x y).rightChild = s.rightChild := by
  unfold adopt
  split <;> rfl

@[simp] theorem root_adopt : (s.adopt x y).root = s.root := by
  unfold adopt
  split <;> rfl

theorem Rep.adopt (h : s.Rep p t) (hnd : (inorder t).Nodup) : (s.adopt (rootOf nil t) q).Rep q t := by
  cases t with
  | nil => trivial
  | node a l r =>
    obtain ⟨ha, hp, hl, hr, hrl, hrr⟩ := h
    have hal : a ∉ inorder l := fun hm => by simp [nodup_append] at hnd; exact (hnd.2.2 a hm).1 rfl
    have har : a ∉ inorder r := by simp [nodup_append] at hnd; tauto
    refine ⟨ha, ?_, by simpa using hl, by simpa using hr, hrl.congr fun q' hq' => sameAt_adopt ?_,
      hrr.congr fun q' hq' => sameAt_adopt ?_⟩
    · simp [rootOf, TreeHeap.adopt, ha, setParent]
    · rintro rfl
      exact hal hq'
    · rintro rfl
      exact har hq'

theorem Hole.replaceChild (h : s.Hole x c) (hx : x ≠ nil) (hxc : x ∉ before c ++ after c)
    (hnd : (before c ++ after c).Nodup) : (s.replaceChild (top nil c) x y).Hole y c := by
  cases c with
  | nil => simp [TreeHeap.replaceChild, top, Hole]
  | cons f c =>
    have hne : ∀ q ∈ inorder f.sibling ++ (before c ++ after c), q ≠ f.value := by
      rintro q hq rfl
      exact (nodup_cons.1 ((around_cons_perm f c).nodup_iff.1 hnd)).1 hq
    cases f with
    | left a r =>
      obtain ⟨ha, hp, hl, hr, hrep, hc⟩ := h
      have heq : s.replaceChild a x y = s.setLeftChild a y := by
        rw [TreeHeap.replaceChild, if_neg ha, if_pos hl]
      show (s.replaceChild a x y).Hole y _
      rw [heq]
      exact ⟨ha, hp, update_self .., hr,
        hrep.congr fun q hq => sameAt_setLeftChild (hne q (mem_append_left _ hq)),
        hc.congr rfl fun q hq => sameAt_setLeftChild (hne q (mem_append_right _ hq))⟩
    | right a l =>
      obtain ⟨ha, hp, hl, hr, hrep, hc⟩ := h
      -- the left child is another tree
      have hlx : s.leftChild a ≠ x := by
        rw [hl]
        cases l with
        | nil => exact hx.symm
        | node b l r =>
          rintro rfl
          exact hxc (by simp [before, rootOf])
      have heq : s.replaceChild a x y = s.setRightChild a y := by
        rw [TreeHeap.replaceChild, if_neg ha, if_neg hlx]
      show (s.replaceChild a x y).Hole y _
      rw [heq]
      exact ⟨ha, hp, hl, update_self ..,
        hrep.congr fun q hq => sameAt_setRightChild (hne q (mem_append_left _ hq)),
        hc.congr rfl fun q hq => sameAt_setRightChild (hne q (mem_append_right _ hq))⟩

theorem Focus.replace (hole : s.Hole x c) (hx : x ≠ nil) (hxc : x ∉ before c ++ after c) (rep : s.Rep p t)
    (hnd : (inorder (plug c t)).Nodup) :
    ((s.replaceChild (top nil c) x (rootOf nil t)).adopt (rootOf nil t) (top nil c)).Focus c t := by
  have hdisj : ∀ q ∈ inorder t, q ∉ before c ++ after c := fun q hq => notMem_around hnd hq
  refine ⟨?_, ?_, hnd⟩
  · refine (hole.replaceChild hx hxc (nodup_around hnd)).congr root_adopt fun q hq => sameAt_adopt ?_
    exact ne_rootOf (hole.ne_nil hq) fun hqt => hdisj q hqt hq
  · refine (rep.congr fun q hq => sameAt_replaceChild ?_).adopt (nodup_inner hnd)
    exact ne_top (rep.ne_nil hq) (hdisj q hq)

theorem Focus.plant {l r : BinaryTree α} (hole : s.Hole x c) (hx : x ≠ nil) (hxc : x ∉ before c ++ after c) (hy : y ≠ nil)
    (hl : s.Rep p l) (hr : s.Rep y r) (hyr : s.rightChild y = rootOf nil r)
    (hnd : (inorder (plug c (.node y l r))).Nodup) :
    ((((s.setLeftChild y (rootOf nil l)).adopt (rootOf nil l) y).setParent y (top nil c)).replaceChild (top nil c) x y).Focus
      c (.node y l r) := by
  have hinner := nodup_inner hnd
  have hdisj : ∀ q, q ∈ inorder l ∨ q = y ∨ q ∈ inorder r → q ∉ before c ++ after c := fun q hq =>
    notMem_around hnd (by simpa using hq)
  rw [inorder_node] at hinner
  obtain ⟨hndl, hndr, hlr⟩ := nodup_append.1 hinner
  have hyl : y ∉ inorder l := fun hm => hlr y hm y (by simp) rfl
  have hyr' : y ∉ inorder r := (nodup_cons.1 hndr).1
  have hyt : y ≠ top nil c := ne_top hy (hdisj y (by simp))
  have hyl' : y ≠ rootOf nil l := ne_rootOf hy hyl
  let s1 := (s.setLeftChild y (rootOf nil l)).adopt (rootOf nil l) y
  let s2 := s1.setParent y (top nil c)
  have hs : ∀ q, q ≠ y → q ≠ rootOf nil l → SameAt s s2 q := fun q hqy hql =>
    ((sameAt_setLeftChild hqy).trans (sameAt_adopt hql)).trans (sameAt_setParent hqy)
  have hlast : ∀ q, q ≠ top nil c → SameAt s2 (s2.replaceChild (top nil c) x y) q := fun q hq => sameAt_replaceChild hq
  have hl1 : s1.Rep y l := (hl.congr fun q hq => sameAt_setLeftChild (by rintro rfl; exact hyl hq)).adopt hndl
  refine ⟨?_, ⟨hy, ?_, ?_, ?_, ?_, ?_⟩, hnd⟩
  · refine Hole.replaceChild (hole.congr root_adopt fun q hq => hs q ?_ ?_) hx hxc (nodup_around hnd)
    · rintro rfl
      exact hdisj q (by simp) hq
    · exact ne_rootOf (hole.ne_nil hq) fun hql => hdisj q (Or.inl hql) hq
  · rw [parent_replaceChild]
    exact update_self ..
  · rw [(hlast y hyt).leftChild]
    show s1.leftChild y = _
    rw [leftChild_adopt]
    exact update_self ..
  · rw [(hlast y hyt).rightChild]
    show s1.rightChild y = _
    rw [rightChild_adopt]
    exact hyr
  · refine hl1.congr fun q hq => (sameAt_setParent ?_).trans (hlast q (ne_top (hl.ne_nil hq) (hdisj q (Or.inl hq))))
    rintro rfl
    exact hyl hq
  · refine hr.congr fun q hq => (hs q ?_ ?_).trans (hlast q (ne_top (hr.ne_nil hq) (hdisj q (Or.inr (Or.inr hq)))))
    · rintro rfl
      exact hyr' hq
    · exact ne_rootOf (hr.ne_nil hq) fun hql => hlr q hql q (List.mem_cons_of_mem _ hq) rfl

theorem Focus.fill (h : s.Focus (f :: c) .nil) (hx : x ≠ nil) (hxc : x ∉ before (f :: c) ++ after (f :: c))
    (hleft : s.leftChild x = nil) (hright : s.rightChild x = nil) :
    ((if f.isLeft then (s.setParent x f.value).setLeftChild f.value x
      else (s.setParent x f.value).setRightChild f.value x)).Focus (f :: c) (.node x .nil .nil) := by
  obtain ⟨hole, -, hnd⟩ := h
  have haround := (around_cons_perm f c)
  have hnd' : (f.value :: (inorder f.sibling ++ (before c ++ after c))).Nodup := haround.nodup_iff.1 (nodup_around hnd)
  have hne : ∀ q ∈ inorder f.sibling ++ (before c ++ after c), q ≠ f.value := by
    rintro q hq rfl
    exact (nodup_cons.1 hnd').1 hq
  have hx' : x ∉ f.value :: (inorder f.sibling ++ (before c ++ after c)) := fun hm => hxc (haround.mem_iff.2 hm)
  have hxf : x ≠ f.value := fun e => hx' (by simp [e])
  have hxq : ∀ q ∈ inorder f.sibling ++ (before c ++ after c), q ≠ x := by
    rintro q hq rfl
    exact hx' (List.mem_cons_of_mem _ hq)
  have hfinal : (inorder (plug (f :: c) (.node x .nil .nil))).Nodup := by
    rw [inorder_plug, inorder_node, inorder_nil, List.nil_append]
    rw [List.append_assoc]
    exact List.perm_middle.nodup_iff.2 (nodup_cons.2 ⟨hxc, nodup_around hnd⟩)
  cases f with
  | left a r =>
    obtain ⟨ha, hp, hl, hr, hrep, hc⟩ := hole
    simp only [Frame.value, Frame.sibling] at *
    have hs : ∀ q ∈ inorder r ++ (before c ++ after c), SameAt s ((s.setParent x a).setLeftChild a x) q := fun q hq =>
      (sameAt_setParent (hxq q hq)).trans (sameAt_setLeftChild (hne q hq))
    refine ⟨⟨ha, ?_, update_self .., hr, hrep.congr fun q hq => hs q (mem_append_left _ hq),
      hc.congr rfl fun q hq => hs q (mem_append_right _ hq)⟩,
      ⟨hx, update_self .., ?_, hright, trivial, trivial⟩, hfinal⟩
    · exact (update_of_ne hxf.symm _ _).trans hp
    · exact (update_of_ne hxf _ _).trans hleft
  | right a l =>
    obtain ⟨ha, hp, hl, hr, hrep, hc⟩ := hole
    simp only [Frame.value, Frame.sibling] at *
    have hs : ∀ q ∈ inorder l ++ (before c ++ after c), SameAt s ((s.setParent x a).setRightChild a x) q := fun q hq =>
      (sameAt_setParent (hxq q hq)).trans (sameAt_setRightChild (hne q hq))
    refine ⟨⟨ha, ?_, hl, update_self .., hrep.congr fun q hq => hs q (mem_append_left _ hq),
      hc.congr rfl fun q hq => hs q (mem_append_right _ hq)⟩,
      ⟨hx, update_self .., hleft, ?_, trivial, trivial⟩, hfinal⟩
    · exact (update_of_ne hxf.symm _ _).trans hp
    · exact (update_of_ne hxf _ _).trans hright

end TreeHeap

end XenOS.General
