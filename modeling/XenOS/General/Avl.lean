import Mathlib.Data.Tree.Basic
import Mathlib.Data.List.Perm.Basic

/-! Height-balanced binary trees with a hole. Rebalancing climbs the context of the hole, rotating
where two heights differ by two; it is enough whether the hole grew or shrank by one. -/

namespace XenOS.General

open BinaryTree List

variable {α : Type*}

/-- The values from left to right. -/
def inorder : BinaryTree α → List α
  | .nil => []
  | .node a l r => inorder l ++ a :: inorder r

@[simp] theorem inorder_nil : inorder (.nil : BinaryTree α) = [] := rfl

@[simp] theorem inorder_node (a : α) (l r : BinaryTree α) : inorder (.node a l r) = inorder l ++ a :: inorder r := rfl

theorem length_inorder (t : BinaryTree α) : (inorder t).length = t.numNodes := by
  induction t with
  | nil => rfl
  | node a l r ihl ihr =>
    simp only [inorder_node, length_append, length_cons, ihl, ihr, numNodes]
    omega

def Balanced : BinaryTree α → Prop
  | .nil => True
  | .node _ l r => Balanced l ∧ Balanced r ∧ l.height ≤ r.height + 1 ∧ r.height ≤ l.height + 1

/-- A node with a hole for one of its subtrees. -/
inductive Frame (α : Type*) where
  | left (a : α) (r : BinaryTree α)
  | right (a : α) (l : BinaryTree α)

namespace Frame

def value : Frame α → α
  | left a _ => a
  | right a _ => a

def sibling : Frame α → BinaryTree α
  | left _ r => r
  | right _ l => l

def isLeft : Frame α → Bool
  | left _ _ => true
  | right _ _ => false

def plug : Frame α → BinaryTree α → BinaryTree α
  | left a r, t => .node a t r
  | right a l, t => .node a l t

end Frame

def plug : List (Frame α) → BinaryTree α → BinaryTree α
  | [], t => t
  | f :: c, t => plug c (f.plug t)

def before : List (Frame α) → List α
  | [] => []
  | .left _ _ :: c => before c
  | .right a l :: c => before c ++ (inorder l ++ [a])

def after : List (Frame α) → List α
  | [] => []
  | .left a r :: c => a :: inorder r ++ after c
  | .right _ _ :: c => after c

variable {a : α} {l r t t' : BinaryTree α} {c c' : List (Frame α)} {h : ℕ}

theorem around_cons_perm (f : Frame α) (c : List (Frame α)) :
    (before (f :: c) ++ after (f :: c)).Perm (f.value :: (inorder f.sibling ++ (before c ++ after c))) := by
  cases f with
  | left a r =>
    simp only [before, after, Frame.value, Frame.sibling, cons_append]
    refine perm_middle.trans (Perm.cons _ ?_)
    rw [← append_assoc, ← append_assoc]
    exact perm_append_comm.append_right _
  | right a l =>
    simp only [before, after, Frame.value, Frame.sibling]
    refine (Perm.append_right _ perm_append_comm).trans ?_
    rw [append_assoc, append_assoc]
    exact perm_middle

theorem mem_around {f : Frame α} {c : List (Frame α)} {q : α} (hf : f ∈ c) (hq : q ∈ inorder f.sibling) :
    q ∈ before c ++ after c := by
  induction c with
  | nil => cases hf
  | cons g c ih =>
    refine (around_cons_perm g c).mem_iff.2 ?_
    rcases mem_cons.1 hf with rfl | hf
    · simp [hq]
    · exact mem_cons_of_mem _ (mem_append_right _ (ih hf))

theorem inorder_plug : inorder (plug c t) = before c ++ inorder t ++ after c := by
  induction c generalizing t with
  | nil => simp [plug, before, after]
  | cons f c ih => cases f <;> simp [plug, before, after, ih, Frame.plug]

theorem plug_append : plug (c ++ c') t = plug c' (plug c t) := by
  induction c generalizing t with
  | nil => rfl
  | cons f c ih => exact ih

theorem exists_plug {q : α} (hq : q ∈ inorder t) : ∃ c l r, t = plug c (.node q l r) := by
  induction t with
  | nil => cases hq
  | node a l r ihl ihr =>
    rcases mem_append.1 hq with hq | hq
    · obtain ⟨c, l', r', rfl⟩ := ihl hq
      exact ⟨c ++ [.left a r], l', r', by rw [plug_append]; rfl⟩
    · rcases mem_cons.1 hq with rfl | hq
      · exact ⟨[], l, r, rfl⟩
      · obtain ⟨c, l', r', rfl⟩ := ihr hq
        exact ⟨c ++ [.right a l], l', r', by rw [plug_append]; rfl⟩

theorem length_lt_numNodes_plug : c.length + t.numNodes ≤ (plug c t).numNodes := by
  induction c generalizing t with
  | nil => simp [plug]
  | cons f c ih =>
    have := ih (t := f.plug t)
    cases f <;> simp [plug, Frame.plug] at * <;> omega

/-- A balanced tree of height `h` fills the hole to a balanced tree. -/
def Suits (h : ℕ) : List (Frame α) → Prop
  | [] => True
  | f :: c => Balanced f.sibling ∧ f.sibling.height ≤ h + 1 ∧ h ≤ f.sibling.height + 1 ∧
      Suits (max h f.sibling.height + 1) c

theorem balanced_plug : Balanced (plug c t) ↔ Balanced t ∧ Suits t.height c := by
  induction c generalizing t with
  | nil => simp [plug, Suits]
  | cons f c ih =>
    rw [plug, ih]
    cases f with
    | left a r =>
      simp only [Frame.plug, Balanced, Suits, Frame.sibling, height]
      tauto
    | right a l =>
      simp only [Frame.plug, Balanced, Suits, Frame.sibling, height, Nat.max_comm l.height]
      tauto

def rotateLeft : BinaryTree α → BinaryTree α
  | .node x a (.node y b c) => .node y (.node x a b) c
  | t => t

def rotateRight : BinaryTree α → BinaryTree α
  | .node y (.node x a b) c => .node x a (.node y b c)
  | t => t

@[simp] theorem inorder_rotateLeft : inorder (rotateLeft t) = inorder t := by
  unfold rotateLeft
  split <;> simp

@[simp] theorem inorder_rotateRight : inorder (rotateRight t) = inorder t := by
  unfold rotateRight
  split <;> simp

/-- Rotate the root where its subtrees differ by two in height, after a rotation below it where the
higher one leans the other way. -/
def rebalance : BinaryTree α → BinaryTree α
  | .nil => .nil
  | .node a l r =>
    if r.height + 1 < l.height then
      rotateRight (.node a (if l.left.height < l.right.height then rotateLeft l else l) r)
    else if l.height + 1 < r.height then
      rotateLeft (.node a l (if r.right.height < r.left.height then rotateRight r else r))
    else .node a l r

@[simp] theorem inorder_rebalance : inorder (rebalance t) = inorder t := by
  cases t with
  | nil => rfl
  | node a l r =>
    rw [rebalance]
    split_ifs <;> simp

theorem rebalance_of_balanced (hlr : l.height ≤ r.height + 1) (hrl : r.height ≤ l.height + 1) :
    rebalance (.node a l r) = .node a l r := by
  rw [rebalance, if_neg (by omega), if_neg (by omega)]

structure Repaired (l r t : BinaryTree α) : Prop where
  balanced : Balanced t
  lower : max l.height r.height ≤ t.height
  upper : t.height ≤ max l.height r.height + 1

theorem repaired_rebalance (hl : Balanced l) (hr : Balanced r) (hlr : l.height ≤ r.height + 2)
    (hrl : r.height ≤ l.height + 2) : Repaired l r (rebalance (.node a l r)) := by
  rw [rebalance]
  split_ifs with h1 h2 h3 h4
  · -- left, then right
    obtain - | ⟨x, ll, lr⟩ := l
    · simp at h1
    obtain - | ⟨y, b, c⟩ := lr
    · simp at h2
    obtain ⟨hll, ⟨hb, hc, hbc, hcb⟩, hll', hlr'⟩ := hl
    simp only [height, BinaryTree.left, BinaryTree.right] at *
    constructor
    · exact ⟨⟨hll, hb, by omega, by omega⟩, ⟨hc, hr, by omega, by omega⟩, by simp only [height]; omega,
        by simp only [height]; omega⟩
    all_goals
      simp only [rotateLeft, rotateRight, height]
      omega
  · obtain - | ⟨x, ll, lr⟩ := l
    · simp at h1
    obtain ⟨hll, hlr', hll', hlr''⟩ := hl
    simp only [height, BinaryTree.left, BinaryTree.right] at *
    constructor
    · exact ⟨hll, ⟨hlr', hr, by omega, by omega⟩, by simp only [height]; omega, by simp only [height]; omega⟩
    all_goals
      simp only [rotateRight, height]
      omega
  · -- right, then left
    obtain - | ⟨x, rl, rr⟩ := r
    · simp at h3
    obtain - | ⟨y, b, c⟩ := rl
    · simp at h4
    obtain ⟨⟨hb, hc, hbc, hcb⟩, hrr, hrl', hrr'⟩ := hr
    simp only [height, BinaryTree.left, BinaryTree.right] at *
    constructor
    · exact ⟨⟨hl, hb, by omega, by omega⟩, ⟨hc, hrr, by omega, by omega⟩, by simp only [height]; omega,
        by simp only [height]; omega⟩
    all_goals
      simp only [rotateLeft, rotateRight, height]
      omega
  · obtain - | ⟨x, rl, rr⟩ := r
    · simp at h3
    obtain ⟨hrl', hrr, hrl'', hrr'⟩ := hr
    simp only [height, BinaryTree.left, BinaryTree.right] at *
    constructor
    · exact ⟨⟨hl, hrl', by omega, by omega⟩, hrr, by simp only [height]; omega, by simp only [height]; omega⟩
    all_goals
      simp only [rotateLeft, height]
      omega
  · exact ⟨⟨hl, hr, by omega, by omega⟩, by simp only [height]; omega, by simp only [height]; omega⟩

def climb : List (Frame α) → BinaryTree α → BinaryTree α
  | [], t => t
  | f :: c, t => climb c (rebalance (f.plug t))

@[simp] theorem inorder_climb : inorder (climb c t) = inorder (plug c t) := by
  induction c generalizing t with
  | nil => rfl
  | cons f c ih =>
    rw [climb, ih, plug, inorder_plug, inorder_plug, inorder_rebalance]

theorem repaired_frame {f : Frame α} (ht : Balanced t) (hf : Suits h (f :: c)) (hup : t.height ≤ h + 1)
    (hdown : h ≤ t.height + 1) :
    Balanced (rebalance (f.plug t)) ∧ (rebalance (f.plug t)).height ≤ max h f.sibling.height + 1 + 1 ∧
      max h f.sibling.height + 1 ≤ (rebalance (f.plug t)).height + 1 := by
  obtain ⟨hs, h1, h2, -⟩ := hf
  cases f with
  | left a r =>
    simp only [Frame.sibling, Frame.plug] at *
    obtain ⟨hb, hlo, hhi⟩ := repaired_rebalance (a := a) ht hs (by omega) (by omega)
    by_cases hbal : t.height ≤ r.height + 1 ∧ r.height ≤ t.height + 1
    · rw [rebalance_of_balanced hbal.1 hbal.2] at hb ⊢
      refine ⟨hb, ?_, ?_⟩ <;> simp only [height] <;> omega
    · refine ⟨hb, ?_, ?_⟩ <;> omega
  | right a l =>
    simp only [Frame.sibling, Frame.plug] at *
    obtain ⟨hb, hlo, hhi⟩ := repaired_rebalance (a := a) hs ht (by omega) (by omega)
    by_cases hbal : l.height ≤ t.height + 1 ∧ t.height ≤ l.height + 1
    · rw [rebalance_of_balanced hbal.1 hbal.2] at hb ⊢
      refine ⟨hb, ?_, ?_⟩ <;> simp only [height] <;> omega
    · refine ⟨hb, ?_, ?_⟩ <;> omega

theorem balanced_climb (ht : Balanced t) (hc : Suits h c) (hup : t.height ≤ h + 1) (hdown : h ≤ t.height + 1) :
    Balanced (climb c t) := by
  induction c generalizing t h with
  | nil => exact ht
  | cons f c ih =>
    obtain ⟨hb, hhi, hlo⟩ := repaired_frame ht hc hup hdown
    exact ih hb hc.2.2.2 hhi hlo

end XenOS.General
