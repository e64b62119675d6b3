import Mathlib.Data.Nat.Fib.Basic
import XenOS.General.TreeHeap

/-! In-order walks of a tree in memory with an explicit stack of fixed capacity, which holds the
nodes whose second subtrees are still to come: a tree no higher than the capacity is visited in
full. A balanced tree that overflows it has at least a Fibonacci number of nodes. -/

namespace XenOS.General

open BinaryTree Nat

variable {α ρ σ : Type*}

def mirror : BinaryTree α → BinaryTree α
  | .nil => .nil
  | .node a l r => .node a (mirror r) (mirror l)

@[simp] theorem inorder_mirror (t : BinaryTree α) : inorder (mirror t) = (inorder t).reverse := by
  induction t with
  | nil => rfl
  | node a l r ihl ihr => simp [mirror, ihl, ihr]

@[simp] theorem height_mirror (t : BinaryTree α) : (mirror t).height = t.height := by
  induction t with
  | nil => rfl
  | node a l r ihl ihr =>
    simp only [mirror, height, ihl, ihr]
    omega

@[simp] theorem numNodes_mirror (t : BinaryTree α) : (mirror t).numNodes = t.numNodes := by
  rw [← length_inorder, inorder_mirror, List.length_reverse, length_inorder]

variable {t : BinaryTree α}

theorem fib_le_numNodes (h : Balanced t) : fib (t.height + 2) ≤ t.numNodes + 1 := by
  induction t with
  | nil => exact le_refl 1
  | node a l r ihl ihr =>
    obtain ⟨hl, hr, hlr, hrl⟩ := h
    have hl := ihl hl
    have hr := ihr hr
    simp only [height, numNodes]
    rcases le_total l.height r.height with hle | hle
    · have hfib : fib (r.height + 1 + 2) = fib (r.height + 1) + fib (r.height + 2) := fib_add_two
      rw [max_eq_right hle, hfib]
      have : fib (r.height + 1) ≤ fib (l.height + 2) := fib_mono (by omega)
      omega
    · have hfib : fib (l.height + 1 + 2) = fib (l.height + 1) + fib (l.height + 2) := fib_add_two
      rw [max_eq_left hle, hfib]
      have : fib (l.height + 1) ≤ fib (r.height + 2) := fib_mono (by omega)
      omega

theorem height_lt_of_numNodes {n : ℕ} (h : Balanced t) (hn : t.numNodes + 1 < fib (n + 2)) :
    t.height < n := by
  by_contra hge
  have h1 : fib (n + 2) ≤ fib (t.height + 2) := fib_mono (by omega)
  have h2 := fib_le_numNodes h
  omega

section Walk
variable [DecidableEq α] (nil : α) (first second : α → α)

def pushChain : ℕ → List α → α → List α × α
  | 0, stack, x => (stack, x)
  | room + 1, stack, x => if x = nil then (stack, x) else pushChain room (x :: stack) (first x)

/-- The walk; a visit may end it. `full` is the answer of a walk that finds the stack full,
if that ends it. -/
def walk (capacity : ℕ) (full : Option ρ) (visit : σ → α → Except ρ σ) : ℕ → List α → α → σ → Option (Except ρ σ)
  | 0, _, _, _ => none
  | fuel + 1, stack, x, s =>
    let pushed := pushChain nil first (capacity - stack.length) stack x
    match if pushed.2 = nil then none else full with
    | some answer => some (.error answer)
    | none =>
      match pushed.1 with
      | [] => some (.ok s)
      | x :: stack =>
        match visit s x with
        | .error answer => some (.error answer)
        | .ok s => walk capacity full visit fuel stack (second x) s

def TreeLinked : BinaryTree α → Prop
  | .nil => True
  | .node a l r => a ≠ nil ∧ first a = rootOf nil l ∧ second a = rootOf nil r ∧ TreeLinked l ∧ TreeLinked r

variable {nil first second}

omit [DecidableEq α] in
theorem TreeLinked.mirror {t : BinaryTree α} (h : TreeLinked nil first second t) : TreeLinked nil second first (mirror t) := by
  have hroot : ∀ t : BinaryTree α, rootOf nil (General.mirror t) = rootOf nil t := fun t => by cases t <;> rfl
  induction t with
  | nil => trivial
  | node a l r ihl ihr =>
    obtain ⟨ha, hl, hr, hll, hlr⟩ := h
    exact ⟨ha, hr.trans (hroot r).symm, hl.trans (hroot l).symm, ihr hlr, ihl hll⟩

/-- The nodes still to visit. -/
def pending (ps : List (α × BinaryTree α)) : List α := ps.flatMap fun p => p.1 :: inorder p.2

variable (nil first second) in
/-- Each entry comes with the second subtree of its node, which fits above the entries
below it. -/
def Stacked (capacity : ℕ) : List (α × BinaryTree α) → Prop
  | [] => True
  | (a, r) :: ps => second a = rootOf nil r ∧ TreeLinked nil first second r ∧ r.height + ps.length ≤ capacity ∧
      Stacked capacity ps

variable {capacity : ℕ} {full : Option ρ} {visit : σ → α → Except ρ σ}

theorem pushChain_spec {ps : List (α × BinaryTree α)} (ht : TreeLinked nil first second t)
    (hps : Stacked nil first second capacity ps) (hroom : t.height + ps.length ≤ capacity) :
    ∃ ps', pushChain nil first (capacity - ps.length) (ps.map Prod.fst) (rootOf nil t) = (ps'.map Prod.fst, nil) ∧
      Stacked nil first second capacity ps' ∧ pending ps' = inorder t ++ pending ps := by
  induction t generalizing ps with
  | nil =>
    refine ⟨ps, ?_, hps, rfl⟩
    cases capacity - ps.length with
    | zero => rfl
    | succ room => exact if_pos rfl
  | node a l r ihl _ =>
    obtain ⟨ha, hfirst, hsecond, hl, hr⟩ := ht
    simp only [height] at hroom
    obtain ⟨room, hroom'⟩ : ∃ room, capacity - ps.length = room + 1 := ⟨capacity - ps.length - 1, by omega⟩
    obtain ⟨ps', hpush, hstacked, hpending⟩ := @ihl ((a, r) :: ps) hl ⟨hsecond, hr, by omega, hps⟩
      (by simp only [List.length_cons]; omega)
    refine ⟨ps', ?_, hstacked, ?_⟩
    · have hrest : capacity - ((a, r) :: ps).length = room := by
        simp only [List.length_cons]
        omega
      rw [hrest] at hpush
      rw [hroom', pushChain, rootOf, if_neg ha, hfirst]
      exact hpush
    · rw [hpending, inorder_node, List.append_assoc]
      rfl

theorem walk_stacked {ps : List (α × BinaryTree α)} {fuel : ℕ} {s : σ}
    (ht : TreeLinked nil first second t) (hps : Stacked nil first second capacity ps)
    (hroom : t.height + ps.length ≤ capacity) (hfuel : (inorder t ++ pending ps).length < fuel) :
    walk nil first second capacity full visit fuel (ps.map Prod.fst) (rootOf nil t) s =
      some ((inorder t ++ pending ps).foldlM visit s) := by
  induction fuel generalizing t ps s with
  | zero => omega
  | succ fuel ih =>
    obtain ⟨ps', hpush, hstacked, hpending⟩ := pushChain_spec ht hps hroom
    rw [← hpending] at hfuel ⊢
    simp only [walk, List.length_map, hpush, if_true]
    cases ps' with
    | nil => rfl
    | cons p ps' =>
      obtain ⟨a, r⟩ := p
      obtain ⟨hsecond, hr, hfits, hrest⟩ := hstacked
      have hlist : pending ((a, r) :: ps') = a :: (inorder r ++ pending ps') := rfl
      rw [hlist] at hfuel ⊢
      rw [List.foldlM_cons]
      simp only [List.map_cons]
      cases visit s a with
      | error answer => rfl
      | ok s' =>
        show walk nil first second capacity full visit fuel (ps'.map Prod.fst) (second a) s' = _
        rw [hsecond]
        exact ih hr hrest hfits (by simp only [List.length_cons] at hfuel; omega)

theorem walk_eq_foldlM {fuel : ℕ} {s : σ} (ht : TreeLinked nil first second t)
    (hheight : t.height ≤ capacity) (hfuel : t.numNodes < fuel) :
    walk nil first second capacity full visit fuel [] (rootOf nil t) s = some ((inorder t).foldlM visit s) := by
  have h : walk nil first second capacity full visit fuel (([] : List (α × BinaryTree α)).map Prod.fst) (rootOf nil t) s =
      some ((inorder t ++ pending []).foldlM visit s) :=
    walk_stacked ht trivial hheight (by simpa [pending, length_inorder] using hfuel)
  simpa [pending] using h

end Walk

theorem TreeHeap.Rep.treeLinked {nil : α} {h : TreeHeap α nil} {p : α} (hrep : h.Rep p t) :
    TreeLinked nil h.leftChild h.rightChild t := by
  induction t generalizing p with
  | nil => trivial
  | node a l r ihl ihr =>
    obtain ⟨ha, -, hl, hr, hrl, hrr⟩ := hrep
    exact ⟨ha, hl, hr, ihl hrl, ihr hrr⟩

end XenOS.General
