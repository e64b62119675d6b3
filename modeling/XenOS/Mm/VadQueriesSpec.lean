import Mathlib.Tactic.NormNum.NatFib
import XenOS.Mm.VadQueries

/-! The queries on a well-formed tree against the set of its ranges. A walk whose stack is large
enough is a fold over the ranges in order, and the height of an AVL tree bounds the stack. -/

namespace XenOS.Mm

open General BinaryTree TreeHeap
open Option (bind_eq_bind bind_some pure_def)

namespace MmAvlTable

variable {t : MmAvlTable} {u v : BinaryTree ℕ} {ops : List VadOp} {ρ σ : Type}

/-- The region holds the page. -/
def Contains (t : MmAvlTable) (p vpn : ℕ) : Prop := t.startingVpn p ≤ vpn ∧ vpn ≤ t.endingVpn p

def StackSuffices (t : MmAvlTable) : Prop := t.nodeCount < 44945570212852

section
variable (h : t.WellFormed u)
include h

theorem WellFormed.height_le (hstack : t.StackSuffices) : u.height ≤ traversalStack := by
  have hcount := h.nodeCount
  have hfib : Nat.fib (65 + 2) = 44945570212853 := by norm_num
  have : u.height < 65 := height_lt_of_numNodes h.balanced (by unfold StackSuffices at hstack; omega)
  unfold traversalStack
  omega

theorem WellFormed.walkUp (hstack : t.StackSuffices) (full : Option ρ) (visit : σ → ℕ → Except ρ σ)
    (s : σ) : t.walkUp full visit s = some ((inorder u).foldlM visit s) := by
  rw [MmAvlTable.walkUp, h.root]
  exact walk_eq_foldlM h.links.treeLinked (h.height_le hstack) (by rw [h.nodeCount]; omega)

theorem WellFormed.walkDown (hstack : t.StackSuffices) (full : Option ρ) (visit : σ → ℕ → Except ρ σ)
    (s : σ) : t.walkDown full visit s = some ((inorder u).reverse.foldlM visit s) := by
  have hroot : t.tree.root = rootOf 0 (mirror u) := by
    rw [h.root]
    cases u <;> rfl
  rw [MmAvlTable.walkDown, hroot, ← inorder_mirror]
  exact walk_eq_foldlM h.links.treeLinked.mirror (by simpa using h.height_le hstack) (by simp [h.nodeCount])

theorem WellFormed.ne_zero {p : ℕ} (hp : t.Reachable p) : p ≠ 0 :=
  h.links.ne_nil ((h.reachable p).1 hp)

theorem WellFormed.not_reachable (hroot : t.tree.root = 0) (p : ℕ) : ¬ t.Reachable p := by
  intro hp
  rw [h.reachable] at hp
  rw [h.root, TreeHeap.rootOf_eq_nil h.links] at hroot
  rw [hroot] at hp
  cases hp

end

theorem length_le_of_ranges {l : List ℕ} {low high : ℕ} (hordered : l.Pairwise fun p q => t.endingVpn p < t.startingVpn q)
    (hranges : ∀ p ∈ l, t.startingVpn p ≤ t.endingVpn p) (hlow : ∀ p ∈ l, low ≤ t.startingVpn p)
    (hhigh : ∀ p ∈ l, t.endingVpn p < high) (hle : low ≤ high) : l.length + low ≤ high := by
  induction l generalizing low with
  | nil => simpa using hle
  | cons p l ih =>
    obtain ⟨hp, hl⟩ := List.pairwise_cons.1 hordered
    have h1 := hranges p (by simp)
    have h2 := hlow p (by simp)
    have h3 := hhigh p (by simp)
    have := @ih (t.endingVpn p + 1) hl (fun q hq => hranges q (by simp [hq])) (fun q hq => hp q hq)
      (fun q hq => hhigh q (by simp [hq])) h3
    simp only [List.length_cons]
    omega

theorem WellFormed.stackSuffices_of_user (h : t.WellFormed u)
    (huser : ∀ p, t.Reachable p → t.endingVpn p ≤ mmHighestUserAddress / pageSize) : t.StackSuffices := by
  have hlen : (inorder u).length + 0 ≤ mmHighestUserAddress / pageSize + 1 :=
    length_le_of_ranges h.ordered h.ranges (fun _ _ => Nat.zero_le _)
      (fun p hp => Nat.lt_succ_of_le (huser p ((h.reachable p).2 hp))) (Nat.zero_le _)
  rw [StackSuffices, h.nodeCount, ← length_inorder]
  have : mmHighestUserAddress / pageSize + 1 = 34359738368 := by decide
  omega

theorem findLoop_spec (vpn : ℕ) {fuel p : ℕ} (hrep : t.tree.Rep p v)
    (hordered : (inorder v).Pairwise fun p q => t.endingVpn p < t.startingVpn q)
    (hranges : ∀ q ∈ inorder v, t.startingVpn q ≤ t.endingVpn q) (hfuel : v.height < fuel) :
    (∃ q ∈ inorder v, t.Contains q vpn ∧ t.findLoop vpn fuel (rootOf 0 v) = some q) ∨
      (∀ q ∈ inorder v, ¬ t.Contains q vpn) ∧ t.findLoop vpn fuel (rootOf 0 v) = some 0 := by
  induction v generalizing fuel p with
  | nil =>
    obtain ⟨fuel, rfl⟩ := Nat.exists_eq_add_one.2 hfuel
    exact Or.inr ⟨fun q hq => (by cases hq), if_pos rfl⟩
  | node x l r ihl ihr =>
    obtain ⟨fuel, rfl⟩ := Nat.exists_eq_add_one.2 (Nat.zero_lt_of_lt hfuel)
    obtain ⟨hx, -, hlx, hrx, hl, hr⟩ := hrep
    simp only [height] at hfuel
    rw [inorder_node] at hordered hranges ⊢
    obtain ⟨hol, hoxr, hcross⟩ := List.pairwise_append.1 hordered
    obtain ⟨hox, hor⟩ := List.pairwise_cons.1 hoxr
    have hxr := hranges x (by simp)
    rw [show rootOf 0 (.node x l r) = x from rfl, findLoop, if_neg hx]
    by_cases hlow : vpn < t.startingVpn x
    · rw [if_pos hlow, hlx]
      rcases @ihl fuel _ hl hol (fun q hq => hranges q (by simp [hq])) (by omega) with ⟨q, hq, hc, hret⟩ | ⟨hnone, hret⟩
      · exact Or.inl ⟨q, by simp [hq], hc, hret⟩
      · refine Or.inr ⟨fun q hq => ?_, hret⟩
        rcases List.mem_append.1 hq with hq | hq
        · exact hnone q hq
        · unfold Contains
          rcases List.mem_cons.1 hq with rfl | hq
          · omega
          · have := hox q hq
            omega
    rw [if_neg hlow]
    by_cases hhigh : t.endingVpn x < vpn
    · rw [if_pos hhigh, hrx]
      rcases @ihr fuel _ hr hor (fun q hq => hranges q (by simp [hq])) (by omega) with ⟨q, hq, hc, hret⟩ | ⟨hnone, hret⟩
      · exact Or.inl ⟨q, by simp [hq], hc, hret⟩
      · refine Or.inr ⟨fun q hq => ?_, hret⟩
        rcases List.mem_append.1 hq with hq | hq
        · have := hcross q hq x (by simp)
          unfold Contains
          omega
        · rcases List.mem_cons.1 hq with rfl | hq
          · unfold Contains
            omega
          · exact hnone q hq
    · exact Or.inl ⟨x, by simp, ⟨by omega, by omega⟩, if_neg hhigh⟩

theorem WellFormed.findVad (h : t.WellFormed u) (va : ℕ) :
    (∃ vad, t.findVad va = some vad ∧ t.Reachable vad ∧ t.Contains vad (va / pageSize)) ∨
      t.findVad va = some 0 ∧ ∀ p, t.Reachable p → ¬ t.Contains p (va / pageSize) := by
  have hfuel : u.height < t.nodeCount + 1 := by
    have := height_le_numNodes u
    rw [h.nodeCount]
    omega
  rw [MmAvlTable.findVad, miFindVad, h.root]
  rcases findLoop_spec (va / pageSize) h.links h.ordered h.ranges hfuel with ⟨q, hq, hc, hret⟩ | ⟨hnone, hret⟩
  · exact Or.inl ⟨q, hret, (h.reachable q).2 hq, hc⟩
  · exact Or.inr ⟨hret, fun p hp => hnone p ((h.reachable p).1 hp)⟩

theorem page_of_shift {vpn : ℕ} (h : vpn < 2 ^ 52) : vpn * pageSize % 2 ^ 64 / pageSize = vpn := by
  unfold pageSize
  omega

theorem WellFormed.contains_unique (h : t.WellFormed u) {p q vpn : ℕ} (hp : t.Reachable p) (hq : t.Reachable q)
    (hcp : t.Contains p vpn) (hcq : t.Contains q vpn) : p = q := by
  by_contra hne
  have hsymm : (inorder u).Pairwise fun p q => t.endingVpn p < t.startingVpn q ∨ t.endingVpn q < t.startingVpn p :=
    h.ordered.imp Or.inl
  have : Std.Symm fun p q => t.endingVpn p < t.startingVpn q ∨ t.endingVpn q < t.startingVpn p := ⟨fun _ _ => Or.symm⟩
  have hapart := hsymm.forall ((h.reachable p).1 hp) ((h.reachable q).1 hq) hne
  unfold Contains at hcp hcq
  omega

theorem WellFormed.miFindVadForRange (h : t.WellFormed u) {startVpn : ℕ} (endVpn : ℕ) (hstart : startVpn < 2 ^ 52) :
    ∃ vad, t.miFindVadForRange startVpn endVpn = some vad ∧
      (vad ≠ 0 → t.Reachable vad ∧ t.Contains vad startVpn ∧ endVpn ≤ t.endingVpn vad) ∧
      (vad = 0 → ∀ p, t.Reachable p → t.Contains p startVpn → t.endingVpn p < endVpn) := by
  have hfind := h.findVad (startVpn * pageSize % 2 ^ 64)
  rw [page_of_shift hstart] at hfind
  unfold MmAvlTable.miFindVadForRange
  rcases hfind with ⟨vad, hret, hreach, hc⟩ | ⟨hret, hnone⟩
  · simp only [hret, bind_eq_bind, bind_some, if_neg (h.ne_zero hreach)]
    by_cases hend : endVpn ≤ t.endingVpn vad
    · rw [if_pos ⟨hc.1, hend⟩]
      exact ⟨vad, rfl, fun _ => ⟨hreach, hc, hend⟩, fun e => absurd e (h.ne_zero hreach)⟩
    · rw [if_neg fun e => hend e.2]
      refine ⟨0, rfl, fun e => absurd rfl e, fun _ p hp hcp => ?_⟩
      obtain rfl := h.contains_unique hp hreach hcp hc
      omega
  · simp only [hret, bind_eq_bind, bind_some, if_true]
    exact ⟨0, rfl, fun e => absurd rfl e, fun _ p hp hcp => absurd hcp (hnone p hp)⟩

theorem foldlM_conflictAt {l : List ℕ} (startVpn endVpn : ℕ)
    (hordered : l.Pairwise fun p q => t.endingVpn p < t.startingVpn q)
    (hranges : ∀ q ∈ l, t.startingVpn q ≤ t.endingVpn q) :
    ((∃ p ∈ l, t.startingVpn p ≤ endVpn ∧ startVpn ≤ t.endingVpn p) ∧
        l.foldlM (t.conflictAt startVpn endVpn) () = .error true) ∨
      (¬ ∃ p ∈ l, t.startingVpn p ≤ endVpn ∧ startVpn ≤ t.endingVpn p) ∧
        (l.foldlM (t.conflictAt startVpn endVpn) () = .error false ∨
          l.foldlM (t.conflictAt startVpn endVpn) () = .ok ()) := by
  induction l with
  | nil => exact Or.inr ⟨fun ⟨p, hp, _⟩ => (by cases hp), Or.inr rfl⟩
  | cons q l ih =>
    obtain ⟨hq, hl⟩ := List.pairwise_cons.1 hordered
    have hqr := hranges q (by simp)
    rw [List.foldlM_cons, conflictAt]
    by_cases hmeet : t.startingVpn q ≤ endVpn ∧ startVpn ≤ t.endingVpn q
    · exact Or.inl ⟨⟨q, by simp, hmeet⟩, by rw [if_pos hmeet]; rfl⟩
    rw [if_neg hmeet]
    by_cases hlate : endVpn < t.startingVpn q
    · refine Or.inr ⟨?_, Or.inl (by rw [if_pos hlate]; rfl)⟩
      rintro ⟨p, hp, hp1, hp2⟩
      rcases List.mem_cons.1 hp with rfl | hp
      · exact hmeet ⟨hp1, hp2⟩
      · have := hq p hp
        omega
    · rw [if_neg hlate]
      rcases ih hl fun q hq => hranges q (by simp [hq]) with ⟨⟨p, hp, hm⟩, hret⟩ | ⟨hnone, hret⟩
      · exact Or.inl ⟨⟨p, by simp [hp], hm⟩, hret⟩
      · refine Or.inr ⟨?_, hret⟩
        rintro ⟨p, hp, hm⟩
        rcases List.mem_cons.1 hp with rfl | hp
        · exact hmeet hm
        · exact hnone ⟨p, hp, hm⟩

theorem WellFormed.miCheckVadConflict (h : t.WellFormed u) (hstack : t.StackSuffices) {startVpn endVpn : ℕ}
    (hle : startVpn ≤ endVpn) (hend : endVpn < 2 ^ 52) :
    ∃ conflict, t.miCheckVadConflict startVpn endVpn = some conflict ∧
      (conflict = true ↔ ∃ p, t.Reachable p ∧ t.startingVpn p ≤ endVpn ∧ startVpn ≤ t.endingVpn p) := by
  unfold MmAvlTable.miCheckVadConflict
  by_cases hroot : t.tree.root = 0
  · rw [if_pos hroot]
    exact ⟨false, rfl, by simp [h.not_reachable hroot]⟩
  rw [if_neg hroot]
  have hfirst := h.findVad (startVpn * pageSize % 2 ^ 64)
  rw [page_of_shift (by omega)] at hfirst
  rcases hfirst with ⟨vad, hret, hreach, hc⟩ | ⟨hret, -⟩
  · refine ⟨true, ?_, by simp; exact ⟨vad, hreach, hc.1.trans hle, hc.2⟩⟩
    simp only [hret, bind_eq_bind, bind_some, ne_eq, h.ne_zero hreach, not_false_eq_true, if_true,
      pure_def]
  have hlast := h.findVad (endVpn * pageSize % 2 ^ 64)
  rw [page_of_shift hend] at hlast
  rcases hlast with ⟨vad, hret', hreach, hc⟩ | ⟨hret', -⟩
  · refine ⟨true, ?_, by simp; exact ⟨vad, hreach, hc.1, hle.trans hc.2⟩⟩
    simp only [hret, hret', bind_eq_bind, bind_some, ne_eq, h.ne_zero hreach, not_true_eq_false,
      not_false_eq_true, if_true, if_false, pure_def]
  simp only [hret, hret', h.walkUp hstack, bind_eq_bind, bind_some, ne_eq, not_true_eq_false, if_false,
    pure_def]
  rcases foldlM_conflictAt startVpn endVpn h.ordered h.ranges with
    ⟨⟨p, hp, hm⟩, hfold⟩ | ⟨hnone, hfold⟩
  · exact ⟨true, by simp [hfold], by simp; exact ⟨p, (h.reachable p).2 hp, hm⟩⟩
  · refine ⟨false, by rcases hfold with hfold | hfold <;> simp [hfold], ?_⟩
    simp only [Bool.false_eq_true, false_iff]
    rintro ⟨p, hp, hm⟩
    exact hnone ⟨p, (h.reachable p).1 hp, hm⟩

theorem foldlM_nextStartAt {l : List ℕ} (vpn best : ℕ) (hordered : l.Pairwise fun p q => t.endingVpn p < t.startingVpn q)
    (hranges : ∀ q ∈ l, t.startingVpn q ≤ t.endingVpn q) :
    (∃ p ∈ l, vpn < t.startingVpn p ∧ (∀ q ∈ l, vpn < t.startingVpn q → t.startingVpn p ≤ t.startingVpn q) ∧
        l.foldlM (t.nextStartAt vpn) best = .error (min (t.startAddress p) best)) ∨
      (∀ p ∈ l, t.startingVpn p ≤ vpn) ∧ l.foldlM (t.nextStartAt vpn) best = .ok best := by
  induction l with
  | nil => exact Or.inr ⟨fun p hp => (by cases hp), rfl⟩
  | cons q l ih =>
    obtain ⟨hq, hl⟩ := List.pairwise_cons.1 hordered
    have hqr := hranges q (by simp)
    rw [List.foldlM_cons, nextStartAt]
    by_cases hlater : vpn < t.startingVpn q
    · refine Or.inl ⟨q, by simp, hlater, fun p hp _ => ?_, ?_⟩
      · rcases List.mem_cons.1 hp with rfl | hp
        · exact Nat.le_refl _
        · have := hq p hp
          omega
      · rw [if_pos hlater]
        show Except.error _ = _
        congr 1
        split <;> omega
    · rw [if_neg hlater]
      rcases ih hl fun q hq => hranges q (by simp [hq]) with ⟨p, hp, hlt, hmin, hret⟩ | ⟨hnone, hret⟩
      · refine Or.inl ⟨p, by simp [hp], hlt, fun p' hp' hlt' => ?_, hret⟩
        rcases List.mem_cons.1 hp' with rfl | hp'
        · exact absurd hlt' hlater
        · exact hmin p' hp' hlt'
      · refine Or.inr ⟨fun p hp => ?_, hret⟩
        rcases List.mem_cons.1 hp with rfl | hp
        · omega
        · exact hnone p hp

theorem WellFormed.miFindNextVadStart (h : t.WellFormed u) (hstack : t.StackSuffices) (address : ℕ) :
    (∃ p, t.Reachable p ∧ address / pageSize < t.startingVpn p ∧
        (∀ q, t.Reachable q → address / pageSize < t.startingVpn q → t.startingVpn p ≤ t.startingVpn q) ∧
        t.miFindNextVadStart address = some (min (t.startAddress p) (mmHighestUserAddress + 1))) ∨
      (∀ p, t.Reachable p → t.startingVpn p ≤ address / pageSize) ∧
        t.miFindNextVadStart address = some (mmHighestUserAddress + 1) := by
  unfold MmAvlTable.miFindNextVadStart
  by_cases hroot : t.tree.root = 0
  · rw [if_pos hroot]
    exact Or.inr ⟨fun p hp => absurd hp (h.not_reachable hroot p), rfl⟩
  simp only [if_neg hroot, h.walkUp hstack, bind_eq_bind, bind_some]
  rcases foldlM_nextStartAt (address / pageSize) (mmHighestUserAddress + 1) h.ordered h.ranges with
    ⟨p, hp, hlt, hmin, hfold⟩ | ⟨hnone, hfold⟩
  · exact Or.inl ⟨p, (h.reachable p).2 hp, hlt, fun q hq => hmin q ((h.reachable q).1 hq), by rw [hfold]; rfl⟩
  · exact Or.inr ⟨fun p hp => hnone p ((h.reachable p).1 hp), by rw [hfold]; rfl⟩

/-- The four queries against the regions of the tree. The two walks need a stack that
suffices. -/
structure AnswersQueries (t : MmAvlTable) : Prop where
  find : ∀ va < 2 ^ 64, ∃ vad, t.findVad va = some vad ∧
    (vad ≠ 0 → t.Reachable vad ∧ t.Contains vad (va / pageSize)) ∧
    (vad = 0 → ∀ p, t.Reachable p → ¬ t.Contains p (va / pageSize))
  findForRange : ∀ startVpn endVpn, startVpn < 2 ^ 52 → endVpn < 2 ^ 52 →
    ∃ vad, t.miFindVadForRange startVpn endVpn = some vad ∧
      (vad ≠ 0 → t.Reachable vad ∧ t.startingVpn vad ≤ startVpn ∧ max startVpn endVpn ≤ t.endingVpn vad) ∧
      (vad = 0 → ∀ p, t.Reachable p → ¬ (t.startingVpn p ≤ startVpn ∧ max startVpn endVpn ≤ t.endingVpn p))
  conflict : t.StackSuffices → ∀ startVpn endVpn, startVpn ≤ endVpn → endVpn < 2 ^ 52 →
    ∃ conflict, t.miCheckVadConflict startVpn endVpn = some conflict ∧
      (conflict = true ↔ ∃ p, t.Reachable p ∧ t.startingVpn p ≤ endVpn ∧ startVpn ≤ t.endingVpn p)
  nextStart : t.StackSuffices → ∀ address < 2 ^ 64,
    (∃ p, t.Reachable p ∧ address / pageSize < t.startingVpn p ∧
        (∀ q, t.Reachable q → address / pageSize < t.startingVpn q → t.startingVpn p ≤ t.startingVpn q) ∧
        t.miFindNextVadStart address = some (min (t.startAddress p) (mmHighestUserAddress + 1))) ∨
      (∀ p, t.Reachable p → t.startingVpn p ≤ address / pageSize) ∧
        t.miFindNextVadStart address = some (mmHighestUserAddress + 1)

theorem WellFormed.answersQueries (h : t.WellFormed u) : t.AnswersQueries where
  find va _ := by
    rcases h.findVad va with ⟨vad, hret, hreach, hc⟩ | ⟨hret, hnone⟩
    · exact ⟨vad, hret, fun _ => ⟨hreach, hc⟩, fun e => absurd e (h.ne_zero hreach)⟩
    · exact ⟨0, hret, fun e => absurd rfl e, fun _ => hnone⟩
  findForRange startVpn endVpn hstart _ := by
    obtain ⟨vad, hret, hsome, hnone⟩ := h.miFindVadForRange endVpn hstart
    refine ⟨vad, hret, fun hne => ?_, fun e p hp hcp => ?_⟩
    · obtain ⟨hreach, hc, hend⟩ := hsome hne
      exact ⟨hreach, hc.1, Nat.max_le.2 ⟨hc.2, hend⟩⟩
    · have := hnone e p hp ⟨hcp.1, by omega⟩
      omega
  conflict hstack _ _ := h.miCheckVadConflict hstack
  nextStart hstack address _ := h.miFindNextVadStart hstack address

/-- In every state of a run from an empty table the queries agree with the set of regions. -/
theorem vadQueries_agree (hops : EveryStep step Admitted t.new ops) :
    EveryState step AnswersQueries t.new ops :=
  (vadTree_wellFormed hops).1.imp fun _ ⟨_, h⟩ => h.answersQueries

/-- A lookup, a conflict around a region and the next region in the tree that the rotations
leave. -/
theorem vadQueries_agree_rotation : EveryState step AnswersQueries blank.new rotation :=
  vadQueries_agree admitted_rotation

/-- A region above the user part of the address space starts after the first page, but the
query for the next start passes over it. -/
theorem miFindNextVadStart_above_user :
    EveryStep step Admitted blank.new [.insert 1 (2 ^ 36) (2 ^ 36)] ∧
      ∃ t, t = run step blank.new [.insert 1 (2 ^ 36) (2 ^ 36)] ∧ t.StackSuffices ∧ t.Reachable 1 ∧
        0 / pageSize < t.startingVpn 1 ∧ (∀ p, t.Reachable p → p = 1) ∧
        t.miFindNextVadStart 0 ≠ some (t.startAddress 1) := by
  refine ⟨⟨⟨by decide, fun h => absurd (mem_of_reachable _ [] (by decide) (by decide) h) (by decide), by decide⟩, trivial⟩,
    _, rfl, by unfold StackSuffices; decide, .root (by decide), by decide, fun p hp => ?_, by decide⟩
  exact List.mem_singleton.1 (mem_of_reachable _ [1] (by decide) (by decide) hp)

end MmAvlTable

end XenOS.Mm
