import XenOS.Mm.VadTree

/-! The rebalancing loop carries out the climb of the balanced trees. The heights it
compares are recomputed, the sibling's balance is the cached one. -/

namespace XenOS.Mm

open General BinaryTree TreeHeap MmAvlTable
open Function (update update_self update_of_ne)
open List (mem_append mem_cons nodup_append)

section Caches
variable {balance : ℕ → ℤ} {a b d : BinaryTree ℕ} {x y : ℕ}

theorem cached_rotateLeft (hnd : (inorder (.node x a (.node y b d))).Nodup) (ha : Cached balance a)
    (hb : Cached balance b) (hd : Cached balance d) (hab : a.height < b.height + 4) (hba : b.height < a.height + 4)
    (had : a.height < d.height + 4) (hbd : b.height < d.height + 4) (hda : d.height < max a.height b.height + 4) :
    Cached (update (update balance x (asI8 ((b.height : ℤ) - a.height))) y
      (asI8 ((d.height : ℤ) - (node x a b).height))) (.node y (.node x a b) d) := by
  have hap : Apart [] a b d x y := apart_of_nodup (by simpa [before, after] using hnd)
  have hout : ∀ q, q ≠ x → q ≠ y → update (update balance x
      (asI8 ((b.height : ℤ) - a.height))) y (asI8 ((d.height : ℤ) - (node x a b).height)) q = balance q :=
    fun q hqx hqy => by rw [update_of_ne hqy, update_of_ne hqx]
  refine ⟨?_, ⟨?_, ha.congr fun q hq => hout q (hap.first q hq).1 (hap.first q hq).2.1,
    hb.congr fun q hq => hout q (hap.second q hq).1 (hap.second q hq).2⟩,
    hd.congr fun q hq => hout q (hap.third q hq).1 (hap.third q hq).2.1⟩
  · rw [update_self]
    exact asI8_eq (by simp only [height]; omega) (by simp only [height]; omega)
  · rw [update_of_ne hap.xy, update_self]
    exact asI8_eq (by omega) (by omega)

theorem cached_rotateRight (hnd : (inorder (.node y (.node x a b) d)).Nodup) (ha : Cached balance a)
    (hb : Cached balance b) (hd : Cached balance d) (hbd : b.height < d.height + 4) (hdb : d.height < b.height + 4)
    (hba : b.height < a.height + 4) (hda : d.height < a.height + 4) (had : a.height < max b.height d.height + 4) :
    Cached (update (update balance y (asI8 ((d.height : ℤ) - b.height))) x
      (asI8 (((node y b d).height : ℤ) - a.height))) (.node x a (.node y b d)) := by
  have hap : Apart [] a b d x y := apart_of_nodup (by simpa [before, after] using hnd)
  have hout : ∀ q, q ≠ x → q ≠ y → update (update balance y
      (asI8 ((d.height : ℤ) - b.height))) x (asI8 (((node y b d).height : ℤ) - a.height)) q = balance q :=
    fun q hqx hqy => by rw [update_of_ne hqx, update_of_ne hqy]
  refine ⟨?_, ha.congr fun q hq => hout q (hap.first q hq).1 (hap.first q hq).2.1,
    ⟨?_, hb.congr fun q hq => hout q (hap.second q hq).1 (hap.second q hq).2,
    hd.congr fun q hq => hout q (hap.third q hq).1 (hap.third q hq).2.1⟩⟩
  · rw [update_self]
    exact asI8_eq (by simp only [height]; omega) (by simp only [height]; omega)
  · rw [update_of_ne hap.xy.symm, update_self]
    exact asI8_eq (by omega) (by omega)

end Caches

namespace MmAvlTable
variable {t t' : MmAvlTable} {c : List (Frame ℕ)} {f : Frame ℕ} {u l r : BinaryTree ℕ} {a : ℕ}

theorem Focus.nodup (h : t.Focus c u) : (inorder u).Nodup := by
  have := h.tree.nodup
  rw [inorder_plug] at this
  exact (nodup_append.1 (nodup_append.1 this).1).2.1

/-- The node is rebalanced. The loop goes on at its parent, which is the node above or
the node that took its place. -/
structure Fixed (t : MmAvlTable) (c : List (Frame ℕ)) (a : ℕ) (u : BinaryTree ℕ) (t' : MmAvlTable) : Prop where
  focus : t'.Focus c (rebalance u)
  same : SameData t t'
  cached : Cached t'.balance (rebalance u)
  outside : ∀ q ∉ inorder u, t'.balance q = t.balance q
  next : t'.tree.parent a = top 0 c ∨ t'.tree.parent a = rootOf 0 (rebalance u)

section
variable (h : t.Focus c (.node a l r))
include h

theorem Focus.fixLeftHeavy (hl : Balanced l) (hcl : Cached t.balance l)
    (hcr : Cached t.balance r) (hheavy : r.height + 1 < l.height) (hbound : l.height ≤ r.height + 2) :
    ∃ t', t.fixLeftHeavy a = some t' ∧ Fixed t c a (.node a l r) t' := by
  obtain - | ⟨x, ll, lr⟩ := l
  · simp at hheavy
  obtain ⟨ha, hp, hlx, -, ⟨hx, -⟩, -⟩ := h.tree.rep
  rw [rootOf] at hlx
  obtain ⟨hbx, hcll, hclr⟩ := hcl
  obtain ⟨hbll, hblr, h1, h2⟩ := hl
  simp only [height] at hheavy hbound
  have hreb : rebalance (.node a (.node x ll lr) r) =
      rotateRight (.node a (if ll.height < lr.height then rotateLeft (.node x ll lr) else .node x ll lr) r) := by
    rw [rebalance, if_pos (by simpa only [height] using hheavy)]
    rfl
  simp only [fixLeftHeavy, hlx, hbx]
  by_cases hlean : ll.height < lr.height
  · -- the left child leans right: rotate it first
    obtain - | ⟨y, b, d⟩ := lr
    · simp at hlean
    rw [if_pos hlean] at hreb
    rw [if_pos ⟨hx, by omega⟩]
    simp only [height] at *
    obtain ⟨hb, hd, h3, h4⟩ := hblr
    obtain ⟨-, hcb, hcd⟩ := hclr
    have hinner : t.Focus (.left a r :: c) (.node x ll (.node y b d)) := focus_cons.2 h
    obtain ⟨t1, hrot1, hf1, hs1, hb1⟩ := hinner.miRotateLeft
    have hc1 : Cached t1.balance (.node y (.node x ll b) d) := by
      rw [hb1]
      exact cached_rotateLeft hinner.nodup hcll hcb hcd (by omega) (by omega) (by omega) (by omega) (by omega)
    have hnd := h.nodup
    have hout1 : ∀ q ∉ inorder (.node x ll (.node y b d)), t1.balance q = t.balance q := by
      intro q hq
      rw [hb1, update_of_ne (by rintro rfl; simp at hq), update_of_ne (by rintro rfl; simp at hq)]
    have hcr1 : Cached t1.balance r := hcr.congr fun q hq => hout1 q fun hm => by
      rw [inorder_node] at hnd
      exact (nodup_append.1 hnd).2.2 q hm q (by simp [hq]) rfl
    have hf1' : t1.Focus c (.node a (.node y (.node x ll b) d) r) := focus_cons.1 hf1
    obtain ⟨t2, hrot2, hf2, hs2, hb2⟩ := hf1'.miRotateRight
    refine ⟨t2, ?_, ?_⟩
    · rw [hrot1]
      exact hrot2
    · have hc2 : Cached t2.balance (.node y (.node x ll b) (.node a d r)) := by
        rw [hb2]
        exact cached_rotateRight hf1'.nodup hc1.2.1 hc1.2.2 hcr1 (by omega) (by omega) (by simp only [height]; omega)
          (by simp only [height]; omega) (by simp only [height]; omega)
      refine ⟨hreb ▸ hf2, hs1.trans hs2, hreb ▸ hc2, fun q hq => ?_, Or.inr ?_⟩
      · simp only [inorder_node, mem_append, mem_cons, not_or] at hq
        rw [hb2, update_of_ne (by tauto), update_of_ne (by tauto)]
        exact hout1 q (by simp; tauto)
      · rw [hreb]
        exact hf2.tree.rep.2.2.2.2.2.2.1
  · rw [if_neg hlean] at hreb
    rw [if_neg (by omega)]
    obtain ⟨t2, hrot2, hf2, hs2, hb2⟩ := h.miRotateRight
    refine ⟨t2, hrot2, ?_⟩
    have hc2 : Cached t2.balance (.node x ll (.node a lr r)) := by
      rw [hb2]
      exact cached_rotateRight h.nodup hcll hclr hcr (by omega) (by omega) (by omega) (by omega) (by omega)
    refine ⟨hreb ▸ hf2, hs2, hreb ▸ hc2, fun q hq => ?_, Or.inr ?_⟩
    · simp only [inorder_node, mem_append, mem_cons, not_or] at hq
      rw [hb2, update_of_ne (by tauto), update_of_ne (by tauto)]
    · rw [hreb]
      exact hf2.tree.rep.2.2.2.2.2.2.1

theorem Focus.fixRightHeavy (hr : Balanced r) (hcl : Cached t.balance l)
    (hcr : Cached t.balance r) (hheavy : l.height + 1 < r.height) (hbound : r.height ≤ l.height + 2) :
    ∃ t', t.fixRightHeavy a = some t' ∧ Fixed t c a (.node a l r) t' := by
  obtain - | ⟨x, rl, rr⟩ := r
  · simp at hheavy
  obtain ⟨ha, hp, -, hrx, -, ⟨hx, -⟩⟩ := h.tree.rep
  rw [rootOf] at hrx
  obtain ⟨hbx, hcrl, hcrr⟩ := hcr
  obtain ⟨hbrl, hbrr, h1, h2⟩ := hr
  simp only [height] at hheavy hbound
  have hreb : rebalance (.node a l (.node x rl rr)) =
      rotateLeft (.node a l (if rr.height < rl.height then rotateRight (.node x rl rr) else .node x rl rr)) := by
    rw [rebalance, if_neg (by simp only [height]; omega), if_pos (by simpa only [height] using hheavy)]
    rfl
  simp only [fixRightHeavy, hrx, hbx]
  by_cases hlean : rr.height < rl.height
  · -- the right child leans left: rotate it first
    obtain - | ⟨y, b, d⟩ := rl
    · simp at hlean
    rw [if_pos hlean] at hreb
    rw [if_pos ⟨hx, by omega⟩]
    simp only [height] at *
    obtain ⟨hb, hd, h3, h4⟩ := hbrl
    obtain ⟨-, hcb, hcd⟩ := hcrl
    have hinner : t.Focus (.right a l :: c) (.node x (.node y b d) rr) := focus_cons.2 h
    obtain ⟨t1, hrot1, hf1, hs1, hb1⟩ := hinner.miRotateRight
    have hc1 : Cached t1.balance (.node y b (.node x d rr)) := by
      rw [hb1]
      exact cached_rotateRight hinner.nodup hcb hcd hcrr (by omega) (by omega) (by omega) (by omega) (by omega)
    have hnd := h.nodup
    have hout1 : ∀ q ∉ inorder (.node x (.node y b d) rr), t1.balance q = t.balance q := by
      intro q hq
      rw [hb1, update_of_ne (by rintro rfl; simp at hq), update_of_ne (by rintro rfl; simp at hq)]
    have hcl1 : Cached t1.balance l := hcl.congr fun q hq => hout1 q fun hm => by
      rw [inorder_node] at hnd
      exact (nodup_append.1 hnd).2.2 q hq q (List.mem_cons_of_mem _ hm) rfl
    have hf1' : t1.Focus c (.node a l (.node y b (.node x d rr))) := focus_cons.1 hf1
    obtain ⟨t2, hrot2, hf2, hs2, hb2⟩ := hf1'.miRotateLeft
    refine ⟨t2, ?_, ?_⟩
    · rw [hrot1]
      exact hrot2
    · have hc2 : Cached t2.balance (.node y (.node a l b) (.node x d rr)) := by
        rw [hb2]
        exact cached_rotateLeft hf1'.nodup hcl1 hc1.2.1 hc1.2.2 (by omega) (by omega) (by simp only [height]; omega)
          (by simp only [height]; omega) (by simp only [height]; omega)
      refine ⟨hreb ▸ hf2, hs1.trans hs2, hreb ▸ hc2, fun q hq => ?_, Or.inr ?_⟩
      · simp only [inorder_node, mem_append, mem_cons, not_or] at hq
        rw [hb2, update_of_ne (by tauto), update_of_ne (by tauto)]
        exact hout1 q (by simp; tauto)
      · rw [hreb]
        exact hf2.tree.rep.2.2.2.2.1.2.1
  · rw [if_neg hlean] at hreb
    rw [if_neg (by omega)]
    obtain ⟨t2, hrot2, hf2, hs2, hb2⟩ := h.miRotateLeft
    refine ⟨t2, hrot2, ?_⟩
    have hc2 : Cached t2.balance (.node x (.node a l rl) rr) := by
      rw [hb2]
      exact cached_rotateLeft h.nodup hcl hcrl hcrr (by omega) (by omega) (by omega) (by omega) (by omega)
    refine ⟨hreb ▸ hf2, hs2, hreb ▸ hc2, fun q hq => ?_, Or.inr ?_⟩
    · simp only [inorder_node, mem_append, mem_cons, not_or] at hq
      rw [hb2, update_of_ne (by tauto), update_of_ne (by tauto)]
    · rw [hreb]
      exact hf2.tree.rep.2.2.2.2.1.2.1

theorem Focus.rebalanceNode (hl : Balanced l) (hr : Balanced r)
    (hcl : Cached t.balance l) (hcr : Cached t.balance r) (hlr : l.height ≤ r.height + 2) (hrl : r.height ≤ l.height + 2) :
    ∃ t', t.rebalanceNode a = some t' ∧ Fixed t c a (.node a l r) t' := by
  have hbal : asI8 ((r.height : ℤ) - l.height) = (r.height : ℤ) - l.height := asI8_eq (by omega) (by omega)
  have hnd := h.nodup
  rw [inorder_node] at hnd
  have hal : a ∉ inorder l := fun hm => (nodup_append.1 hnd).2.2 a hm a (by simp) rfl
  have har : a ∉ inorder r := (List.nodup_cons.1 (nodup_append.1 hnd).2.1).1
  -- the balance of the node itself is fresh
  let t0 := t.setBalance a ((r.height : ℤ) - l.height)
  have hout : ∀ q, q ≠ a → t0.balance q = t.balance q := fun q hq => update_of_ne hq _ _
  have h0 : t0.Focus c (.node a l r) := h.setBalance
  have hcl0 : Cached t0.balance l := hcl.congr fun q hq => hout q fun e => hal (e ▸ hq)
  have hcr0 : Cached t0.balance r := hcr.congr fun q hq => hout q fun e => har (e ▸ hq)
  have hself : t0.balance a = (r.height : ℤ) - l.height := update_self ..
  have hstart : t.rebalanceNode a = if t0.balance a < -1 then t0.fixLeftHeavy a
      else if 1 < t0.balance a then t0.fixRightHeavy a else some t0 := by
    rw [MmAvlTable.rebalanceNode, h.miUpdateBalance, hbal]
    rfl
  have hfixed : ∀ t', Fixed t0 c a (.node a l r) t' → Fixed t c a (.node a l r) t' := fun t' hf =>
    ⟨hf.focus, ⟨hf.same.1, hf.same.2, hf.same.3, hf.same.4⟩, hf.cached, fun q hq => (hf.outside q hq).trans (hout q (by rintro rfl; simp at hq)), hf.next⟩
  rw [hstart, hself]
  split_ifs with h1 h2
  · obtain ⟨t', heq, hf⟩ := h0.fixLeftHeavy hl hcl0 hcr0 (by omega) hlr
    exact ⟨t', heq, hfixed t' hf⟩
  · obtain ⟨t', heq, hf⟩ := h0.fixRightHeavy hr hcl0 hcr0 (by omega) hrl
    exact ⟨t', heq, hfixed t' hf⟩
  · have hreb := rebalance_of_balanced (a := a) (l := l) (r := r) (by omega) (by omega)
    have hcached : Cached t0.balance (.node a l r) := ⟨hself, hcl0, hcr0⟩
    refine ⟨t0, rfl, hfixed t0 ⟨?_, SameData.refl t0, ?_, fun _ _ => rfl, Or.inl h0.tree.rep.2.1⟩⟩
    · rwa [hreb]
    · rwa [hreb]

end

theorem Focus.rebalance_frame (h : t.Focus (f :: c) u) (hu : Balanced u) (hcu : Cached t.balance u)
    (hs : Balanced f.sibling) (hcs : Cached t.balance f.sibling) (h1 : u.height ≤ f.sibling.height + 2)
    (h2 : f.sibling.height ≤ u.height + 2) :
    ∃ t', t.rebalanceNode f.value = some t' ∧ Fixed t c f.value (f.plug u) t' := by
  have h' := focus_cons.1 h
  cases f with
  | left a r => exact h'.rebalanceNode hu hs hcu hcs h1 h2
  | right a l => exact h'.rebalanceNode hs hu hcs hcu h2 h1

def CachedAround (balance : ℕ → ℤ) (c : List (Frame ℕ)) : Prop := ∀ f ∈ c, Cached balance f.sibling

theorem Fixed.cachedAround (h : Fixed t c a u t') (hnd : (inorder (plug c u)).Nodup)
    (hc : CachedAround t.balance c) : CachedAround t'.balance c := fun f hf => (hc f hf).congr fun q hq => by
  exact h.outside q fun hm => notMem_around hnd hm (mem_around hf hq)

/-- The loop arrives at the node above: after this turn, or after one more at the node that
took the place of this one. -/
theorem Fixed.next_turn (fuel : ℕ) (h : Fixed t c a u t') (hnd : (inorder (plug c u)).Nodup)
    (hu : rebalance u ≠ .nil) (hb : Balanced (rebalance u)) (hc : CachedAround t.balance c) :
    ∃ t'' k, k ≤ 1 ∧ rebalanceLoop (fuel + 1) t' (t'.tree.parent a) = rebalanceLoop (fuel + 1 - k) t'' (top 0 c) ∧
      t''.Focus c (rebalance u) ∧ SameData t t'' ∧ Cached t''.balance (rebalance u) ∧ CachedAround t''.balance c := by
  have hc' := h.cachedAround hnd hc
  have hfocus := h.focus
  have hcached := h.cached
  rcases h.next with hnext | hnext
  · exact ⟨t', 0, Nat.zero_le 1, by rw [hnext]; rfl, hfocus, h.same, hcached, hc'⟩
  · generalize rebalance u = v at hu hb hfocus hcached hnext
    obtain - | ⟨b, l, r⟩ := v
    · exact absurd rfl hu
    obtain ⟨hl, hr, hlr, hrl⟩ := hb
    obtain ⟨-, hcl, hcr⟩ := hcached
    obtain ⟨t'', hstep, hfixed⟩ := hfocus.rebalanceNode hl hr hcl hcr (by omega) (by omega)
    have hsame := rebalance_of_balanced (a := b) hlr hrl
    have hfocus'' : t''.Focus c (.node b l r) := hsame ▸ hfixed.focus
    refine ⟨t'', 1, Nat.le_refl 1, ?_, hfocus'', h.same.trans hfixed.same, hsame ▸ hfixed.cached,
      hfixed.cachedAround hfocus.tree.nodup hc'⟩
    have hb0 : b ≠ 0 := hfocus''.tree.rep.1
    have hparent : t''.tree.parent b = top 0 c := hfocus''.tree.rep.2.1
    rw [hnext, rootOf, rebalanceLoop, if_neg hb0, hstep]
    simp only [Option.bind_eq_bind, Option.bind_some, hparent]
    rfl

theorem rebalance_plug_ne_nil (f : Frame ℕ) (u : BinaryTree ℕ) : rebalance (f.plug u) ≠ .nil := fun h => by
  have := congrArg (fun v => (inorder v).length) h
  cases f <;> simp [Frame.plug] at this

theorem rebalanceLoop_climb : ∀ (c : List (Frame ℕ)) {t : MmAvlTable} {u : BinaryTree ℕ} {h fuel : ℕ},
    t.Focus c u → Balanced u → Cached t.balance u → CachedAround t.balance c → Suits h c →
    u.height ≤ h + 1 → h ≤ u.height + 1 → 2 * c.length < fuel →
    ∃ t', rebalanceLoop fuel t (top 0 c) = some t' ∧ t'.Focus [] (climb c u) ∧ SameData t t' ∧
      Cached t'.balance (climb c u) := by
  intro c
  induction c with
  | nil =>
    intro t u h fuel hf _ hcu _ _ _ _ hfuel
    obtain ⟨fuel, rfl⟩ := Nat.exists_eq_add_one.2 hfuel
    exact ⟨t, if_pos rfl, hf, SameData.refl t, hcu⟩
  | cons f c ih =>
    intro t u h fuel hf hu hcu hcc hsuits hup hdown hfuel
    obtain ⟨fuel, rfl⟩ : ∃ k, fuel = k + 2 := ⟨fuel - 2, by simp at hfuel; omega⟩
    obtain ⟨hbal, hhi, hlo⟩ := repaired_frame hu hsuits hup hdown
    obtain ⟨hs, hs1, hs2, hsuits'⟩ := hsuits
    have hne : f.value ≠ 0 := hf.tree.hole.top_ne_nil (by simp)
    have hcs := hcc f (by simp)
    obtain ⟨t1, hstep, hfixed⟩ := hf.rebalance_frame hu hcu hs hcs (by omega) (by omega)
    have hcc' : CachedAround t.balance c := fun g hg => hcc g (List.mem_cons_of_mem _ hg)
    obtain ⟨t2, k, hk, hloop, hf2, hsame, hc2, hcc2⟩ :=
      hfixed.next_turn fuel (focus_cons.1 hf).tree.nodup (rebalance_plug_ne_nil f u) hbal hcc'
    obtain ⟨t3, hrest, hf3, hsame3, hc3⟩ := ih hf2 hbal hc2 hcc2 hsuits' hhi hlo
      (show 2 * c.length < fuel + 1 - k by simp at hfuel; omega)
    refine ⟨t3, ?_, hf3, hsame.trans hsame3, hc3⟩
    rw [top, rebalanceLoop, if_neg hne, hstep]
    simp only [Option.bind_eq_bind, Option.bind_some]
    rw [hloop, hrest]

end MmAvlTable

end XenOS.Mm
