import XenOS.Mm.VadOps

/-! Removal from a table that represents an AVL tree. A node with two children is replaced by the
next in order; the climb starts where the tree got lower. -/

namespace XenOS.Mm

open General BinaryTree TreeHeap List.Sublist MmAvlTable

section Transplant
variable {s : TreeHeap ℕ 0} {c cr : List (Frame ℕ)} {l r sr : BinaryTree ℕ} {vad successor : ℕ}

theorem before_eq_nil (h : ∀ f ∈ c, f.isLeft) : before c = [] := by
  induction c with
  | nil => rfl
  | cons f c ih =>
    cases f with
    | left a r => exact ih fun g hg => h g (List.mem_cons_of_mem _ hg)
    | right a l => exact absurd (h _ List.mem_cons_self) (by simp [Frame.isLeft])

theorem rootOf_plug_cons {f : Frame ℕ} {u v : BinaryTree ℕ} : rootOf 0 (plug (f :: c) u) = rootOf 0 (plug (f :: c) v) := by
  induction c generalizing f u v with
  | nil => cases f <;> rfl
  | cons g c ih => exact ih

theorem nodup_transplant (hcr : ∀ f ∈ cr, f.isLeft)
    (h : (inorder (plug c (.node vad l (plug cr (.node successor .nil sr))))).Nodup) :
    (inorder (plug c (.node successor l (plug cr sr)))).Nodup := by
  rw [inorder_plug, inorder_node, inorder_plug, before_eq_nil hcr] at h ⊢
  refine h.sublist (append (append (refl _) ?_) (refl _))
  exact append (refl _) (List.sublist_cons_self _ _)

theorem focus_plant_successor (hole : s.Hole vad c) (hv : vad ≠ 0) (hvc : vad ∉ before c ++ after c) (hs : successor ≠ 0)
    {p : ℕ} (hl : s.Rep p l) (hlne : l ≠ .nil) (hr : s.Rep successor r) (hright : s.rightChild successor = rootOf 0 r)
    (hnd : (inorder (plug c (.node successor l r))).Nodup) :
    ((((s.setLeftChild successor (rootOf 0 l)).setParent (rootOf 0 l) successor).setParent successor
      (top 0 c)).replaceChild (top 0 c) vad successor).Focus c (.node successor l r) := by
  have h := Focus.plant hole hv hvc hs hl hr hright hnd
  rwa [TreeHeap.adopt, if_neg (fun e => hlne ((rootOf_eq_nil hl).1 e))] at h

theorem plug_cons_ne_nil (f : Frame ℕ) (c : List (Frame ℕ)) (u : BinaryTree ℕ) : plug (f :: c) u ≠ .nil := fun h => by
  have := congrArg (fun v => (inorder v).length) h
  rw [inorder_plug] at this
  cases f <;> simp [before, after] at this

theorem focus_detach {f : Frame ℕ} (h : s.Focus c (.node vad l (plug (f :: cr) (.node successor .nil sr))))
    (hcr : ∀ g ∈ f :: cr, g.isLeft) :
    let right := rootOf 0 (plug (f :: cr) (.node successor .nil sr))
    let s' := (((s.setLeftChild f.value (rootOf 0 sr)).adopt (rootOf 0 sr) f.value).setRightChild successor right).setParent
      right successor
    s'.Hole vad c ∧ s'.Rep vad l ∧ s'.Rep successor (plug (f :: cr) sr) ∧
      s'.rightChild successor = rootOf 0 (plug (f :: cr) sr) := by
  have hnd := nodup_transplant hcr h.nodup
  have hinner : s.Focus (f :: (cr ++ .right vad l :: c)) (.node successor .nil sr) :=
    focus_append (c := f :: cr) |>.2 (focus_cons.2 h)
  obtain ⟨hs, -, -, -, -, hrep⟩ := hinner.rep
  have hsc : successor ∉ before (f :: (cr ++ .right vad l :: c)) ++ after (f :: (cr ++ .right vad l :: c)) :=
    notMem_around hinner.nodup (by simp)
  have hnd1 : (inorder (plug (f :: (cr ++ .right vad l :: c)) sr)).Nodup := by
    have := hinner.nodup
    rw [inorder_plug] at this ⊢
    exact this.sublist (append (append (refl _) (List.sublist_cons_self _ _))
      (refl _))
  -- its right subtree takes its place
  let s1 := (s.setLeftChild f.value (rootOf 0 sr)).adopt (rootOf 0 sr) f.value
  have hf1 : s1.Focus (f :: (cr ++ .right vad l :: c)) sr := by
    have hreplace := Focus.replace hinner.hole hs hsc hrep hnd1
    obtain ⟨a, rr⟩ | ⟨a, rr⟩ := f
    · obtain ⟨ha, -, hla, -⟩ := hinner.hole
      rwa [top, Frame.value, TreeHeap.replaceChild, if_neg ha, if_pos hla] at hreplace
    · exact absurd (hcr _ List.mem_cons_self) (by simp [Frame.isLeft])
  have hf1' : s1.Focus c (.node vad l (plug (f :: cr) sr)) := focus_cons.1 (focus_append (c := f :: cr) |>.1 hf1)
  obtain ⟨-, -, -, -, hl1, hr1⟩ := hf1'.rep
  have hroot : rootOf 0 (plug (f :: cr) (.node successor .nil sr)) = rootOf 0 (plug (f :: cr) sr) := rootOf_plug_cons
  have hne := plug_cons_ne_nil f cr sr
  generalize plug (f :: cr) sr = r at *
  intro right s'
  have hright : right = rootOf 0 r := hroot
  have hmem : right ∈ inorder r := hright ▸ rootOf_mem hne
  have hdisj : ∀ q, q ∈ inorder l ∨ q = successor ∨ q ∈ inorder r → q ∉ before c ++ after c := fun q hq =>
    notMem_around hnd (by simpa using hq)
  have hinnd := nodup_inner hnd
  rw [inorder_node] at hinnd
  obtain ⟨-, hndr, hlr⟩ := List.nodup_append.1 hinnd
  have hsr : successor ∉ inorder r := (List.nodup_cons.1 hndr).1
  have hsame : ∀ q, q ≠ successor → q ≠ right → SameAt s1 s' q := fun q hq hq' =>
    (sameAt_setRightChild hq).trans (sameAt_setParent hq')
  refine ⟨hf1'.hole.congr rfl fun q hq => hsame q ?_ ?_, hl1.congr fun q hq => hsame q ?_ ?_, ?_, ?_⟩
  · rintro rfl
    exact hdisj q (by simp) hq
  · rintro rfl
    exact hdisj _ (Or.inr (Or.inr hmem)) hq
  · exact hlr q hq successor (by simp)
  · exact hlr q hq right (List.mem_cons_of_mem _ hmem)
  · have hr2 : (s1.setRightChild successor right).Rep vad r := hr1.congr fun q hq => sameAt_setRightChild (by
      rintro rfl
      exact hsr hq)
    have hadopt := hr2.adopt (q := successor) (List.nodup_cons.1 hndr).2
    rwa [TreeHeap.adopt, if_neg (fun e => hne ((rootOf_eq_nil hr2).1 e)), ← hright] at hadopt
  · exact (Function.update_self ..).trans hright

theorem transplant_spec (h : s.Focus c (.node vad l r)) (hlne : l ≠ .nil) (hr : r = plug cr (.node successor .nil sr))
    (hcr : ∀ f ∈ cr, f.isLeft) :
    (transplant s vad (rootOf 0 l) (rootOf 0 r) (top 0 c) successor).1.Focus c
      (.node successor l (plug cr sr)) ∧
    (transplant s vad (rootOf 0 l) (rootOf 0 r) (top 0 c) successor).2 =
      top 0 (cr ++ .right successor l :: c) := by
  subst hr
  have hnd := nodup_transplant hcr h.nodup
  have hvc : vad ∉ before c ++ after c := notMem_around h.nodup (by simp)
  have hinner : s.Focus (cr ++ .right vad l :: c) (.node successor .nil sr) := focus_append.2 (focus_cons.2 h)
  obtain ⟨hs, hps, -, hrs, -, hrep⟩ := hinner.rep
  obtain ⟨hv, -, -, -, hl, -⟩ := h.rep
  cases cr with
  | nil =>
    have hparent : s.parent successor = vad := hps
    refine ⟨?_, by simp [transplant, hparent, top, Frame.value]⟩
    simp only [transplant, hparent, if_true]
    exact focus_plant_successor h.hole hv hvc hs hl hlne hrep hrs hnd
  | cons f cr =>
    have hparent : s.parent successor = f.value := hps
    have hfv : f.value ≠ vad := by
      rintro hfv
      have := notMem_around (c := .right vad l :: c) (t := plug (f :: cr) (.node successor .nil sr)) (q := vad) h.nodup
        (by rw [inorder_plug, ← hfv]; cases f <;> simp [before, after, Frame.value])
      exact this (by simp [before])
    obtain ⟨hhole, hl', hr', hright'⟩ := focus_detach h hcr
    have hrs' : s.rightChild successor = rootOf 0 sr := hrs
    refine ⟨?_, by simp [transplant, hparent, hfv, top]⟩
    simp only [transplant, hparent, if_neg hfv, hrs']
    exact focus_plant_successor hhole hv hvc hs hl' hlne hr' hright' hnd

end Transplant

namespace MmAvlTable
variable {t t' : MmAvlTable} {c : List (Frame ℕ)} {u v l r : BinaryTree ℕ} {vad : ℕ}

theorem suits_value {cr : List (Frame ℕ)} {h x y : ℕ} (hs : Suits h (cr ++ .right x l :: c)) :
    Suits h (cr ++ .right y l :: c) := by
  induction cr generalizing h with
  | nil => exact hs
  | cons f cr ih => exact ⟨hs.1, hs.2.1, hs.2.2.1, ih hs.2.2.2⟩

theorem minimumLoop_spec (r : BinaryTree ℕ) : ∀ {p fuel : ℕ}, t.tree.Rep p r → r ≠ .nil → r.height < fuel →
    ∃ cr successor sr, r = plug cr (.node successor .nil sr) ∧ (∀ f ∈ cr, f.isLeft) ∧
      t.minimumLoop fuel (rootOf 0 r) = some successor := by
  induction r with
  | nil => exact fun _ h _ => absurd rfl h
  | node a l r ihl ihr =>
    intro p fuel hrep _ hfuel
    obtain ⟨fuel, rfl⟩ := Nat.exists_eq_add_one.2 (Nat.zero_lt_of_lt hfuel)
    obtain ⟨ha, -, hla, -, hl, -⟩ := hrep
    simp only [height] at hfuel
    rw [minimumLoop, rootOf, hla]
    by_cases hlne : l = .nil
    · subst hlne
      refine ⟨[], a, r, rfl, fun f hf => absurd hf List.not_mem_nil, if_neg ?_⟩
      simp [rootOf]
    · obtain ⟨cr, successor, sr, rfl, hcr, hmin⟩ := ihl hl hlne (show l.height < fuel by omega)
      refine ⟨cr ++ [.left a r], successor, sr, by rw [plug_append]; rfl, fun f hf => ?_, ?_⟩
      · rcases List.mem_append.1 hf with hf | hf
        · exact hcr f hf
        · obtain rfl := List.mem_singleton.1 hf
          rfl
      · rw [if_pos ⟨ha, fun e => hlne ((rootOf_eq_nil hl).1 e)⟩, hmin]

/-- The node is off the tree; the tree in the hole got lower by one, or the hole moved to
where its successor was. -/
structure Unlinked (t : MmAvlTable) (u : BinaryTree ℕ) (vad : ℕ) (t' : MmAvlTable) (c : List (Frame ℕ))
    (v : BinaryTree ℕ) : Prop where
  tree : t'.tree.Focus c v
  nodes : ∃ as bs, inorder u = as ++ vad :: bs ∧ inorder (plug c v) = as ++ bs
  count : t'.nodeCount = t.nodeCount
  same : SameRanges t t'
  balanced : Balanced v
  suits : ∃ h, Suits h c ∧ v.height ≤ h + 1 ∧ h ≤ v.height + 1
  cached : Cached t'.balance v
  cachedAround : CachedAround t'.balance c

theorem IsTree.unlink_one (h : t.IsTree (plug c (.node vad l r))) (hv : inorder v = inorder l ++ inorder r)
    (hheight : (BinaryTree.node vad l r).height = v.height + 1) (hb : Balanced v) (hcv : Cached t.balance v)
    (hrep : ∃ p, t.tree.Rep p v) :
    Unlinked t (plug c (.node vad l r)) vad
      { t with tree := (t.tree.replaceChild (top 0 c) vad (rootOf 0 v)).adopt (rootOf 0 v) (top 0 c) } c v := by
  have hf := focus_plug.1 h.focus
  obtain ⟨p, hrep⟩ := hrep
  obtain ⟨hbal, hsuits⟩ := balanced_plug.1 h.balanced
  obtain ⟨hc, haround⟩ := cached_plug h.cached
  have hsub : (inorder (plug c v)).Sublist (inorder (plug c (.node vad l r))) := by
    rw [inorder_plug, inorder_plug, inorder_node, hv]
    exact append (append (refl _)
      (append (refl _) (List.sublist_cons_self _ _))) (refl _)
  exact
    { tree := Focus.replace hf.tree.hole hf.tree.rep.1 (notMem_around hf.tree.nodup (by simp)) hrep
        (hf.tree.nodup.sublist hsub)
      nodes := ⟨before c ++ inorder l, inorder r ++ after c, by rw [inorder_plug]; simp, by rw [inorder_plug, hv]; simp⟩
      count := rfl
      same := ⟨rfl, rfl, rfl⟩
      balanced := hb
      suits := ⟨_, hsuits, by omega, by omega⟩
      cached := hcv
      cachedAround := haround }

theorem IsTree.unlink_two (h : t.IsTree (plug c (.node vad l r))) (hlne : l ≠ .nil) (hrne : r ≠ .nil) :
    ∃ successor tree start c' v, t.miFindMinimum (rootOf 0 r) = some successor ∧
      transplant t.tree vad (rootOf 0 l) (rootOf 0 r) (top 0 c) successor = (tree, start) ∧ start = top 0 c' ∧
      Unlinked t (plug c (.node vad l r)) vad ({ t with tree }.setBalance successor (t.balance vad)) c' v := by
  have hf := focus_plug.1 h.focus
  obtain ⟨hvad, -, -, -, hl, hr⟩ := hf.tree.rep
  have hheight : r.height < t.nodeCount + 1 := by
    have := hf.height_le
    simp only [height] at this
    omega
  obtain ⟨cr, successor, sr, rfl, hcr, hmin⟩ := minimumLoop_spec r hr hrne hheight
  obtain ⟨htree, hstart⟩ := transplant_spec hf.tree hlne rfl hcr
  obtain ⟨hbal, hsuits⟩ := balanced_plug.1 h.balanced
  obtain ⟨hc, haround⟩ := cached_plug h.cached
  obtain ⟨-, hcl, hcr'⟩ := hc
  obtain ⟨hbl, hbr, hlr, hrl⟩ := hbal
  obtain ⟨hbs, hscr⟩ := balanced_plug.1 hbr
  obtain ⟨hcs, haroundr⟩ := cached_plug hcr'
  obtain ⟨-, hbsr, -, -⟩ := hbs
  obtain ⟨-, -, hcsr⟩ := hcs
  have hinner : t.tree.Focus (cr ++ .right vad l :: c) (.node successor .nil sr) :=
    focus_append.2 (TreeHeap.focus_cons.2 hf.tree)
  have hbefore := before_eq_nil hcr
  -- the balance of the successor is no balance of the pieces
  have hsr : successor ∉ inorder sr := by
    have := nodup_inner hinner.nodup
    simp only [inorder_node, inorder_nil, List.nil_append] at this
    exact (List.nodup_cons.1 this).1
  have hsibling : ∀ f ∈ cr ++ .right successor l :: c, successor ∉ inorder f.sibling := fun f hmem hq => by
    have hold : ∃ g ∈ cr ++ .right vad l :: c, g.sibling = f.sibling := by
      rcases List.mem_append.1 hmem with hm | hm
      · exact ⟨f, List.mem_append_left _ hm, rfl⟩
      · rcases List.mem_cons.1 hm with rfl | hm
        · exact ⟨.right vad l, by simp, rfl⟩
        · exact ⟨f, by simp [hm], rfl⟩
    obtain ⟨g, hg, hgf⟩ := hold
    exact notMem_around hinner.nodup (q := successor) (by simp) (mem_around hg (hgf ▸ hq))
  have hkept : ∀ q, q ≠ successor → Function.update t.balance successor (t.balance vad) q = t.balance q :=
    fun q hq => Function.update_of_ne hq _ _
  refine ⟨successor, _, _, cr ++ .right successor l :: c, sr, hmin, rfl, hstart,
    { tree := focus_append.2 (TreeHeap.focus_cons.2 htree)
      nodes := ⟨before c ++ inorder l, inorder (plug cr (.node successor .nil sr)) ++ after c, ?_, ?_⟩
      count := rfl
      same := ⟨rfl, rfl, rfl⟩
      balanced := hbsr
      suits := ⟨(BinaryTree.node successor .nil sr).height, ?_, by simp only [height]; omega, by simp only [height]; omega⟩
      cached := hcsr.congr fun q hq => hkept q (by rintro rfl; exact hsr hq)
      cachedAround := fun f hm => ?_ }⟩
  · rw [inorder_plug]
    simp
  · rw [plug_append, plug, inorder_plug, Frame.plug, inorder_node, inorder_plug, inorder_plug, hbefore]
    simp
  · refine suits_value (x := vad) ((balanced_plug (t := .node successor .nil sr)).1 ?_).2
    rw [plug_append]
    exact h.balanced
  · have hcached : Cached t.balance f.sibling := by
      rcases List.mem_append.1 hm with hm | hm
      · exact haroundr f hm
      · rcases List.mem_cons.1 hm with rfl | hm
        · exact hcl
        · exact haround f hm
    exact hcached.congr fun q hq => hkept q (by rintro rfl; exact hsibling f hm hq)

theorem IsTree.unlink (h : t.IsTree u) (hv : vad ∈ inorder u) :
    ∃ t' c v, t.unlink vad = some (t', top 0 c) ∧ Unlinked t u vad t' c v := by
  obtain ⟨c, l, r, rfl⟩ := exists_plug hv
  have hf := focus_plug.1 h.focus
  obtain ⟨-, hp, hlv, hrv, hl, hr⟩ := hf.tree.rep
  obtain ⟨hb, -⟩ := balanced_plug.1 h.balanced
  obtain ⟨hc, -⟩ := cached_plug h.cached
  have hl0 := rootOf_eq_nil hl
  have hr0 := rootOf_eq_nil hr
  rw [unlink]
  simp only [hp, hlv, hrv, hl0, hr0]
  split_ifs with h1 h2 h3
  · obtain ⟨rfl, rfl⟩ := h1
    exact ⟨_, c, .nil, rfl, h.unlink_one (v := .nil) rfl rfl trivial trivial ⟨0, trivial⟩⟩
  · subst h2
    have hrne : rootOf 0 r ≠ 0 := fun e => h1 ⟨rfl, hr0.1 e⟩
    have := h.unlink_one (v := r) rfl (by simp) hb.2.1 hc.2.2 ⟨vad, hr⟩
    rw [TreeHeap.adopt, if_neg hrne] at this
    exact ⟨_, c, r, rfl, this⟩
  · subst h3
    have hlne : rootOf 0 l ≠ 0 := fun e => h2 (hl0.1 e)
    have := h.unlink_one (v := l) (by simp) (by simp) hb.1 hc.2.1 ⟨vad, hl⟩
    rw [TreeHeap.adopt, if_neg hlne] at this
    exact ⟨_, c, l, rfl, this⟩
  · obtain ⟨successor, tree, start, c', v, hmin, htrans, rfl, hun⟩ := h.unlink_two h2 h3
    refine ⟨_, c', v, ?_, hun⟩
    rw [hmin]
    simp only [Option.bind_eq_bind, Option.bind_some, htrans]
    rfl

structure Removed (t : MmAvlTable) (u : BinaryTree ℕ) (vad : ℕ) (t' : MmAvlTable) (u' : BinaryTree ℕ) : Prop where
  isTree : t'.IsTree u'
  same : SameRanges t t'
  nodes : ∃ as bs, inorder u = as ++ vad :: bs ∧ inorder u' = as ++ bs

theorem IsTree.miRemoveVad (h : t.IsTree u) (hv : vad ∈ inorder u) :
    ∃ t' u', t.miRemoveVad vad = some t' ∧ Removed t u vad t' u' := by
  obtain ⟨t1, c, v, hunlink, hun⟩ := h.unlink hv
  obtain ⟨as, bs, hu, hplug⟩ := hun.nodes
  have hnd : vad ∉ as ++ bs := by
    have := h.nodup
    rw [hu] at this
    exact (List.nodup_cons.1 (List.perm_middle.nodup_iff.1 this)).1
  -- the removed node is cleared
  let t2 := { t1 with nodeCount := t1.nodeCount - 1 }.clearLinks vad
  have hf2 : t2.Focus c v := by
    refine ⟨hun.tree.congr rfl fun q hq => ?_, ?_⟩
    · have hne : q ≠ vad := by
        rintro rfl
        exact hnd (hplug ▸ hq)
      exact ((sameAt_setParent hne).trans (sameAt_setLeftChild hne)).trans (sameAt_setRightChild hne)
    · have hcount := h.nodeCount_eq
      rw [hu] at hcount
      rw [← length_inorder, hplug]
      simp only [List.length_append, List.length_cons] at hcount ⊢
      show t1.nodeCount - 1 = _
      rw [hun.count]
      omega
  obtain ⟨hh, hsuits, hup, hdown⟩ := hun.suits
  have hlen : c.length ≤ t2.nodeCount := by
    have := length_lt_numNodes_plug (c := c) (t := v)
    rw [hf2.count]
    exact Nat.le_trans (Nat.le_add_right _ _) this
  obtain ⟨t3, hloop, hf3, hs3, hc3⟩ :=
    rebalanceLoop_climb c hf2 hun.balanced hun.cached hun.cachedAround hsuits hup hdown
      (show 2 * c.length < 2 * t2.nodeCount + 2 by omega)
  have hsame : SameRanges t t3 :=
    ⟨hs3.startingVpn.trans hun.same.startingVpn, hs3.endingVpn.trans hun.same.endingVpn, hs3.flags.trans hun.same.flags⟩
  refine ⟨t3, climb c v, ?_, ?_, hsame, as, bs, hu, by rw [inorder_climb, hplug]⟩
  · rw [MmAvlTable.miRemoveVad, if_neg (h.ne_zero hv), hunlink]
    simp only [Option.bind_eq_bind, Option.bind_some]
    split
    · exact hloop
    · rename_i htop
      -- nothing above the hole
      have h0 : top 0 c = 0 := not_not.1 htop
      rw [h0, rebalanceLoop, if_pos rfl] at hloop
      exact hloop
  · refine IsTree.of_same hf3 hsame hun.balanced hsuits hup hdown hc3 ?_ fun q hq => h.ranges q ?_
    · have := h.ordered
      rw [hu] at this
      rw [hplug]
      exact this.sublist (append (refl _) (List.sublist_cons_self _ _))
    · rw [hplug] at hq
      rw [hu]
      simp only [List.mem_append, List.mem_cons] at hq ⊢
      tauto

end MmAvlTable

end XenOS.Mm
