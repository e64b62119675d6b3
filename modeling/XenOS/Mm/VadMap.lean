import XenOS.Mm.VadMerge
import XenOS.Mm.VadQueriesSpec

/-! The map from pages to the flags of their regions. A split keeps it, a merge if the two agree;
the compatibility test reads all fields of the flags but one. -/

namespace XenOS.Mm

open General BinaryTree MmvadFlags Function List

namespace MmAvlTable

def Describes (t : MmAvlTable) (vpn : ℕ) (a : VadAttributes) : Prop :=
  ∃ p, t.Reachable p ∧ t.Contains p vpn ∧ vadAttributes (t.flags p) = a

def Covers (t : MmAvlTable) (vpn : ℕ) : Prop := ∃ p, t.Reachable p ∧ t.Contains p vpn

/-- The address map and the tree are in order after a call; a call that fails leaves every node as
it was. -/
structure Keeps (t : MmAvlTable) (succeeded : Prop) (t' : MmAvlTable) : Prop where
  attributes : ∀ vpn a, t'.Describes vpn a ↔ t.Describes vpn a
  pages : ∀ vpn, t'.Covers vpn ↔ t.Covers vpn
  wellFormed : ∃ u', t'.WellFormed u'
  failed : ¬ succeeded → t.SameTree t'

def SplitKeeps (t : MmAvlTable) (vad splitVpn newVad : ℕ) : Prop :=
  ∃ new t', t.miSplitVad vad splitVpn newVad = some (new, t') ∧ t.Keeps (new ≠ 0) t'

def MergeKeeps (t : MmAvlTable) (vad : ℕ) : Prop :=
  ∃ merged t', t.miTryMergeVad vad = some (merged, t') ∧ t.Keeps (merged = true) t'

/-- Both regions may change their protection, or neither. -/
def Alike (t : MmAvlTable) (p q : ℕ) : Prop := noChange (t.flags p) = noChange (t.flags q)

/-- The region is like the next one if it can be merged with it, and else like the one before it. -/
def MergesAlike (t : MmAvlTable) (vad : ℕ) : Prop :=
  (∀ next, t.Reachable next → t.miCanMergeVads vad next = true → t.Alike vad next) ∧
    ((∀ next, t.Reachable next → t.miCanMergeVads vad next = false) →
      ∀ prev, t.Reachable prev → t.miCanMergeVads prev vad = true → t.Alike prev vad)

inductive MapOp where
  | tree (op : VadOp)
  | setFlags (vad : ℕ) (value : BitVec 32)
  | merge (vad : ℕ)

def mapStep (t : MmAvlTable) : MapOp → MmAvlTable
  | .tree op => t.step op
  | .setFlags vad value => t.setFlags vad value
  | .merge vad => ((t.miTryMergeVad vad).map Prod.snd).getD t

def MapAdmitted (t : MmAvlTable) : MapOp → Prop
  | .tree op => t.Admitted op
  | .setFlags _ _ => True
  | .merge vad => t.Reachable vad

variable {t t' : MmAvlTable} {u : BinaryTree ℕ} {vad newVad splitVpn left right : ℕ}

theorem Keeps.refl (h : t.Inv u) (succeeded : Prop) : t.Keeps succeeded t :=
  ⟨fun _ _ => Iff.rfl, fun _ => Iff.rfl, ⟨u, h.wellFormed⟩, fun _ => ⟨rfl, rfl, fun _ _ => ⟨.refl _ _, rfl, rfl, rfl, rfl⟩⟩⟩

theorem covers_iff {vpn : ℕ} : t.Covers vpn ↔ ∃ a, t.Describes vpn a :=
  ⟨fun ⟨p, hp, hc⟩ => ⟨_, p, hp, hc, rfl⟩, fun ⟨_, p, hp, hc, _⟩ => ⟨p, hp, hc⟩⟩

theorem Keeps.of_attributes {succeeded : Prop} (hinv : ∃ u', t'.Inv u') (hs : succeeded)
    (h : ∀ vpn a, t'.Describes vpn a ↔ t.Describes vpn a) : t.Keeps succeeded t' where
  attributes := h
  pages vpn := by simp only [covers_iff, h]
  wellFormed := by
    obtain ⟨u', hu'⟩ := hinv
    exact ⟨u', hu'.wellFormed⟩
  failed hf := absurd hs hf

theorem SplitOff.contains (hs : SplitOff t vad splitVpn newVad t') (hfresh : ¬ t.Reachable newVad) (hv : t.Reachable vad) {p vpn : ℕ} :
    t'.Reachable p ∧ t'.Contains p vpn ↔
      (t.Reachable p ∧ t.Contains p vpn ∧ (p = vad → vpn < splitVpn)) ∨ (p = newVad ∧ t.Contains vad vpn ∧ splitVpn ≤ vpn) := by
  have hinside := hs.inside
  rw [hs.reachable]
  unfold Contains
  rw [hs.startingVpn, hs.endingVpn]
  by_cases hpn : p = newVad
  · subst hpn
    have hne : p ≠ vad := by
      rintro rfl
      exact hfresh hv
    rw [update_self, update_of_ne hne, update_self]
    simp only [hfresh, false_and, or_true, true_and, false_or]
    omega
  · rw [update_of_ne hpn]
    by_cases hpv : p = vad
    · subst hpv
      rw [update_self]
      simp only [hpn, or_false, hv, true_and, forall_const, false_and]
      omega
    · rw [update_of_ne hpv, update_of_ne hpn]
      simp [hpn, hpv]

theorem SplitOff.describes (hs : SplitOff t vad splitVpn newVad t') (hfresh : ¬ t.Reachable newVad) (hv : t.Reachable vad) (vpn : ℕ)
    (a : VadAttributes) : t'.Describes vpn a ↔ t.Describes vpn a := by
  have hflags : ∀ p, t.Reachable p → t'.flags p = t.flags p := fun p hp => by
    rw [hs.flags, update_of_ne]
    rintro rfl
    exact hfresh hp
  have hnew : t'.flags newVad = t.flags vad := by rw [hs.flags, update_self]
  constructor
  · rintro ⟨p, hp, hc, rfl⟩
    rcases (hs.contains hfresh hv).1 ⟨hp, hc⟩ with ⟨hp, hc, -⟩ | ⟨rfl, hc, -⟩
    · exact ⟨p, hp, hc, by rw [hflags p hp]⟩
    · exact ⟨vad, hv, hc, by rw [hnew]⟩
  · rintro ⟨p, hp, hc, rfl⟩
    by_cases hright : p = vad ∧ splitVpn ≤ vpn
    · obtain ⟨rfl, hle⟩ := hright
      obtain ⟨h1, h2⟩ := (hs.contains hfresh hv).2 (Or.inr ⟨rfl, hc, hle⟩)
      exact ⟨newVad, h1, h2, by rw [hnew]⟩
    · obtain ⟨h1, h2⟩ := (hs.contains hfresh hv).2 (Or.inl ⟨hp, hc, fun hpv => by omega⟩)
      exact ⟨p, h1, h2, by rw [hflags p hp]⟩

theorem Inv.splitKeeps (h : t.Inv u) (hv : t.Reachable vad) (hnew : newVad = 0 ∨ ¬ t.Reachable newVad) (splitVpn : ℕ) :
    t.SplitKeeps vad splitVpn newVad := by
  rcases h.miSplitVad hv hnew splitVpn with ⟨-, hret⟩ | ⟨hn0, t', hret, hs⟩
  · exact ⟨0, t, hret, .refl h _⟩
  · exact ⟨newVad, t', hret, .of_attributes hs.inv hn0 (hs.describes (hnew.resolve_left hn0) hv)⟩

theorem canMerge_iff : t.miCanMergeVads left right = true ↔ left ≠ 0 ∧ right ≠ 0 ∧ t.endingVpn left + 1 = t.startingVpn right ∧
    vadType (t.flags left) = vadType (t.flags right) ∧
    protection (t.flags left) = protection (t.flags right) ∧
    commit (t.flags left) = commit (t.flags right) ∧
    privateMemory (t.flags left) = privateMemory (t.flags right) := decide_eq_true_iff

theorem attributes_eq_iff_alike (h : t.miCanMergeVads left right = true) :
    vadAttributes (t.flags left) = vadAttributes (t.flags right) ↔ t.Alike left right := by
  obtain ⟨-, -, -, h1, h2, h3, h4⟩ := canMerge_iff.1 h
  unfold Alike
  rw [VadAttributes.ext_iff]
  simp [vadAttributes, h1, h2, h3, h4]

theorem Merged.describes_iff (hm : Merged t left right t') (h : t.Inv u) (hl : t.Reachable left) (hr : t.Reachable right)
    (hcan : t.miCanMergeVads left right = true) :
    (∀ vpn a, t'.Describes vpn a ↔ t.Describes vpn a) ↔ t.Alike left right := by
  rw [← attributes_eq_iff_alike hcan]
  obtain ⟨-, -, hadj, -⟩ := canMerge_iff.1 hcan
  obtain ⟨u', hu'⟩ := hm.inv
  have hleftRange := h.nonempty left (h.isTree.reachable_iff.1 hl)
  have hrightRange := h.nonempty right (h.isTree.reachable_iff.1 hr)
  have hne : left ≠ right := by
    rintro rfl
    omega
  have hcontains : ∀ vpn, t'.Contains left vpn ↔ t.Contains left vpn ∨ t.Contains right vpn := fun vpn => by
    unfold Contains
    rw [hm.startingVpn, hm.endingVpn, update_self]
    omega
  have hother : ∀ p vpn, p ≠ left → (t'.Contains p vpn ↔ t.Contains p vpn) := fun p vpn hp => by
    unfold Contains
    rw [hm.startingVpn, hm.endingVpn, update_of_ne hp]
  have hleft' : t'.Reachable left := (hm.reachable left).2 ⟨hl, hne⟩
  constructor
  · intro hall
    have hfirst : t.Contains right (t.startingVpn right) := ⟨Nat.le_refl _, hrightRange⟩
    obtain ⟨p, hp, hc, ha⟩ := (hall (t.startingVpn right) _).2 ⟨right, hr, hfirst, rfl⟩
    obtain rfl := hu'.wellFormed.contains_unique hp hleft' hc ((hcontains _).2 (Or.inr hfirst))
    rwa [hm.flags] at ha
  · intro hattr vpn a
    constructor
    · rintro ⟨p, hp, hc, rfl⟩
      rw [hm.flags]
      by_cases hpl : p = left
      · subst hpl
        rcases (hcontains vpn).1 hc with hc | hc
        · exact ⟨p, hl, hc, rfl⟩
        · exact ⟨right, hr, hc, hattr.symm⟩
      · exact ⟨p, ((hm.reachable p).1 hp).1, (hother p vpn hpl).1 hc, rfl⟩
    · rintro ⟨p, hp, hc, rfl⟩
      rw [← hm.flags]
      by_cases hpl : p = left
      · subst hpl
        exact ⟨p, hleft', (hcontains vpn).2 (Or.inl hc), rfl⟩
      · by_cases hpr : p = right
        · subst hpr
          exact ⟨left, hleft', (hcontains vpn).2 (Or.inr hc), by rw [hm.flags]; exact hattr⟩
        · exact ⟨p, (hm.reachable p).2 ⟨hp, hpr⟩, (hother p vpn hpl).2 hc, rfl⟩

theorem Inv.miTryMergeVad (h : t.Inv u) (hv : t.Reachable vad) :
    (∃ next t', t.Reachable next ∧ t.miCanMergeVads vad next = true ∧ t.miTryMergeVad vad = some (true, t') ∧ Merged t vad next t') ∨
    (∀ next, t.Reachable next → t.miCanMergeVads vad next = false) ∧
      ((∃ prev t', t.Reachable prev ∧ t.miCanMergeVads prev vad = true ∧ t.miTryMergeVad vad = some (true, t') ∧ Merged t prev vad t') ∨
      (∀ prev, t.Reachable prev → t.miCanMergeVads prev vad = false) ∧ t.miTryMergeVad vad = some (false, t)) := by
  have hvu := h.isTree.reachable_iff.1 hv
  obtain ⟨as, bs, hu, hnext, hprev⟩ := h.isTree.neighbours hvu
  have hordered := h.isTree.ordered
  have hranges := h.nonempty
  simp only [hu] at hordered hranges
  obtain ⟨hoa, hob, hoab⟩ := pairwise_append.1 hordered
  obtain ⟨hovad, hob⟩ := pairwise_cons.1 hob
  unfold Precedes at hoa hob hoab hovad
  have hself := hranges vad (by simp)
  -- a region that touches is the neighbour
  have hafter : ∀ q, t.Reachable q → t.miCanMergeVads vad q = true → ∃ bs', bs = q :: bs' := fun q hq hcan => by
    have hadj := (canMerge_iff.1 hcan).2.2.1
    have hqu := h.isTree.reachable_iff.1 hq
    rw [hu] at hqu
    have hqr := hranges q hqu
    rcases mem_append.1 hqu with hqa | hqb
    · have := hoab q hqa vad mem_cons_self
      omega
    · rcases mem_cons.1 hqb with rfl | hqb
      · omega
      · cases bs with
        | nil => cases hqb
        | cons b bs =>
          rcases mem_cons.1 hqb with rfl | hqb
          · exact ⟨bs, rfl⟩
          · have h1 := hovad b mem_cons_self
            have h2 := hranges b (by simp)
            have h3 := (pairwise_cons.1 hob).1 q hqb
            omega
  have hbefore : ∀ q, t.Reachable q → t.miCanMergeVads q vad = true → ∃ as', as = as' ++ [q] := fun q hq hcan => by
    have hadj := (canMerge_iff.1 hcan).2.2.1
    have hqu := h.isTree.reachable_iff.1 hq
    rw [hu] at hqu
    have hqr := hranges q hqu
    rcases mem_append.1 hqu with hqa | hqb
    · rcases eq_nil_or_concat' as with rfl | ⟨as, a, rfl⟩
      · cases hqa
      · rcases mem_append.1 hqa with hqa' | hqa'
        · have h1 := (pairwise_append.1 hoa).2.2 q hqa' a (by simp)
          have h2 := hranges a (by simp)
          have h3 := hoab a (by simp) vad mem_cons_self
          omega
        · obtain rfl := mem_singleton.1 hqa'
          exact ⟨as, rfl⟩
    · rcases mem_cons.1 hqb with rfl | hqb
      · omega
      · have := hovad q hqb
        omega
  rw [MmAvlTable.miTryMergeVad, if_neg (h.isTree.ne_zero hvu), hnext, hprev]
  simp only [Option.bind_eq_bind, Option.bind_some]
  by_cases hn : ∃ next, t.Reachable next ∧ t.miCanMergeVads vad next = true
  · obtain ⟨next, hreach, hcan⟩ := hn
    obtain ⟨bs', rfl⟩ := hafter next hreach hcan
    obtain ⟨t', hret, hm⟩ := h.mergeVads hu
    refine Or.inl ⟨next, t', hreach, hcan, ?_, hm⟩
    rw [headD_cons, if_pos ⟨(canMerge_iff.1 hcan).2.1, hcan⟩, hret]
    rfl
  · have hnone : ∀ next, t.Reachable next → t.miCanMergeVads vad next = false := fun next hreach => by
      rw [← Bool.not_eq_true]
      exact fun hcan => hn ⟨next, hreach, hcan⟩
    have hif : ¬ (bs.headD 0 ≠ 0 ∧ t.miCanMergeVads vad (bs.headD 0) = true) := fun hc => by
      cases bs with
      | nil => exact hc.1 rfl
      | cons b bs => exact hn ⟨b, h.isTree.reachable_iff.2 (by rw [hu]; simp), hc.2⟩
    rw [if_neg hif]
    refine Or.inr ⟨hnone, ?_⟩
    by_cases hp : ∃ prev, t.Reachable prev ∧ t.miCanMergeVads prev vad = true
    · obtain ⟨prev, hreach, hcan⟩ := hp
      obtain ⟨as', rfl⟩ := hbefore prev hreach hcan
      have hu' : inorder u = as' ++ prev :: vad :: bs := by rw [hu]; simp
      obtain ⟨t', hret, hm⟩ := h.mergeVads hu'
      refine Or.inl ⟨prev, t', hreach, hcan, ?_, hm⟩
      have hlast : (as' ++ [prev]).getLastD 0 = prev := by simp
      rw [hlast, if_pos ⟨(canMerge_iff.1 hcan).1, hcan⟩, hret]
      rfl
    · refine Or.inr ⟨fun prev hreach => ?_, ?_⟩
      · rw [← Bool.not_eq_true]
        exact fun hcan => hp ⟨prev, hreach, hcan⟩
      · refine if_neg fun hc => ?_
        rcases eq_nil_or_concat' as with rfl | ⟨as, a, rfl⟩
        · exact hc.1 rfl
        · have hlast : (as ++ [a]).getLastD 0 = a := by simp
          rw [hlast] at hc
          exact hp ⟨a, h.isTree.reachable_iff.2 (by rw [hu]; simp), hc.2⟩

theorem Inv.mergeKeeps_iff (h : t.Inv u) (hv : t.Reachable vad) : t.MergeKeeps vad ↔ t.MergesAlike vad := by
  have hkeeps : ∀ {left right t'}, t.Reachable left → t.Reachable right → t.miCanMergeVads left right = true →
      t.miTryMergeVad vad = some (true, t') → Merged t left right t' → (t.MergeKeeps vad ↔ t.Alike left right) :=
    fun hl hr hcan hret hm => by
      rw [← hm.describes_iff h hl hr hcan]
      constructor
      · rintro ⟨merged, t', hret', hk⟩
        obtain ⟨-, rfl⟩ := Prod.mk.injEq .. ▸ Option.some.inj (hret.symm.trans hret')
        exact hk.attributes
      · exact fun hall => ⟨true, _, hret, .of_attributes hm.inv rfl hall⟩
  have hzero : ∀ {p q}, t.miCanMergeVads p q = true → t.miCanMergeVads p q ≠ false := fun h1 h2 => by rw [h1] at h2; cases h2
  unfold MergesAlike
  rcases h.miTryMergeVad hv with ⟨next, t', hreach, hcan, hret, hm⟩ | ⟨hnone, ⟨prev, t', hreach, hcan, hret, hm⟩ | ⟨hnone', hret⟩⟩
  · rw [hkeeps hv hreach hcan hret hm]
    have hadj := (canMerge_iff.1 hcan).2.2.1
    refine ⟨fun hl => ⟨fun q hq hcanq => ?_, fun hno => absurd (hno next hreach) (hzero hcan)⟩, fun hl => hl.1 next hreach hcan⟩
    have hq2 := h.nonempty q (h.isTree.reachable_iff.1 hq)
    have hn2 := h.nonempty next (h.isTree.reachable_iff.1 hreach)
    have hadjq := (canMerge_iff.1 hcanq).2.2.1
    have hq1 : t.Contains q (t.endingVpn vad + 1) := ⟨by omega, by omega⟩
    obtain rfl := h.wellFormed.contains_unique hq hreach hq1 ⟨by omega, by omega⟩
    exact hl
  · rw [hkeeps hreach hv hcan hret hm]
    have hadj := (canMerge_iff.1 hcan).2.2.1
    refine ⟨fun hl => ⟨fun q hq hcanq => absurd (hnone q hq) (hzero hcanq), fun _ q hq hcanq => ?_⟩, fun hl => hl.2 hnone prev hreach hcan⟩
    have hq2 := h.nonempty q (h.isTree.reachable_iff.1 hq)
    have hn2 := h.nonempty prev (h.isTree.reachable_iff.1 hreach)
    have hadjq := (canMerge_iff.1 hcanq).2.2.1
    have hq1 : t.Contains q (t.startingVpn vad - 1) := ⟨by omega, by omega⟩
    obtain rfl := h.wellFormed.contains_unique hq hreach hq1 ⟨by omega, by omega⟩
    exact hl
  · refine iff_of_true ⟨false, t, hret, .refl h _⟩ ⟨fun q hq hcan => absurd (hnone q hq) (hzero hcan),
      fun _ q hq hcan => absurd (hnone' q hq) (hzero hcan)⟩

theorem Inv.setFlags (h : t.Inv u) (vad : ℕ) (value : BitVec 32) : (t.setFlags vad value).Inv u :=
  ⟨h.isTree.congr rfl rfl fun q _ => ⟨.refl _ q, rfl, rfl, rfl⟩, h.nonempty⟩

theorem Inv.mapStep {op : MapOp} (h : t.Inv u) (ha : t.MapAdmitted op) : ∃ u', (t.mapStep op).Inv u' := by
  cases op with
  | tree op => exact (h.step ha).2
  | setFlags vad value => exact ⟨u, h.setFlags vad value⟩
  | merge vad =>
    simp only [MmAvlTable.mapStep]
    rcases h.miTryMergeVad ha with ⟨_, _, _, _, hret, hm⟩ | ⟨_, ⟨_, _, _, _, hret, hm⟩ | ⟨_, hret⟩⟩
    · rw [hret]
      exact hm.inv
    · rw [hret]
      exact hm.inv
    · rw [hret]
      exact ⟨u, h⟩

theorem inv_of_mapSteps {ops : List MapOp} (hops : EveryStep mapStep MapAdmitted t.new ops) :
    EveryState mapStep (fun t => ∃ u, t.Inv u) t.new ops :=
  everyState_invariant (fun _ _ ⟨_, hi⟩ ha => hi.mapStep ha) ⟨.nil, inv_new t⟩ hops

/-- Every split keeps the address map, and a merge does exactly if the two agree on whether their
protection may change. -/
def KeepsAlike (t : MmAvlTable) : Prop :=
  (∀ vad splitVpn newVad, t.Reachable vad → newVad = 0 ∨ ¬ t.Reachable newVad → t.SplitKeeps vad splitVpn newVad) ∧
    ∀ vad, t.Reachable vad → (t.MergeKeeps vad ↔ t.MergesAlike vad)

theorem splitMerge_keep_iff {ops : List MapOp} (hops : EveryStep mapStep MapAdmitted t.new ops) :
    EveryState mapStep KeepsAlike t.new ops :=
  (inv_of_mapSteps hops).imp fun _ ⟨_, h⟩ =>
    ⟨fun _ splitVpn _ hv hnew => h.splitKeeps hv hnew splitVpn, fun _ hv => h.mergeKeeps_iff hv⟩

/-- Two regions that touch; the first may not change its protection. -/
def lockedNeighbour : List MapOp := [.tree (.insert 1 20 29), .tree (.insert 2 30 39), .setFlags 1 0x400#32]

theorem admitted_lockedNeighbour : EveryStep mapStep MapAdmitted blank.new lockedNeighbour :=
  ⟨⟨by decide, fun h => absurd (mem_of_reachable _ [] (by decide) (by decide) h) (by decide), by decide⟩,
    ⟨by decide, fun h => absurd (mem_of_reachable _ [1] (by decide) (by decide) h) (by decide), by decide⟩, trivial, trivial⟩

theorem splitMerge_keep_lockedNeighbour : EveryState mapStep KeepsAlike blank.new lockedNeighbour :=
  splitMerge_keep_iff admitted_lockedNeighbour

/-- The merge lets the pages of the second region lose the right to change their protection. -/
theorem merge_spreads_noChange : EveryStep mapStep MapAdmitted blank.new (lockedNeighbour ++ [.merge 1]) ∧
    ¬ (run mapStep blank.new lockedNeighbour).MergeKeeps 1 := by
  refine ⟨⟨⟨by decide, fun h => absurd (mem_of_reachable _ [] (by decide) (by decide) h) (by decide), by decide⟩,
    ⟨by decide, fun h => absurd (mem_of_reachable _ [1] (by decide) (by decide) h) (by decide), by decide⟩, trivial,
    .root (by decide), trivial⟩, ?_⟩
  rintro ⟨merged, t', hret, hk⟩
  have hpage : (run mapStep blank.new lockedNeighbour).Describes 30 (vadAttributes 0) :=
    ⟨2, .right (.root (by decide)) (by decide), ⟨by decide, by decide⟩, by decide⟩
  have hsome : t' = (run mapStep blank.new (lockedNeighbour ++ [.merge 1])) := by
    rw [run_append]
    simp only [run, mapStep, hret, Option.map_some, Option.getD_some]
  obtain ⟨p, hp, -, ha⟩ := (hk.attributes 30 _).2 hpage
  rw [hsome] at hp ha
  have hp1 := mem_of_reachable _ [1] (by decide) (by decide) hp
  obtain rfl := mem_singleton.1 hp1
  revert ha
  decide

end MmAvlTable

end XenOS.Mm
