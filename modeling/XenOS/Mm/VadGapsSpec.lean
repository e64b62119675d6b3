import XenOS.Mm.VadQueriesSpec

/-! The search for a free range. Both walks carry the end of the regions seen so far and return the
first place that can hold the range. With an empty tree the search ignores its direction. -/

namespace XenOS.Mm

open General BinaryTree TreeHeap Option

namespace MmAvlTable

variable {t : MmAvlTable} {u : BinaryTree ℕ} {ops : List VadOp} {pages align low high k : ℕ}

variable {x : ℕ}

theorem maskDown_eq (hx : x < 2 ^ 64) (hk : k ≤ 64) : maskDown x (2 ^ k) = x / 2 ^ k * 2 ^ k := by
  have hmask : 2 ^ 64 - 2 ^ k = (2 ^ (64 - k) - 1) <<< k := by
    rw [Nat.shiftLeft_eq, Nat.sub_mul, ← pow_add, Nat.sub_add_cancel hk, one_mul]
  rw [maskDown, hmask, ← Nat.shiftRight_eq_div_pow, ← Nat.shiftLeft_eq]
  refine Nat.eq_of_testBit_eq fun i => ?_
  simp only [Nat.testBit_and, Nat.testBit_shiftLeft, Nat.testBit_two_pow_sub_one, Nat.testBit_shiftRight]
  by_cases hik : k ≤ i
  · have hi : k + (i - k) = i := by omega
    by_cases hi64 : i < 64
    · have : i - k < 64 - k := by omega
      simp [hik, hi, this]
    · have hbit : x.testBit i = false :=
        Nat.testBit_lt_two_pow (hx.trans_le (Nat.pow_le_pow_right (by decide) (by omega)))
      simp [hbit, hi]
  · simp [hik]

theorem maskUp_spec (hk : k ≤ 64) (hx : x + 2 ^ k < 2 ^ 64) :
    ∃ g, maskUp x (2 ^ k) = some g ∧ 2 ^ k ∣ g ∧ x ≤ g ∧ g < x + 2 ^ k ∧ ∀ s, 2 ^ k ∣ s → x ≤ s → g ≤ s := by
  have hpos : 0 < 2 ^ k := Nat.two_pow_pos k
  refine ⟨(x + 2 ^ k - 1) / 2 ^ k * 2 ^ k, ?_, Nat.dvd_mul_left _ _, ?_, ?_, ?_⟩
  · rw [maskUp, if_neg (by omega), maskDown_eq (by omega) hk]
  · have := Nat.lt_div_mul_add (a := x + 2 ^ k - 1) hpos
    omega
  · have := Nat.div_mul_le_self (x + 2 ^ k - 1) (2 ^ k)
    omega
  · rintro s ⟨m, rfl⟩ hs
    rw [Nat.mul_comm]
    refine Nat.mul_le_mul_left _ (Nat.lt_succ_iff.1 ((Nat.div_lt_iff_lt_mul hpos).2 ?_))
    rw [Nat.succ_mul, Nat.mul_comm]
    omega

theorem maskDown_spec (hx : x < 2 ^ 64) (hk : k ≤ 64) :
    2 ^ k ∣ maskDown x (2 ^ k) ∧ maskDown x (2 ^ k) ≤ x ∧ ∀ s, 2 ^ k ∣ s → s ≤ x → s ≤ maskDown x (2 ^ k) := by
  rw [maskDown_eq hx hk]
  refine ⟨Nat.dvd_mul_left _ _, Nat.div_mul_le_self _ _, ?_⟩
  rintro s ⟨m, rfl⟩ hs
  rw [Nat.mul_comm]
  exact Nat.mul_le_mul_right _ ((Nat.le_div_iff_mul_le (Nat.two_pow_pos k)).2 (by rwa [Nat.mul_comm]))

def Free (t : MmAvlTable) (pages : ℕ) (l : List ℕ) (s : ℕ) : Prop :=
  ∀ p ∈ l, s + pages ≤ t.startingVpn p ∨ t.endingVpn p < s

variable {s : ℕ} {l : List ℕ}

theorem free_cons {p : ℕ} :
    t.Free pages (p :: l) s ↔ (s + pages ≤ t.startingVpn p ∨ t.endingVpn p < s) ∧ t.Free pages l s := by
  simp [Free]

/-- What the walk from the left has found: the lowest place, or the page from which on
nothing is taken. -/
theorem foldlM_gapBefore (current : ℕ) (hk : k ≤ 51) (hpages : 0 < pages)
    (hordered : l.Pairwise fun p q => t.endingVpn p < t.startingVpn q)
    (hranges : ∀ p ∈ l, t.startingVpn p ≤ t.endingVpn p) (hcurrent : current ≤ 2 ^ 35)
    (hlow : ∀ p ∈ l, current ≤ t.startingVpn p) (hhigh : ∀ p ∈ l, t.endingVpn p < 2 ^ 35) :
    (∃ p ∈ l, ∃ g, l.foldlM (t.gapBefore pages (2 ^ k)) current = .error (some (g * pageSize)) ∧ 2 ^ k ∣ g ∧ current ≤ g ∧
        g + pages ≤ t.startingVpn p ∧ t.Free pages l g ∧ ∀ s, 2 ^ k ∣ s → current ≤ s → t.Free pages l s → g ≤ s) ∨
      ∃ current', l.foldlM (t.gapBefore pages (2 ^ k)) current = .ok current' ∧ current ≤ current' ∧ current' ≤ 2 ^ 35 ∧
        (∀ s, 2 ^ k ∣ s → current ≤ s → t.Free pages l s → current' ≤ s) ∧ ∀ s, current' ≤ s → t.Free pages l s := by
  induction l generalizing current with
  | nil =>
    exact Or.inr ⟨current, rfl, Nat.le_refl _, hcurrent, fun _ _ h _ => h, fun s _ p hp => (by cases hp)⟩
  | cons p l ih =>
    obtain ⟨hp, hl⟩ := List.pairwise_cons.1 hordered
    have hpr := hranges p (by simp)
    have hpl := hlow p (by simp)
    have hph := hhigh p (by simp)
    have hk51 : 2 ^ k ≤ 2 ^ 51 := Nat.pow_le_pow_right (by decide) hk
    obtain ⟨g, hup, hdvd, hge, -, hmin⟩ := maskUp_spec (x := current) (k := k) (by omega) (by omega)
    rw [List.foldlM_cons, gapBefore, hup]
    by_cases hfits : g < t.startingVpn p ∧ pages ≤ t.startingVpn p - g
    · refine Or.inl ⟨p, by simp, g, ?_, hdvd, hge, by omega, ?_, fun s hs hcs _ => hmin s hs hcs⟩
      · have hg : g * pageSize % 2 ^ 64 = g * pageSize := by
          unfold pageSize
          omega
        simp only [if_pos hfits, hg]
        rfl
      · rintro q hq
        rcases List.mem_cons.1 hq with rfl | hq
        · omega
        · have := hp q hq
          omega
    · simp only [if_neg hfits, if_neg (show ¬ 2 ^ 64 ≤ t.endingVpn p + 1 by omega)]
      -- a range from here on that misses the region lies behind it
      have hskip : ∀ s, 2 ^ k ∣ s → current ≤ s → t.Free pages (p :: l) s → t.endingVpn p + 1 ≤ s := fun s hs hcs hfree => by
        have := hmin s hs hcs
        have := (free_cons.1 hfree).1
        omega
      rcases ih (t.endingVpn p + 1) hl (fun q hq => hranges q (by simp [hq])) (by omega) hp
        (fun q hq => hhigh q (by simp [hq])) with ⟨q, hq, g', hret, hdvd', hge', hend, hfree, hmin'⟩ | ⟨current', hret, hle, hlt, hpast, hrest⟩
      · refine Or.inl ⟨q, by simp [hq], g', hret, hdvd', by omega, hend, free_cons.2 ⟨by omega, hfree⟩, fun s hs hcs hfs => ?_⟩
        exact hmin' s hs (hskip s hs hcs hfs) (free_cons.1 hfs).2
      · refine Or.inr ⟨current', hret, by omega, hlt, fun s hs hcs hfs => ?_, fun s hs => free_cons.2 ⟨by omega, hrest s hs⟩⟩
        exact hpast s hs (hskip s hs hcs hfs) (free_cons.1 hfs).2

theorem gapFit_spec (low stop : ℕ) {start : ℕ} (hk : k ≤ 51) (hpages : 0 < pages) (hstop : stop ≤ 2 ^ 35) (hstart : 2 ^ k ∣ start)
    (hlow : low ≤ start) :
    (∃ g, gapFit pages (2 ^ k) low start stop = some (g * pageSize) ∧ 2 ^ k ∣ g ∧ start ≤ g ∧ g + pages ≤ stop ∧
        ∀ s, 2 ^ k ∣ s → s + pages ≤ stop → s ≤ g) ∨
      gapFit pages (2 ^ k) low start stop = none ∧ ∀ s, start ≤ s → ¬ s + pages ≤ stop := by
  rw [gapFit]
  by_cases hfits : start < stop ∧ pages ≤ stop - start
  · obtain ⟨hdvd, hle, hmax⟩ := maskDown_spec (x := stop - pages) (k := k) (by omega) (by omega)
    have hge : start ≤ maskDown (stop - pages) (2 ^ k) := hmax start hstart (by omega)
    have hg : maskDown (stop - pages) (2 ^ k) * pageSize % 2 ^ 64 = maskDown (stop - pages) (2 ^ k) * pageSize := by
      unfold pageSize
      omega
    have hwindow : low * pageSize ≤ maskDown (stop - pages) (2 ^ k) * pageSize := Nat.mul_le_mul_right _ (hlow.trans hge)
    refine Or.inl ⟨maskDown (stop - pages) (2 ^ k), ?_, hdvd, hge, by omega, fun s hs hse => hmax s hs (by omega)⟩
    simp only [if_pos hfits, hg, if_pos hwindow]
  · exact Or.inr ⟨if_neg hfits, fun s hs => by omega⟩

/-- What the walk from the right has found: the highest place, or the page below which nothing is
taken. -/
theorem foldlM_gapAfter (current : ℕ) (hk : k ≤ 51) (hpages : 0 < pages)
    (hordered : l.Pairwise fun p q => t.endingVpn q < t.startingVpn p)
    (hranges : ∀ p ∈ l, t.startingVpn p ≤ t.endingVpn p) (hcurrent : current ≤ 2 ^ 35)
    (hlow : ∀ p ∈ l, low ≤ t.startingVpn p) (hhigh : ∀ p ∈ l, t.startingVpn p ≤ current)
    (hend : ∀ p ∈ l, t.endingVpn p < 2 ^ 35) :
    (∃ g, l.foldlM (t.gapAfter pages (2 ^ k) low) current = .error (some (g * pageSize)) ∧ 2 ^ k ∣ g ∧ low ≤ g ∧
        g + pages ≤ current ∧ t.Free pages l g ∧ ∀ s, 2 ^ k ∣ s → s + pages ≤ current → t.Free pages l s → s ≤ g) ∨
      ∃ current', l.foldlM (t.gapAfter pages (2 ^ k) low) current = .ok current' ∧ current' ≤ current ∧
        (∀ s, 2 ^ k ∣ s → s + pages ≤ current → t.Free pages l s → s + pages ≤ current') ∧
        ∀ s, s + pages ≤ current' → t.Free pages l s := by
  induction l generalizing current with
  | nil => exact Or.inr ⟨current, rfl, Nat.le_refl _, fun _ _ h _ => h, fun s _ p hp => (by cases hp)⟩
  | cons p l ih =>
    obtain ⟨hp, hl⟩ := List.pairwise_cons.1 hordered
    have hpr := hranges p (by simp)
    have hpl := hlow p (by simp)
    have hpc := hhigh p (by simp)
    have hpe := hend p (by simp)
    have hk51 : 2 ^ k ≤ 2 ^ 51 := Nat.pow_le_pow_right (by decide) hk
    obtain ⟨start, hup, hdvd, hge, -, hmin⟩ := maskUp_spec (x := t.endingVpn p + 1) (k := k) (by omega) (by omega)
    rw [List.foldlM_cons, gapAfter, if_neg (show ¬ 2 ^ 64 ≤ t.endingVpn p + 1 by omega), hup]
    rcases gapFit_spec low current hk hpages hcurrent hdvd (by omega) with ⟨g, hfit, hg, hstart, hstop, hmax⟩ | ⟨hfit, hnone⟩
    · refine Or.inl ⟨g, by simp only [hfit]; rfl, hg, by omega, hstop, ?_, fun s hs hsc _ => hmax s hs hsc⟩
      rintro q hq
      rcases List.mem_cons.1 hq with rfl | hq
      · omega
      · have := hp q hq
        omega
    · simp only [hfit]
      -- a range up to here that misses the region lies before it
      have hskip : ∀ s, 2 ^ k ∣ s → s + pages ≤ current → t.Free pages (p :: l) s → s + pages ≤ t.startingVpn p :=
        fun s hs hsc hfree => by
          refine (free_cons.1 hfree).1.resolve_right fun hlt => ?_
          exact hnone s (hmin s hs hlt) hsc
      have hbelow : ∀ q ∈ l, t.startingVpn q ≤ t.startingVpn p := fun q hq => by
        have := hp q hq
        have := hranges q (by simp [hq])
        omega
      rcases ih (t.startingVpn p) hl (fun q hq => hranges q (by simp [hq])) (by omega)
        (fun q hq => hlow q (by simp [hq])) hbelow (fun q hq => hend q (by simp [hq])) with
        ⟨g, hret, hg, hlg, hstop, hfree, hmax⟩ | ⟨current', hret, hle, hpast, hrest⟩
      · refine Or.inl ⟨g, hret, hg, hlg, by omega, free_cons.2 ⟨Or.inl hstop, hfree⟩, fun s hs hsc hfs => ?_⟩
        exact hmax s hs (hskip s hs hsc hfs) (free_cons.1 hfs).2
      · refine Or.inr ⟨current', hret, by omega, fun s hs hsc hfs => ?_, fun s hs => free_cons.2 ⟨by omega, hrest s hs⟩⟩
        exact hpast s hs (hskip s hs hsc hfs) (free_cons.1 hfs).2

def InUser (t : MmAvlTable) : Prop :=
  ∀ p, t.Reachable p → mmLowestUserAddress / pageSize ≤ t.startingVpn p ∧ t.endingVpn p ≤ mmHighestUserAddress / pageSize

def pagesFor (size : ℕ) : ℕ := (size + pageSize - 1) / pageSize

structure Place (t : MmAvlTable) (size alignment s : ℕ) : Prop where
  aligned : alignment ∣ s * pageSize
  low : mmLowestUserAddress / pageSize ≤ s
  high : s + pagesFor size ≤ mmHighestUserAddress / pageSize
  free : ∀ p, t.Reachable p → s + pagesFor size ≤ t.startingVpn p ∨ t.endingVpn p < s

/-- What the search ought to answer: 0 without a place, and otherwise the address of the
last one or of the first one. -/
structure Finds (t : MmAvlTable) (size alignment : ℕ) (topDown : Bool) (address : ℕ) : Prop where
  zero : address = 0 ↔ ¬ ∃ s, t.Place size alignment s
  place : address ≠ 0 → ∃ s, address = s * pageSize ∧ t.Place size alignment s ∧
    ∀ s', t.Place size alignment s' → if topDown then s' ≤ s else s ≤ s'

def TwoPlaces (size alignPages : ℕ) : Prop :=
  max (mmLowestUserAddress / pageSize) alignPages + alignPages + pagesFor size ≤ mmHighestUserAddress / pageSize

variable {size : ℕ} {topDown : Bool}

theorem lowestVpn_eq : mmLowestUserAddress / pageSize = 16 := by decide

theorem highestVpn_eq : mmHighestUserAddress / pageSize = 34359738367 := by decide

theorem pow_div_pageSize (hk : 12 ≤ k) : 2 ^ k / pageSize = 2 ^ (k - 12) := Nat.pow_div hk (by decide)

theorem aligned_iff (hk : 12 ≤ k) : 2 ^ k ∣ s * pageSize ↔ 2 ^ (k - 12) ∣ s := by
  have hpow : 2 ^ k = 2 ^ (k - 12) * pageSize := by
    rw [show pageSize = 2 ^ 12 from rfl, ← pow_add, Nat.sub_add_cancel hk]
  rw [hpow]
  exact Nat.mul_dvd_mul_iff_right (by decide)

theorem pagesFor_pos (h : 0 < size) : 0 < pagesFor size := by
  unfold pagesFor pageSize
  omega

theorem Finds.of_none {alignment : ℕ} (h : ∀ s, ¬ t.Place size alignment s) : t.Finds size alignment topDown 0 where
  zero := ⟨fun _ ⟨s, hs⟩ => h s hs, fun _ => rfl⟩
  place hne := absurd rfl hne

theorem Finds.of_place {alignment : ℕ} (h : t.Place size alignment s)
    (hbest : ∀ s', t.Place size alignment s' → if topDown then s' ≤ s else s ≤ s') :
    t.Finds size alignment topDown (s * pageSize) where
  zero := by
    have hlow := h.low
    rw [lowestVpn_eq] at hlow
    refine ⟨fun e => ?_, fun e => absurd ⟨s, h⟩ e⟩
    unfold pageSize at e
    omega
  place _ := ⟨s, rfl, h, hbest⟩

section
variable (h : t.WellFormed u)
include h

theorem WellFormed.place_iff (hk : 12 ≤ k) : t.Place size (2 ^ k) s ↔ 2 ^ (k - 12) ∣ s ∧ 16 ≤ s ∧
    s + pagesFor size ≤ 34359738367 ∧ t.Free (pagesFor size) (inorder u) s := by
  have hfree : (∀ p, t.Reachable p → s + pagesFor size ≤ t.startingVpn p ∨ t.endingVpn p < s) ↔
      t.Free (pagesFor size) (inorder u) s := forall_congr' fun p => by rw [h.reachable]
  constructor
  · rintro ⟨h1, h2, h3, h4⟩
    rw [lowestVpn_eq] at h2
    rw [highestVpn_eq] at h3
    exact ⟨(aligned_iff hk).1 h1, h2, h3, hfree.1 h4⟩
  · rintro ⟨h1, h2, h3, h4⟩
    rw [← lowestVpn_eq] at h2
    rw [← highestVpn_eq] at h3
    exact ⟨(aligned_iff hk).2 h1, h2, h3, hfree.2 h4⟩

theorem WellFormed.user_bounds (huser : t.InUser) {p : ℕ} (hp : p ∈ inorder u) : 16 ≤ t.startingVpn p ∧ t.endingVpn p ≤ 34359738367 := by
  have := huser p ((h.reachable p).2 hp)
  rwa [lowestVpn_eq, highestVpn_eq] at this

theorem WellFormed.miFindGapBottomUp (huser : t.InUser) (hsize : 0 < size) (hk : 12 ≤ k) (hk64 : k < 64) :
    ∃ r, t.miFindGapBottomUp (pagesFor size) (2 ^ (k - 12)) 16 34359738367 = some r ∧ t.Finds size (2 ^ k) false r := by
  have hpages := pagesFor_pos hsize
  have hk51 : 2 ^ (k - 12) ≤ 2 ^ 51 := Nat.pow_le_pow_right (by decide) (by omega)
  have hbounds := fun p hp => h.user_bounds huser (p := p) hp
  unfold MmAvlTable.miFindGapBottomUp
  simp only [h.walkUp (h.stackSuffices_of_user fun p hp => (huser p hp).2), bind_eq_bind, bind_some]
  rcases foldlM_gapBefore (k := k - 12) 16 (by omega) hpages h.ordered h.ranges (by decide)
    (fun p hp => (hbounds p hp).1) (fun p hp => by have := (hbounds p hp).2; omega) with
    ⟨p, hp, g, hfold, hg, hlow, hstop, hfree, hmin⟩ | ⟨current, hfold, hle, hlt, hpast, hrest⟩
  · have hpb := hbounds p hp
    have hpr := h.ranges p hp
    refine ⟨g * pageSize, by rw [hfold], .of_place ((h.place_iff hk).2 ⟨hg, hlow, by omega, hfree⟩) fun s hs => ?_⟩
    obtain ⟨h1, h2, -, h4⟩ := (h.place_iff hk).1 hs
    exact hmin s h1 h2 h4
  · obtain ⟨g, hup, hg, hge, -, hmin⟩ := maskUp_spec (x := current) (k := k - 12) (by omega) (by omega)
    simp only [hfold, hup, bind_some]
    by_cases hfits : g < 34359738367 ∧ pagesFor size ≤ 34359738367 - g
    · have hshift : g * pageSize % 2 ^ 64 = g * pageSize := by
        unfold pageSize
        omega
      rw [if_pos hfits, hshift]
      refine ⟨_, rfl, .of_place ((h.place_iff hk).2 ⟨hg, by omega, by omega, hrest g hge⟩) fun s hs => ?_⟩
      obtain ⟨h1, h2, -, h4⟩ := (h.place_iff hk).1 hs
      exact hmin s h1 (hpast s h1 h2 h4)
    · rw [if_neg hfits]
      refine ⟨0, rfl, .of_none fun s hs => ?_⟩
      obtain ⟨h1, h2, h3, h4⟩ := (h.place_iff hk).1 hs
      have := hmin s h1 (hpast s h1 h2 h4)
      omega

theorem WellFormed.miFindGapTopDown (huser : t.InUser) (hsize : 0 < size) (hk : 12 ≤ k) (hk64 : k < 64) :
    ∃ r, t.miFindGapTopDown (pagesFor size) (2 ^ (k - 12)) 16 34359738367 = some r ∧ t.Finds size (2 ^ k) true r := by
  have hpages := pagesFor_pos hsize
  have hk51 : 2 ^ (k - 12) ≤ 2 ^ 51 := Nat.pow_le_pow_right (by decide) (by omega)
  have hbounds := fun p hp => h.user_bounds huser (p := p) (List.mem_reverse.1 hp)
  have hranges := fun p hp => h.ranges p (List.mem_reverse.1 hp)
  have hrev : ∀ s, t.Free (pagesFor size) (inorder u).reverse s ↔ t.Free (pagesFor size) (inorder u) s := fun s => by
    simp [Free]
  unfold MmAvlTable.miFindGapTopDown
  simp only [h.walkDown (h.stackSuffices_of_user fun p hp => (huser p hp).2), bind_eq_bind, bind_some]
  rcases foldlM_gapAfter (k := k - 12) 34359738367 (by omega) hpages
    (List.pairwise_reverse.2 h.ordered) hranges (by decide) (fun p hp => (hbounds p hp).1)
    (fun p hp => (hranges p hp).trans (hbounds p hp).2) (fun p hp => by have := (hbounds p hp).2; omega) with
    ⟨g, hfold, hg, hlow, hstop, hfree, hmax⟩ | ⟨current, hfold, hle, hpast, hrest⟩
  · refine ⟨g * pageSize, by rw [hfold], .of_place ((h.place_iff hk).2 ⟨hg, hlow, hstop, (hrev g).1 hfree⟩) fun s hs => ?_⟩
    obtain ⟨h1, -, h3, h4⟩ := (h.place_iff hk).1 hs
    exact hmax s h1 h3 ((hrev s).2 h4)
  · obtain ⟨start, hup, hstart, hge, -, hmin⟩ := maskUp_spec (x := 16) (k := k - 12) (by omega) (by omega)
    simp only [hfold, hup, bind_some]
    rcases gapFit_spec 16 current (by omega) hpages (by omega) hstart hge with
      ⟨g, hfit, hg, hlow, hstop, hmax⟩ | ⟨hfit, hnone⟩
    · rw [hfit]
      refine ⟨_, rfl, .of_place ((h.place_iff hk).2 ⟨hg, by omega, by omega, (hrev g).1 (hrest g hstop)⟩) fun s hs => ?_⟩
      obtain ⟨h1, -, h3, h4⟩ := (h.place_iff hk).1 hs
      exact hmax s h1 (hpast s h1 h3 ((hrev s).2 h4))
    · rw [hfit]
      refine ⟨0, rfl, .of_none fun s hs => ?_⟩
      obtain ⟨h1, h2, h3, h4⟩ := (h.place_iff hk).1 hs
      exact hnone s (hmin s h1 h2) (hpast s h1 h3 ((hrev s).2 h4))

end

theorem maskUp_lowest (hk : k ≤ 51) : maskUp 16 (2 ^ k) = some (max 16 (2 ^ k)) := by
  have hk51 : 2 ^ k ≤ 2 ^ 51 := Nat.pow_le_pow_right (by decide) hk
  obtain ⟨g, hup, hdvd, hge, -, hmin⟩ := maskUp_spec (x := 16) (k := k) (by omega) (by omega)
  rw [hup]
  congr 1
  have hle := Nat.le_of_dvd (by omega) hdvd
  refine Nat.le_antisymm (hmin _ ?_ (Nat.le_max_left _ _)) (Nat.max_le.2 ⟨hge, hle⟩)
  rcases Nat.le_total k 4 with hk4 | hk4
  · have hdvd16 : 2 ^ k ∣ 16 := Nat.pow_dvd_pow 2 hk4
    have hle16 : 2 ^ k ≤ 16 := Nat.le_of_dvd (Nat.succ_pos 15) hdvd16
    rwa [Nat.max_eq_left hle16]
  · have hle16 : 2 ^ 4 ≤ 2 ^ k := Nat.pow_le_pow_right (by decide) hk4
    rw [Nat.max_eq_right (show 16 ≤ 2 ^ k from hle16)]

theorem WellFormed.place_empty (h : t.WellFormed u) (hroot : t.tree.root = 0) (hk : 12 ≤ k) :
    t.Place size (2 ^ k) s ↔ 2 ^ (k - 12) ∣ s ∧ 16 ≤ s ∧ s + pagesFor size ≤ 34359738367 := by
  rw [h.place_iff hk]
  refine and_congr_right fun _ => and_congr_right fun _ => and_iff_left_of_imp fun _ p hp => ?_
  exact absurd ((h.reachable p).2 hp) (h.not_reachable hroot p)

theorem twoPlaces_iff {align : ℕ} : TwoPlaces size align ↔ max 16 align + align + pagesFor size ≤ 34359738367 := by
  rw [TwoPlaces, lowestVpn_eq, highestVpn_eq]

theorem WellFormed.empty (h : t.WellFormed u) (topDown : Bool) (hroot : t.tree.root = 0) (hsize : 0 < size)
    (hfit : size + pageSize < 2 ^ 64) (hk : 12 ≤ k) (hk64 : k < 64) :
    ∃ r, t.miFindEmptyAddressRange size (2 ^ k) topDown = some r ∧
      (t.Finds size (2 ^ k) topDown r ↔ ¬ (topDown = true ∧ TwoPlaces size (2 ^ (k - 12)))) := by
  have hpages := pagesFor_pos hsize
  have hplace : ∀ s, t.Place size (2 ^ k) s ↔ _ := fun s => h.place_empty (s := s) hroot hk
  obtain ⟨first, hup, hdvd, hge, -, hmin⟩ := maskUp_spec (x := 16) (k := k - 12) (by omega)
    (by have : 2 ^ (k - 12) ≤ 2 ^ 51 := Nat.pow_le_pow_right (by decide) (by omega)
        omega)
  have hfirst : first = max 16 (2 ^ (k - 12)) := by
    rw [maskUp_lowest (by omega)] at hup
    exact (some.inj hup).symm
  have hsize0 : size ≠ 0 := by omega
  have hnofit : ¬ 2 ^ 64 ≤ size + pageSize := by omega
  have hpagesFor : (size + pageSize - 1) / pageSize = pagesFor size := rfl
  rw [twoPlaces_iff, ← hfirst]
  simp only [miFindEmptyAddressRange, if_neg hsize0, if_neg hnofit, if_pos hroot, pow_div_pageSize hk, lowestVpn_eq,
    highestVpn_eq, hup, hpagesFor, bind_eq_bind, bind_some]
  by_cases hroom : first + pagesFor size ≤ 34359738367
  · have hshift : first * pageSize % 2 ^ 64 = first * pageSize := by
      unfold pageSize
      omega
    rw [if_pos hroom, hshift]
    have hplace1 := (hplace first).2 ⟨hdvd, hge, hroom⟩
    refine ⟨_, rfl, fun hfinds htwo => ?_, fun htwo => .of_place hplace1 fun s hs => ?_⟩
    · -- the second place is higher
      obtain ⟨s, hs, -, hbest⟩ := hfinds.place (by unfold pageSize; omega)
      have hsecond := hbest (first + 2 ^ (k - 12)) ((hplace _).2 ⟨(Nat.dvd_add_right hdvd).2 (Nat.dvd_refl _), by omega, by omega⟩)
      rw [htwo.1, if_pos rfl] at hsecond
      have : first = s := Nat.eq_of_mul_eq_mul_right (by decide) hs
      have := Nat.two_pow_pos (k - 12)
      omega
    · obtain ⟨h1, h2, h3⟩ := (hplace s).1 hs
      have hle := hmin s h1 h2
      cases topDown with
      | false => simpa using hle
      | true =>
        -- a later place would leave room for the second one
        by_contra hlt
        simp only [if_true, Nat.not_le] at hlt
        have hstep : 2 ^ (k - 12) ≤ s - first := Nat.le_of_dvd (by omega) (Nat.dvd_sub h1 hdvd)
        exact htwo ⟨rfl, by omega⟩
  · rw [if_neg hroom]
    refine ⟨0, rfl, fun _ htwo => ?_, fun _ => .of_none fun s hs => ?_⟩
    · omega
    · obtain ⟨h1, h2, h3⟩ := (hplace s).1 hs
      have := hmin s h1 h2
      omega

/-- The search is right exactly where the size can be rounded to pages and it is not a
search from above in an empty tree with two places. -/
theorem WellFormed.miFindEmptyAddressRange_iff (h : t.WellFormed u) (huser : t.InUser) (hsize : 0 < size) (hk : 12 ≤ k)
    (hk64 : k < 64) :
    (∃ r, t.miFindEmptyAddressRange size (2 ^ k) topDown = some r ∧ t.Finds size (2 ^ k) topDown r) ↔
      size + pageSize < 2 ^ 64 ∧ ¬ (topDown = true ∧ t.tree.root = 0 ∧ TwoPlaces size (2 ^ k / pageSize)) := by
  have hsize0 : size ≠ 0 := by omega
  by_cases hfit : size + pageSize < 2 ^ 64
  swap
  · refine iff_of_false ?_ fun hc => hfit hc.1
    rintro ⟨r, hret, -⟩
    rw [miFindEmptyAddressRange, if_neg hsize0, if_pos (by omega)] at hret
    cases hret
  rw [pow_div_pageSize hk]
  by_cases hroot : t.tree.root = 0
  · obtain ⟨r, hret, hiff⟩ := h.empty topDown hroot hsize hfit hk hk64
    simp only [hret, some.injEq, exists_eq_left', hiff, hfit, hroot, true_and]
  · refine iff_of_true ?_ ⟨hfit, fun hc => hroot hc.2.1⟩
    have hnofit : ¬ 2 ^ 64 ≤ size + pageSize := by omega
    have hpagesFor : (size + pageSize - 1) / pageSize = pagesFor size := rfl
    simp only [miFindEmptyAddressRange, if_neg hsize0, if_neg hnofit, if_neg hroot, pow_div_pageSize hk, lowestVpn_eq,
      highestVpn_eq, hpagesFor]
    cases topDown with
    | false => exact h.miFindGapBottomUp huser hsize hk hk64
    | true => exact h.miFindGapTopDown huser hsize hk hk64

/-- Every search of a size is right exactly on that condition. -/
def SearchesRight (t : MmAvlTable) : Prop :=
  ∀ size k topDown, 0 < size → size < 2 ^ 64 → 12 ≤ k → k < 64 →
    ((∃ r, t.miFindEmptyAddressRange size (2 ^ k) topDown = some r ∧ t.Finds size (2 ^ k) topDown r) ↔
      size + pageSize < 2 ^ 64 ∧ ¬ (topDown = true ∧ t.tree.root = 0 ∧ TwoPlaces size (2 ^ k / pageSize)))

/-- In every state of a run whose regions lie in the user part the searches are right exactly on
that condition. -/
theorem miFindEmptyAddressRange_right_iff (hops : EveryStep step Admitted t.new ops) :
    EveryState step (fun t => t.InUser → t.SearchesRight) t.new ops :=
  (vadTree_wellFormed hops).1.imp fun _ ⟨_, h⟩ huser _ _ _ hsize _ hk hk64 =>
    h.miFindEmptyAddressRange_iff huser hsize hk hk64

theorem inUser_of_mem (t : MmAvlTable) (nodes : List ℕ) (hroot : t.tree.root = 0 ∨ t.tree.root ∈ nodes)
    (hclosed : ∀ p ∈ nodes, (t.tree.leftChild p = 0 ∨ t.tree.leftChild p ∈ nodes) ∧
      (t.tree.rightChild p = 0 ∨ t.tree.rightChild p ∈ nodes))
    (hranges : ∀ p ∈ nodes, mmLowestUserAddress / pageSize ≤ t.startingVpn p ∧
      t.endingVpn p ≤ mmHighestUserAddress / pageSize) : t.InUser :=
  fun p hp => hranges p (mem_of_reachable t nodes hroot hclosed hp)

theorem inUser_rotation : EveryState step InUser blank.new rotation :=
  ⟨inUser_of_mem _ [] (by decide) (by decide) (by decide), inUser_of_mem _ [1] (by decide) (by decide) (by decide),
    inUser_of_mem _ [1, 2] (by decide) (by decide) (by decide), inUser_of_mem _ [1, 2, 3] (by decide) (by decide) (by decide),
    inUser_of_mem _ [1, 2, 3, 4] (by decide) (by decide) (by decide),
    inUser_of_mem _ [1, 3, 4] (by decide) (by decide) (by decide)⟩

/-- The search in the empty tree and around one to four regions. -/
theorem miFindEmptyAddressRange_right_iff_rotation :
    EveryState step SearchesRight blank.new rotation :=
  everyState_iff_take.2 fun n =>
    everyState_iff_take.1 (miFindEmptyAddressRange_right_iff admitted_rotation) n (everyState_iff_take.1 inUser_rotation n)

/-- A search from above in the empty tree answers the lowest address, although the pages
below the end of the window are free. -/
theorem miFindEmptyAddressRange_topDown_empty :
    blank.new.InUser ∧ blank.new.miFindEmptyAddressRange pageSize (2 ^ 16) true = some mmLowestUserAddress ∧
      ¬ blank.new.Finds pageSize (2 ^ 16) true mmLowestUserAddress := by
  have hnone : ∀ p, ¬ blank.new.Reachable p := fun p hp =>
    absurd (mem_of_reachable _ [] (by decide) (by decide) hp) List.not_mem_nil
  refine ⟨fun p hp => absurd hp (hnone p), by decide, fun hfinds => ?_⟩
  obtain ⟨s, hs, -, hbest⟩ := hfinds.place (by decide)
  have hlast := hbest 0x7FFFFFFE0 ⟨by decide, by decide, by decide, fun p hp => absurd hp (hnone p)⟩
  unfold mmLowestUserAddress pageSize at hs
  simp only [if_true] at hlast
  omega

end MmAvlTable

end XenOS.Mm
