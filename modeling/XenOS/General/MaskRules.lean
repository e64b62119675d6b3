import Mathlib.Tactic.Common

/-! Rule lists over bit masks: the verdict on a bit is the effect of the first rule whose mask has
it. One pass with a shrinking set of open bits computes all verdicts: an allowing rule closes bits,
a denying rule that meets an open bit ends the pass. -/

namespace XenOS.General.MaskRules

open BitVec (eq_of_getLsbD_eq getLsbD_and getLsbD_or)

inductive Effect where
  | allow | deny
  deriving DecidableEq

structure Rule (w : ℕ) where
  effect : Effect
  mask : BitVec w

variable {w : ℕ} {rules : List (Rule w)} {remaining granted : BitVec w} {i : ℕ}

def verdict (rules : List (Rule w)) (i : ℕ) : Option Effect :=
  (rules.find? fun r => r.mask.getLsbD i).map Rule.effect

def firstTouching (rules : List (Rule w)) (remaining : BitVec w) : Option Effect :=
  (rules.find? fun r => remaining &&& r.mask ≠ 0#w).map Rule.effect

def evaluate : List (Rule w) → BitVec w → BitVec w → Bool × BitVec w
  | [], remaining, granted => (remaining = 0#w, granted)
  | ⟨.deny, mask⟩ :: rules, remaining, granted =>
    if remaining &&& mask ≠ 0#w then (false, granted) else evaluate rules remaining granted
  | ⟨.allow, mask⟩ :: rules, remaining, granted =>
    if remaining &&& ~~~mask = 0#w then (true, granted ||| (mask &&& remaining))
    else evaluate rules (remaining &&& ~~~mask) (granted ||| (mask &&& remaining))

theorem eq_zero_iff {x : BitVec w} : x = 0#w ↔ ∀ i, x.getLsbD i = false := BitVec.zero_iff_eq_false

theorem ne_zero_iff {x : BitVec w} : x ≠ 0#w ↔ ∃ i, x.getLsbD i = true := by
  rw [Ne, eq_zero_iff]
  simp

theorem getLsbD_andNot {x y : BitVec w} : (x &&& ~~~y).getLsbD i = (x.getLsbD i && !y.getLsbD i) := by
  rw [getLsbD_and, BitVec.getLsbD_not]
  cases h : x.getLsbD i with
  | false => rfl
  | true => simp [BitVec.lt_of_getLsbD h]

theorem verdict_cons {r : Rule w} :
    verdict (r :: rules) i = if r.mask.getLsbD i then some r.effect else verdict rules i := by
  unfold verdict
  cases h : r.mask.getLsbD i <;> simp [h]

theorem verdict_append {e : Effect} (h : verdict rules i = some e) (rules' : List (Rule w)) :
    verdict (rules ++ rules') i = some e := by
  obtain ⟨r, hr, he⟩ := Option.map_eq_some_iff.1 h
  rw [verdict, List.find?_append, hr]
  exact congrArg some he

theorem evaluate_fst (rules : List (Rule w)) (remaining granted : BitVec w) : (evaluate rules remaining granted).1 = true ↔
    ∀ i, remaining.getLsbD i = true → verdict rules i = some .allow := by
  induction rules generalizing remaining granted with
  | nil =>
    simp only [evaluate, verdict, List.find?_nil, Option.map_none, decide_eq_true_eq, eq_zero_iff]
    constructor
    · intro h i hi
      rw [h i] at hi
      cases hi
    · intro h i
      cases hi : remaining.getLsbD i with
      | false => rfl
      | true => cases h i hi
  | cons r rules ih =>
    obtain ⟨effect, mask⟩ := r
    cases effect with
    | deny =>
      rw [evaluate]
      split
      · rename_i hmeet
        obtain ⟨i, hi⟩ := ne_zero_iff.1 hmeet
        rw [getLsbD_and, Bool.and_eq_true] at hi
        constructor
        · intro h
          cases h
        · intro h
          have := h i hi.1
          rw [verdict_cons, if_pos hi.2] at this
          cases this
      · rename_i hmeet
        rw [ih]
        have hfree : ∀ i, remaining.getLsbD i = true → mask.getLsbD i = false := by
          intro i hi
          cases hm : mask.getLsbD i with
          | false => rfl
          | true => exact absurd (ne_zero_iff.2 ⟨i, by rw [getLsbD_and, hi, hm]; rfl⟩) hmeet
        apply forall_congr'
        intro i
        apply imp_congr_right
        intro hi
        rw [verdict_cons, if_neg (by rw [hfree i hi]; simp)]
    | allow =>
      rw [evaluate]
      split
      · rename_i hdone
        rw [eq_zero_iff] at hdone
        constructor
        · intro _ i hi
          have := hdone i
          rw [getLsbD_andNot, hi, Bool.true_and, Bool.not_eq_false'] at this
          rw [verdict_cons, if_pos this]
        · intro _
          rfl
      · rw [ih]
        apply forall_congr'
        intro i
        rw [getLsbD_andNot, verdict_cons]
        cases hm : mask.getLsbD i <;> simp

theorem evaluate_snd_of_fst (h : (evaluate rules remaining granted).1 = true) :
    (evaluate rules remaining granted).2 = granted ||| remaining := by
  induction rules generalizing remaining granted with
  | nil =>
    have h0 : remaining = 0#w := by simpa [evaluate] using h
    simp [evaluate, h0]
  | cons r rules ih =>
    obtain ⟨effect, mask⟩ := r
    cases effect with
    | deny =>
      rw [evaluate] at h ⊢
      split at h
      · cases h
      · rename_i hmeet
        rw [if_neg hmeet]
        exact ih h
    | allow =>
      rw [evaluate] at h ⊢
      split at h
      · rename_i hdone
        rw [if_pos hdone]
        apply eq_of_getLsbD_eq
        intro i _
        have := eq_zero_iff.1 hdone i
        rw [getLsbD_andNot] at this
        simp only [getLsbD_or, getLsbD_and]
        cases hr : remaining.getLsbD i <;> cases hm : mask.getLsbD i <;> simp_all
      · rename_i hdone
        rw [if_neg hdone, ih h]
        apply eq_of_getLsbD_eq
        intro i _
        rw [getLsbD_or, getLsbD_or, getLsbD_or, getLsbD_and, getLsbD_andNot]
        cases granted.getLsbD i <;> cases remaining.getLsbD i <;> cases mask.getLsbD i <;> rfl

theorem evaluate_snd_bounds :
    (granted.getLsbD i = true → (evaluate rules remaining granted).2.getLsbD i = true) ∧
    ((evaluate rules remaining granted).2.getLsbD i = true → granted.getLsbD i = true ∨ remaining.getLsbD i = true) := by
  induction rules generalizing remaining granted with
  | nil => exact ⟨id, Or.inl⟩
  | cons r rules ih =>
    obtain ⟨effect, mask⟩ := r
    cases effect with
    | deny =>
      rw [evaluate]
      split
      · exact ⟨id, Or.inl⟩
      · exact ih
    | allow =>
      rw [evaluate]
      split
      · simp only [getLsbD_or, getLsbD_and]
        cases granted.getLsbD i <;> cases remaining.getLsbD i <;> simp
      · have h := @ih (remaining &&& ~~~mask) (granted ||| (mask &&& remaining))
        rw [getLsbD_andNot, getLsbD_or, getLsbD_and] at h
        refine ⟨fun hg => h.1 (by rw [hg]; rfl), fun hr => ?_⟩
        have := h.2 hr
        revert this
        cases granted.getLsbD i <;> cases remaining.getLsbD i <;> simp

theorem firstTouching_cons {r : Rule w} : firstTouching (r :: rules) remaining =
    if remaining &&& r.mask = 0#w then firstTouching rules remaining else some r.effect := by
  unfold firstTouching
  by_cases h : remaining &&& r.mask = 0#w <;> simp [h]

theorem evaluate_snd_eq_iff (rules : List (Rule w)) (hdisjoint : ∀ i, remaining.getLsbD i = true → granted.getLsbD i = false) :
    (evaluate rules remaining granted).2 = granted ↔ firstTouching rules remaining ≠ some .allow := by
  induction rules with
  | nil => simp [evaluate, firstTouching]
  | cons r rules ih =>
    obtain ⟨effect, mask⟩ := r
    rw [firstTouching_cons]
    by_cases hmeet : remaining &&& mask = 0#w
    · rw [if_pos hmeet]
      cases effect with
      | deny =>
        rw [evaluate, if_neg (not_not_intro hmeet)]
        exact ih
      | allow =>
        have hsame : remaining &&& ~~~mask = remaining := by
          apply eq_of_getLsbD_eq
          intro i _
          have := eq_zero_iff.1 hmeet i
          rw [getLsbD_and] at this
          rw [getLsbD_andNot]
          cases hr : remaining.getLsbD i <;> simp_all
        have hnone : granted ||| (mask &&& remaining) = granted := by
          rw [BitVec.and_comm mask, hmeet, BitVec.or_zero]
        rw [evaluate, hsame, hnone]
        split
        · rename_i hzero
          have : firstTouching rules remaining = none := by
            rw [hzero]
            simp [firstTouching]
          simp [this]
        · exact ih
    · rw [if_neg hmeet]
      cases effect with
      | deny =>
        rw [evaluate, if_pos hmeet]
        simp
      | allow =>
        obtain ⟨i, hi⟩ := ne_zero_iff.1 hmeet
        rw [getLsbD_and, Bool.and_eq_true] at hi
        have hnew : (granted ||| (mask &&& remaining)).getLsbD i = true := by
          rw [getLsbD_or, getLsbD_and, hi.1, hi.2]
          simp
        have hgrow : (evaluate (⟨.allow, mask⟩ :: rules) remaining granted).2.getLsbD i = true := by
          rw [evaluate]
          split
          · exact hnew
          · exact evaluate_snd_bounds.1 hnew
        constructor
        · intro h
          rw [h, hdisjoint i hi.1] at hgrow
          cases hgrow
        · intro h
          exact absurd rfl h

end XenOS.General.MaskRules
