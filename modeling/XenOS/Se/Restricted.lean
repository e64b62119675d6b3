import XenOS.Se.AccessSpec

/-! Restricted tokens and the granted mask: what an access check may hand out, and the
inputs on which the code hands out exactly that. -/

namespace XenOS.Se

open General.MaskRules
open BitVec (eq_of_getLsbD_eq getLsbD_and getLsbD_or or_zero)

variable {sd : SecurityDescriptor} {token : Token} {genericMapping : Option GenericMapping}
  {desired previous d : AccessMask} {i : ℕ}

def checkToken (sd : SecurityDescriptor) (token : Token) (desired previous : AccessMask)
    (genericMapping : Option GenericMapping) : Bool × AccessMask :=
  seAccessCheck (some sd) (some ⟨none, some token⟩) desired previous genericMapping

def Token.unrestricted (token : Token) : Token := { token with restrictedSidCount := 0, restrictedSids := none }

def RestrictedAllows (sd : SecurityDescriptor) (token : Token) (genericMapping : Option GenericMapping) (i : ℕ) : Prop :=
  ∀ dacl, sd.daclPtr = some dacl → verdict (daclRules token genericMapping true dacl.aces) i = some .allow

structure GrantsExactly (sd : SecurityDescriptor) (token : Token) (genericMapping : Option GenericMapping)
    (desired previous : AccessMask) : Prop where
  unrestricted : (checkToken sd token desired previous genericMapping).1 = true →
    (checkToken sd token.unrestricted desired previous genericMapping).1 = true
  restricted : token.isRestricted = true → (checkToken sd token desired previous genericMapping).1 = true →
    ∀ i, (checkToken sd token desired previous genericMapping).2.getLsbD i = true → previous.getLsbD i = false →
      byPrivilege token i = false → RestrictedAllows sd token genericMapping i
  success : (checkToken sd token desired previous genericMapping).1 = true →
    (checkToken sd token desired previous genericMapping).2 = mapMask genericMapping desired ||| previous
  failure : (checkToken sd token desired previous genericMapping).1 = false →
    ∀ i, (checkToken sd token desired previous genericMapping).2.getLsbD i = true → previous.getLsbD i = true

/-! ### The condition -/

/-- The bits that privileges and ownership cover. -/
def decidedMask (sd : SecurityDescriptor) (token : Token) : AccessMask :=
  (if sepTokenHasPrivilege token.privileges seSecurityLuid then accessSystemSecurity else 0#32) |||
  (if sepTokenHasPrivilege token.privileges seTakeOwnershipLuid then writeOwner else 0#32) |||
  (if isOwner sd token then readControl ||| writeDac else 0#32)

def leftForDacl (sd : SecurityDescriptor) (token : Token) (d : AccessMask) : AccessMask := d &&& ~~~decidedMask sd token

def Succeeds (sd : SecurityDescriptor) (token : Token) (genericMapping : Option GenericMapping) (d : AccessMask) : Prop :=
  d = 0#32 ∨ (¬ Refused sd token d ∧ DaclAllows sd token genericMapping false (leftForDacl sd token d) ∧
    (UsesRestricted sd token (leftForDacl sd token d) → DaclAllows sd token genericMapping true d))

structure NothingEscapes (sd : SecurityDescriptor) (token : Token) (genericMapping : Option GenericMapping)
    (d previous : AccessMask) : Prop where
  /-- A failing check fails before it has granted anything. -/
  failure : ¬ Succeeds sd token genericMapping d → Refused sd token d ∨ (d &&& decidedMask sd token = 0#32 ∧
    ∀ dacl, sd.daclPtr = some dacl →
      firstTouching (daclRules token genericMapping false dacl.aces) (leftForDacl sd token d) ≠ some .allow)
  /-- Where the restricted SIDs are consulted nothing was granted before. -/
  previous : Succeeds sd token genericMapping d → UsesRestricted sd token (leftForDacl sd token d) → previous = 0#32
  /-- Where a restricted token succeeds without them they allow all that no privilege covers. -/
  restricted : token.isRestricted = true → Succeeds sd token genericMapping d →
    ¬ UsesRestricted sd token (leftForDacl sd token d) →
    ∀ i, d.getLsbD i = true → byPrivilege token i = false → RestrictedAllows sd token genericMapping i

theorem getLsbD_decidedMask : (decidedMask sd token).getLsbD i = decided sd token i := by
  unfold decidedMask decided byPrivilege byOwner
  rw [getLsbD_or, getLsbD_or]
  congr 1
  · congr 1
    · split <;> simp [*, getLsbD_accessSystemSecurity]
    · split <;> simp [*, getLsbD_writeOwner]
  · split <;> simp [*, getLsbD_readControl, getLsbD_writeDac]

theorem Progress.Decides.remaining_eq {q : Progress} (h : (Progress.mk d previous).Decides q (decided sd token)) :
    q.remaining = leftForDacl sd token d := by
  apply eq_of_getLsbD_eq
  intro i _
  rw [h.remaining, leftForDacl, getLsbD_andNot, getLsbD_decidedMask]

theorem Progress.Decides.granted_eq {q : Progress} (h : (Progress.mk d previous).Decides q (decided sd token)) :
    q.granted = previous ||| (d &&& decidedMask sd token) := by
  apply eq_of_getLsbD_eq
  intro i _
  rw [h.granted, getLsbD_or, getLsbD_and, getLsbD_decidedMask]

theorem Progress.Decides.all_eq {q : Progress} (h : (Progress.mk d previous).Decides q (decided sd token)) :
    q.granted ||| q.remaining = previous ||| d := by
  apply eq_of_getLsbD_eq
  intro i _
  rw [getLsbD_or, h.granted, h.remaining, getLsbD_or]
  cases previous.getLsbD i <;> cases d.getLsbD i <;> cases decided sd token i <;> rfl

theorem checkToken_eq : checkToken sd token desired previous genericMapping =
    if openAccess genericMapping desired previous = 0#32 then (true, previous)
    else sepAccessCheck sd token (openAccess genericMapping desired previous) previous genericMapping :=
  seAccessCheck_eq rfl

section
variable (hd : openAccess genericMapping desired previous = d)
include hd

theorem checkToken_fst :
    (checkToken sd token desired previous genericMapping).1 = true ↔ Succeeds sd token genericMapping d := by
  rw [checkToken_eq, hd, Succeeds]
  by_cases hzero : d = 0#32
  · simp [hzero]
  · rw [if_neg hzero, or_iff_right hzero]
    by_cases href : Refused sd token d
    · simp [sepAccessCheck_of_refused href, href]
    · obtain ⟨q, hq, heq⟩ := sepAccessCheck_eq previous genericMapping href
      rw [heq, checkDacl_fst, hq.remaining_eq, and_iff_right href]

theorem checkToken_snd_of_succeeds (hs : Succeeds sd token genericMapping d) :
    (¬ UsesRestricted sd token (leftForDacl sd token d) →
      (checkToken sd token desired previous genericMapping).2 = previous ||| d) ∧
    (UsesRestricted sd token (leftForDacl sd token d) →
      (checkToken sd token desired previous genericMapping).2 = (previous ||| d) &&& d) := by
  have hfst : (checkToken sd token desired previous genericMapping).1 = true := (checkToken_fst hd).2 hs
  rw [checkToken_eq, hd] at hfst ⊢
  by_cases hzero : d = 0#32
  · have hleft : leftForDacl sd token d = 0#32 := by simp [leftForDacl, hzero]
    rw [if_pos hzero, hleft, hzero]
    simp [UsesRestricted]
  · rw [if_neg hzero] at hfst ⊢
    have href : ¬ Refused sd token d := (hs.resolve_left hzero).1
    obtain ⟨q, hq, heq⟩ := sepAccessCheck_eq previous genericMapping href
    rw [heq] at hfst ⊢
    have := checkDacl_snd_of_fst hfst
    rwa [hq.all_eq, hq.remaining_eq] at this

/-- A failing check has granted nothing exactly if it was refused, or nothing was given before the
denial. -/
theorem checkToken_snd_of_not_succeeds
    (hs : ¬ Succeeds sd token genericMapping d) :
    (∀ i, (checkToken sd token desired previous genericMapping).2.getLsbD i = true → previous.getLsbD i = true) ↔
    Refused sd token d ∨ (d &&& decidedMask sd token = 0#32 ∧ ∀ dacl, sd.daclPtr = some dacl →
      firstTouching (daclRules token genericMapping false dacl.aces) (leftForDacl sd token d) ≠ some .allow) := by
  have hfst : (checkToken sd token desired previous genericMapping).1 = false := by
    rw [← Bool.not_eq_true, checkToken_fst hd]
    exact hs
  have hzero : d ≠ 0#32 := fun h => hs (Or.inl h)
  have hfresh : ∀ i, d.getLsbD i = true → previous.getLsbD i = false := by
    intro i hi
    rw [← hd, getLsbD_openAccess] at hi
    exact hi.2
  rw [checkToken_eq, hd, if_neg hzero] at hfst ⊢
  by_cases href : Refused sd token d
  · rw [sepAccessCheck_of_refused href]
    simp [href]
  · rw [or_iff_right href]
    obtain ⟨q, hq, heq⟩ := sepAccessCheck_eq previous genericMapping href
    rw [heq] at hfst ⊢
    obtain ⟨dacl, hdacl, -, hsnd⟩ := checkDacl_snd_of_not hfst
    rw [hsnd, ← hq.remaining_eq]
    have hdisjoint : ∀ i, q.remaining.getLsbD i = true → q.granted.getLsbD i = false := by
      intro i hi
      rw [hq.remaining, Bool.and_eq_true, Bool.not_eq_true'] at hi
      rw [hq.granted, hfresh i hi.1, hi.2]
      simp
    have hfirst := evaluate_snd_eq_iff (daclRules token genericMapping false dacl.aces) hdisjoint
    constructor
    · intro h
      have hnone : d &&& decidedMask sd token = 0#32 := by
        rw [eq_zero_iff]
        intro i
        cases hi : (d &&& decidedMask sd token).getLsbD i with
        | false => rfl
        | true =>
          have hgr : q.granted.getLsbD i = true := by
            rw [hq.granted_eq, getLsbD_or, hi, Bool.or_true]
          have hprev := h i (evaluate_snd_bounds.1 hgr)
          rw [getLsbD_and, Bool.and_eq_true] at hi
          rw [hfresh i hi.1] at hprev
          cases hprev
      have hq' : q.granted = previous := by rw [hq.granted_eq, hnone, or_zero]
      refine ⟨hnone, fun dacl' hdacl' => ?_⟩
      rw [hdacl] at hdacl'
      obtain rfl := Option.some.inj hdacl'
      rw [← hfirst, hq']
      apply eq_of_getLsbD_eq
      intro i _
      rw [Bool.eq_iff_iff]
      exact ⟨fun hi => h i (by rwa [hq']), evaluate_snd_bounds.1⟩
    · rintro ⟨hnone, h⟩ i hi
      rw [hfirst.2 (h dacl hdacl), hq.granted_eq, hnone, or_zero] at hi
      exact hi

end

theorem Succeeds.unrestricted (h : Succeeds sd token genericMapping d) : Succeeds sd token.unrestricted genericMapping d := by
  rcases h with h | ⟨h1, h2, -⟩
  · exact Or.inl h
  · exact Or.inr ⟨h1, h2, fun hr => absurd hr.1 (Nat.lt_irrefl 0)⟩

/-- The code grants exactly what it may on the inputs where nothing escapes, and on no
other. -/
theorem grantsExactly_iff (sd : SecurityDescriptor) (token : Token) (genericMapping : Option GenericMapping)
    (desired previous : AccessMask) : GrantsExactly sd token genericMapping desired previous ↔
      NothingEscapes sd token genericMapping (openAccess genericMapping desired previous) previous := by
  have hfst : (checkToken sd token desired previous genericMapping).1 = true ↔
      Succeeds sd token genericMapping (openAccess genericMapping desired previous) := checkToken_fst rfl
  have hmapped : mapMask genericMapping desired ||| previous = previous ||| openAccess genericMapping desired previous := by
    apply eq_of_getLsbD_eq
    intro i _
    rw [getLsbD_or, getLsbD_or, openAccess, getLsbD_andNot]
    cases previous.getLsbD i <;> cases (mapMask genericMapping desired).getLsbD i <;> rfl
  have hopen : ∀ i, (openAccess genericMapping desired previous).getLsbD i = true → previous.getLsbD i = false :=
    fun i hi => (getLsbD_openAccess.1 hi).2
  constructor
  · rintro ⟨-, hrestricted, hsuccess, hfailure⟩
    refine ⟨fun hs => ?_, fun hs hu => ?_, fun hr hs hu i hi hp => ?_⟩
    · refine (checkToken_snd_of_not_succeeds rfl hs).1 (hfailure ?_)
      rw [← Bool.not_eq_true, hfst]
      exact hs
    · have hall := hsuccess (hfst.2 hs)
      rw [(checkToken_snd_of_succeeds rfl hs).2 hu, hmapped] at hall
      rw [eq_zero_iff]
      intro i
      cases hi : previous.getLsbD i with
      | false => rfl
      | true =>
        have hbit := congrArg (fun x : AccessMask => x.getLsbD i) hall
        simp only [getLsbD_and, getLsbD_or, hi, Bool.true_or, Bool.true_and] at hbit
        rw [hopen i hbit] at hi
        cases hi
    · refine hrestricted hr (hfst.2 hs) i ?_ (hopen i hi) hp
      rw [(checkToken_snd_of_succeeds rfl hs).1 hu, getLsbD_or, hi, Bool.or_true]
  · rintro ⟨hfailure, hprevious, hrestricted⟩
    refine ⟨fun h => ?_, fun hr h i hi hnew hp => ?_, fun h => ?_, fun h => ?_⟩
    · exact (checkToken_fst rfl).2 (hfst.1 h).unrestricted
    · have hs := hfst.1 h
      by_cases hu : UsesRestricted sd token (leftForDacl sd token (openAccess genericMapping desired previous))
      · rw [(checkToken_snd_of_succeeds rfl hs).2 hu, getLsbD_and, Bool.and_eq_true] at hi
        rcases hs with hs | ⟨-, -, hs⟩
        · rw [hs] at hi
          simp at hi
        · exact fun dacl hdacl => hs hu dacl hdacl i hi.2
      · rw [(checkToken_snd_of_succeeds rfl hs).1 hu, getLsbD_or, hnew, Bool.false_or] at hi
        exact hrestricted hr hs hu i hi hp
    · have hs := hfst.1 h
      rw [hmapped]
      by_cases hu : UsesRestricted sd token (leftForDacl sd token (openAccess genericMapping desired previous))
      · rw [(checkToken_snd_of_succeeds rfl hs).2 hu, hprevious hs hu]
        simp
      · exact (checkToken_snd_of_succeeds rfl hs).1 hu
    · have hs : ¬ Succeeds sd token genericMapping (openAccess genericMapping desired previous) := by
        rw [← hfst, h]
        simp
      exact (checkToken_snd_of_not_succeeds rfl hs).2 (hfailure hs)

def lateDenial : SecurityDescriptor :=
  ⟨seDaclPresent, none, none, none, some ⟨[⟨accessAllowedAceType, 0, 1#32, userSid⟩, ⟨accessDeniedAceType, 0, 2#32, groupSid⟩]⟩⟩

/-- The check for bits 0 and 1 fails, but leaves bit 0 in the granted mask. -/
theorem failure_not_exact : ¬ GrantsExactly lateDenial userToken none 3#32 0#32 := fun h =>
  absurd (h.failure (by decide) 0 (by decide)) (by decide)

theorem Succeeds.of_subset {d' : AccessMask} (hsub : d' &&& d = d') (h : Succeeds sd token genericMapping d) :
    Succeeds sd token genericMapping d' := by
  have hbit (i : ℕ) (hi : d'.getLsbD i = true) : d.getLsbD i = true := by
    rw [← hsub, getLsbD_and, Bool.and_eq_true] at hi
    exact hi.2
  have hnone (mask : AccessMask) (h : d &&& mask = 0#32) : d' &&& mask = 0#32 := by
    rw [← hsub, BitVec.and_assoc, h, BitVec.and_zero]
  rcases h with rfl | ⟨hrefused, hallows, hrestricted⟩
  · exact .inl (by rw [← hsub, BitVec.and_zero])
  · refine .inr ⟨fun hr => hrefused (hr.imp (fun hm => ?_) (And.imp_left (hbit 24))), fun dacl hdacl i hi => hallows dacl hdacl i ?_,
      fun hu dacl hdacl i hi => hrestricted ⟨hu.1, fun h => hu.2.1 (hnone _ h), hu.2.2⟩ dacl hdacl i (hbit i hi)⟩
    · simp only [sepMandatoryAccessCheck] at hm ⊢
      split_ifs at hm ⊢ <;> simp_all
    · rw [leftForDacl, getLsbD_andNot, Bool.and_eq_true] at hi ⊢
      exact hi.imp_left (hbit i)

/-- Who asks for less, or has been granted more before, is not refused. -/
theorem checkToken_of_subset {desired' previous' : AccessMask}
    (hsub : openAccess genericMapping desired' previous' &&& openAccess genericMapping desired previous =
      openAccess genericMapping desired' previous')
    (h : (checkToken sd token desired previous genericMapping).1 = true) :
    (checkToken sd token desired' previous' genericMapping).1 = true :=
  (checkToken_fst rfl).2 (((checkToken_fst rfl).1 h).of_subset hsub)

def bothDescriptor : SecurityDescriptor :=
  ⟨seDaclPresent, none, none, none, some ⟨[⟨accessAllowedAceType, 0, 1#32, userSid⟩, ⟨accessAllowedAceType, 0, 2#32, groupSid⟩]⟩⟩

/-- A grant of bits 0 and 1 covers bit 0 alone. -/
theorem checkToken_of_subset_both : (checkToken bothDescriptor userToken 1#32 0#32 none).1 = true :=
  checkToken_of_subset (by decide : _ &&& openAccess none 3#32 0#32 = _) (by decide)

def withAces (sd : SecurityDescriptor) (aces : List Ace) : SecurityDescriptor :=
  { sd with dacl := sd.dacl.map fun dacl => ⟨dacl.aces ++ aces⟩ }

theorem daclPtr_withAces {aces : List Ace} : (withAces sd aces).daclPtr = sd.daclPtr.map fun dacl => ⟨dacl.aces ++ aces⟩ :=
  (apply_ite (Option.map _) (sd.control &&& seDaclPresent = 0) none sd.dacl).symm

theorem DaclAllows.withAces {r : Bool} (h : DaclAllows sd token genericMapping r d) (aces : List Ace) :
    DaclAllows (withAces sd aces) token genericMapping r d := by
  intro dacl' hdacl' i hi
  obtain ⟨dacl, hdacl, rfl⟩ := Option.map_eq_some_iff.1 (daclPtr_withAces.symm.trans hdacl')
  rw [daclRules, List.filterMap_append]
  exact verdict_append (h dacl hdacl i hi) _

/-- ACEs behind those of the DACL take away no access. -/
theorem checkToken_withAces (aces : List Ace) (h : (checkToken sd token desired previous genericMapping).1 = true) :
    (checkToken (withAces sd aces) token desired previous genericMapping).1 = true := by
  apply (checkToken_fst rfl).2
  rcases (checkToken_fst rfl).1 h with hnone | ⟨hrefused, hfirst, hsecond⟩
  · exact .inl hnone
  · refine .inr ⟨hrefused, hfirst.withAces aces, fun ⟨hcount, hleft, hdacl⟩ => ?_⟩
    have hdacl' : sd.daclPtr ≠ none := fun h => hdacl (by rw [daclPtr_withAces, h]; rfl)
    exact (hsecond ⟨hcount, hleft, hdacl'⟩).withAces aces

theorem checkToken_withAces_mixed :
    (checkToken (withAces mixedDescriptor [⟨accessDeniedAceType, 0, 1#32, userSid⟩]) userToken 1#32 0#32 none).1 = true :=
  checkToken_withAces _ (by decide)

end XenOS.Se
