import XenOS.Se.AccessRules

/-! What an access check is for, one bit at a time: a bit is covered by a privilege, by
ownership, by the absence of a DACL, or by the first entry of the DACL that concerns the
token and names the bit. -/

namespace XenOS.Se

open General.MaskRules List

def Enabled (group : SidAndAttributes) : Prop := group.attributes &&& seGroupEnabled ≠ 0

def DenyOnly (group : SidAndAttributes) : Prop := group.attributes &&& seGroupUseForDenyOnly ≠ 0

instance (group : SidAndAttributes) : Decidable (Enabled group) := inferInstanceAs (Decidable (_ ≠ _))

instance (group : SidAndAttributes) : Decidable (DenyOnly group) := inferInstanceAs (Decidable (_ ≠ _))

def DenyMatches (token : Token) (sid : Sid) : Prop :=
  token.userSid = some sid ∨ ∃ group ∈ token.groups, group.sid = some sid ∧ (Enabled group ∨ DenyOnly group)

def AllowMatches (token : Token) (sid : Sid) : Prop :=
  token.userSid = some sid ∨ ∃ group ∈ token.groups, group.sid = some sid ∧ Enabled group ∧ ¬ DenyOnly group

def Mentions (token : Token) (genericMapping : Option GenericMapping) (i : ℕ) (ace : Ace) : Prop :=
  ((ace.aceType = accessDeniedAceType ∧ DenyMatches token ace.sid) ∨
    (ace.aceType = accessAllowedAceType ∧ AllowMatches token ace.sid)) ∧
  (mapMask genericMapping ace.mask).getLsbD i = true

def FirstAllows (token : Token) (genericMapping : Option GenericMapping) (i : ℕ) (aces : List Ace) : Prop :=
  ∃ as ace bs, aces = as ++ ace :: bs ∧ (∀ a ∈ as, ¬ Mentions token genericMapping i a) ∧
    Mentions token genericMapping i ace ∧ ace.aceType = accessAllowedAceType

def Covered (sd : SecurityDescriptor) (token : Token) (genericMapping : Option GenericMapping) (i : ℕ) : Prop :=
  (i = 24 ∧ sepTokenHasPrivilege token.privileges seSecurityLuid = true) ∨
  (i = 19 ∧ sepTokenHasPrivilege token.privileges seTakeOwnershipLuid = true) ∨
  ((i = 17 ∨ i = 18) ∧ isOwner sd token = true) ∨
  sd.daclPtr = none ∨ ∃ dacl, sd.daclPtr = some dacl ∧ FirstAllows token genericMapping i dacl.aces

/-- Access to the SACL comes from its privilege alone, every other bit in any of the ways. -/
def Granted (sd : SecurityDescriptor) (token : Token) (genericMapping : Option GenericMapping) (i : ℕ) : Prop :=
  if i = 24 then sepTokenHasPrivilege token.privileges seSecurityLuid = true else Covered sd token genericMapping i

variable {sd : SecurityDescriptor} {token : Token} {genericMapping : Option GenericMapping} {aces : List Ace} {i : ℕ}

theorem rtlEqualSid_eq {a b : Option Sid} : rtlEqualSid a b = decide (a = b ∧ a.isSome = true) := by
  cases a with
  | none => cases b <;> simp [rtlEqualSid]
  | some a =>
    cases b with
    | none => simp [rtlEqualSid]
    | some b =>
      obtain ⟨r, ia, sa⟩ := a
      obtain ⟨r', ia', sa'⟩ := b
      simp only [rtlEqualSid, Option.some.injEq, Sid.mk.injEq, Option.isSome_some, and_true, decide_eq_decide]
      constructor
      · rintro ⟨hr, -, hi, hs⟩
        exact ⟨hr, hi, hs⟩
      · rintro ⟨rfl, rfl, rfl⟩
        exact ⟨rfl, rfl, rfl, rfl⟩

theorem rtlEqualSid_some {a : Option Sid} {sid : Sid} : rtlEqualSid a (some sid) = true ↔ a = some sid := by
  rw [rtlEqualSid_eq, decide_eq_true_eq]
  constructor
  · exact And.left
  · rintro rfl
    exact ⟨rfl, rfl⟩

theorem sepSidMatchesTokenEx_iff {sid : Sid} : sepSidMatchesTokenEx token (some sid) false = true ↔ AllowMatches token sid := by
  simp only [sepSidMatchesTokenEx, sepSidInToken, AllowMatches, Enabled, DenyOnly, take_length, Bool.or_eq_true,
    rtlEqualSid_some, any_eq_true, Bool.false_eq_true, if_false, Bool.and_eq_true, decide_eq_true_eq, not_not]
  constructor
  · rintro (h | ⟨g, hg, ⟨h1, h2⟩, h3⟩)
    · exact Or.inl h
    · exact Or.inr ⟨g, hg, h3, h1, h2⟩
  · rintro (h | ⟨g, hg, h3, h1, h2⟩)
    · exact Or.inl h
    · exact Or.inr ⟨g, hg, ⟨h1, h2⟩, h3⟩

theorem AllowMatches.deny {sid : Sid} (h : AllowMatches token sid) : DenyMatches token sid := by
  rcases h with h | ⟨g, hg, hs, he, -⟩
  · exact Or.inl h
  · exact Or.inr ⟨g, hg, hs, Or.inl he⟩

def PlainDenials (token : Token) (genericMapping : Option GenericMapping) (aces : List Ace) : Prop :=
  ∀ ace ∈ aces, ace.aceType = accessDeniedAceType →
    mapMask genericMapping ace.mask = ace.mask ∧ (DenyMatches token ace.sid → AllowMatches token ace.sid)

theorem aceRule_mentions {ace : Ace} (hplain : ace.aceType = accessDeniedAceType →
      mapMask genericMapping ace.mask = ace.mask ∧ (DenyMatches token ace.sid → AllowMatches token ace.sid)) :
    Mentions token genericMapping i ace ↔ ∃ r, aceRule token genericMapping false ace = some r ∧ r.mask.getLsbD i = true ∧
      (r.effect = .allow ↔ ace.aceType = accessAllowedAceType) := by
  have hne : accessAllowedAceType ≠ accessDeniedAceType := by decide
  unfold Mentions aceRule aceGetSid aceGetMask
  by_cases hd : ace.aceType = accessDeniedAceType
  · obtain ⟨hmask, hmatch⟩ := hplain hd
    have hiff : DenyMatches token ace.sid ↔ AllowMatches token ace.sid := ⟨hmatch, AllowMatches.deny⟩
    rw [hmask]
    simp only [hd, hne.symm, true_and, false_and, or_false, true_or, or_true, if_true, hiff, ← sepSidMatchesTokenEx_iff]
    cases sepSidMatchesTokenEx token (some ace.sid) false <;> simp
  · by_cases ha : ace.aceType = accessAllowedAceType
    · simp only [ha, hne, true_and, false_and, false_or, true_or, if_true, if_false, ← sepSidMatchesTokenEx_iff]
      cases sepSidMatchesTokenEx token (some ace.sid) false <;> simp
    · simp [hd, ha]

theorem verdict_daclRules (hplain : PlainDenials token genericMapping aces) :
    verdict (daclRules token genericMapping false aces) i = some .allow ↔ FirstAllows token genericMapping i aces := by
  induction aces with
  | nil =>
    constructor
    · intro h
      cases h
    · rintro ⟨as, ace, bs, h, -⟩
      simp at h
  | cons ace aces ih =>
    have hace := aceRule_mentions (i := i) (hplain ace mem_cons_self)
    have ih := ih fun a ha => hplain a (mem_cons_of_mem _ ha)
    have htail : ¬ Mentions token genericMapping i ace →
        (FirstAllows token genericMapping i (ace :: aces) ↔ FirstAllows token genericMapping i aces) := by
      intro hm
      constructor
      · rintro ⟨as, a, bs, h, has, ha, hallow⟩
        cases as with
        | nil =>
          obtain ⟨rfl, rfl⟩ := cons.inj h
          exact absurd ha hm
        | cons a' as =>
          obtain ⟨rfl, rfl⟩ := cons.inj h
          exact ⟨as, a, bs, rfl, fun x hx => has x (mem_cons_of_mem _ hx), ha, hallow⟩
      · rintro ⟨as, a, bs, rfl, has, ha, hallow⟩
        refine ⟨ace :: as, a, bs, rfl, fun x hx => ?_, ha, hallow⟩
        rcases mem_cons.1 hx with rfl | hx
        · exact hm
        · exact has x hx
    have hhead : Mentions token genericMapping i ace →
        (FirstAllows token genericMapping i (ace :: aces) ↔ ace.aceType = accessAllowedAceType) := by
      intro hm
      constructor
      · rintro ⟨as, a, bs, h, has, ha, hallow⟩
        cases as with
        | nil =>
          obtain ⟨rfl, rfl⟩ := cons.inj h
          exact hallow
        | cons a' as =>
          obtain ⟨rfl, rfl⟩ := cons.inj h
          exact absurd hm (has _ mem_cons_self)
      · intro hallow
        exact ⟨[], ace, aces, rfl, fun x hx => absurd hx not_mem_nil, hm, hallow⟩
    unfold daclRules at *
    rw [filterMap_cons]
    cases hr : aceRule token genericMapping false ace with
    | none =>
      have hm : ¬ Mentions token genericMapping i ace := by
        rw [hace, hr]
        rintro ⟨r, h, -⟩
        cases h
      rw [htail hm]
      exact ih
    | some r =>
      simp only [verdict_cons]
      have heff : r.effect = .allow ↔ ace.aceType = accessAllowedAceType := by
        unfold aceRule at hr
        split at hr
        · cases hr
        · split at hr
          · rename_i hd
            obtain rfl := Option.some.inj hr
            have hne : accessDeniedAceType ≠ accessAllowedAceType := by decide
            simp [hd, hne]
          · split at hr
            · rename_i ha
              obtain rfl := Option.some.inj hr
              simp [ha]
            · cases hr
      by_cases hbit : r.mask.getLsbD i = true
      · have hm : Mentions token genericMapping i ace := hace.2 ⟨r, hr, hbit, heff⟩
        rw [if_pos hbit, hhead hm, ← heff]
        simp
      · have hm : ¬ Mentions token genericMapping i ace := by
          rw [hace, hr]
          rintro ⟨r', h, hb, -⟩
          obtain rfl := Option.some.inj h
          exact hbit hb
        rw [if_neg hbit, htail hm]
        exact ih

variable {desired previous : AccessMask}

theorem getLsbD_openAccess : (openAccess genericMapping desired previous).getLsbD i = true ↔
    (mapMask genericMapping desired).getLsbD i = true ∧ previous.getLsbD i = false := by
  unfold openAccess
  rw [getLsbD_andNot, Bool.and_eq_true, Bool.not_eq_true']

theorem covered_of_decided (h : decided sd token i = true) : Covered sd token genericMapping i := by
  unfold decided byPrivilege byOwner at h
  simp only [Bool.or_eq_true, Bool.and_eq_true, decide_eq_true_eq] at h
  rcases h with (h | h) | h
  · exact Or.inl h
  · exact Or.inr (Or.inl h)
  · exact Or.inr (Or.inr (Or.inl h))

theorem Covered.of_not_decided (h : Covered sd token genericMapping i) (hd : decided sd token i = false) :
    sd.daclPtr = none ∨ ∃ dacl, sd.daclPtr = some dacl ∧ FirstAllows token genericMapping i dacl.aces := by
  have hn : ¬ decided sd token i = true := by simp [hd]
  unfold decided byPrivilege byOwner at hn
  simp only [Bool.or_eq_true, Bool.and_eq_true, decide_eq_true_eq, not_or] at hn
  rcases h with h | h | h | h
  · exact absurd h hn.1.1
  · exact absurd h hn.1.2
  · exact absurd h hn.2
  · exact h

/-- For an unrestricted token that passes the mandatory check, access is granted exactly if every
mapped bit not granted before is granted by itself. -/
theorem seAccessCheck_iff {context : SecuritySubjectContext}
    (ht : seGetEffectiveToken context = some token) (hunrestricted : token.isRestricted = false)
    (hmandatory : sepMandatoryAccessCheck sd token (openAccess genericMapping desired previous) = true)
    (hplain : ∀ dacl, sd.daclPtr = some dacl → PlainDenials token genericMapping dacl.aces) :
    (seAccessCheck (some sd) (some context) desired previous genericMapping).1 = true ↔
      ∀ i, (mapMask genericMapping desired).getLsbD i = true → previous.getLsbD i = false →
        Granted sd token genericMapping i := by
  rw [seAccessCheck_eq ht]
  have hcount : ¬ 0 < token.restrictedSidCount := by
    intro h
    simp [Token.isRestricted, h] at hunrestricted
  have hbits : (∀ i, (mapMask genericMapping desired).getLsbD i = true → previous.getLsbD i = false →
      Granted sd token genericMapping i) ↔
      ∀ i, (openAccess genericMapping desired previous).getLsbD i = true → Granted sd token genericMapping i := by
    simp only [getLsbD_openAccess, and_imp]
  rw [hbits]
  generalize openAccess genericMapping desired previous = d at *
  by_cases hzero : d = 0#32
  · rw [if_pos hzero, hzero]
    simp
  rw [if_neg hzero]
  by_cases href : Refused sd token d
  · rw [sepAccessCheck_of_refused href]
    rcases href with h | ⟨hbit, hpriv⟩
    · rw [hmandatory] at h
      cases h
    · constructor
      · intro h
        cases h
      · intro h
        have := h 24 hbit
        rw [Granted, if_pos rfl, hpriv] at this
        cases this
  · obtain ⟨q, hq, heq⟩ := sepAccessCheck_eq previous genericMapping href
    rw [heq, checkDacl_fst, and_iff_left fun h => absurd h.1 hcount]
    have hopen : ∀ i, q.remaining.getLsbD i = true ↔ d.getLsbD i = true ∧ decided sd token i = false := by
      intro i
      rw [hq.remaining, Bool.and_eq_true, Bool.not_eq_true']
    constructor
    · intro h i hi
      unfold Granted
      split
      · rename_i h24
        rw [← Bool.not_eq_false]
        exact fun hpriv => href (Or.inr ⟨h24 ▸ hi, hpriv⟩)
      · by_cases hd : decided sd token i = true
        · exact covered_of_decided hd
        · cases hdacl : sd.daclPtr with
          | none => exact Or.inr (Or.inr (Or.inr (Or.inl hdacl)))
          | some dacl =>
            refine Or.inr (Or.inr (Or.inr (Or.inr ⟨dacl, hdacl, ?_⟩)))
            exact (verdict_daclRules (hplain dacl hdacl)).1 (h dacl hdacl i ((hopen i).2 ⟨hi, Bool.not_eq_true _ ▸ hd⟩))
    · intro h dacl hdacl i hi
      obtain ⟨hbit, hd⟩ := (hopen i).1 hi
      have hg := h i hbit
      have hcov : Covered sd token genericMapping i := by
        unfold Granted at hg
        split at hg
        · rename_i h24
          exact Or.inl ⟨h24, hg⟩
        · exact hg
      rcases hcov.of_not_decided hd with hnone | ⟨dacl', hdacl', hfirst⟩
      · rw [hdacl] at hnone
        cases hnone
      · rw [hdacl] at hdacl'
        obtain rfl := Option.some.inj hdacl'
        exact (verdict_daclRules (hplain dacl hdacl)).2 hfirst

def userSid : Sid := ⟨1, [0, 0, 0, 0, 0, 5], [1000]⟩

def groupSid : Sid := ⟨1, [0, 0, 0, 0, 0, 5], [545]⟩

def userToken : Token where
  tokenFlags := 0
  userSid := some userSid
  groups := [⟨some groupSid, seGroupEnabled⟩]
  restrictedSidCount := 0
  restrictedSids := none
  privileges := []
  owner := some userSid
  primaryGroup := some groupSid
  defaultDacl := none
  integrityLevelSid := none
  integrityLevelIndex := securityMandatoryMediumRid
  integrity_cached := rfl

def openDescriptor : SecurityDescriptor := ⟨0, none, none, none, none⟩

def mixedDescriptor : SecurityDescriptor :=
  ⟨seDaclPresent, none, none, none, some ⟨[⟨accessDeniedAceType, 0, 2#32, groupSid⟩, ⟨accessAllowedAceType, 0, 3#32, userSid⟩]⟩⟩

theorem seAccessCheck_iff_mixed :
    (seAccessCheck (some mixedDescriptor) (some ⟨none, some userToken⟩) 3#32 2#32 none).1 = true ↔
      ∀ i, (mapMask none 3#32).getLsbD i = true → (2#32).getLsbD i = false → Granted mixedDescriptor userToken none i :=
  seAccessCheck_iff rfl (by decide) (by decide) fun dacl h ace hace hd => by
    obtain rfl := Option.some.inj h
    refine ⟨rfl, fun _ => ?_⟩
    rcases mem_cons.1 hace with rfl | hace
    · exact Or.inr ⟨_, mem_singleton.2 rfl, rfl, by decide, by decide⟩
    · rw [mem_singleton.1 hace] at hd
      exact absurd hd (by decide)

/-- Without a DACL every bit is covered, but access to the SACL is refused without the
privilege. -/
theorem systemSecurity_not_by_null_dacl :
    userToken.isRestricted = false ∧ sepMandatoryAccessCheck openDescriptor userToken (openAccess none accessSystemSecurity 0#32) = true ∧
    ¬ ((seAccessCheck (some openDescriptor) (some ⟨none, some userToken⟩) accessSystemSecurity 0#32 none).1 = true ↔
      ∀ i, (mapMask none accessSystemSecurity).getLsbD i = true → (0#32).getLsbD i = false →
        Covered openDescriptor userToken none i) := by
  refine ⟨by decide, by decide, fun h => ?_⟩
  have hgranted := h.2 fun _ _ _ => Or.inr (Or.inr (Or.inr (Or.inl rfl)))
  exact absurd hgranted (by decide)

end XenOS.Se
