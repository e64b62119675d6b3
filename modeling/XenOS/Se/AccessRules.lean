import XenOS.General.MaskRules
import XenOS.Se.AccessCheck

/-! The access check bit by bit. The walk over a DACL evaluates the rules that match the token, and
the steps before it decide two bits by privilege and two by ownership. -/

namespace XenOS.Se

open General.MaskRules

variable {sd : SecurityDescriptor} {token : Token} {genericMapping : Option GenericMapping} {aces : List Ace}
  {desired previous remaining granted : AccessMask} {useRestricted : Bool} {i : ℕ}

def aceRule (token : Token) (genericMapping : Option GenericMapping) (useRestricted : Bool) (ace : Ace) : Option (Rule 32) :=
  if !sepSidMatchesTokenEx token (aceGetSid ace) useRestricted then none
  else if ace.aceType = accessDeniedAceType then some ⟨.deny, aceGetMask ace⟩
  else if ace.aceType = accessAllowedAceType then some ⟨.allow, mapMask genericMapping (aceGetMask ace)⟩
  else none

def daclRules (token : Token) (genericMapping : Option GenericMapping) (useRestricted : Bool) (aces : List Ace) : List (Rule 32) :=
  aces.filterMap (aceRule token genericMapping useRestricted)

theorem sepCheckDaclAccess_eq : sepCheckDaclAccess token genericMapping useRestricted aces remaining granted =
    evaluate (daclRules token genericMapping useRestricted aces) remaining granted := by
  unfold daclRules
  induction aces generalizing remaining granted with
  | nil => rfl
  | cons ace aces ih =>
    rw [sepCheckDaclAccess, List.filterMap_cons]
    cases hm : sepSidMatchesTokenEx token (aceGetSid ace) useRestricted with
    | false => simp [aceRule, hm, ih]
    | true =>
      by_cases hd : ace.aceType = accessDeniedAceType
      · by_cases hmeet : remaining &&& aceGetMask ace = 0#32
        · simp [aceRule, hm, hd, hmeet, evaluate, ih]
        · simp [aceRule, hm, hd, hmeet, evaluate]
      · by_cases ha : ace.aceType = accessAllowedAceType
        · have hne : accessAllowedAceType ≠ accessDeniedAceType := by decide
          simp only [aceRule, hm, ha, hne, ih]
          simp [evaluate]
        · simp [aceRule, hm, hd, ha, ih]

theorem getLsbD_oneBit {right : BitVec 32} {k : ℕ} (hk : k < 32) (h : right = BitVec.twoPow 32 k) :
    right.getLsbD i = decide (i = k) := by
  rw [h, BitVec.getLsbD_twoPow]
  simp [hk, eq_comm]

theorem getLsbD_writeOwner : writeOwner.getLsbD i = decide (i = 19) := getLsbD_oneBit (by omega) rfl

theorem getLsbD_readControl : readControl.getLsbD i = decide (i = 17) := getLsbD_oneBit (by omega) rfl

theorem getLsbD_writeDac : writeDac.getLsbD i = decide (i = 18) := getLsbD_oneBit (by omega) rfl

theorem getLsbD_accessSystemSecurity : accessSystemSecurity.getLsbD i = decide (i = 24) := getLsbD_oneBit (by omega) rfl

theorem and_ne_zero_iff {x right : AccessMask} {k : ℕ} (hright : ∀ i, right.getLsbD i = decide (i = k)) :
    x &&& right ≠ 0#32 ↔ x.getLsbD k = true := by
  rw [ne_zero_iff]
  constructor
  · rintro ⟨i, hi⟩
    rw [BitVec.getLsbD_and, Bool.and_eq_true, hright, decide_eq_true_eq] at hi
    rw [← hi.2]
    exact hi.1
  · intro hk
    exact ⟨k, by rw [BitVec.getLsbD_and, hk, hright]; simp⟩

/-- The bits of `S` that are still open are granted, the others stay as they are. -/
structure Progress.Decides (p q : Progress) (S : ℕ → Bool) : Prop where
  remaining : ∀ i, q.remaining.getLsbD i = (p.remaining.getLsbD i && !S i)
  granted : ∀ i, q.granted.getLsbD i = (p.granted.getLsbD i || (p.remaining.getLsbD i && S i))

namespace Progress

variable {p q r : Progress} {S T : ℕ → Bool}

theorem Decides.none (p : Progress) : p.Decides p fun _ => false := ⟨by simp, by simp⟩

theorem Decides.trans (h : p.Decides q S) (h' : q.Decides r T) : p.Decides r fun i => S i || T i where
  remaining i := by
    rw [h'.remaining, h.remaining]
    cases p.remaining.getLsbD i <;> cases S i <;> cases T i <;> rfl
  granted i := by
    rw [h'.granted, h.granted, h.remaining]
    cases p.granted.getLsbD i <;> cases p.remaining.getLsbD i <;> cases S i <;> cases T i <;> rfl

theorem decides_take (p : Progress) {right : AccessMask} {k : ℕ} (hright : ∀ i, right.getLsbD i = decide (i = k)) :
    p.Decides (p.take right) fun i => decide (i = k) := by
  unfold take
  split
  · rename_i h
    have hk := (and_ne_zero_iff hright).1 h
    refine ⟨fun i => by rw [getLsbD_andNot, hright], fun i => ?_⟩
    rw [BitVec.getLsbD_or, hright]
    by_cases hi : i = k
    · simp [hi, hk]
    · simp [hi]
  · rename_i h
    have hk : p.remaining.getLsbD k = false := by
      rw [← Bool.not_eq_true]
      exact fun hk => h ((and_ne_zero_iff hright).2 hk)
    refine ⟨fun i => ?_, fun i => ?_⟩
    all_goals
      by_cases hi : i = k
      · simp [hi, hk]
      · simp [hi]

theorem Decides.ite (h : p.Decides q S) {c : Bool} : p.Decides (if c then q else p) fun i => S i && c := by
  cases c with
  | true => simpa using h
  | false => simpa using Decides.none p

end Progress

def byPrivilege (token : Token) (i : ℕ) : Bool :=
  (decide (i = 24) && sepTokenHasPrivilege token.privileges seSecurityLuid) ||
  (decide (i = 19) && sepTokenHasPrivilege token.privileges seTakeOwnershipLuid)

def isOwner (sd : SecurityDescriptor) (token : Token) : Bool := sd.owner.isSome && sepIsTokenOwner token sd.owner

def byOwner (sd : SecurityDescriptor) (token : Token) (i : ℕ) : Bool :=
  (decide (i = 17) || decide (i = 18)) && isOwner sd token

theorem decides_takePrivileges (sd : SecurityDescriptor) (token : Token) (p : Progress) : p.Decides (takePrivileges sd token p) fun i =>
    (decide (i = 19) && sepTokenHasPrivilege token.privileges seTakeOwnershipLuid) || byOwner sd token i :=
  (p.decides_take fun _ => getLsbD_writeOwner).ite.trans
    ((Progress.decides_take _ fun _ => getLsbD_readControl).trans (Progress.decides_take _ fun _ => getLsbD_writeDac)).ite

def decided (sd : SecurityDescriptor) (token : Token) (i : ℕ) : Bool := byPrivilege token i || byOwner sd token i

/-- The check ends at once: the mandatory policy withholds a right, or the SACL is asked
for without the privilege. -/
def Refused (sd : SecurityDescriptor) (token : Token) (desired : AccessMask) : Prop :=
  sepMandatoryAccessCheck sd token desired = false ∨
  (desired.getLsbD 24 = true ∧ sepTokenHasPrivilege token.privileges seSecurityLuid = false)

theorem sepAccessCheck_of_refused (h : Refused sd token desired) :
    sepAccessCheck sd token desired previous genericMapping = (false, previous) := by
  unfold sepAccessCheck
  rcases h with h | ⟨hbit, hpriv⟩
  · simp [h]
  · have := (and_ne_zero_iff fun _ => getLsbD_accessSystemSecurity).2 hbit
    simp [this, hpriv]

theorem sepAccessCheck_eq (previous : AccessMask) (genericMapping : Option GenericMapping) (h : ¬ Refused sd token desired) : ∃ q, (Progress.mk desired previous).Decides q (decided sd token) ∧
    sepAccessCheck sd token desired previous genericMapping = checkDacl sd token desired genericMapping q := by
  unfold Refused at h
  push Not at h
  unfold sepAccessCheck
  rw [Bool.ne_false_iff.1 h.1]
  by_cases hbit : desired.getLsbD 24 = true
  · have hpriv := Bool.ne_false_iff.1 (h.2 hbit)
    have hask := (and_ne_zero_iff fun _ => getLsbD_accessSystemSecurity).2 hbit
    refine ⟨takePrivileges sd token ((Progress.mk desired previous).take accessSystemSecurity), ?_, by simp [hask, hpriv]⟩
    have := ((Progress.mk desired previous).decides_take fun _ => getLsbD_accessSystemSecurity).trans
      (decides_takePrivileges sd token _)
    have hset : decided sd token = fun i => decide (i = 24) ||
        ((decide (i = 19) && sepTokenHasPrivilege token.privileges seTakeOwnershipLuid) || byOwner sd token i) := by
      funext i
      simp only [decided, byPrivilege, hpriv, Bool.and_true, Bool.or_assoc]
    rwa [hset]
  · have hask : ¬ desired &&& accessSystemSecurity ≠ 0#32 :=
      fun hask => hbit ((and_ne_zero_iff fun _ => getLsbD_accessSystemSecurity).1 hask)
    refine ⟨takePrivileges sd token ⟨desired, previous⟩, ?_, by simp [not_not.1 hask]⟩
    have hd := decides_takePrivileges sd token ⟨desired, previous⟩
    rw [Bool.not_eq_true] at hbit
    refine ⟨fun i => ?_, fun i => ?_⟩
    · rw [hd.remaining]
      by_cases hi : i = 24
      · subst hi
        rw [hbit]
        rfl
      · simp [decided, byPrivilege, hi]
    · rw [hd.granted]
      by_cases hi : i = 24
      · subst hi
        rw [hbit]
        rfl
      · simp [decided, byPrivilege, hi]

def DaclAllows (sd : SecurityDescriptor) (token : Token) (genericMapping : Option GenericMapping) (useRestricted : Bool)
    (mask : AccessMask) : Prop :=
  ∀ dacl, sd.daclPtr = some dacl → ∀ i, mask.getLsbD i = true →
    verdict (daclRules token genericMapping useRestricted dacl.aces) i = some .allow

def UsesRestricted (sd : SecurityDescriptor) (token : Token) (mask : AccessMask) : Prop :=
  0 < token.restrictedSidCount ∧ mask ≠ 0#32 ∧ sd.daclPtr ≠ none

theorem restricted_eq : (token.isRestricted && decide (0 < token.restrictedSidCount)) = decide (0 < token.restrictedSidCount) := by
  unfold Token.isRestricted
  cases h : decide (0 < token.restrictedSidCount) <;> simp

theorem checkDacl_fst {p : Progress} : (checkDacl sd token desired genericMapping p).1 = true ↔
    DaclAllows sd token genericMapping false p.remaining ∧
      (UsesRestricted sd token p.remaining → DaclAllows sd token genericMapping true desired) := by
  unfold checkDacl DaclAllows UsesRestricted
  by_cases hrem : p.remaining = 0#32
  · simp [hrem]
  · rw [if_neg hrem]
    cases hdacl : sd.daclPtr with
    | none => simp
    | some dacl =>
      simp only [sepCheckDaclAccess_eq, restricted_eq]
      have hn := evaluate_fst (daclRules token genericMapping false dacl.aces) p.remaining p.granted
      have hr := evaluate_fst (daclRules token genericMapping true dacl.aces) desired 0#32
      cases h1 : (evaluate (daclRules token genericMapping false dacl.aces) p.remaining p.granted).1 with
      | false =>
        rw [h1] at hn
        simp [← hn]
      | true =>
        rw [h1] at hn
        by_cases hcount : 0 < token.restrictedSidCount
        · cases h2 : (evaluate (daclRules token genericMapping true dacl.aces) desired 0#32).1 <;> rw [h2] at hr <;>
            simp [← hn, ← hr, hcount, hrem]
        · simp [← hn, hcount]

theorem checkDacl_snd_of_fst {p : Progress} (h : (checkDacl sd token desired genericMapping p).1 = true) :
    (¬ UsesRestricted sd token p.remaining → (checkDacl sd token desired genericMapping p).2 = p.granted ||| p.remaining) ∧
    (UsesRestricted sd token p.remaining → (checkDacl sd token desired genericMapping p).2 = (p.granted ||| p.remaining) &&& desired) := by
  unfold checkDacl UsesRestricted at *
  by_cases hrem : p.remaining = 0#32
  · simp [hrem]
  · rw [if_neg hrem] at h ⊢
    cases hdacl : sd.daclPtr with
    | none => simp
    | some dacl =>
      rw [hdacl] at h
      simp only [sepCheckDaclAccess_eq, restricted_eq] at h ⊢
      cases h1 : (evaluate (daclRules token genericMapping false dacl.aces) p.remaining p.granted).1 with
      | false => simp [h1] at h
      | true =>
        have hn := evaluate_snd_of_fst h1
        by_cases hcount : 0 < token.restrictedSidCount
        · cases h2 : (evaluate (daclRules token genericMapping true dacl.aces) desired 0#32).1 with
          | false => simp [h1, h2, hcount] at h
          | true =>
            have hr := evaluate_snd_of_fst h2
            simp [hcount, hrem, hn, hr]
        · simp [hcount, hn]

theorem checkDacl_snd_of_not {p : Progress} (h : (checkDacl sd token desired genericMapping p).1 = false) :
    ∃ dacl, sd.daclPtr = some dacl ∧ p.remaining ≠ 0#32 ∧ (checkDacl sd token desired genericMapping p).2 =
      (evaluate (daclRules token genericMapping false dacl.aces) p.remaining p.granted).2 := by
  unfold checkDacl at *
  by_cases hrem : p.remaining = 0#32
  · simp [hrem] at h
  · rw [if_neg hrem] at h ⊢
    cases hdacl : sd.daclPtr with
    | none => simp [hdacl] at h
    | some dacl =>
      rw [hdacl] at h
      simp only [sepCheckDaclAccess_eq, restricted_eq] at h ⊢
      refine ⟨dacl, rfl, hrem, ?_⟩
      cases h1 : (evaluate (daclRules token genericMapping false dacl.aces) p.remaining p.granted).1 with
      | false => simp
      | true =>
        by_cases hcount : 0 < token.restrictedSidCount
        · cases h2 : (evaluate (daclRules token genericMapping true dacl.aces) desired 0#32).1 with
          | false => simp [hcount]
          | true => simp [h1, h2, hcount] at h
        · simp [h1, hcount] at h

/-- The bits that are asked for and not granted yet. -/
def openAccess (genericMapping : Option GenericMapping) (desired previous : AccessMask) : AccessMask :=
  mapMask genericMapping desired &&& ~~~previous

theorem seAccessCheck_eq {context : SecuritySubjectContext} (ht : seGetEffectiveToken context = some token) :
    seAccessCheck (some sd) (some context) desired previous genericMapping =
      if openAccess genericMapping desired previous = 0#32 then (true, previous)
      else sepAccessCheck sd token (openAccess genericMapping desired previous) previous genericMapping := by
  simp only [seAccessCheck, Option.bind_some, ht]
  rfl

end XenOS.Se
