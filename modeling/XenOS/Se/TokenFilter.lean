import Mathlib.Data.List.Forall2
import XenOS.Se.Restricted

/-! Filtered tokens: what `se_filter_token` makes of a token, and on which arguments the new
token has lost what it should lose. -/

namespace XenOS.Se

open General.MaskRules List
open BitVec (getLsbD_or)

def seAliasedAdminsSid : Sid := ⟨1, [0, 0, 0, 0, 0, 5], [32, 544]⟩

/-- The flag of a privilege in `sep_update_token_flags_from_privileges`, if it has one. -/
def privilegeFlag (p : LuidAndAttributes) (luid : Luid) (flag : BitVec 32) : BitVec 32 :=
  if p.attributes &&& sePrivilegeEnabled ≠ 0 ∧ p.luid.lowPart = luid.lowPart then flag else 0

def sepUpdateTokenFlagsFromPrivileges (privileges : List LuidAndAttributes) (tokenFlags : BitVec 32) : BitVec 32 :=
  privileges.foldl (fun flags p => flags ||| privilegeFlag p seChangeNotifyLuid tokenHasTraversePrivilege |||
    privilegeFlag p seBackupLuid tokenHasBackupPrivilege ||| privilegeFlag p seRestoreLuid tokenHasRestorePrivilege |||
    privilegeFlag p seImpersonateLuid tokenHasImpersonatePrivilege) tokenFlags

def sepUpdateTokenFlagsFromGroups (groups : List SidAndAttributes) (tokenFlags : BitVec 32) : BitVec 32 :=
  if groups.any fun g => g.attributes &&& seGroupEnabled ≠ 0 && rtlEqualSid g.sid (some seAliasedAdminsSid) then
    tokenFlags ||| tokenHasAdminGroup
  else tokenFlags

/-- `sep_create_token`; `pool` tells whether the allocation succeeds. The privileges are
the first `privilegeCount` of the array. -/
def sepCreateToken (user : Option Sid) (groups : List SidAndAttributes) (privileges : List LuidAndAttributes)
    (privilegeCount : ℕ) (owner primaryGroup : Option Sid) (defaultDacl : Option Acl) (integritySid : Option Sid)
    (pool : Bool) : Option Token :=
  if user.isNone || primaryGroup.isNone || !pool then none
  else
    let privileges := privileges.take privilegeCount
    some {
      tokenFlags := sepUpdateTokenFlagsFromGroups groups (sepUpdateTokenFlagsFromPrivileges privileges 0)
      userSid := user
      groups
      restrictedSidCount := 0
      restrictedSids := none
      privileges
      owner := owner.or user
      primaryGroup
      defaultDacl
      integrityLevelSid := integritySid
      integrityLevelIndex := integrityLevelOf integritySid
      integrity_cached := rfl }

def disableMaxPrivilege : BitVec 32 := 0x1#32

/-- The inner loop of `sep_count_remaining_privileges`. The array is declared with one
element, so that indexing a second one panics. -/
def isDeleted (p : LuidAndAttributes) : List LuidAndAttributes → Option Bool
  | [] => some false
  | [d] => some (p.luid = d.luid)
  | d :: _ => if p.luid = d.luid then some true else none

def countRemaining (toDelete : List LuidAndAttributes) : List LuidAndAttributes → Option ℕ
  | [] => some 0
  | p :: ps => (isDeleted p toDelete).bind fun deleted => (countRemaining toDelete ps).map fun n => if deleted then n else n + 1

def sepCountRemainingPrivileges (privileges : List LuidAndAttributes) (privilegesToDelete : Option (List LuidAndAttributes)) : Option ℕ :=
  match privilegesToDelete with
  | none => some privileges.length
  | some toDelete => countRemaining toDelete privileges

def sepCreateFilteredGroups (token : Token) (_sidsToDisable : Option (List SidAndAttributes)) : List SidAndAttributes :=
  token.groups

def sepCreateFilteredPrivileges (token : Token) (_privilegesToDelete : Option (List LuidAndAttributes)) :
    List LuidAndAttributes := token.privileges

/-- `sep_set_restricted_sids`: only the count is set. -/
def sepSetRestrictedSids (token : Token) (restrictedSids : List SidAndAttributes) : Token :=
  if restrictedSids.length = 0 then token else { token with restrictedSidCount := restrictedSids.length }

inductive FilterOutcome where
  | success (newToken : Token)
  | insufficientResources
  | panic

/-- `se_filter_token`, without the elevation and the link between the two tokens. -/
def seFilterToken (existingToken : Token) (flags : BitVec 32) (sidsToDisable : Option (List SidAndAttributes))
    (privilegesToDelete : Option (List LuidAndAttributes)) (restrictedSids : Option (List SidAndAttributes)) (pool : Bool) :
    FilterOutcome :=
  let privCount :=
    if flags &&& disableMaxPrivilege ≠ 0 then some 0
    else sepCountRemainingPrivileges existingToken.privileges privilegesToDelete
  match privCount with
  | none => .panic
  | some privCount =>
    let newGroups := sepCreateFilteredGroups existingToken sidsToDisable
    let newPrivs := if flags &&& disableMaxPrivilege ≠ 0 then [] else sepCreateFilteredPrivileges existingToken privilegesToDelete
    match sepCreateToken existingToken.userSid newGroups newPrivs privCount existingToken.owner existingToken.primaryGroup
      existingToken.defaultDacl existingToken.integrityLevelSid pool with
    | none => .insufficientResources
    | some token =>
      let token := match restrictedSids with
        | none => token
        | some restrictedSids => sepSetRestrictedSids token restrictedSids
      let tokenFlags := token.tokenFlags ||| tokenIsFiltered
      let tokenFlags := if flags &&& tokenSandboxInert ≠ 0 then tokenFlags ||| tokenSandboxInert else tokenFlags
      .success { token with tokenFlags }

def Kept (flags : BitVec 32) (privilegesToDelete : Option (List LuidAndAttributes)) (p : LuidAndAttributes) : Prop :=
  flags &&& disableMaxPrivilege = 0 ∧ ∀ d ∈ privilegesToDelete.getD [], p.luid ≠ d.luid

instance (flags : BitVec 32) (privilegesToDelete : Option (List LuidAndAttributes)) :
    DecidablePred (Kept flags privilegesToDelete) := fun _ => inferInstanceAs (Decidable (_ ∧ _))

def Named (sidsToDisable : Option (List SidAndAttributes)) (group : SidAndAttributes) : Prop :=
  ∃ s ∈ sidsToDisable.getD [], rtlEqualSid s.sid group.sid = true

def FlagAgrees (token : Token) (luid : Luid) (flag : BitVec 32) : Prop :=
  token.tokenFlags &&& flag ≠ 0#32 ↔ ∃ p ∈ token.privileges, p.attributes &&& sePrivilegeEnabled ≠ 0 ∧ p.luid.lowPart = luid.lowPart

structure FlagsAgree (token : Token) : Prop where
  traverse : FlagAgrees token seChangeNotifyLuid tokenHasTraversePrivilege
  backup : FlagAgrees token seBackupLuid tokenHasBackupPrivilege
  restore : FlagAgrees token seRestoreLuid tokenHasRestorePrivilege
  impersonate : FlagAgrees token seImpersonateLuid tokenHasImpersonatePrivilege
  admin : token.tokenFlags &&& tokenHasAdminGroup ≠ 0#32 ↔ ∃ g ∈ token.groups, Enabled g ∧ g.sid = some seAliasedAdminsSid

structure Weakened (source : Token) (flags : BitVec 32) (sidsToDisable : Option (List SidAndAttributes))
    (privilegesToDelete : Option (List LuidAndAttributes)) (restrictedSids : Option (List SidAndAttributes))
    (token : Token) : Prop where
  privileges : token.privileges = source.privileges.filter (Kept flags privilegesToDelete)
  groups : Forall₂ (fun g g' => g'.sid = g.sid ∧ (Named sidsToDisable g → DenyOnly g' ∧ ¬ Enabled g') ∧
    (¬ Named sidsToDisable g → g' = g)) source.groups token.groups
  restricted : (token.restrictedSids.getD []).map SidAndAttributes.sid = (restrictedSids.getD []).map SidAndAttributes.sid ∧
    token.restrictedSidCount = (restrictedSids.getD []).length
  flagsAgree : FlagsAgree token
  access : ∀ sd desired previous genericMapping, (checkToken sd token desired previous genericMapping).1 = true →
    (checkToken sd source desired previous genericMapping).1 = true

/-- The arguments that ask for nothing which the code leaves out. -/
structure AsksLittle (source : Token) (flags : BitVec 32) (sidsToDisable : Option (List SidAndAttributes))
    (privilegesToDelete : Option (List LuidAndAttributes)) (restrictedSids : Option (List SidAndAttributes)) : Prop where
  /-- The privileges to delete stand after the others. -/
  privileges : ∃ kept gone, source.privileges = kept ++ gone ∧ (∀ p ∈ kept, Kept flags privilegesToDelete p) ∧
    ∀ p ∈ gone, ¬ Kept flags privilegesToDelete p
  /-- The groups to disable are disabled. -/
  groups : ∀ g ∈ source.groups, Named sidsToDisable g → DenyOnly g ∧ ¬ Enabled g
  /-- No restricted SIDs are given. -/
  restricted : restrictedSids.getD [] = []
  /-- The source has none. -/
  source : source.restrictedSidCount = 0

variable {source token : Token} {flags : BitVec 32} {sidsToDisable restrictedSids : Option (List SidAndAttributes)}
  {privilegesToDelete : Option (List LuidAndAttributes)} {ps : List LuidAndAttributes} {pool : Bool}

theorem isDeleted_iff {p : LuidAndAttributes} {toDelete : List LuidAndAttributes} {b : Bool} (h : isDeleted p toDelete = some b) :
    b = true ↔ ∃ d ∈ toDelete, p.luid = d.luid := by
  match toDelete, h with
  | [], h =>
    obtain rfl := Option.some.inj h
    simp
  | [d], h =>
    obtain rfl := Option.some.inj h
    simp
  | d :: d' :: ds, h =>
    rw [isDeleted] at h
    split at h
    · rename_i heq
      obtain rfl := Option.some.inj h
      exact ⟨fun _ => ⟨d, mem_cons_self, heq⟩, fun _ => rfl⟩
    · cases h
    · simp

variable {n : ℕ}

theorem countRemaining_eq {toDelete : List LuidAndAttributes} (h : countRemaining toDelete ps = some n) :
    n = (ps.filter fun p => ∀ d ∈ toDelete, p.luid ≠ d.luid).length := by
  induction ps generalizing n with
  | nil =>
    obtain rfl := Option.some.inj h
    rfl
  | cons p ps ih =>
    rw [countRemaining, Option.bind_eq_some_iff] at h
    obtain ⟨deleted, hd, h⟩ := h
    rw [Option.map_eq_some_iff] at h
    obtain ⟨m, hm, rfl⟩ := h
    have hdel := isDeleted_iff hd
    rw [filter_cons]
    cases deleted with
    | true =>
      obtain ⟨d, hmem, heq⟩ := hdel.1 rfl
      have : ¬ ∀ d ∈ toDelete, p.luid ≠ d.luid := fun hall => hall d hmem heq
      simp [this, ih hm]
    | false =>
      have : ∀ d ∈ toDelete, p.luid ≠ d.luid := fun d hmem heq => absurd (hdel.2 ⟨d, hmem, heq⟩) (by simp)
      rw [if_neg Bool.false_ne_true, if_pos (decide_eq_true this), length_cons, ih hm]

/-- A prefix as long as the kept elements is these elements exactly if they come first. -/
theorem take_eq_filter_iff {α : Type*} {keep : α → Prop} [DecidablePred keep] {l : List α} :
    l.take (l.filter keep).length = l.filter keep ↔
      ∃ kept gone, l = kept ++ gone ∧ (∀ a ∈ kept, keep a) ∧ ∀ a ∈ gone, ¬ keep a := by
  constructor
  · intro h
    refine ⟨l.take (l.filter keep).length, l.drop (l.filter keep).length, (take_append_drop _ l).symm, ?_, ?_⟩
    · intro a ha
      rw [h, mem_filter, decide_eq_true_eq] at ha
      exact ha.2
    · have hsplit : l.filter keep = (l.take (l.filter keep).length).filter keep ++ (l.drop (l.filter keep).length).filter keep := by
        rw [← filter_append, take_append_drop]
      have hfirst : (l.take (l.filter keep).length).filter keep = l.filter keep := by
        rw [h, filter_filter]
        simp
      rw [hfirst] at hsplit
      have hgone := filter_eq_nil_iff.1 (self_eq_append_right.1 hsplit)
      intro a ha hkeep
      exact hgone a ha (decide_eq_true hkeep)
  · rintro ⟨kept, gone, rfl, hkept, hgone⟩
    have hk : kept.filter keep = kept := filter_eq_self.2 fun a ha => decide_eq_true (hkept a ha)
    have hg : gone.filter keep = [] := filter_eq_nil_iff.2 fun a ha h => hgone a ha (of_decide_eq_true h)
    rw [filter_append, hk, hg, append_nil, take_left]

def privilegeWord (p : LuidAndAttributes) : BitVec 32 :=
  privilegeFlag p seChangeNotifyLuid tokenHasTraversePrivilege ||| privilegeFlag p seBackupLuid tokenHasBackupPrivilege |||
    privilegeFlag p seRestoreLuid tokenHasRestorePrivilege ||| privilegeFlag p seImpersonateLuid tokenHasImpersonatePrivilege

variable {k : ℕ}

theorem getLsbD_updatePrivileges {f : BitVec 32} : (sepUpdateTokenFlagsFromPrivileges ps f).getLsbD k =
    (f.getLsbD k || ps.any fun p => (privilegeWord p).getLsbD k) := by
  unfold sepUpdateTokenFlagsFromPrivileges
  induction ps generalizing f with
  | nil => simp
  | cons p ps ih =>
    rw [foldl_cons, ih, any_cons, privilegeWord]
    simp only [getLsbD_or, Bool.or_assoc]

theorem getLsbD_updateGroups {groups : List SidAndAttributes} {f : BitVec 32} :
    (sepUpdateTokenFlagsFromGroups groups f).getLsbD k = (f.getLsbD k || (decide (k = 3) &&
      groups.any fun g => g.attributes &&& seGroupEnabled ≠ 0 && rtlEqualSid g.sid (some seAliasedAdminsSid))) := by
  have hadmin : tokenHasAdminGroup.getLsbD k = decide (k = 3) := getLsbD_oneBit (by omega) rfl
  unfold sepUpdateTokenFlagsFromGroups
  split
  · rename_i h
    rw [getLsbD_or, hadmin, h, Bool.and_true]
  · rename_i h
    rw [Bool.not_eq_true] at h
    rw [h, Bool.and_false, Bool.or_false]

variable {luid : Luid}

theorem getLsbD_privilegeFlag {p : LuidAndAttributes} {flag : BitVec 32} :
    (privilegeFlag p luid flag).getLsbD k =
      (decide (p.attributes &&& sePrivilegeEnabled ≠ 0 ∧ p.luid.lowPart = luid.lowPart) && flag.getLsbD k) := by
  unfold privilegeFlag
  split
  · rename_i h
    rw [decide_eq_true h, Bool.true_and]
  · rename_i h
    rw [decide_eq_false h, Bool.false_and]
    exact BitVec.getLsbD_zero

theorem getLsbD_privilegeWord {p : LuidAndAttributes} : (privilegeWord p).getLsbD k =
    decide (p.attributes &&& sePrivilegeEnabled ≠ 0 ∧ (p.luid.lowPart = seChangeNotifyLuid.lowPart ∧ k = 0 ∨
      p.luid.lowPart = seBackupLuid.lowPart ∧ k = 1 ∨ p.luid.lowPart = seRestoreLuid.lowPart ∧ k = 2 ∨
      p.luid.lowPart = seImpersonateLuid.lowPart ∧ k = 7)) := by
  have htraverse : tokenHasTraversePrivilege.getLsbD k = decide (k = 0) := getLsbD_oneBit (by omega) rfl
  have hbackup : tokenHasBackupPrivilege.getLsbD k = decide (k = 1) := getLsbD_oneBit (by omega) rfl
  have hrestore : tokenHasRestorePrivilege.getLsbD k = decide (k = 2) := getLsbD_oneBit (by omega) rfl
  have himpersonate : tokenHasImpersonatePrivilege.getLsbD k = decide (k = 7) := getLsbD_oneBit (by omega) rfl
  simp only [privilegeWord, getLsbD_or, getLsbD_privilegeFlag, htraverse, hbackup, hrestore, himpersonate]
  simp only [← Bool.decide_and, ← Bool.decide_or, and_or_left, and_assoc, or_assoc]

structure FilteredFrom (source : Token) (flags : BitVec 32) (privilegesToDelete restrictedCount) (token : Token) : Prop where
  userSid : token.userSid = source.userSid ∧ source.userSid.isSome = true
  groups : token.groups = source.groups
  privileges : token.privileges = source.privileges.take (source.privileges.filter (Kept flags privilegesToDelete)).length
  owner : token.owner = source.owner.or source.userSid
  restricted : token.restrictedSids = none ∧ token.restrictedSidCount = restrictedCount
  integrity : token.integrityLevelIndex = source.integrityLevelIndex
  tokenFlags : ∀ k, k ≠ 6 → k ≠ 11 → token.tokenFlags.getLsbD k =
    (sepUpdateTokenFlagsFromGroups token.groups (sepUpdateTokenFlagsFromPrivileges token.privileges 0)).getLsbD k

theorem sepCreateToken_eq {user owner primaryGroup : Option Sid} {groups : List SidAndAttributes}
    {defaultDacl : Option Acl} {integritySid : Option Sid}
    (h : sepCreateToken user groups ps n owner primaryGroup defaultDacl integritySid pool = some token) :
    user.isSome = true ∧ token.userSid = user ∧ token.groups = groups ∧ token.privileges = ps.take n ∧
    token.owner = owner.or user ∧ token.restrictedSids = none ∧ token.restrictedSidCount = 0 ∧
    token.integrityLevelIndex = integrityLevelOf integritySid ∧
    token.tokenFlags = sepUpdateTokenFlagsFromGroups groups (sepUpdateTokenFlagsFromPrivileges (ps.take n) 0) := by
  unfold sepCreateToken at h
  split at h
  · cases h
  · rename_i hc
    obtain rfl := Option.some.inj h
    refine ⟨?_, rfl, rfl, rfl, rfl, rfl, rfl, rfl, rfl⟩
    cases user with
    | none => simp at hc
    | some user => rfl

theorem setRestrictedSids_eq {t : Token} (h : t.restrictedSidCount = 0) :
    (match restrictedSids with
      | none => t
      | some restrictedSids => sepSetRestrictedSids t restrictedSids) =
    { t with restrictedSidCount := (restrictedSids.getD []).length } := by
  have h0 : t = { t with restrictedSidCount := 0 } := by rw [← h]
  cases restrictedSids with
  | none => exact h0
  | some restricted =>
    show sepSetRestrictedSids t restricted = { t with restrictedSidCount := restricted.length }
    unfold sepSetRestrictedSids
    split
    · rename_i hlen
      rw [hlen]
      exact h0
    · rfl

theorem seFilterToken_success
    (h : seFilterToken source flags sidsToDisable privilegesToDelete restrictedSids pool = .success token) :
    FilteredFrom source flags privilegesToDelete (restrictedSids.getD []).length token := by
  unfold seFilterToken at h
  dsimp only at h
  split at h
  · cases h
  rename_i n hn
  split at h
  · cases h
  rename_i t ht
  obtain ⟨huser, h1, h2, h3, h4, h5, h6, h7, h8⟩ := sepCreateToken_eq ht
  have hprivs : (if flags &&& disableMaxPrivilege ≠ 0 then [] else sepCreateFilteredPrivileges source privilegesToDelete).take n =
      source.privileges.take (source.privileges.filter (Kept flags privilegesToDelete)).length := by
    by_cases hmax : flags &&& disableMaxPrivilege = 0
    · rw [if_neg (not_not_intro hmax)] at hn ⊢
      have hlen : n = (source.privileges.filter (Kept flags privilegesToDelete)).length := by
        cases privilegesToDelete with
        | none =>
          obtain rfl := Option.some.inj hn
          rw [filter_eq_self.2]
          intro p _
          exact decide_eq_true ⟨hmax, fun d hd => absurd hd not_mem_nil⟩
        | some toDelete =>
          rw [countRemaining_eq hn]
          congr 2
          funext p
          simp [Kept, hmax]
      rw [hlen]
      rfl
    · have hnone : source.privileges.filter (Kept flags privilegesToDelete) = [] := by
        rw [filter_eq_nil_iff]
        intro p _ hk
        exact hmax (of_decide_eq_true hk).1
      rw [if_pos hmax, hnone]
      simp
  have hsource := source.integrity_cached
  have hbits : ∀ (f : BitVec 32) k, k ≠ 6 → k ≠ 11 →
      (if flags &&& tokenSandboxInert ≠ 0 then f ||| tokenIsFiltered ||| tokenSandboxInert else f ||| tokenIsFiltered).getLsbD k =
        f.getLsbD k := by
    intro f k hk6 hk11
    have hf : tokenIsFiltered.getLsbD k = false := (getLsbD_oneBit (by omega) rfl).trans (decide_eq_false hk11)
    have hs : tokenSandboxInert.getLsbD k = false := (getLsbD_oneBit (by omega) rfl).trans (decide_eq_false hk6)
    split <;> simp only [getLsbD_or, hf, hs, Bool.or_false]
  rw [setRestrictedSids_eq h6] at h
  obtain rfl := FilterOutcome.success.inj h
  refine ⟨⟨h1, huser⟩, h2, h3.trans hprivs, h4, ⟨h5, rfl⟩, h7.trans hsource.symm, fun k hk6 hk11 => ?_⟩
  show BitVec.getLsbD (if _ then _ else _) k = (sepUpdateTokenFlagsFromGroups t.groups
    (sepUpdateTokenFlagsFromPrivileges t.privileges 0)).getLsbD k
  rw [hbits _ k hk6 hk11, h8, h2, h3]

theorem FilteredFrom.flagAgrees (h : FilteredFrom source flags privilegesToDelete n token)
    {flag : BitVec 32} (hflag : ∀ i, flag.getLsbD i = decide (i = k)) (hk : k ≠ 3 ∧ k ≠ 6 ∧ k ≠ 11)
    (hword : ∀ p, (privilegeWord p).getLsbD k = decide (p.attributes &&& sePrivilegeEnabled ≠ 0 ∧ p.luid.lowPart = luid.lowPart)) :
    FlagAgrees token luid flag := by
  unfold FlagAgrees
  rw [and_ne_zero_iff hflag, h.tokenFlags k hk.2.1 hk.2.2, getLsbD_updateGroups, getLsbD_updatePrivileges, decide_eq_false hk.1]
  simp [hword]

theorem FilteredFrom.flagsAgree (h : FilteredFrom source flags privilegesToDelete n token) :
    FlagsAgree token where
  traverse := h.flagAgrees (k := 0) (fun _ => getLsbD_oneBit (by omega) rfl) (by omega) fun p => by
    simp [getLsbD_privilegeWord, -BitVec.getLsbD_eq_getElem]
  backup := h.flagAgrees (k := 1) (fun _ => getLsbD_oneBit (by omega) rfl) (by omega) fun p => by
    simp [getLsbD_privilegeWord, -BitVec.getLsbD_eq_getElem]
  restore := h.flagAgrees (k := 2) (fun _ => getLsbD_oneBit (by omega) rfl) (by omega) fun p => by
    simp [getLsbD_privilegeWord, -BitVec.getLsbD_eq_getElem]
  impersonate := h.flagAgrees (k := 7) (fun _ => getLsbD_oneBit (by omega) rfl) (by omega) fun p => by
    simp [getLsbD_privilegeWord, -BitVec.getLsbD_eq_getElem]
  admin := by
    have hprivs : (sepUpdateTokenFlagsFromPrivileges token.privileges 0).getLsbD 3 = false := by
      rw [getLsbD_updatePrivileges]
      simp [getLsbD_privilegeWord, -BitVec.getLsbD_eq_getElem]
    have hadmin : ∀ i, tokenHasAdminGroup.getLsbD i = decide (i = 3) := fun _ => getLsbD_oneBit (by omega) rfl
    rw [and_ne_zero_iff hadmin, h.tokenFlags 3 (by omega) (by omega), getLsbD_updateGroups, hprivs]
    simp [Enabled, rtlEqualSid_some]

variable {sd : SecurityDescriptor} {genericMapping : Option GenericMapping} {d : AccessMask}

theorem Succeeds.of_weaker (hs : Succeeds sd token genericMapping d) (huser : token.userSid = source.userSid)
    (hgroups : token.groups = source.groups) (howner : isOwner sd token = isOwner sd source)
    (hprivileges : ∀ luid, sepTokenHasPrivilege token.privileges luid = true → sepTokenHasPrivilege source.privileges luid = true)
    (hintegrity : token.integrityLevelIndex = source.integrityLevelIndex) (hsource : source.restrictedSidCount = 0) :
    Succeeds sd source genericMapping d := by
  have hrules : daclRules token genericMapping false = daclRules source genericMapping false := by
    funext aces
    unfold daclRules
    congr 1
    funext ace
    simp only [aceRule, sepSidMatchesTokenEx, Bool.false_eq_true, if_false, huser, hgroups]
  have hdecided : ∀ i, decided sd token i = true → decided sd source i = true := by
    intro i
    unfold decided byPrivilege byOwner
    rw [howner]
    simp only [Bool.or_eq_true, Bool.and_eq_true, decide_eq_true_eq]
    rintro ((⟨hi, hp⟩ | ⟨hi, hp⟩) | h)
    · exact Or.inl (Or.inl ⟨hi, hprivileges _ hp⟩)
    · exact Or.inl (Or.inr ⟨hi, hprivileges _ hp⟩)
    · exact Or.inr h
  rcases hs with hs | ⟨href, hallows, -⟩
  · exact Or.inl hs
  refine Or.inr ⟨?_, fun dacl hdacl i hi => ?_, fun hr => ?_⟩
  · rintro (h | ⟨hbit, hpriv⟩)
    · refine href (Or.inl ?_)
      simpa only [sepMandatoryAccessCheck, hintegrity] using h
    · refine href (Or.inr ⟨hbit, ?_⟩)
      rw [← Bool.not_eq_true]
      intro hp
      rw [hprivileges _ hp] at hpriv
      cases hpriv
  · rw [← hrules]
    refine hallows dacl hdacl i ?_
    rw [leftForDacl, getLsbD_andNot, getLsbD_decidedMask, Bool.and_eq_true, Bool.not_eq_true'] at hi ⊢
    refine ⟨hi.1, ?_⟩
    rw [← Bool.not_eq_true]
    intro h
    rw [hdecided i h] at hi
    cases hi.2
  · exact absurd hr.1 (by rw [hsource]; exact Nat.lt_irrefl 0)

theorem sepTokenHasPrivilege_of_take (h : sepTokenHasPrivilege (ps.take n) luid = true) :
    sepTokenHasPrivilege ps luid = true := by
  unfold sepTokenHasPrivilege at *
  cases hf : (ps.take n).find? fun p => p.luid = luid with
  | none => simp [hf] at h
  | some p =>
    have : ps.find? (fun p => p.luid = luid) = some p := by
      rw [← take_append_drop n ps, find?_append, hf]
      rfl
    rw [this]
    rwa [hf] at h

theorem FilteredFrom.isOwner_eq (h : FilteredFrom source flags privilegesToDelete n token) :
    isOwner sd token = isOwner sd source := by
  simp only [isOwner, sepIsTokenOwner, h.userSid.1, h.owner]
  cases source.owner <;> simp [rtlEqualSid]

theorem FilteredFrom.access (h : FilteredFrom source flags privilegesToDelete n token)
    (hsource : source.restrictedSidCount = 0) {desired previous : AccessMask}
    (hcheck : (checkToken sd token desired previous genericMapping).1 = true) :
    (checkToken sd source desired previous genericMapping).1 = true := by
  refine (checkToken_fst rfl).2 (((checkToken_fst rfl).1 hcheck).of_weaker h.userSid.1 h.groups h.isOwner_eq ?_ h.integrity hsource)
  intro luid hp
  rw [h.privileges] at hp
  exact sepTokenHasPrivilege_of_take hp

def ownedDescriptor (user : Sid) : SecurityDescriptor :=
  ⟨seDaclPresent, some user, none, none, some ⟨[⟨accessAllowedAceType, 0, 1#32, user⟩]⟩⟩

theorem succeeds_owned {user : Sid} (huser : token.userSid = some user) :
    Succeeds (ownedDescriptor user) token none 0x20001#32 ↔ token.restrictedSidCount = 0 := by
  have hmatch : sepSidMatchesTokenEx token (some user) false = true := sepSidMatchesTokenEx_iff.2 (Or.inl huser)
  have howner : isOwner (ownedDescriptor user) token = true := by
    simp [isOwner, ownedDescriptor, sepIsTokenOwner, huser, rtlEqualSid]
  have hleft : ∀ i, (leftForDacl (ownedDescriptor user) token 0x20001#32).getLsbD i = decide (i = 0) := by
    intro i
    have hd : (0x20001#32).getLsbD i = (decide (i = 17) || decide (i = 0)) := by
      rw [show (0x20001#32) = BitVec.twoPow 32 17 ||| BitVec.twoPow 32 0 from rfl, getLsbD_or,
        getLsbD_oneBit (k := 17) (by omega) rfl, getLsbD_oneBit (k := 0) (by omega) rfl]
    rw [leftForDacl, getLsbD_andNot, getLsbD_decidedMask, hd, decided, byOwner, howner, byPrivilege]
    by_cases h0 : i = 0
    · simp [h0]
    · by_cases h17 : i = 17 <;> simp [h0, h17]
  have hne : leftForDacl (ownedDescriptor user) token 0x20001#32 ≠ 0#32 := ne_zero_iff.2 ⟨0, by rw [hleft]; rfl⟩
  have hdacl : (ownedDescriptor user).daclPtr = some ⟨[⟨accessAllowedAceType, 0, 1#32, user⟩]⟩ := by
    simp [SecurityDescriptor.daclPtr, ownedDescriptor, seDaclPresent]
  have href : ¬ Refused (ownedDescriptor user) token 0x20001#32 := by
    rintro (h | h)
    · unfold sepMandatoryAccessCheck at h
      simp [sepGetObjectIntegrity, SecurityDescriptor.saclPtr, ownedDescriptor, seDaclPresent, seSaclPresent,
        systemMandatoryLabelNoWriteUp, systemMandatoryLabelNoReadUp, systemMandatoryLabelNoExecuteUp, writeOperations,
        writeDac, writeOwner, delete] at h
    · exact absurd h.1 (by decide)
  constructor
  · rintro (h | ⟨-, -, h⟩)
    · exact absurd h (by decide)
    · by_contra hcount
      have := h ⟨Nat.pos_of_ne_zero hcount, hne, by rw [hdacl]; simp⟩ _ hdacl 17 (by decide)
      revert this
      simp only [daclRules, filterMap_cons, filterMap_nil]
      cases hr : aceRule token none true ⟨accessAllowedAceType, 0, 1#32, user⟩ with
      | none => simp [verdict]
      | some r =>
        have hmask : r.mask = 1#32 := by
          unfold aceRule at hr
          split at hr
          · cases hr
          · obtain rfl := Option.some.inj hr
            rfl
        simp [verdict, hmask]
  · intro hcount
    refine Or.inr ⟨href, fun dacl hdacl' i hi => ?_, fun h => ?_⟩
    · rw [hdacl] at hdacl'
      obtain rfl := Option.some.inj hdacl'
      rw [hleft, decide_eq_true_eq] at hi
      subst hi
      have hrule : aceRule token none false ⟨accessAllowedAceType, 0, 1#32, user⟩ = some ⟨.allow, 1#32⟩ := by
        have hsid : aceGetSid ⟨accessAllowedAceType, 0, 1#32, user⟩ = some user := rfl
        simp only [aceRule, hsid, hmatch]
        rfl
      simp only [daclRules, filterMap_cons, filterMap_nil, hrule]
      rfl
    · exact absurd h.1 (by rw [hcount]; exact Nat.lt_irrefl 0)

/-- A filtered token has lost what it should lose and gained nothing exactly if the
arguments ask for nothing that the code leaves out. -/
theorem weakened_iff
    (h : seFilterToken source flags sidsToDisable privilegesToDelete restrictedSids pool = .success token) :
    Weakened source flags sidsToDisable privilegesToDelete restrictedSids token ↔
      AsksLittle source flags sidsToDisable privilegesToDelete restrictedSids := by
  have hf := seFilterToken_success h
  constructor
  · rintro ⟨hp, hg, ⟨hr, -⟩, -, ha⟩
    have hrestricted : restrictedSids.getD [] = [] := by
      rw [hf.restricted.1] at hr
      exact map_eq_nil_iff.1 hr.symm
    refine ⟨?_, fun g hmem hn => ?_, hrestricted, ?_⟩
    · rw [hf.privileges] at hp
      exact take_eq_filter_iff.1 hp
    · rw [hf.groups, forall₂_same] at hg
      exact (hg g hmem).2.1 hn
    · obtain ⟨user, huser⟩ := Option.isSome_iff_exists.1 hf.userSid.2
      have hcount : token.restrictedSidCount = 0 := by
        rw [hf.restricted.2, hrestricted]
        rfl
      have hcheck := ha (ownedDescriptor user) 0x20001#32 0#32 none
        ((checkToken_fst rfl).2 ((succeeds_owned (hf.userSid.1.trans huser)).2 hcount))
      exact (succeeds_owned huser).1 ((checkToken_fst rfl).1 hcheck)
  · rintro ⟨hp, hg, hr, hs⟩
    refine ⟨hf.privileges.trans (take_eq_filter_iff.2 hp), ?_, ?_, hf.flagsAgree, fun _ _ _ _ hc => hf.access hs hc⟩
    · rw [hf.groups, forall₂_same]
      exact fun g hmem => ⟨rfl, hg g hmem, fun _ => rfl⟩
    · rw [hf.restricted.1, hf.restricted.2, hr]
      exact ⟨rfl, rfl⟩

/-- The user with the traverse and the backup privilege. -/
def operatorToken : Token :=
  { userToken with privileges := [⟨seChangeNotifyLuid, sePrivilegeEnabled⟩, ⟨seBackupLuid, sePrivilegeEnabled⟩] }

/-- The last privilege is deleted. -/
theorem weakened_last : ∃ token, seFilterToken operatorToken 0 none (some [⟨seBackupLuid, 0⟩]) none true = .success token ∧
    Weakened operatorToken 0 none (some [⟨seBackupLuid, 0⟩]) none token := by
  have hsuccess : seFilterToken operatorToken 0 none (some [⟨seBackupLuid, 0⟩]) none true = .success _ := rfl
  refine ⟨_, hsuccess, (weakened_iff hsuccess).2 ⟨⟨[⟨seChangeNotifyLuid, sePrivilegeEnabled⟩], [⟨seBackupLuid, sePrivilegeEnabled⟩], rfl,
    fun p hp => ?_, fun p hp => ?_⟩, fun g _ hn => ?_, rfl, rfl⟩⟩
  · rw [mem_singleton.1 hp]
    decide
  · rw [mem_singleton.1 hp]
    decide
  · obtain ⟨s, hs, -⟩ := hn
    cases hs

/-- Deleting the first privilege takes away the second instead. -/
theorem first_not_weakened : ∃ token, seFilterToken operatorToken 0 none (some [⟨seChangeNotifyLuid, 0⟩]) none true = .success token ∧
    ¬ Weakened operatorToken 0 none (some [⟨seChangeNotifyLuid, 0⟩]) none token :=
  ⟨_, rfl, fun h => absurd h.privileges (by decide)⟩

end XenOS.Se
