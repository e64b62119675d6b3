import XenOS.General.Updates
import XenOS.Mm.Protection
import Mathlib.Tactic.IntervalCases

/-! What the hardware permits against what the owner of a page asked for. The fault path gives the
right bits to three of the eight protections, `NtProtectVirtualMemory` to none over a present page.
-/

namespace XenOS.Mm

open General Function

def permissionBits : Pte := pteReadwrite ||| pteNx ||| pteUser

/-- A valid entry is writable only if its base protection allows writes (after the copy, if
write-copy), executable for the execute kinds, open to user mode unless it is no access. -/
def Permits (pte : Pte) (base : BitVec 32) (copied : Bool) : Prop :=
  (pte &&& pteReadwrite ≠ 0 → base ∈ [pageReadwrite, pageExecuteReadwrite] ∨
      base ∈ [pageWritecopy, pageExecuteWritecopy] ∧ copied) ∧
    (pte &&& pteNx = 0 ↔ base ∈ [pageExecute, pageExecuteRead, pageExecuteReadwrite, pageExecuteWritecopy]) ∧
    (pte &&& pteUser ≠ 0 ↔ base ≠ pageNoaccess)

instance (pte : Pte) (base : BitVec 32) (copied : Bool) : Decidable (Permits pte base copied) :=
  inferInstanceAs (Decidable (_ ∧ _))

theorem permits_congr {pte pte' : Pte} (h : pte &&& permissionBits = pte' &&& permissionBits) (base : BitVec 32)
    (copied : Bool) : Permits pte base copied ↔ Permits pte' base copied := by
  have hbit : ∀ mask : Pte, permissionBits &&& mask = mask → pte &&& mask = pte' &&& mask := by
    intro mask hm
    rw [← hm, ← BitVec.and_assoc, h, BitVec.and_assoc]
  rw [Permits, Permits, hbit pteReadwrite (by decide), hbit pteNx (by decide), hbit pteUser (by decide)]

namespace Page

def PermissionsMatch (page : Page) : Prop := Permits page.pte (baseProtect page.protect) page.copied

/-- A present page has the permission bits that `NtProtectVirtualMemory` stores over a present page.
-/
def PathsAgree (page : Page) : Prop :=
  page.reprotected → ¬ page.copied →
    page.pte &&& permissionBits = protectPte (miConvertProtection page.protect) page.pte &&& permissionBits

instance (page : Page) : Decidable page.PermissionsMatch := inferInstanceAs (Decidable (Permits _ _ _))

end Page

def PrivatePages.HardwareMatches (s : PrivatePages) : Prop :=
  ∀ e, (s e).pte &&& pteValid ≠ 0 → (s e).PermissionsMatch ∧ (s e).PathsAgree

def FaultsRight (protect : BitVec 32) : Prop :=
  baseProtect protect ∈ [pageReadonly, pageExecuteReadwrite, pageExecuteWritecopy]

/-- No protection change meets a present page, and only pages protected by their commit that fault
right are brought in. -/
def PrivatePages.Harmless (s : PrivatePages) : ProtectionOp → Prop
  | .allocate .. => True
  | .protect requestedBase requestedSize newProtect admitted =>
    (ProtectionOp.protect requestedBase requestedSize newProtect admitted).Reaches →
      ∀ e ∈ protectedEntries requestedBase requestedSize, (s e).pte &&& pteValid = 0
  | .access va _ committed frame =>
    let page := s (mmGetPteAddress va)
    page.pte &&& pteValid = 0 → page.pte ≠ 0 → committed → frame.isSome →
      page.reprotected = false ∧ FaultsRight page.protect

theorem miConvertProtection_access (protect : BitVec 32) :
    miConvertProtection protect &&& 7#32 = mmBaseProtection (baseProtect protect) &&& 7#32 := by
  have hor : ∀ x m : BitVec 32, m &&& 7#32 = 0#32 → (x ||| m) &&& 7#32 = x &&& 7#32 := by
    intro x m hm
    rw [BitVec.and_or_distrib_right, hm, BitVec.or_zero]
  unfold miConvertProtection
  dsimp only
  split_ifs <;> simp only [hor _ mmGuardpage (by decide), hor _ mmNocache (by decide), hor _ mmWritecombine (by decide)]

theorem miSoftwareProtectionToPte_congr {p q : BitVec 32} (h : p &&& 7#32 = q &&& 7#32) :
    miSoftwareProtectionToPte p = miSoftwareProtectionToPte q := by
  have h4 : p &&& 4#32 = q &&& 4#32 := by
    rw [show (4#32) = 7#32 &&& 4#32 by decide, ← BitVec.and_assoc, h, BitVec.and_assoc]
  unfold miSoftwareProtectionToPte
  rw [h, h4]

theorem softwareProtection_miMakeDemandZeroPte (protection : BitVec 32) :
    softwareProtection (miMakeDemandZeroPte protection) &&& 7#32 = protection &&& 7#32 := by
  apply BitVec.eq_of_getLsbD_eq
  intro i hi
  have h7 : (7#32).getLsbD i = decide (i < 3) := by
    rw [show (7#32) = BitVec.ofNat 32 (2 ^ 3 - 1) from rfl, BitVec.getLsbD_ofNat, Nat.testBit_two_pow_sub_one]
    simp [hi]
  by_cases h3 : i < 3
  · interval_cases i <;> simp [softwareProtection, miMakeDemandZeroPte, PteState.demandZero]
  · simp [h7, h3]

def faultedBits (base : BitVec 32) : Pte := miSoftwareProtectionToPte (mmBaseProtection base) ||| pteValid

def faultedPte (pfn : BitVec 40) (protect : BitVec 32) : Pte :=
  validPte pfn.toNat (softwareProtection (miMakeDemandZeroPte (miConvertProtection protect)))

theorem faultedPte_and (pfn : BitVec 40) (protect : BitVec 32) {mask : Pte} (hm : mask &&& frameless = mask) :
    faultedPte pfn protect &&& mask = faultedBits (baseProtect protect) &&& mask := by
  have hcode := (softwareProtection_miMakeDemandZeroPte (miConvertProtection protect)).trans
    (miConvertProtection_access protect)
  rw [faultedPte, validPte, BitVec.or_assoc, pfnBits_or_and_frameless pfn.isLt _ hm,
    miSoftwareProtectionToPte_congr hcode, faultedBits]

theorem isValidProtection_iff {protect : BitVec 32} : isValidProtection protect ↔
    baseProtect protect = pageNoaccess ∨ baseProtect protect = pageReadonly ∨ baseProtect protect = pageReadwrite ∨
      baseProtect protect = pageWritecopy ∨ baseProtect protect = pageExecute ∨ baseProtect protect = pageExecuteRead ∨
      baseProtect protect = pageExecuteReadwrite ∨ baseProtect protect = pageExecuteWritecopy := by
  simp only [isValidProtection, List.mem_cons, List.not_mem_nil, or_false]

theorem permits_faultedPte {protect : BitVec 32} (hp : isValidProtection protect) (pfn : BitVec 40) :
    Permits (faultedPte pfn protect) (baseProtect protect) false ↔ FaultsRight protect := by
  rw [permits_congr (faultedPte_and pfn protect (by decide)), FaultsRight]
  rcases isValidProtection_iff.1 hp with h | h | h | h | h | h | h | h
  all_goals rw [h]; decide

theorem base_of_faultedPte_writecopy {protect : BitVec 32} (hp : isValidProtection protect) (hf : FaultsRight protect)
    {pfn : BitVec 40} (hw : faultedPte pfn protect &&& pteWritecopy ≠ 0) :
    baseProtect protect = pageExecuteWritecopy := by
  rw [faultedPte_and pfn protect (by decide)] at hw
  rw [FaultsRight] at hf
  rcases isValidProtection_iff.1 hp with h | h | h | h | h | h | h | h
  all_goals
    rw [h] at hw hf
    first
      | exact h
      | exact absurd hf (by decide)
      | exact absurd hw (by decide)

theorem faultedPte_valid (pfn : BitVec 40) (protect : BitVec 32) : faultedPte pfn protect &&& pteValid ≠ 0 := by
  rw [faultedPte, validPte_and_valid]
  decide

theorem miProtectionToPteMask_user (mmProtect : BitVec 32) : (miProtectionToPteMask mmProtect ||| pteValid) &&& pteUser = 0 := by
  unfold miProtectionToPteMask
  dsimp only
  split_ifs <;> decide

theorem protectPte_of_valid {pte : Pte} (hv : pte &&& pteValid ≠ 0) (mmProtect : BitVec 32) :
    protectPte mmProtect pte = pfnBits (ptePfn pte) ||| (miProtectionToPteMask mmProtect ||| pteValid) := by
  rw [protectPte, if_pos hv, BitVec.or_assoc]

theorem protectPte_user {pte : Pte} (hv : pte &&& pteValid ≠ 0) (mmProtect : BitVec 32) :
    protectPte mmProtect pte &&& pteUser = 0 := by
  rw [protectPte_of_valid hv, pfnBits_or_and_frameless (ptePfn_lt pte) _ (by decide), miProtectionToPteMask_user]

theorem protectPte_valid {pte : Pte} (hv : pte &&& pteValid ≠ 0) (mmProtect : BitVec 32) :
    protectPte mmProtect pte &&& pteValid ≠ 0 := by
  rw [protectPte_of_valid hv, pfnBits_or_and_frameless (ptePfn_lt pte) _ (by decide), BitVec.and_or_distrib_right,
    BitVec.and_self]
  intro h0
  have hle : pteValid ≤ miProtectionToPteMask mmProtect &&& pteValid ||| pteValid := by
    rw [BitVec.le_def, BitVec.toNat_or]
    exact Nat.right_le_or
  rw [h0] at hle
  exact absurd hle (by decide)

theorem not_permits_protectPte {pte : Pte} (hv : pte &&& pteValid ≠ 0) (protect : BitVec 32) (copied : Bool) :
    ¬ Permits (protectPte (miConvertProtection protect) pte) (baseProtect protect) copied := by
  rintro ⟨-, hexecute, huser⟩
  have hbase : baseProtect protect = pageNoaccess := by
    by_contra hne
    exact huser.2 hne (protectPte_user hv _)
  -- no access: no bits at all, so the page may be executed
  have hmask : miProtectionToPteMask (miConvertProtection protect) = 0 := by
    rw [miProtectionToPteMask, miConvertProtection_access, hbase]
    rfl
  have hnx : protectPte (miConvertProtection protect) pte &&& pteNx = 0 := by
    rw [protectPte_of_valid hv, pfnBits_or_and_frameless (ptePfn_lt pte) _ (by decide), hmask]
    decide
  have hmem := hexecute.1 hnx
  rw [hbase] at hmem
  exact absurd hmem (by decide)

theorem miMakeDemandZeroPte_valid (mmProtect : BitVec 32) : miMakeDemandZeroPte mmProtect &&& pteValid = 0 := by
  rw [miMakeDemandZeroPte_and _ (by decide)]
  decide

theorem miMakeDemandZeroPte_demandZero (mmProtect : BitVec 32) :
    miMakeDemandZeroPte mmProtect &&& PteState.demandZero ≠ 0 := by
  rw [miMakeDemandZeroPte_and _ (by decide)]
  decide

theorem miMakeDemandZeroPte_ne_zero (mmProtect : BitVec 32) : miMakeDemandZeroPte mmProtect ≠ 0 := by
  intro h0
  have hd := miMakeDemandZeroPte_demandZero mmProtect
  rw [h0] at hd
  exact hd (by decide)

theorem protectPte_miMakeDemandZeroPte (mmProtect mmProtect' : BitVec 32) :
    protectPte mmProtect (miMakeDemandZeroPte mmProtect') = miMakeDemandZeroPte mmProtect := by
  have hclear : miMakeDemandZeroPte mmProtect' &&& ~~~0x3E0#64 = PteState.demandZero := by
    rw [miMakeDemandZeroPte, protectionField_eq, BitVec.and_or_distrib_right, BitVec.and_assoc]
    rw [show 0x3E0#64 &&& ~~~0x3E0#64 = 0#64 by decide, BitVec.and_zero, BitVec.or_zero]
    decide
  rw [protectPte, if_neg (by simp [miMakeDemandZeroPte_valid]), if_pos (miMakeDemandZeroPte_ne_zero _), hclear]
  rfl

theorem resolveNotPresentPte_miMakeDemandZeroPte (pfn : BitVec 40) (protect : BitVec 32) :
    resolveNotPresentPte (some pfn) (miMakeDemandZeroPte (miConvertProtection protect)) = faultedPte pfn protect := by
  rw [resolveNotPresentPte, if_neg (miMakeDemandZeroPte_ne_zero _), if_pos (miMakeDemandZeroPte_demandZero _)]
  rfl

theorem copyOnWritePte_and (newPfn : BitVec 40) (pte : Pte) {mask : Pte} (hm : mask &&& frameless = mask) :
    copyOnWritePte newPfn pte &&& mask =
      (pteValid ||| pteReadwrite) &&& mask ||| pte &&& ((pteUser ||| pteNx ||| pteGlobal ||| pteDisableCache) &&& mask) := by
  rw [copyOnWritePte, BitVec.or_assoc, BitVec.or_assoc, pfnBits_or_and_frameless newPfn.isLt _ hm, ← BitVec.or_assoc,
    BitVec.and_or_distrib_right, BitVec.and_assoc pte]

namespace Page

/-- Nothing is there, or the page is committed and not present, or present, right and never
protected again. -/
inductive Tracked (page : Page) : Prop
  | zero (pte : page.pte = 0)
  | demandZero (valid : isValidProtection page.protect) (copied : page.copied = false)
      (pte : page.pte = miMakeDemandZeroPte (miConvertProtection page.protect))
  | present (pte : page.pte &&& pteValid ≠ 0) (reprotected : page.reprotected = false) (permits : page.PermissionsMatch)
      (writecopy : page.pte &&& pteWritecopy ≠ 0 → baseProtect page.protect = pageExecuteWritecopy)

variable {page : Page} {protect : BitVec 32}

theorem tracked_commit (hp : isValidProtection protect) : (page.commit protect).Tracked := .demandZero hp rfl rfl

theorem Tracked.reprotect (h : page.Tracked) (hv : page.pte &&& pteValid = 0) (hp : isValidProtection protect) :
    (page.reprotect protect).Tracked ∧ (page.reprotect protect).pte &&& pteValid = 0 := by
  cases h with
  | zero hpte =>
    have hzero : (page.reprotect protect).pte = 0 := by
      rw [Page.reprotect, hpte]
      rfl
    exact ⟨.zero hzero, by rw [hzero]; decide⟩
  | demandZero _ hcopied hpte =>
    have hdemand : (page.reprotect protect).pte = miMakeDemandZeroPte (miConvertProtection protect) := by
      rw [Page.reprotect, hpte, protectPte_miMakeDemandZeroPte]
    exact ⟨.demandZero hp hcopied hdemand, by rw [hdemand, miMakeDemandZeroPte_valid]⟩
  | present hpte => exact absurd hv hpte

theorem reprotect_wrong (protect : BitVec 32) (hv : page.pte &&& pteValid ≠ 0) :
    (page.reprotect protect).pte &&& pteValid ≠ 0 ∧ ¬ (page.reprotect protect).PermissionsMatch :=
  ⟨protectPte_valid hv _, not_permits_protectPte hv protect page.copied⟩

theorem access_demandZero (hpte : page.pte = miMakeDemandZeroPte (miConvertProtection page.protect)) (isWrite : Bool)
    (pfn : BitVec 40) : page.access isWrite true (some pfn) = { page with pte := faultedPte pfn page.protect } := by
  rw [access, if_neg (by simp [hpte, miMakeDemandZeroPte_valid]), if_pos rfl, hpte,
    resolveNotPresentPte_miMakeDemandZeroPte]

theorem tracked_copy (hp : page.PermissionsMatch) (hr : page.reprotected = false)
    (hbase : baseProtect page.protect = pageExecuteWritecopy) (newPfn : BitVec 40) :
    Tracked { page with pte := copyOnWritePte newPfn page.pte, copied := true } := by
  obtain ⟨-, hexecute, huser⟩ := hp
  have hnx : copyOnWritePte newPfn page.pte &&& pteNx = page.pte &&& pteNx := by
    rw [copyOnWritePte_and newPfn _ (by decide),
      show (pteUser ||| pteNx ||| pteGlobal ||| pteDisableCache) &&& pteNx = pteNx by decide]
    exact BitVec.zero_or
  have hus : copyOnWritePte newPfn page.pte &&& pteUser = page.pte &&& pteUser := by
    rw [copyOnWritePte_and newPfn _ (by decide),
      show (pteUser ||| pteNx ||| pteGlobal ||| pteDisableCache) &&& pteUser = pteUser by decide]
    exact BitVec.zero_or
  have hvalid : copyOnWritePte newPfn page.pte &&& pteValid = pteValid := by
    rw [copyOnWritePte_and newPfn _ (by decide),
      show (pteUser ||| pteNx ||| pteGlobal ||| pteDisableCache) &&& pteValid = 0#64 by decide, BitVec.and_zero]
    decide
  refine .present (by rw [hvalid]; decide) hr ⟨fun _ => ?_, ?_, ?_⟩ fun _ => hbase
  · exact Or.inr ⟨by rw [hbase]; decide, rfl⟩
  · rw [hnx]
    exact hexecute
  · rw [hus]
    exact huser

variable {isWrite committed : Bool} {frame : Option (BitVec 40)}

theorem Tracked.access (h : page.Tracked)
    (hc : page.pte &&& pteValid = 0 → page.pte ≠ 0 → committed → frame.isSome →
      page.reprotected = false ∧ FaultsRight page.protect) : (page.access isWrite committed frame).Tracked := by
  cases h with
  | zero hpte =>
    refine .zero ?_
    unfold Page.access
    rw [if_neg (by rw [hpte]; decide)]
    cases committed with
    | false => exact hpte
    | true =>
      rw [if_pos rfl, hpte]
      rfl
  | demandZero hp hcopied hpte =>
    have hvalid : page.pte &&& pteValid = 0 := by rw [hpte, miMakeDemandZeroPte_valid]
    have hne : page.pte ≠ 0 := by
      rw [hpte]
      exact miMakeDemandZeroPte_ne_zero _
    have hsame : Tracked page := .demandZero hp hcopied hpte
    cases committed with
    | false =>
      unfold Page.access
      rw [if_neg (by simp [hvalid])]
      exact hsame
    | true =>
      cases frame with
      | none =>
        unfold Page.access
        rw [if_neg (by simp [hvalid]), if_pos rfl, resolveNotPresentPte, if_neg hne,
          if_pos (by rw [hpte]; exact miMakeDemandZeroPte_demandZero _)]
        exact hsame
      | some pfn =>
        obtain ⟨hreprotected, hright⟩ := hc hvalid hne rfl rfl
        rw [access_demandZero hpte]
        refine .present (faultedPte_valid pfn _) hreprotected ?_ fun hw => base_of_faultedPte_writecopy hp hright hw
        rw [PermissionsMatch, hcopied]
        exact (permits_faultedPte hp pfn).2 hright
  | present hpte hreprotected hpermits hwritecopy =>
    have hsame : Tracked page := .present hpte hreprotected hpermits hwritecopy
    unfold Page.access
    rw [if_pos hpte]
    split
    · rename_i hw
      cases frame with
      | none => exact hsame
      | some newPfn => exact tracked_copy hpermits hreprotected (hwritecopy hw.2) newPfn
    · exact hsame

/-- A page that is brought in after `NtProtectVirtualMemory`, or with a protection that
the fault path gets wrong. -/
theorem Tracked.access_wrong (h : page.Tracked) (hv : page.pte &&& pteValid = 0) (hne : page.pte ≠ 0)
    (hbad : ¬ (page.reprotected = false ∧ FaultsRight page.protect)) (isWrite : Bool) (pfn : BitVec 40) :
    (page.access isWrite true (some pfn)).pte &&& pteValid ≠ 0 ∧
      ¬ ((page.access isWrite true (some pfn)).PermissionsMatch ∧ (page.access isWrite true (some pfn)).PathsAgree) := by
  cases h with
  | zero hpte => exact absurd hpte hne
  | present hpte => exact absurd hv hpte
  | demandZero hp hcopied hpte =>
    rw [access_demandZero hpte]
    refine ⟨faultedPte_valid pfn _, ?_⟩
    rintro ⟨hpermits, hpaths⟩
    rw [PermissionsMatch, hcopied] at hpermits
    have hright : FaultsRight page.protect := (permits_faultedPte hp pfn).1 hpermits
    have hreprotected : page.reprotected = true := by
      by_contra hr
      exact hbad ⟨by simpa using hr, hright⟩
    -- the fault sets the user bit, a change of protection would not
    have hbits := congrArg (· &&& pteUser) (hpaths hreprotected (by simp [hcopied]))
    simp only [BitVec.and_assoc, show permissionBits &&& pteUser = pteUser by decide] at hbits
    rw [protectPte_user (faultedPte_valid pfn _)] at hbits
    have huser := hpermits.2.2.2 fun hbase => by
      rw [FaultsRight, hbase] at hright
      exact absurd hright (by decide)
    exact huser hbits

theorem Tracked.matches (h : page.Tracked) (hv : page.pte &&& pteValid ≠ 0) :
    page.PermissionsMatch ∧ page.PathsAgree := by
  cases h with
  | zero hpte => exact absurd (by rw [hpte]; decide) hv
  | demandZero _ _ hpte => exact absurd (by rw [hpte, miMakeDemandZeroPte_valid]) hv
  | present _ hreprotected hpermits => exact ⟨hpermits, fun hr => by rw [hreprotected] at hr; cases hr⟩

end Page

namespace PrivatePages

variable {s : PrivatePages} {e : ℕ}

theorem forPages_apply (f : Page → Page) (entries : List ℕ) (s : PrivatePages) (e : ℕ) :
    forPages f entries s e = f^[entries.count e] (s e) := updateAll_apply f entries s e

theorem forPages_of_notMem {entries : List ℕ} (he : e ∉ entries) (f : Page → Page) (s : PrivatePages) :
    forPages f entries s e = s e := by
  rw [forPages_apply, List.count_eq_zero_of_not_mem he]
  rfl

theorem forPages_keeps {P : Page → Prop} {f : Page → Page} (hf : ∀ page, P page → P (f page)) (entries : List ℕ)
    (h : P (s e)) : P (forPages f entries s e) := by
  rw [forPages_apply]
  exact Iterate.rec P h hf _

theorem forPages_of_mem {P : Page → Prop} {f : Page → Page} (hf : ∀ page, P page → P (f page)) {entries : List ℕ}
    (he : e ∈ entries) (h : P (s e)) : ∃ page, P page ∧ forPages f entries s e = f page := by
  obtain ⟨n, hn⟩ := Nat.exists_eq_succ_of_ne_zero (List.count_pos_iff.2 he).ne'
  refine ⟨f^[n] (s e), Iterate.rec P h hf n, ?_⟩
  rw [forPages_apply, hn, iterate_succ_apply']

def Tracked (s : PrivatePages) : Prop := ∀ e, (s e).Tracked

theorem Tracked.hardwareMatches (h : s.Tracked) : s.HardwareMatches := fun e hv => (h e).matches hv

theorem Tracked.step (h : s.Tracked) {op : ProtectionOp} (hc : s.Harmless op) : (s.step op).Tracked := by
  intro e
  unfold PrivatePages.step
  split_ifs with hreach
  · cases op with
    | allocate startVa pageCount newProtect hierarchy admitted =>
      exact forPages_keeps (fun page _ => Page.tracked_commit hreach.1) _ (h e)
    | protect requestedBase requestedSize newProtect admitted =>
      by_cases he : e ∈ protectedEntries requestedBase requestedSize
      · have hkeep := forPages_keeps (P := fun page => page.Tracked ∧ page.pte &&& pteValid = 0)
          (fun page hp => hp.1.reprotect hp.2 hreach.2.1) (protectedEntries requestedBase requestedSize)
          ⟨h e, hc hreach e he⟩
        exact hkeep.1
      · show (forPages _ (protectedEntries requestedBase requestedSize) s e).Tracked
        rw [forPages_of_notMem he]
        exact h e
    | access va isWrite committed frame =>
      by_cases he : e = mmGetPteAddress va
      · subst he
        show (update s (mmGetPteAddress va) _ (mmGetPteAddress va)).Tracked
        rw [update_self]
        exact (h _).access hc
      · show (update s (mmGetPteAddress va) _ e).Tracked
        rw [update_of_ne he]
        exact h e
  · exact h e

theorem Tracked.step_wrong (h : s.Tracked) {op : ProtectionOp} (hc : ¬ s.Harmless op) :
    ¬ (s.step op).HardwareMatches := by
  intro hmatches
  cases op with
  | allocate => exact hc trivial
  | protect requestedBase requestedSize newProtect admitted =>
    simp only [Harmless, not_forall] at hc
    obtain ⟨hreach, e, he, hv⟩ := hc
    obtain ⟨page, hpage, heq⟩ := forPages_of_mem (P := fun page => page.pte &&& pteValid ≠ 0)
      (fun page hp => (Page.reprotect_wrong newProtect hp).1) he hv
    have hstep : s.step (.protect requestedBase requestedSize newProtect admitted) e = page.reprotect newProtect := by
      rw [PrivatePages.step, if_pos hreach]
      exact heq
    obtain ⟨hvalid, hwrong⟩ := Page.reprotect_wrong newProtect hpage
    rw [← hstep] at hvalid hwrong
    exact hwrong (hmatches e hvalid).1
  | access va isWrite committed frame =>
    simp only [Harmless, not_forall] at hc
    obtain ⟨hv, hne, hcommitted, hframe, hbad⟩ := hc
    obtain ⟨pfn, rfl⟩ := Option.isSome_iff_exists.1 hframe
    subst hcommitted
    obtain ⟨hvalid, hwrong⟩ := (h (mmGetPteAddress va)).access_wrong hv hne hbad isWrite pfn
    have hreach : (ProtectionOp.access va isWrite true (some pfn)).Reaches := trivial
    have hstep : s.step (.access va isWrite true (some pfn)) (mmGetPteAddress va) =
        (s (mmGetPteAddress va)).access isWrite true (some pfn) := by
      rw [PrivatePages.step, if_pos hreach]
      exact update_self _ _ _
    rw [← hstep] at hvalid hwrong
    exact hwrong (hmatches _ hvalid)

/-- The memory of a fresh process. -/
def start : PrivatePages := fun _ => {}

/-- Hardware permissions match the requested protection in every state of a run if and
only if every step of the run is harmless. -/
theorem hardwareMatches_iff (ops : List ProtectionOp) :
    EveryState step HardwareMatches start ops ↔ EveryStep step Harmless start ops :=
  everyState_iff_everyStep (I := Tracked) (G := fun _ _ => True) (fun _ _ h _ hc => h.step hc)
    (fun _ h => h.hardwareMatches) (fun _ _ h _ hc => h.step_wrong hc) (fun _ => .zero rfl)
    (everyStep_of_forall fun _ _ => trivial)

/-- One page, committed read-write and written to: its entry may be executed. -/
theorem readwrite_executable :
    ¬ EveryState step HardwareMatches start
      [.allocate 0x10000 1 pageReadwrite (fun _ => true) true, .access 0x10000 true true (some 1)] := by
  rintro ⟨-, -, h⟩
  have hpage := h (mmGetPteAddress 0x10000) (by decide)
  exact absurd hpage.1 (by decide)

end PrivatePages

end XenOS.Mm
