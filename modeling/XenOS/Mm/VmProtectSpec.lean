import XenOS.Mm.ProtectionRuns
import XenOS.Mm.VmProtect

/-! A change of protection reaches exactly the pages of its range: in the regions always, in the
entries where it loses no bit outside the mask. A call that fails has changed nothing unless a split
ran out of memory. -/

namespace XenOS.Mm

open General BinaryTree MmAvlTable

/-- The page meets the bytes of the range. -/
def Requested (requestedBase requestedSize vpn : ℕ) : Prop :=
  requestedBase / pageSize ≤ vpn ∧ vpn * pageSize < requestedBase + requestedSize

instance (requestedBase requestedSize vpn : ℕ) : Decidable (Requested requestedBase requestedSize vpn) :=
  inferInstanceAs (Decidable (_ ∧ _))

def pageEntry (vpn : ℕ) : ℕ := mmGetPteAddress (vpn * pageSize)

section Range
variable {requestedBase requestedSize vpn : ℕ}

theorem requested_iff (hsize : requestedSize ≠ 0) : Requested requestedBase requestedSize vpn ↔
    pageAlign requestedBase / pageSize ≤ vpn ∧ vpn ≤ (pageAlignUp (requestedBase + requestedSize) - 1) / pageSize := by
  unfold Requested pageAlign pageAlignUp pageSize
  omega

theorem mem_protectedEntries {e : ℕ} : e ∈ protectedEntries requestedBase requestedSize ↔
    ∃ vpn, Requested requestedBase requestedSize vpn ∧ pageEntry vpn = e := by
  simp only [protectedEntries, pageAddresses, List.map_map, List.mem_map, List.mem_range, Function.comp_apply]
  have hstart : pageAlign requestedBase = requestedBase / pageSize * pageSize := rfl
  constructor
  · rintro ⟨i, hi, rfl⟩
    refine ⟨requestedBase / pageSize + i, ⟨Nat.le_add_right _ _, ?_⟩, ?_⟩
    · unfold pageAlign pageAlignUp pageSize at hi
      unfold pageSize
      omega
    · rw [hstart, pageEntry, Nat.add_mul]
  · rintro ⟨vpn, ⟨hle, hlt⟩, rfl⟩
    obtain ⟨i, rfl⟩ := Nat.exists_eq_add_of_le hle
    refine ⟨i, ?_, ?_⟩
    · unfold pageAlign pageAlignUp pageSize
      unfold pageSize at hlt
      omega
    · rw [hstart, pageEntry, Nat.add_mul]

end Range

section Entry
variable {pte : Pte}

theorem protectPte_flags_frameless (mmProtect : BitVec 32) :
    (miProtectionToPteMask mmProtect ||| pteValid) &&& frameless = miProtectionToPteMask mmProtect ||| pteValid := by
  unfold miProtectionToPteMask
  dsimp only
  split_ifs <;> decide

theorem ptePfn_protectPte (hv : pte &&& pteValid ≠ 0) (mmProtect : BitVec 32) : ptePfn (protectPte mmProtect pte) = ptePfn pte := by
  rw [protectPte_of_valid hv]
  exact ptePfn_pfnBits_or (ptePfn_lt pte) (protectPte_flags_frameless mmProtect)

theorem protectPte_dirty (hv : pte &&& pteValid ≠ 0) (mmProtect : BitVec 32) : protectPte mmProtect pte &&& pteDirty = 0 := by
  rw [protectPte_of_valid hv, pfnBits_or_and_frameless (ptePfn_lt pte) _ (by decide)]
  unfold miProtectionToPteMask
  dsimp only
  split_ifs <;> decide

theorem protectPte_rest (hv : pte &&& pteValid = 0) (mmProtect : BitVec 32) :
    protectPte mmProtect pte &&& ~~~0x3E0#64 = pte &&& ~~~0x3E0#64 := by
  rw [protectPte, if_neg (not_not.2 hv)]
  split_ifs
  · have hfield : (mmProtect.setWidth 64 &&& 0x1F#64) <<< 5 &&& ~~~0x3E0#64 = 0#64 := by
      rw [BitVec.shiftLeft_and_distrib, BitVec.and_assoc, show 0x1F#64 <<< 5 &&& ~~~0x3E0#64 = 0#64 by decide, BitVec.and_zero]
    rw [BitVec.and_or_distrib_right, BitVec.and_assoc, BitVec.and_self, hfield, BitVec.or_zero]
  · rfl

theorem protectPte_not_valid (hv : pte &&& pteValid = 0) (mmProtect : BitVec 32) : protectPte mmProtect pte &&& pteValid = 0 := by
  have hrest := congrArg (· &&& pteValid) (protectPte_rest hv mmProtect)
  simpa only [BitVec.and_assoc, show ~~~0x3E0#64 &&& pteValid = pteValid by decide, hv] using hrest

theorem protectPte_idem (mmProtect : BitVec 32) (pte : Pte) :
    protectPte mmProtect (protectPte mmProtect pte) = protectPte mmProtect pte := by
  by_cases hv : pte &&& pteValid = 0
  · by_cases h0 : protectPte mmProtect pte = 0
    · rw [h0]
      rfl
    · have hne : pte ≠ 0 := by
        rintro rfl
        exact h0 rfl
      have hstored : ∀ x : Pte, x &&& pteValid = 0 → x ≠ 0 →
          protectPte mmProtect x = x &&& ~~~0x3E0#64 ||| ((mmProtect.setWidth 64 &&& 0x1F#64) <<< 5) := fun x hx hx0 => by
        rw [protectPte, if_neg (not_not.2 hx), if_pos hx0]
      rw [hstored _ (protectPte_not_valid hv mmProtect) h0, protectPte_rest hv, ← hstored pte hv hne]
  · rw [protectPte_of_valid (protectPte_valid hv mmProtect), ptePfn_protectPte hv, ← protectPte_of_valid hv]

end Entry

namespace ProtectState

/-- The pages of the range get the protection; the others, their other attributes, and what is in the
entries beside it stay. -/
structure ProtectsExactly (s s' : ProtectState) (requestedBase requestedSize : ℕ) (newProtect : BitVec 32) : Prop where
  inside : ∀ vpn, Requested requestedBase requestedSize vpn → ∀ a, s'.vads.Describes vpn a ↔
    ∃ b, s.vads.Describes vpn b ∧ a = { b with protection := miConvertProtection newProtect &&& 0x1F#32 }
  outside : ∀ vpn, ¬ Requested requestedBase requestedSize vpn → ∀ a, s'.vads.Describes vpn a ↔ s.vads.Describes vpn a
  covers : ∀ vpn, s'.vads.Covers vpn ↔ s.vads.Covers vpn
  present : ∀ vpn, Requested requestedBase requestedSize vpn → s.ptes (pageEntry vpn) &&& pteValid ≠ 0 →
    ptePfn (s'.ptes (pageEntry vpn)) = ptePfn (s.ptes (pageEntry vpn)) ∧
      s'.ptes (pageEntry vpn) &&& pteUser = s.ptes (pageEntry vpn) &&& pteUser ∧
      s'.ptes (pageEntry vpn) &&& pteDirty = s.ptes (pageEntry vpn) &&& pteDirty
  notPresent : ∀ vpn, Requested requestedBase requestedSize vpn → s.ptes (pageEntry vpn) &&& pteValid = 0 →
    s'.ptes (pageEntry vpn) &&& ~~~0x3E0#64 = s.ptes (pageEntry vpn) &&& ~~~0x3E0#64
  zero : ∀ e, s.ptes e = 0 → s'.ptes e = 0
  others : ∀ e, (∀ vpn, Requested requestedBase requestedSize vpn → pageEntry vpn ≠ e) → s'.ptes e = s.ptes e
  noAccess : baseProtect newProtect = pageNoaccess → ∀ vpn, Requested requestedBase requestedSize vpn →
    s'.ptes (pageEntry vpn) &&& pteValid = 0

/-- A page of the range that is present is no user page, it is not dirty, and it does not lose all access. -/
def LosesNothing (s : ProtectState) (requestedBase requestedSize : ℕ) (newProtect : BitVec 32) : Prop :=
  ∀ vpn, Requested requestedBase requestedSize vpn → s.ptes (pageEntry vpn) &&& pteValid ≠ 0 →
    s.ptes (pageEntry vpn) &&& pteUser = 0 ∧ s.ptes (pageEntry vpn) &&& pteDirty = 0 ∧ baseProtect newProtect ≠ pageNoaccess

structure Unchanged (s s' : ProtectState) : Prop where
  vads : s.vads.SameTree s'.vads
  ptes : s'.ptes = s.ptes
  baseAddress : s'.baseAddress = s.baseAddress
  regionSize : s'.regionSize = s.regionSize
  oldProtect : s'.oldProtect = s.oldProtect

/-- Any status but success means that nothing has changed. -/
def Atomic (s : ProtectState) (requestedBase requestedSize : ℕ) (newProtect : BitVec 32) (pool : ℕ × ℕ) : Prop :=
  ∀ status s', s.miProtectVirtualMemoryInternal requestedBase requestedSize newProtect pool = some (status, s') →
    status ≠ .success → s.Unchanged s'

/-- The range in pages. -/
def startPage (requestedBase : ℕ) : ℕ := pageAlign requestedBase / pageSize

def endPage (requestedBase requestedSize : ℕ) : ℕ := (pageAlignUp (requestedBase + requestedSize) - 1) / pageSize

/-- No split fails, or the first one does and the caller's variable happens to hold the protection of the
region. -/
def FailsQuietly (s : ProtectState) (requestedBase requestedSize : ℕ) (pool : ℕ × ℕ) : Prop :=
  requestedBase + requestedSize + (pageSize - 1) < 2 ^ 64 → ∀ vad, s.vads.Reachable vad →
    s.vads.startingVpn vad ≤ startPage requestedBase → endPage requestedBase requestedSize ≤ s.vads.endingVpn vad →
    s.vads.SplitFails vad (startPage requestedBase) (endPage requestedBase requestedSize) pool →
    pool.1 = 0 ∧ s.oldProtect = miProtectionToPageConstant (MmvadFlags.protection (s.vads.flags vad))

variable {s s' : ProtectState} {u : BinaryTree ℕ} {requestedBase requestedSize : ℕ} {newProtect : BitVec 32} {pool : ℕ × ℕ}

/-- What the call does: it stops, refuses the range, runs out of memory in a split, or protects the part that
was carved out. -/
inductive Outcome (s : ProtectState) (requestedBase requestedSize : ℕ) (newProtect : BitVec 32) (pool : ℕ × ℕ) :
    Option (Ntstatus × ProtectState) → Prop
  | stops : 2 ^ 64 ≤ requestedBase + requestedSize + (pageSize - 1) → Outcome s requestedBase requestedSize newProtect pool none
  | refused {status : Ntstatus} : status ≠ .success →
      (∀ vad, s.vads.Reachable vad → s.vads.startingVpn vad ≤ startPage requestedBase →
        ¬ endPage requestedBase requestedSize ≤ s.vads.endingVpn vad) →
      Outcome s requestedBase requestedSize newProtect pool (some (status, s))
  | splitFails {vad : ℕ} {vads : MmAvlTable} : requestedBase + requestedSize + (pageSize - 1) < 2 ^ 64 → s.vads.Reachable vad →
      s.vads.startingVpn vad ≤ startPage requestedBase → endPage requestedBase requestedSize ≤ s.vads.endingVpn vad →
      s.vads.SplitFails vad (startPage requestedBase) (endPage requestedBase requestedSize) pool →
      (pool.1 = 0 → vads = s.vads) → (pool.1 ≠ 0 → SplitOff s.vads vad (startPage requestedBase) pool.1 vads) →
      Outcome s requestedBase requestedSize newProtect pool (some (.noMemory,
        { s with vads, oldProtect := miProtectionToPageConstant (MmvadFlags.protection (s.vads.flags vad)) }))
  | protects {vad target : ℕ} {vads : MmAvlTable} : requestedBase + requestedSize + (pageSize - 1) < 2 ^ 64 →
      s.vads.Reachable vad → s.vads.startingVpn vad ≤ startPage requestedBase →
      endPage requestedBase requestedSize ≤ s.vads.endingVpn vad →
      ¬ s.vads.SplitFails vad (startPage requestedBase) (endPage requestedBase requestedSize) pool →
      s.vads.Carved vad (startPage requestedBase) (endPage requestedBase requestedSize) target vads →
      Outcome s requestedBase requestedSize newProtect pool (some (.success,
        { vads := vads.setFlags target (MmvadFlags.setProtection (vads.flags target) (miConvertProtection newProtect))
          ptes := updateAll (protectPte (miConvertProtection newProtect)) (protectedEntries requestedBase requestedSize) s.ptes
          baseAddress := pageAlign requestedBase
          regionSize := pageAlignUp (requestedBase + requestedSize) - pageAlign requestedBase
          oldProtect := miProtectionToPageConstant (MmvadFlags.protection (s.vads.flags vad)) }))

theorem startPage_le_endPage (requestedBase : ℕ) (hsize : requestedSize ≠ 0) : startPage requestedBase ≤ endPage requestedBase requestedSize := by
  unfold startPage endPage pageAlign pageAlignUp pageSize
  omega

theorem outcome (requestedBase : ℕ) (newProtect : BitVec 32) (h : s.vads.Inv u) (hsize : requestedSize ≠ 0) (hpool : s.vads.FromPool pool) :
    s.Outcome requestedBase requestedSize newProtect pool
      (s.miProtectVirtualMemoryInternal requestedBase requestedSize newProtect pool) := by
  have hpages := startPage_le_endPage requestedBase hsize
  unfold miProtectVirtualMemoryInternal
  by_cases hover : 2 ^ 64 ≤ requestedBase + requestedSize + (pageSize - 1)
  · rw [if_pos hover]
    exact .stops hover
  rw [if_neg hover]
  have hover' : requestedBase + requestedSize + (pageSize - 1) < 2 ^ 64 := Nat.lt_of_not_le hover
  have hend0 : pageAlignUp (requestedBase + requestedSize) ≠ 0 := by
    unfold pageAlignUp pageSize
    omega
  have hstartPage : pageAlign requestedBase / pageSize = startPage requestedBase := rfl
  have hendPage : (pageAlignUp (requestedBase + requestedSize) - 1) / pageSize = endPage requestedBase requestedSize := rfl
  simp only [if_neg hend0, hstartPage, hendPage]
  rcases h.wellFormed.findVad (pageAlign requestedBase) with ⟨vad, hfind, hv, hc⟩ | ⟨hfind, hnone⟩
  · have hv0 := h.wellFormed.ne_zero hv
    rw [hfind, Option.bind_some, if_neg hv0]
    change s.vads.Contains vad (startPage requestedBase) at hc
    by_cases hin : startPage requestedBase < s.vads.startingVpn vad ∨ s.vads.endingVpn vad < endPage requestedBase requestedSize
    · rw [if_pos hin]
      refine .refused (by decide) fun q hq hq1 hq2 => ?_
      have hcq : s.vads.Contains q (startPage requestedBase) := ⟨hq1, Nat.le_trans hpages hq2⟩
      obtain rfl := h.wellFormed.contains_unique hq hv hcq hc
      omega
    · rw [if_neg hin]
      obtain ⟨hin1, hin2⟩ := not_or.1 hin
      have hstart := Nat.le_of_not_lt hin1
      have hend := Nat.le_of_not_lt hin2
      obtain ⟨hfails, hcarves⟩ := h.splitAround hv hpool hstart hpages hend
      by_cases hf : s.vads.SplitFails vad (startPage requestedBase) (endPage requestedBase requestedSize) pool
      · obtain ⟨vads, hret, h1, h2⟩ := hfails hf
        rw [hret]
        exact .splitFails hover' hv hstart hend hf h1 h2
      · obtain ⟨target, vads, hret, hn0, hcarved⟩ := hcarves hf
        rw [hret, Option.map_some, if_neg hn0]
        exact .protects hover' hv hstart hend hf hcarved
  · rw [hfind, Option.bind_some, if_pos rfl]
    refine .refused (by decide) fun q hq hq1 hq2 => ?_
    exact hnone q hq ⟨hq1, Nat.le_trans hpages hq2⟩

theorem entry_inside (mmProtect : BitVec 32) (ptes : ℕ → Pte) {vpn : ℕ}
    (hr : Requested requestedBase requestedSize vpn) :
    updateAll (protectPte mmProtect) (protectedEntries requestedBase requestedSize) ptes (pageEntry vpn) =
      protectPte mmProtect (ptes (pageEntry vpn)) :=
  updateAll_of_mem (protectPte_idem mmProtect) (mem_protectedEntries.2 ⟨vpn, hr, rfl⟩)

theorem entry_outside (mmProtect : BitVec 32) (ptes : ℕ → Pte) {e : ℕ}
    (he : ∀ vpn, Requested requestedBase requestedSize vpn → pageEntry vpn ≠ e) :
    updateAll (protectPte mmProtect) (protectedEntries requestedBase requestedSize) ptes e = ptes e :=
  updateAll_of_notMem fun hm => by
    obtain ⟨vpn, hr, hvpn⟩ := mem_protectedEntries.1 hm
    exact he vpn hr hvpn

theorem describes_protects {vad target : ℕ} {vads : MmAvlTable} (hsize : requestedSize ≠ 0)
    (hc : s.vads.Carved vad (startPage requestedBase) (endPage requestedBase requestedSize) target vads) (mmProtect : BitVec 32)
    (vpn : ℕ) (a : VadAttributes) :
    (vads.setFlags target (MmvadFlags.setProtection (vads.flags target) mmProtect)).Describes vpn a ↔
      if Requested requestedBase requestedSize vpn then
        ∃ b, s.vads.Describes vpn b ∧ a = { b with protection := mmProtect &&& 0x1F#32 }
      else s.vads.Describes vpn a := by
  obtain ⟨u', hu'⟩ := hc.inv
  have hcontains : vads.Contains target vpn ↔ Requested requestedBase requestedSize vpn := by
    rw [requested_iff hsize, Contains, hc.range.1, hc.range.2]
    rfl
  rw [describes_setFlags hu' hc.reachable, hcontains, vadAttributes_setProtection, hc.describes]
  split_ifs with hr
  · simp only [hr, true_and, not_true_eq_false, false_and, or_false, ← hc.describes]
    constructor
    · rintro rfl
      exact ⟨_, ⟨target, hc.reachable, hcontains.2 hr, rfl⟩, rfl⟩
    · rintro ⟨b, ⟨p, hp, hcp, rfl⟩, rfl⟩
      obtain rfl := hu'.wellFormed.contains_unique hp hc.reachable hcp (hcontains.2 hr)
      rfl
  · simp [hr]

theorem protectsExactly_iff (h : s.vads.Inv u) (hsize : requestedSize ≠ 0) (hpool : s.vads.FromPool pool)
    (hret : s.miProtectVirtualMemoryInternal requestedBase requestedSize newProtect pool = some (.success, s')) :
    s.ProtectsExactly s' requestedBase requestedSize newProtect ↔ s.LosesNothing requestedBase requestedSize newProtect := by
  have hout := outcome requestedBase newProtect h hsize hpool
  rw [hret] at hout
  cases hout with
  | refused hne => exact absurd rfl hne
  | protects hover hv hstart hend hf hc =>
    have hin := fun vpn (hr : Requested requestedBase requestedSize vpn) => entry_inside (miConvertProtection newProtect) s.ptes hr
    have hdescribes := describes_protects hsize hc (miConvertProtection newProtect)
    constructor
    · intro hex vpn hr hv
      obtain ⟨-, huser, hdirty⟩ := hex.present vpn hr hv
      simp only [hin vpn hr] at huser hdirty
      rw [protectPte_user hv] at huser
      rw [protectPte_dirty hv] at hdirty
      refine ⟨huser.symm, hdirty.symm, fun hno => ?_⟩
      have hgone := hex.noAccess hno vpn hr
      simp only [hin vpn hr] at hgone
      exact protectPte_valid hv _ hgone
    · intro hl
      exact
        { inside := fun vpn hr a => by rw [hdescribes, if_pos hr]
          outside := fun vpn hr a => by rw [hdescribes, if_neg hr]
          covers := fun vpn => by
            simp only [covers_iff, hdescribes]
            split_ifs
            · exact ⟨fun ⟨_, b, hb, _⟩ => ⟨b, hb⟩, fun ⟨b, hb⟩ => ⟨_, b, hb, rfl⟩⟩
            · rfl
          present := fun vpn hr hv => by
            obtain ⟨huser, hdirty, -⟩ := hl vpn hr hv
            dsimp only
            rw [hin vpn hr, ptePfn_protectPte hv, protectPte_user hv, protectPte_dirty hv, huser, hdirty]
            exact ⟨rfl, rfl, rfl⟩
          notPresent := fun vpn hr hv => by
            dsimp only
            rw [hin vpn hr, protectPte_rest hv]
          zero := fun e he => by
            dsimp only
            by_cases hm : e ∈ protectedEntries requestedBase requestedSize
            · rw [updateAll_of_mem (protectPte_idem _) hm, he]
              rfl
            · rw [updateAll_of_notMem hm, he]
          others := fun e he => entry_outside _ _ he
          noAccess := fun hno vpn hr => by
            dsimp only
            rw [hin vpn hr]
            refine protectPte_not_valid ?_ _
            by_contra hv
            exact (hl vpn hr hv).2.2 hno }

theorem atomic_iff (h : s.vads.Inv u) (hsize : requestedSize ≠ 0) (hpool : s.vads.FromPool pool) :
    s.Atomic requestedBase requestedSize newProtect pool ↔ s.FailsQuietly requestedBase requestedSize pool := by
  have hout := outcome requestedBase newProtect h hsize hpool
  have hpages := startPage_le_endPage requestedBase hsize
  unfold Atomic
  generalize s.miProtectVirtualMemoryInternal requestedBase requestedSize newProtect pool = result at hout ⊢
  have hsame : s.Unchanged s := ⟨⟨rfl, rfl, fun _ _ => ⟨.refl _ _, rfl, rfl, rfl, rfl⟩⟩, rfl, rfl, rfl, rfl⟩
  have hunique : ∀ {p q}, s.vads.Reachable p → s.vads.startingVpn p ≤ startPage requestedBase →
      endPage requestedBase requestedSize ≤ s.vads.endingVpn p → s.vads.Reachable q →
      s.vads.startingVpn q ≤ startPage requestedBase → endPage requestedBase requestedSize ≤ s.vads.endingVpn q → p = q :=
    fun hp hp1 hp2 hq hq1 hq2 =>
      h.wellFormed.contains_unique hp hq ⟨hp1, Nat.le_trans hpages hp2⟩ ⟨hq1, Nat.le_trans hpages hq2⟩
  cases hout with
  | stops hover => exact iff_of_true (fun _ _ hr => by cases hr) fun hlt => absurd hover (Nat.not_le.2 hlt)
  | refused hne hnone =>
    refine iff_of_true (fun _ _ hr _ => ?_) fun _ vad hv hv1 hv2 => absurd hv2 (hnone vad hv hv1)
    cases hr
    exact hsame
  | @splitFails vad vads hover hv hstart hend hf h1 h2 =>
    constructor
    · intro hall hlt q hq hq1 hq2 hfq
      obtain rfl := hunique hq hq1 hq2 hv hstart hend
      have hun := hall _ _ rfl (by decide)
      refine ⟨?_, hun.oldProtect.symm⟩
      by_contra hn0
      -- the first split stays
      have hsplit := h2 hn0
      have hending := (hun.vads.nodes q hv).2.2.2.1
      have hinside := hsplit.inside
      simp only [hsplit.endingVpn, Function.update_self] at hending
      omega
    · intro hquiet status s' hr _
      obtain ⟨hn0, hold⟩ := hquiet hover vad hv hstart hend hf
      cases hr
      rw [h1 hn0, ← hold]
      exact hsame
  | protects hover hv hstart hend hf hc =>
    refine iff_of_true (fun _ _ hr hne => ?_) fun _ q hq hq1 hq2 hfq => ?_
    · cases hr
      exact absurd rfl hne
    · obtain rfl := hunique hq hq1 hq2 hv hstart hend
      exact absurd hfq hf

variable {t : MmAvlTable} {ops : List MapOp}

/-- A call that succeeds is exact if and only if no page of its range loses a bit of its entry. -/
def ExactWithoutLoss (vads : MmAvlTable) : Prop :=
  ∀ (s s' : ProtectState) (requestedBase requestedSize : ℕ) (newProtect : BitVec 32) (pool : ℕ × ℕ), s.vads = vads →
    requestedSize ≠ 0 → vads.FromPool pool →
    s.miProtectVirtualMemoryInternal requestedBase requestedSize newProtect pool = some (.success, s') →
    (s.ProtectsExactly s' requestedBase requestedSize newProtect ↔ s.LosesNothing requestedBase requestedSize newProtect)

theorem protect_exact_iff (hops : EveryStep mapStep MapAdmitted t.new ops) :
    EveryState mapStep ExactWithoutLoss t.new ops :=
  (inv_of_mapSteps hops).imp fun _ ⟨_, h⟩ _ _ _ _ _ _ hs hsize hpool hret => by
    subst hs
    exact protectsExactly_iff h hsize hpool hret

theorem protect_exact_lockedNeighbour : EveryState mapStep ExactWithoutLoss blank.new lockedNeighbour :=
  protect_exact_iff admitted_lockedNeighbour

def dirtyPage : ProtectState where
  vads := run mapStep blank.new [.tree (.insert 1 16 16)]
  ptes := Function.update (fun _ => 0) (pageEntry 16) 0x5047#64
  baseAddress := 0x10000
  regionSize := 0x1000
  oldProtect := 0

theorem dirtyPage_pool (pool : ℕ × ℕ) (hpool : 1 < pool.1 ∧ pool.1 < pool.2) : dirtyPage.vads.FromPool pool := by
  have hmem : ∀ p, dirtyPage.vads.Reachable p → p ∈ [1] := fun p => mem_of_reachable _ [1] (by decide) (by decide)
  refine ⟨Or.inr fun h => ?_, Or.inr ⟨fun h => ?_, by omega⟩⟩
  · have := List.mem_singleton.1 (hmem _ h)
    omega
  · have := List.mem_singleton.1 (hmem _ h)
    omega

theorem admitted_insert {first last : ℕ} (hle : first ≤ last) :
    EveryStep mapStep MapAdmitted blank.new [.tree (.insert 1 first last)] :=
  ⟨⟨by decide, fun h => absurd (mem_of_reachable _ [] (by decide) (by decide) h) (by decide), hle⟩, trivial⟩

/-- The page is read-only for the kernel now, and clean. -/
theorem protect_loses_user :
    EveryStep mapStep MapAdmitted blank.new [.tree (.insert 1 16 16)] ∧ dirtyPage.vads.FromPool (2, 3) ∧
    ∃ s', dirtyPage.miProtectVirtualMemoryInternal 0x10000 0x1000 pageReadonly (2, 3) = some (.success, s') ∧
      ¬ dirtyPage.ProtectsExactly s' 0x10000 0x1000 pageReadonly := by
  refine ⟨admitted_insert (by decide), dirtyPage_pool _ (by decide), _, rfl, fun hex => ?_⟩
  obtain ⟨-, huser, -⟩ := hex.present 16 (by decide) (by decide)
  revert huser
  decide

/-- A call is atomic if and only if its splits get their nodes, or the first gets none and the
caller's variable holds the old protection already. -/
def AtomicWithNodes (vads : MmAvlTable) : Prop :=
  ∀ (s : ProtectState) (requestedBase requestedSize : ℕ) (newProtect : BitVec 32) (pool : ℕ × ℕ), s.vads = vads →
    requestedSize ≠ 0 → vads.FromPool pool →
    (s.Atomic requestedBase requestedSize newProtect pool ↔ s.FailsQuietly requestedBase requestedSize pool)

theorem protect_atomic_iff (hops : EveryStep mapStep MapAdmitted t.new ops) :
    EveryState mapStep AtomicWithNodes t.new ops :=
  (inv_of_mapSteps hops).imp fun _ ⟨_, h⟩ _ _ _ _ _ hs hsize hpool => by
    subst hs
    exact atomic_iff h hsize hpool

theorem protect_atomic_lockedNeighbour : EveryState mapStep AtomicWithNodes blank.new lockedNeighbour :=
  protect_atomic_iff admitted_lockedNeighbour

def fourPages : ProtectState where
  vads := run mapStep blank.new [.tree (.insert 1 16 19)]
  ptes := fun _ => 0
  baseAddress := 0x11000
  regionSize := 0x1000
  oldProtect := 0

/-- The second split fails; the first stays. -/
theorem protect_leaves_split :
    EveryStep mapStep MapAdmitted blank.new [.tree (.insert 1 16 19)] ∧ fourPages.vads.FromPool (2, 0) ∧ ¬ fourPages.Atomic 0x11000 0x1000 pageReadonly (2, 0) := by
  have hmem : ∀ p, fourPages.vads.Reachable p → p ∈ [1] := fun p => mem_of_reachable _ [1] (by decide) (by decide)
  refine ⟨admitted_insert (by decide), ⟨Or.inr fun h => absurd (List.mem_singleton.1 (hmem _ h)) (by decide), Or.inl rfl⟩, fun hall => ?_⟩
  have hun := hall .noMemory _ rfl (by decide)
  have hending := (hun.vads.nodes 1 (.root (by decide))).2.2.2.1
  revert hending
  decide

end ProtectState

end XenOS.Mm
