import XenOS.Mm.PageFault

/-! Trimming a page and taking the transition fault on it, over and over. The trim keeps five bits
of the entry where the fault expects a protection code, so three decide: write, user and
write-through. -/

namespace XenOS.Mm

open PfnState

/-- `PTE_WRITETHROUGH`, the cache bit that the trim takes for a bit of the protection. -/
def pteWritethrough : Pte := 1#64 <<< 3

/-- What an entry lets a process do with its page. -/
structure Permissions where
  readable : Bool
  writable : Bool
  executable : Bool
  user : Bool
  copyOnWrite : Bool
  deriving DecidableEq

def permissions (pte : Pte) : Permissions where
  readable := pte &&& pteValid ≠ 0
  writable := pte &&& pteReadwrite ≠ 0
  executable := pte &&& pteNx = 0
  user := pte &&& pteUser ≠ 0
  copyOnWrite := pte &&& pteWritecopy ≠ 0

namespace PfnState

/-- The `reference_count` of a page, if the database has an entry for it. -/
def referenceCount (σ : PfnState) (pfn : ℕ) : Option ℕ := (σ.getPfnEntry pfn).map Mmpfn.referenceCount

def flaggedModified (σ : PfnState) (pfn : ℕ) : Bool :=
  (σ.getPfnEntry pfn).any fun e => e.flags &&& PfnFlags.modified ≠ 0

end PfnState

/-- An entry and the page frame database beside it. -/
structure Mapping where
  pte : Pte
  db : PfnState

namespace Mapping

def knownDirty (m : Mapping) : Bool := m.pte &&& pteDirty ≠ 0 || m.db.flaggedModified (ptePfn m.pte)

/-- The page is trimmed. -/
def trim (m : Mapping) : Mapping :=
  let r := miTrimPage m.db m.pte
  ⟨r.1, r.2⟩

/-- The process touches the page. -/
def fault (m : Mapping) : Mapping :=
  let r := miResolveNotPresentFault m.db m.pte
  ⟨r.1, r.2⟩

def round (m : Mapping) : Mapping := m.trim.fault

def rounds (n : ℕ) (m : Mapping) : Mapping := Nat.iterate round n m

/-- `m'` maps the page of `m`, with the same permissions and the same count, and is dirty if `m` was. -/
structure Restores (m m' : Mapping) : Prop where
  valid : m'.pte &&& pteValid ≠ 0
  pfn : ptePfn m'.pte = ptePfn m.pte
  permissions : permissions m'.pte = permissions m.pte
  referenceCount : m'.db.referenceCount (ptePfn m.pte) = m.db.referenceCount (ptePfn m.pte)
  dirty : m.knownDirty → m'.knownDirty

/-- What the bits of the entry and the frame must be for the page to come back as it was. -/
structure Survives (m : Mapping) : Prop where
  readonly : m.pte &&& pteReadwrite = 0
  user : m.pte &&& pteUser ≠ 0
  nx : m.pte &&& pteNx ≠ 0
  noWritecopy : m.pte &&& pteWritecopy = 0
  dirty : m.pte &&& pteDirty ≠ 0 → m.db.flaggedModified (ptePfn m.pte)
  saturated : ∀ count ∈ m.db.referenceCount (ptePfn m.pte), count = 0xFFFF

end Mapping

theorem and_bit_eq_zero (pte : Pte) {k : ℕ} (hk : k < 64) : pte &&& (1#64 <<< k) = 0 ↔ pte.getLsbD k = false := by
  rw [← BitVec.twoPow_eq, BitVec.and_twoPow]
  constructor
  · intro h
    by_contra hbit
    rw [if_pos (by simpa using hbit)] at h
    have hself := congrArg (fun x => x.getLsbD k) h
    simp [hk] at hself
  · intro h
    rw [if_neg (by simp [h])]
    rfl

def trimmedBits (pte : Pte) : BitVec 3 := pte.extractLsb' 1 3

theorem softwareProtection_transitionPte (pte : Pte) :
    softwareProtection (transitionPte pte) &&& 7#32 = (trimmedBits pte).setWidth 32 := by
  apply BitVec.eq_of_getLsbD_eq
  intro i hi
  have hseven : (7#32).getLsbD i = decide (i < 3) := by
    rw [show 7#32 = BitVec.ofNat 32 (2 ^ 3 - 1) from rfl, BitVec.getLsbD_ofNat, Nat.testBit_two_pow_sub_one]
    simp [hi]
  by_cases h3 : i < 3
  · have hcases : i = 0 ∨ i = 1 ∨ i = 2 := by omega
    rcases hcases with rfl | rfl | rfl
    all_goals simp [softwareProtection, transitionPte, trimmedBits, pfnBits, PteState.transition]
  · simp [hseven, trimmedBits, h3]

theorem miSoftwareProtectionToPte_low (protection : BitVec 32) :
    miSoftwareProtectionToPte protection = miSoftwareProtectionToPte (protection &&& 7#32) := by
  have hlow : protection &&& 7#32 &&& 7#32 = protection &&& 7#32 := by
    rw [BitVec.and_assoc]
    rfl
  have hexec : protection &&& 7#32 &&& 4#32 = protection &&& 4#32 := by
    rw [BitVec.and_assoc]
    rfl
  unfold miSoftwareProtectionToPte
  rw [hlow, hexec]

theorem permissions_validPte {pfn : ℕ} (hp : pfn < 2 ^ 40) (protection : BitVec 32) :
    permissions (validPte pfn protection) = permissions (miSoftwareProtectionToPte protection ||| pteValid) := by
  have hflag {mask : Pte} (hm : mask &&& frameless = mask) :
      validPte pfn protection &&& mask = (miSoftwareProtectionToPte protection ||| pteValid) &&& mask := by
    rw [validPte, BitVec.or_assoc]
    exact pfnBits_or_and_frameless hp _ hm
  unfold permissions
  rw [hflag (by decide), hflag (by decide), hflag (by decide), hflag (by decide), hflag (by decide)]

theorem permissions_restored (pte : Pte) :
    permissions (miSoftwareProtectionToPte (softwareProtection (transitionPte pte)) ||| pteValid) =
      { readable := true
        writable := pte.getLsbD 3 && !pte.getLsbD 1
        executable := pte.getLsbD 3
        user := true
        copyOnWrite := pte.getLsbD 3 && pte.getLsbD 1 } := by
  have hall : ∀ x : BitVec 3, permissions (miSoftwareProtectionToPte (x.setWidth 32) ||| pteValid) =
      { readable := true
        writable := x.getLsbD 2 && !x.getLsbD 0
        executable := x.getLsbD 2
        user := true
        copyOnWrite := x.getLsbD 2 && x.getLsbD 0 } := by
    decide
  rw [miSoftwareProtectionToPte_low, softwareProtection_transitionPte, hall]
  simp [trimmedBits]

theorem permissions_eq (pte : Pte) : permissions pte =
    { readable := pte.getLsbD 0
      writable := pte.getLsbD 1
      executable := !pte.getLsbD 63
      user := pte.getLsbD 2
      copyOnWrite := pte.getLsbD 9 } := by
  unfold permissions pteValid pteReadwrite pteNx pteUser pteWritecopy
  simp only [ne_eq, and_bit_eq_zero pte (show 0 < 64 by decide), and_bit_eq_zero pte (show 1 < 64 by decide),
    and_bit_eq_zero pte (show 63 < 64 by decide), and_bit_eq_zero pte (show 2 < 64 by decide),
    and_bit_eq_zero pte (show 9 < 64 by decide)]
  simp

section Frame
variable {σ : PfnState}

/-- The part of a frame's entry that no list operation touches. -/
def Mmpfn.counted (e : Mmpfn) : ℕ × BitVec 8 := (e.referenceCount, e.flags)

theorem counted_miInsertPageInList (L : PageList) (p q : ℕ) :
    ((miInsertPageInList σ L p).entries q).counted = (σ.entries q).counted := by
  unfold miInsertPageInList
  split
  · rfl
  · have hentry : (fun q => ((σ.modifyEntry p fun e =>
        { e with flink := (σ.heads L).flink, blink := listHead, pageLocation := L.name }).entries q).counted) =
        fun q => (σ.entries q).counted := field_modifyEntry_same Mmpfn.counted fun _ => rfl
    exact (congrFun (field_setBlink Mmpfn.counted fun _ => rfl) q).trans (congrFun hentry q)

theorem counted_miRemovePageFromList (L : PageList) (p q : ℕ) :
    ((miRemovePageFromList σ L p).entries q).counted = (σ.entries q).counted := by
  unfold miRemovePageFromList
  split
  · rfl
  · have hlast : ∀ σ' : PfnState, (fun q => ((σ'.modifyEntry p fun e =>
        { e with flink := listHead, blink := listHead }).entries q).counted) = fun q => (σ'.entries q).counted :=
      fun σ' => field_modifyEntry_same Mmpfn.counted fun _ => rfl
    refine (congrFun (hlast _) q).trans ?_
    refine (congrFun (field_setFlink Mmpfn.counted fun _ => rfl) q).trans ?_
    exact congrFun (field_setBlink Mmpfn.counted fun _ => rfl) q

theorem samePages_miTrimPage (pte : Pte) : SamePages σ (miTrimPage σ pte).2 := by
  have hinsert := SamePages.insert σ (trimList pte) (ptePfn pte)
  unfold miTrimPage
  dsimp only
  split
  · exact ⟨hinsert.startPfn, hinsert.endPfn⟩
  · exact ⟨hinsert.startPfn, hinsert.endPfn⟩

theorem counted_miTrimPage (pte : Pte) (q : ℕ) : ((miTrimPage σ pte).2.entries q).counted = (σ.entries q).counted := by
  have hinsert := counted_miInsertPageInList (σ := σ) (trimList pte) (ptePfn pte) q
  unfold miTrimPage
  dsimp only
  split
  · exact hinsert
  · exact hinsert

theorem miTakeTransitionPage_eq {p : ℕ} (hp : σ.isValidPfn p) : ∃ σ₁ : PfnState, SamePages σ σ₁ ∧
    (∀ q, (σ₁.entries q).counted = (σ.entries q).counted) ∧
    miTakeTransitionPage σ p = σ₁.modifyEntry p fun e => { e with pageLocation := .activeAndValid }.addReference := by
  unfold miTakeTransitionPage getPfnEntry
  rw [if_pos hp]
  dsimp only
  split_ifs
  · exact ⟨_, .remove σ .standby p, counted_miRemovePageFromList .standby p, rfl⟩
  · exact ⟨_, .remove σ .modified p, counted_miRemovePageFromList .modified p, rfl⟩
  · exact ⟨σ, .refl σ, fun _ => rfl, rfl⟩

theorem samePages_miTakeTransitionPage (p : ℕ) : SamePages σ (miTakeTransitionPage σ p) := by
  by_cases hp : σ.isValidPfn p
  · obtain ⟨σ₁, hsame, -, heq⟩ := miTakeTransitionPage_eq hp
    rw [heq]
    exact hsame.trans (.modifyEntry _ _ _)
  · unfold miTakeTransitionPage getPfnEntry
    rw [if_neg hp]
    exact .refl σ

theorem counted_miTakeTransitionPage {p : ℕ} (hp : σ.isValidPfn p) :
    ((miTakeTransitionPage σ p).entries p).counted = (σ.entries p).addReference.counted := by
  obtain ⟨σ₁, hsame, hcounted, heq⟩ := miTakeTransitionPage_eq hp
  have hfields := Prod.ext_iff.1 (hcounted p)
  rw [heq, entries_modifyEntry (hsame.valid_iff.2 hp), Function.update_self]
  exact Prod.ext (congrArg (fun n => min (n + 1) 0xFFFF) hfields.1) hfields.2

end Frame

namespace Mapping
variable {m : Mapping}

theorem fault_trim (m : Mapping) : m.round =
    ⟨validPte (ptePfn m.pte) (softwareProtection (transitionPte m.pte)),
      miTakeTransitionPage (miTrimPage m.db m.pte).2 (ptePfn m.pte)⟩ := by
  have hzero : transitionPte m.pte ≠ 0 := fun h => by
    have hbit : transitionPte m.pte &&& PteState.transition = PteState.transition &&& PteState.transition :=
      transitionPte_and m.pte (by decide)
    rw [h] at hbit
    exact absurd hbit (by decide)
  have hdemand : transitionPte m.pte &&& PteState.demandZero = 0 := by
    rw [transitionPte_and _ (by decide)]
    decide
  have htransition : transitionPte m.pte &&& PteState.transition ≠ 0 := by
    rw [transitionPte_and _ (by decide)]
    decide
  show fault ⟨transitionPte m.pte, (miTrimPage m.db m.pte).2⟩ = _
  unfold fault miResolveNotPresentFault
  rw [if_neg hzero, if_neg (not_not.2 hdemand), if_pos htransition]
  unfold miHandleTransitionFault
  rw [ptePfn_transitionPte]

theorem samePages_round (m : Mapping) : SamePages m.db m.round.db := by
  rw [fault_trim]
  exact (samePages_miTrimPage m.pte).trans (samePages_miTakeTransitionPage _)

theorem ptePfn_round (m : Mapping) : ptePfn m.round.pte = ptePfn m.pte := by
  rw [fault_trim]
  exact ptePfn_validPte (ptePfn_lt m.pte) _

theorem counted_round (hp : m.db.isValidPfn (ptePfn m.pte)) :
    (m.round.db.entries (ptePfn m.pte)).counted = (m.db.entries (ptePfn m.pte)).addReference.counted := by
  have htrim := Prod.ext_iff.1 (counted_miTrimPage (σ := m.db) m.pte (ptePfn m.pte))
  rw [fault_trim, counted_miTakeTransitionPage ((samePages_miTrimPage m.pte).valid_iff.2 hp)]
  exact Prod.ext (congrArg (fun n => min (n + 1) 0xFFFF) htrim.1) htrim.2

theorem referenceCount_round (m : Mapping) : m.round.db.referenceCount (ptePfn m.pte) =
    (m.db.referenceCount (ptePfn m.pte)).map fun count => min (count + 1) 0xFFFF := by
  unfold PfnState.referenceCount getPfnEntry
  by_cases hp : m.db.isValidPfn (ptePfn m.pte)
  · rw [if_pos hp, if_pos ((samePages_round m).valid_iff.2 hp)]
    exact congrArg some (Prod.ext_iff.1 (counted_round hp)).1
  · rw [if_neg hp, if_neg (mt (samePages_round m).valid_iff.1 hp)]
    rfl

theorem flaggedModified_round (m : Mapping) :
    m.round.db.flaggedModified (ptePfn m.pte) = m.db.flaggedModified (ptePfn m.pte) := by
  unfold flaggedModified getPfnEntry
  by_cases hp : m.db.isValidPfn (ptePfn m.pte)
  · rw [if_pos hp, if_pos ((samePages_round m).valid_iff.2 hp)]
    have hflags : (m.round.db.entries (ptePfn m.pte)).flags = (m.db.entries (ptePfn m.pte)).flags :=
      (Prod.ext_iff.1 (counted_round hp)).2
    simp only [Option.any_some, hflags]
  · rw [if_neg hp, if_neg (mt (samePages_round m).valid_iff.1 hp)]

theorem permissions_round (m : Mapping) : permissions m.round.pte =
    { readable := true
      writable := m.pte.getLsbD 3 && !m.pte.getLsbD 1
      executable := m.pte.getLsbD 3
      user := true
      copyOnWrite := m.pte.getLsbD 3 && m.pte.getLsbD 1 } := by
  rw [fault_trim, permissions_validPte (ptePfn_lt m.pte), permissions_restored]

theorem round_clears (m : Mapping) : m.round.pte &&& pteDirty = 0 ∧ m.round.pte &&& pteWritethrough = 0 := by
  have hall : ∀ x : BitVec 3, (miSoftwareProtectionToPte (x.setWidth 32) ||| pteValid) &&& pteDirty = 0 ∧
      (miSoftwareProtectionToPte (x.setWidth 32) ||| pteValid) &&& pteWritethrough = 0 := by
    decide
  have hlow {mask : Pte} (hm : mask &&& 0xFFF#64 = mask) : m.round.pte &&& mask =
      (miSoftwareProtectionToPte ((trimmedBits m.pte).setWidth 32) ||| pteValid) &&& mask := by
    rw [fault_trim, validPte, BitVec.or_assoc, pfnBits_or_and _ _ hm, miSoftwareProtectionToPte_low,
      softwareProtection_transitionPte]
  rw [hlow (by decide), hlow (by decide)]
  exact hall _

theorem rounds_succ (n : ℕ) (m : Mapping) : m.rounds (n + 1) = (m.rounds n).round := Function.iterate_succ_apply' round n m

theorem ptePfn_rounds (n : ℕ) (m : Mapping) : ptePfn (m.rounds n).pte = ptePfn m.pte := by
  induction n with
  | zero => rfl
  | succ n ih => rw [rounds_succ, ptePfn_round, ih]

theorem referenceCount_rounds (n : ℕ) (m : Mapping) : (m.rounds (n + 1)).db.referenceCount (ptePfn m.pte) =
    (m.db.referenceCount (ptePfn m.pte)).map fun count => min (count + (n + 1)) 0xFFFF := by
  induction n with
  | zero => exact referenceCount_round m
  | succ n ih =>
    have hround := referenceCount_round (m.rounds (n + 1))
    rw [ptePfn_rounds] at hround
    rw [rounds_succ, hround, ih, Option.map_map]
    congr 1
    funext count
    simp only [Function.comp_apply]
    omega

theorem flaggedModified_rounds (n : ℕ) (m : Mapping) :
    (m.rounds n).db.flaggedModified (ptePfn m.pte) = m.db.flaggedModified (ptePfn m.pte) := by
  induction n with
  | zero => rfl
  | succ n ih =>
    have hround := flaggedModified_round (m.rounds n)
    rw [ptePfn_rounds] at hround
    rw [rounds_succ, hround, ih]

theorem knownDirty_rounds (n : ℕ) (m : Mapping) : (m.rounds (n + 1)).knownDirty = m.db.flaggedModified (ptePfn m.pte) := by
  have hclear := (round_clears (m.rounds n)).1
  unfold knownDirty
  rw [ptePfn_rounds, flaggedModified_rounds, rounds_succ]
  simp [hclear]

theorem valid_round (m : Mapping) : m.round.pte &&& pteValid ≠ 0 := by
  rw [fault_trim, validPte_and_valid]
  decide

theorem permissions_rounds (n : ℕ) (m : Mapping) : permissions (m.rounds (n + 2)).pte = ⟨true, false, false, true, false⟩ := by
  have hclear : (m.rounds (n + 1)).pte.getLsbD 3 = false := by
    rw [rounds_succ]
    exact (and_bit_eq_zero _ (by decide)).1 (round_clears (m.rounds n)).2
  rw [rounds_succ, permissions_round, hclear]
  rfl

/-- A read-only user page without execution and copy on write keeps its permissions, in the first
round only if cached write-back. -/
theorem permissions_rounds_iff {n : ℕ} (hv : m.pte &&& pteValid ≠ 0) : permissions (m.rounds (n + 1)).pte = permissions m.pte ↔
    (m.pte &&& pteReadwrite = 0 ∧ m.pte &&& pteUser ≠ 0 ∧ m.pte &&& pteNx ≠ 0 ∧ m.pte &&& pteWritecopy = 0) ∧
      (n = 0 → m.pte &&& pteWritethrough = 0) := by
  have hvalid : m.pte.getLsbD 0 = true := by
    simpa using mt (and_bit_eq_zero m.pte (show 0 < 64 by decide)).2 hv
  rw [permissions_eq m.pte, hvalid]
  unfold pteReadwrite pteUser pteNx pteWritecopy pteWritethrough
  simp only [ne_eq, and_bit_eq_zero m.pte (show 1 < 64 by decide), and_bit_eq_zero m.pte (show 2 < 64 by decide),
    and_bit_eq_zero m.pte (show 63 < 64 by decide), and_bit_eq_zero m.pte (show 9 < 64 by decide),
    and_bit_eq_zero m.pte (show 3 < 64 by decide)]
  cases n with
  | zero =>
    rw [show m.rounds (0 + 1) = m.round from rfl, permissions_round]
    simp only [Permissions.mk.injEq]
    cases m.pte.getLsbD 1 <;> cases m.pte.getLsbD 2 <;> cases m.pte.getLsbD 3 <;> simp
  | succ n =>
    rw [permissions_rounds]
    simp only [Permissions.mk.injEq]
    cases m.pte.getLsbD 1 <;> cases m.pte.getLsbD 2 <;> simp

/-- A page comes back as it was exactly if it is clean, read-only, for user mode and without
execution, and its count is at its end. -/
theorem restores_iff (m : Mapping) (hv : m.pte &&& pteValid ≠ 0) (n : ℕ) :
    m.Restores (m.rounds n) ↔ n = 0 ∨ (m.Survives ∧ (n = 1 → m.pte &&& pteWritethrough = 0)) := by
  cases n with
  | zero => exact ⟨fun _ => Or.inl rfl, fun _ => ⟨hv, rfl, rfl, rfl, id⟩⟩
  | succ n =>
    have hperm := permissions_rounds_iff (n := n) hv
    have hcount := referenceCount_rounds n m
    have hdirty := knownDirty_rounds n m
    constructor
    · intro h
      obtain ⟨⟨hw, hu, hx, hc⟩, hthrough⟩ := hperm.1 h.permissions
      refine Or.inr ⟨⟨hw, hu, hx, hc, fun hd => ?_, fun count hmem => ?_⟩, fun hn => hthrough (by omega)⟩
      · have hbefore : m.knownDirty = true := by
          unfold knownDirty
          rw [Bool.or_eq_true]
          exact Or.inl (decide_eq_true hd)
        have hknown := h.dirty hbefore
        rwa [hdirty] at hknown
      · have heq := h.referenceCount
        rw [hcount, hmem] at heq
        have hfix : min (count + (n + 1)) 0xFFFF = count := Option.some.inj heq
        omega
    · rintro (hn | ⟨hs, hthrough⟩)
      · exact absurd hn (Nat.succ_ne_zero n)
      refine ⟨?_, ptePfn_rounds _ m, ?_, ?_, fun hd => ?_⟩
      · rw [rounds_succ]
        exact valid_round _
      · exact hperm.2 ⟨⟨hs.readonly, hs.user, hs.nx, hs.noWritecopy⟩, fun hn => hthrough (by omega)⟩
      · rw [hcount]
        cases hcase : m.db.referenceCount (ptePfn m.pte) with
        | none => rfl
        | some count =>
          have hmax := hs.saturated count hcase
          subst hmax
          simp
      · rw [hdirty]
        unfold knownDirty at hd
        by_cases hbit : m.pte &&& pteDirty = 0
        · simpa [hbit] using hd
        · exact hs.dirty hbit

def ofFlags (flags : Pte) (count : ℕ) : Mapping :=
  ⟨pfnBits 5 ||| flags, (PfnState.init 0 8).modifyEntry 5 fun e => { e with referenceCount := count }⟩

theorem restores_threeRounds : (ofFlags (pteValid ||| pteUser ||| pteNx) 0xFFFF).Restores
    ((ofFlags (pteValid ||| pteUser ||| pteNx) 0xFFFF).rounds 3) :=
  (restores_iff (ofFlags (pteValid ||| pteUser ||| pteNx) 0xFFFF) (by decide) 3).2
    (Or.inr ⟨⟨by decide, by decide, by decide, by decide, by decide, by decide⟩, by decide⟩)

/-- A writable page comes back read-only. -/
theorem round_loses_write : ¬ (ofFlags (pteValid ||| pteReadwrite ||| pteUser ||| pteNx) 1).Restores
    ((ofFlags (pteValid ||| pteReadwrite ||| pteUser ||| pteNx) 1).rounds 1) := by
  intro h
  have hkept := (permissions_rounds_iff (n := 0) (by decide)).1 h.permissions
  exact absurd hkept.1.1 (by decide)

end Mapping

end XenOS.Mm
