import XenOS.Mm.SectionView
import XenOS.Mm.VadTree
import Mathlib.Data.Nat.Bitwise

/-! What a view has to show. A page's entry is the address of its prototype entry with the prototype
bit set; an address is a multiple of 8, so two neighbouring pages share their entry, and no reading
separates them. -/

namespace XenOS.Mm

open General

variable {ptes : ℕ → Pte} {base firstPte : ℕ}

theorem mmGetPteAddress_wrapping (va : ℕ) : mmGetPteAddress (wrapping va) = mmGetPteAddress va := by
  unfold mmGetPteAddress wrapping
  omega

theorem mmGetPteAddress_inj {i j : ℕ} (hi : base + i * pageSize < 2 ^ 47) (hj : base + j * pageSize < 2 ^ 47)
    (h : mmGetPteAddress (wrapping (base + i * pageSize)) = mmGetPteAddress (wrapping (base + j * pageSize))) :
    i = j := by
  unfold mmGetPteAddress wrapping pageSize at *
  omega

theorem writeViewPtes_apply {count k : ℕ} (hk : k < count) (huser : base + count * pageSize ≤ 2 ^ 47) :
    writeViewPtes ptes base firstPte count (mmGetPteAddress (wrapping (base + k * pageSize))) =
      prototypeReference (wrapping (firstPte + 8 * k)) := by
  induction count with
  | zero => cases hk
  | succ count ih =>
    have hpage : 0 < pageSize := by decide
    rw [Nat.succ_mul] at huser
    unfold writeViewPtes
    by_cases hlast : k = count
    · rw [hlast, Function.update_self]
    · have hlt : k < count := by omega
      have hmul := Nat.mul_lt_mul_of_pos_right hlt hpage
      rw [Function.update_of_ne, ih hlt (by omega)]
      intro heq
      exact hlast (mmGetPteAddress_inj (by omega) (by omega) heq)

theorem prototypeReference_add_eight {address : ℕ} (h : address / 8 % 2 = 0) :
    prototypeReference (wrapping (address + 8)) = prototypeReference (wrapping address) := by
  have hword (n : ℕ) : BitVec.ofNat 64 (wrapping n) = BitVec.ofNat 64 n := by
    apply BitVec.eq_of_toNat_eq
    simp [wrapping]
  have hclear : BitVec.ofNat 64 address &&& 8#64 = 0#64 := by
    apply BitVec.eq_of_toNat_eq
    have hbit : (address % 2 ^ 64).testBit 3 = false := by
      rw [Nat.testBit_eq_decide_div_mod_eq]
      simp only [decide_eq_false_iff_not]
      omega
    rw [BitVec.toNat_and, BitVec.toNat_ofNat]
    change address % 2 ^ 64 &&& 2 ^ 3 = 0
    rw [Nat.and_two_pow, hbit]
    rfl
  unfold prototypeReference
  rw [hword, hword, BitVec.ofNat_add, BitVec.add_eq_or_of_and_eq_zero _ _ hclear, BitVec.or_assoc]
  rfl

/-- A view of the section as the call asks for it. `prototypePte` reads an entry as the address of its prototype. -/
structure ShowsView (s : AddressSpace) (sec : SectionObject) (size : BitVec 64) (call : MapCall) (out : MapOutcome)
    (vad : ViewVad) : Prop where
  aligned : out.baseAddress % pageSize = 0 ∧ out.viewSize % pageSize = 0 ∧ 0 < out.viewSize
  user : out.baseAddress + out.viewSize ≤ 0x7FFFFFFFFFFF + 1
  outputs : vad.startingVpn * pageSize = out.baseAddress ∧ (vad.endingVpn + 1) * pageSize = out.baseAddress + out.viewSize
  free : ∀ t ∈ s.vadTable, ∀ u, t.tree.Rep t.tree.root u → ∀ x ∈ inorder u,
    t.endingVpn x < vad.startingVpn ∨ vad.endingVpn < t.startingVpn x
  backed : ∃ prototypePte : Pte → ℕ, ∀ k < out.viewSize / pageSize,
    call.offset / pageSize + k < sec.totalNumberOfPtes ∧
      prototypePte (out.space.ptes (mmGetPteAddress (out.baseAddress + k * pageSize))) =
        sec.firstPrototypePte + 8 * (call.offset / pageSize + k)
  exact : size.toNat + pageSize - 1 < 2 ^ 64 ∧ call.actualViewSize sec + mmAllocationGranularity - 1 < 2 ^ 64 ∧
    sec.ptesInSubsection = sec.totalNumberOfPtes

def MapsView (s : AddressSpace) (sec : SectionObject) (size : BitVec 64) (call : MapCall) (out : MapOutcome) : Prop :=
  match out.vad with
  | some vad => ShowsView s sec size call out vad
  | none => out.space = s ∧ out.numberOfMappedViews = sec.numberOfMappedViews

def MapCall.Refused (fuel : ℕ) (s : AddressSpace) (sec : SectionObject) (call : MapCall) : Prop :=
  ¬ call.argumentsPresent ∨ call.referenced ≠ .success ∨ ¬ call.vadAllocated ∨
    (call.baseAddress.toNat = 0 ∧
      miFindEmptyAddressRangeForSection fuel s.vadTable (call.alignedSize sec) mmAllocationGranularity = some 0)

variable {fuel : ℕ} {s : AddressSpace} {sec : SectionObject} {size : BitVec 64} {call : MapCall} {out : MapOutcome}

theorem MapCall.Refused.mapsView (h : call.Refused fuel s sec) (hreturns : ntMapViewOfSection fuel s sec call = some out) :
    MapsView s sec size call out := by
  have hfailed : out.vad = none ∧ out.space = s ∧ out.numberOfMappedViews = sec.numberOfMappedViews := by
    unfold ntMapViewOfSection at hreturns
    dsimp only at hreturns
    split at hreturns
    · rw [← Option.some.inj hreturns]
      exact ⟨rfl, rfl, rfl⟩
    · rename_i hpresent
      split at hreturns
      · rw [← Option.some.inj hreturns]
        exact ⟨rfl, rfl, rfl⟩
      · rename_i hreferenced
        cases hbase : call.actualBase fuel s sec with
        | none =>
          rw [hbase] at hreturns
          cases hreturns
        | some base =>
          rw [hbase] at hreturns
          dsimp only at hreturns
          split at hreturns
          · rw [← Option.some.inj hreturns]
            exact ⟨rfl, rfl, rfl⟩
          · rename_i hfound
            have hnone : miMapViewInProcess s sec call base (call.alignedSize sec) call.offset = none := by
              rcases h with hargument | hhandle | hvad | ⟨hzero, hsearch⟩
              · exact absurd hargument hpresent
              · exact absurd hhandle hreferenced
              · exact if_pos hvad
              · unfold MapCall.actualBase at hbase
                rw [if_pos hzero, hsearch] at hbase
                exact absurd ⟨hzero, (Option.some.inj hbase).symm⟩ hfound
            rw [hnone] at hreturns
            dsimp only at hreturns
            rw [← Option.some.inj hreturns]
            exact ⟨rfl, rfl, rfl⟩
  unfold MapsView
  rw [hfailed.1]
  exact hfailed.2

theorem ntMapViewOfSection_of_not_refused (h : ¬ call.Refused fuel s sec)
    (hreturns : ntMapViewOfSection fuel s sec call = some out) :
    (∃ vad, out.vad = some vad) ∧ out.viewSize = call.alignedSize sec ∧
      out.space.ptes = writeViewPtes s.ptes out.baseAddress
        (wrapping (sec.firstPrototypePte + 8 * (call.offset / pageSize))) (call.alignedSize sec / pageSize) := by
  simp only [MapCall.Refused, not_or, not_not, not_and] at h
  obtain ⟨hpresent, hreferenced, hvad, hsearch⟩ := h
  unfold ntMapViewOfSection at hreturns
  dsimp only at hreturns
  rw [if_neg (not_not.2 hpresent), if_neg (not_not.2 hreferenced)] at hreturns
  cases hbase : call.actualBase fuel s sec with
  | none =>
    rw [hbase] at hreturns
    cases hreturns
  | some base =>
    have hfound : ¬ (call.baseAddress.toNat = 0 ∧ base = 0) := by
      rintro ⟨hzero, rfl⟩
      unfold MapCall.actualBase at hbase
      rw [if_pos hzero] at hbase
      exact hsearch hzero hbase
    rw [hbase] at hreturns
    dsimp only at hreturns
    rw [if_neg hfound] at hreturns
    unfold miMapViewInProcess at hreturns
    rw [if_neg (not_not.2 hvad)] at hreturns
    dsimp only at hreturns
    rw [← Option.some.inj hreturns]
    exact ⟨⟨_, rfl⟩, rfl, rfl⟩

theorem not_showsView (h : ¬ call.Refused fuel s sec) (hreturns : ntMapViewOfSection fuel s sec call = some out)
    (vad : ViewVad) : ¬ ShowsView s sec size call out vad := by
  intro hshows
  obtain ⟨-, hsize, hptes⟩ := ntMapViewOfSection_of_not_refused h hreturns
  obtain ⟨-, -, hpos⟩ := hshows.aligned
  have huser := hshows.user
  obtain ⟨prototypePte, hbacked⟩ := hshows.backed
  rw [hptes, hsize] at hbacked
  rw [hsize] at hpos huser
  have hgranular : call.alignedSize sec % 0x10000 = 0 := Nat.mul_mod_left _ _
  have hpages : 16 ≤ call.alignedSize sec / pageSize := by
    unfold pageSize
    omega
  have hend : out.baseAddress + call.alignedSize sec / pageSize * pageSize ≤ 2 ^ 47 := by
    unfold pageSize
    omega
  -- the first or the second page starts a pair of entries that differ in the prototype bit only
  obtain ⟨k, hk, heven⟩ : ∃ k ≤ 1, (wrapping (sec.firstPrototypePte + 8 * (call.offset / pageSize)) + 8 * k) / 8 % 2 = 0 := by
    generalize wrapping (sec.firstPrototypePte + 8 * (call.offset / pageSize)) = first
    by_cases hfirst : first / 8 % 2 = 0
    · exact ⟨0, by omega, by omega⟩
    · exact ⟨1, by omega, by omega⟩
  obtain ⟨-, hthis⟩ := hbacked k (by omega)
  obtain ⟨-, hnext⟩ := hbacked (k + 1) (by omega)
  rw [← mmGetPteAddress_wrapping, writeViewPtes_apply (by omega) hend] at hthis hnext
  have hsame := prototypeReference_add_eight heven
  rw [Nat.mul_add, ← Nat.add_assoc, Nat.mul_one, hsame, hthis] at hnext
  omega

/-- A call of `NtMapViewOfSection` on a section of any size does what it should exactly if it is refused. -/
theorem mapsView_iff (pool : SectionPool) (size : BitVec 64) (protection : BitVec 32) (fuel : ℕ) (s : AddressSpace)
    (sec : SectionObject) (call : MapCall) (out : MapOutcome) :
    miInitPagefileSection pool size protection = some sec → ntMapViewOfSection fuel s sec call = some out →
      (MapsView s sec size call out ↔ call.Refused fuel s sec) := by
  intro _ hreturns
  constructor
  · intro hmaps
    by_contra hnot
    obtain ⟨⟨vad, hvad⟩, -⟩ := ntMapViewOfSection_of_not_refused hnot hreturns
    unfold MapsView at hmaps
    rw [hvad] at hmaps
    exact not_showsView hnot hreturns vad hmaps
  · exact fun hrefused => hrefused.mapsView hreturns

def pagePool : SectionPool := { controlArea := true, segment := true, subsection := true, prototypePtes := fun _ => some 0xFFFFA00000010000 }

def smallSection : SectionObject where
  segmentSize := 0x10000
  totalNumberOfPtes := 16
  firstPrototypePte := 0xFFFFA00000010000
  lastPrototypePte := 0xFFFFA00000010080
  ptesInSubsection := 16
  subsectionProtection := miConvertProtection 4#32
  numberOfMappedViews := 0

def emptySpace : AddressSpace := { vadTable := none, ptes := fun _ => 0 }

def wholeView (vadAllocated : Bool) : MapCall where
  argumentsPresent := true
  referenced := .success
  vadAllocated := vadAllocated
  baseAddress := 0x20000000#64
  sectionOffset := none
  viewSize := 0#64
  win32Protect := 4#32

/-- A call that finds no memory for its VAD leaves everything as it was. -/
theorem mapsView_without_memory : ∃ out, ntMapViewOfSection 1 emptySpace smallSection (wholeView false) = some out ∧
    MapsView emptySpace smallSection 0x10000#64 (wholeView false) out :=
  ⟨_, rfl, (mapsView_iff pagePool 0x10000#64 4#32 1 emptySpace smallSection (wholeView false) _ rfl rfl).2
    (.inr (.inr (.inl (by decide))))⟩

/-- A view of the whole section: two pages of it have the same entry. -/
theorem whole_view_not_shown : miInitPagefileSection pagePool 0x10000#64 4#32 = some smallSection ∧
    ∃ out, ntMapViewOfSection 1 emptySpace smallSection (wholeView true) = some out ∧
      ¬ MapsView emptySpace smallSection 0x10000#64 (wholeView true) out := by
  have hmapped : ¬ (wholeView true).Refused 1 emptySpace smallSection := by
    rintro (hargument | hhandle | hvad | ⟨hzero, -⟩)
    · exact hargument rfl
    · exact hhandle rfl
    · exact hvad rfl
    · revert hzero
      decide
  exact ⟨rfl, _, rfl, fun hmaps => not_showsView hmapped rfl _ hmaps⟩

end XenOS.Mm
