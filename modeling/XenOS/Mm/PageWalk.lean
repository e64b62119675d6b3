import XenOS.Mm.PageFault

/-! The page walk of an MDL beside the translation of the hardware. The walk reads the page
directory and page table entries through the self-map; kernel addresses below
`HHDM_END` it does not look up at all. -/

namespace XenOS.Mm

def pteLargePage : Pte := 1#64 <<< 7

/-- `PDE_BASE`: the self-map window onto the page directory entries. -/
def pdeBase : ℕ := 0xFFFFF6FB40000000

/-- `mm_get_pde_address`. The mask has 35 bits, eight more than a page directory index of 48-bit addresses. -/
def mmGetPdeAddress (virtualAddress : ℕ) : ℕ := pdeBase + virtualAddress / 2 ^ 21 % 2 ^ 35 * 8

def pxiSelf : ℕ := 493

inductive AccessMode where
  | kernelMode | userMode
  deriving DecidableEq

structure PhysicalTables where
  cr3 : ℕ
  entry : ℕ → ℕ → Pte

/-- The four indices of an address. -/
def pxi (va : ℕ) : ℕ := va / 2 ^ 39 % 512
def ppi (va : ℕ) : ℕ := va / 2 ^ 30 % 512
def pdi (va : ℕ) : ℕ := va / 2 ^ 21 % 512
def pti (va : ℕ) : ℕ := va / 2 ^ 12 % 512

/-- The frame of the page of a 2 MB page that an address lies in. -/
def largePfn (pde : Pte) (va : ℕ) : ℕ := ((pde &&& 0x000FFFFFFFE00000#64) >>> 12).toNat + va / 2 ^ 12 % 512

structure Leaf where
  upper : List Pte
  entry : Pte
  pfn : ℕ

def Grants (accessMode : AccessMode) (needWrite : Bool) (e : Pte) : Prop :=
  (accessMode = .userMode → e &&& pteUser ≠ 0) ∧ (needWrite = true → e &&& pteReadwrite ≠ 0)

instance (accessMode : AccessMode) (needWrite : Bool) (e : Pte) : Decidable (Grants accessMode needWrite e) :=
  inferInstanceAs (Decidable (_ ∧ _))

namespace PhysicalTables
variable (t : PhysicalTables)

def pxe (va : ℕ) : Pte := t.entry t.cr3 (pxi va)
def ppe (va : ℕ) : Pte := t.entry (ptePfn (t.pxe va)) (ppi va)
def pde (va : ℕ) : Pte := t.entry (ptePfn (t.ppe va)) (pdi va)
def pte (va : ℕ) : Pte := t.entry (ptePfn (t.pde va)) (pti va)

def translate (va : ℕ) : Option Leaf :=
  if t.pxe va &&& pteValid = 0 then none
  else if t.ppe va &&& pteValid = 0 then none
  else if t.pde va &&& pteValid = 0 then none
  else if t.pde va &&& pteLargePage ≠ 0 then some ⟨[t.pxe va, t.ppe va], t.pde va, largePfn (t.pde va) va⟩
  else if t.pte va &&& pteValid = 0 then none
  else some ⟨[t.pxe va, t.ppe va, t.pde va], t.pte va, ptePfn (t.pte va)⟩

/-- The hardware translates the address to the frame, and every level grants the access. -/
def Permits (va : ℕ) (accessMode : AccessMode) (needWrite : Bool) (pfn : ℕ) : Prop :=
  ∃ leaf, t.translate va = some leaf ∧ leaf.pfn = pfn ∧ ∀ e ∈ leaf.entry :: leaf.upper, Grants accessMode needWrite e

/-- `read_volatile` of a word by the kernel; `none` is a page fault. -/
def readVolatile (va : ℕ) : Option Pte := (t.translate va).map fun leaf => t.entry leaf.pfn (va % 4096 / 8)

/-- The self-reference is installed, and the two upper levels map no pages of their own. -/
structure SelfMapped : Prop where
  selfValid : t.entry t.cr3 pxiSelf &&& pteValid ≠ 0
  selfPfn : ptePfn (t.entry t.cr3 pxiSelf) = t.cr3
  pxeSmall : ∀ va, t.pxe va &&& pteValid ≠ 0 → t.pxe va &&& pteLargePage = 0
  ppeSmall : ∀ va, t.pxe va &&& pteValid ≠ 0 → t.ppe va &&& pteValid ≠ 0 → t.ppe va &&& pteLargePage = 0

end PhysicalTables

def hhdmBase : ℕ := 0xFFFF800000000000
def hhdmEnd : ℕ := 0xFFFFFFFF80000000

/-- The end of the direct map of 8 TB. -/
def directEnd : ℕ := 0xFFFF880000000000

/-- The documented layout: the self-map, and a direct map of the physical memory, which has no page from 8 TB on. -/
structure Documented (t : PhysicalTables) : Prop extends t.SelfMapped where
  direct : ∀ va needWrite, hhdmBase ≤ va → va < directEnd → t.Permits va .kernelMode needWrite ((va - hhdmBase) / pageSize)
  frames : ∀ va leaf, t.translate va = some leaf → leaf.pfn < 2 ^ 31

def TakenForDirect (va : ℕ) (accessMode : AccessMode) : Prop := accessMode = .kernelMode ∧ hhdmBase ≤ va ∧ va < hhdmEnd

instance (va : ℕ) (accessMode : AccessMode) : Decidable (TakenForDirect va accessMode) := inferInstanceAs (Decidable (_ ∧ _))

def walkEntry (t : PhysicalTables) (va : ℕ) (accessMode : AccessMode) (needWrite : Bool) (pdeValue : Pte) :
    Option (Except Ntstatus ℕ) :=
  if pdeValue &&& pteValid = 0 then some (.error .accessViolation)
  else if pdeValue &&& pteLargePage ≠ 0 then
    if accessMode = .userMode ∧ pdeValue &&& pteUser = 0 then some (.error .accessViolation)
    else if needWrite = true ∧ pdeValue &&& pteReadwrite = 0 then some (.error .accessViolation)
    else some (.ok (largePfn pdeValue va))
  else do
    let pteValue ← t.readVolatile (mmGetPteAddress va)
    if pteValue &&& pteValid = 0 then some (.error .accessViolation)
    else if accessMode = .userMode ∧ pteValue &&& pteUser = 0 then some (.error .accessViolation)
    else if needWrite = true ∧ pteValue &&& pteReadwrite = 0 then some (.error .accessViolation)
    else some (.ok (ptePfn pteValue))

/-- `mi_page_walk`; `none` is a page fault of the kernel on a self-map address. -/
def miPageWalk (t : PhysicalTables) (va : ℕ) (accessMode : AccessMode) (needWrite : Bool) : Option (Except Ntstatus ℕ) :=
  if TakenForDirect va accessMode then some (.ok ((va - hhdmBase) / pageSize))
  else do
    let pdeValue ← t.readVolatile (mmGetPdeAddress va)
    walkEntry t va accessMode needWrite pdeValue

/-- The walk answers with a frame exactly if the hardware would let the access through to it. -/
def Agrees (t : PhysicalTables) (va : ℕ) (accessMode : AccessMode) (needWrite : Bool) : Prop :=
  ∀ pfn, miPageWalk t va accessMode needWrite = some (.ok pfn) ↔ t.Permits va accessMode needWrite pfn

namespace PhysicalTables
variable {t : PhysicalTables} {va : ℕ}

theorem pte_address_indices (va : ℕ) : pxi (mmGetPteAddress va) = pxiSelf ∧ ppi (mmGetPteAddress va) = pxi va ∧
    pdi (mmGetPteAddress va) = ppi va ∧ pti (mmGetPteAddress va) = pdi va ∧ mmGetPteAddress va % 4096 / 8 = pti va := by
  unfold pxi ppi pdi pti mmGetPteAddress pteBase pxiSelf
  refine ⟨?_, ?_, ?_, ?_, ?_⟩
  all_goals omega

theorem pde_address_indices (hva : va < 2 ^ 47) : pxi (mmGetPdeAddress va) = pxiSelf ∧ ppi (mmGetPdeAddress va) = pxiSelf ∧
    pdi (mmGetPdeAddress va) = pxi va ∧ pti (mmGetPdeAddress va) = ppi va ∧ mmGetPdeAddress va % 4096 / 8 = pdi va := by
  unfold pxi ppi pdi pti mmGetPdeAddress pdeBase pxiSelf
  refine ⟨?_, ?_, ?_, ?_, ?_⟩
  all_goals omega

def present (e : Pte) : Bool := e &&& pteValid ≠ 0

/-- The word at the address that the walk computes is the page directory entry, as far as one of them is present. -/
def ReadsPde (t : PhysicalTables) (va : ℕ) : Prop := (t.readVolatile (mmGetPdeAddress va)).filter present =
  Option.filter present
    (if t.pxe va &&& pteValid = 0 then none else if t.ppe va &&& pteValid = 0 then none else some (t.pde va))

theorem readsPde_user (h : t.SelfMapped) (hva : va < 2 ^ 47) : t.ReadsPde va := by
  obtain ⟨hpxi, hppi, hpdi, hpti, hword⟩ := pde_address_indices hva
  have hpxe : t.pxe (mmGetPdeAddress va) = t.entry t.cr3 pxiSelf := by rw [pxe, hpxi]
  have hppe : t.ppe (mmGetPdeAddress va) = t.entry t.cr3 pxiSelf := by rw [ppe, hpxe, h.selfPfn, hppi]
  have hpde : t.pde (mmGetPdeAddress va) = t.pxe va := by rw [pde, hppe, h.selfPfn, hpdi, pxe]
  have hpte : t.pte (mmGetPdeAddress va) = t.ppe va := by rw [pte, hpde, hpti, ppe]
  refine congrArg (Option.filter present) ?_
  unfold readVolatile translate
  rw [hpxe, hppe, hpde, hpte, hword, if_neg h.selfValid, if_neg h.selfValid]
  by_cases hx : t.pxe va &&& pteValid = 0
  · simp [hx]
  · rw [if_neg hx, if_neg hx, if_neg (not_not.2 (h.pxeSmall va hx))]
    by_cases hp : t.ppe va &&& pteValid = 0
    · simp [hp]
    · rw [if_neg hp, if_neg hp]
      rfl

theorem readVolatile_pte (h : t.SelfMapped) (hx : t.pxe va &&& pteValid ≠ 0)
    (hp : t.ppe va &&& pteValid ≠ 0) (hd : t.pde va &&& pteValid ≠ 0) :
    t.readVolatile (mmGetPteAddress va) = some (t.pte va) := by
  obtain ⟨hpxi, hppi, hpdi, hpti, hword⟩ := pte_address_indices va
  have hpxe : t.pxe (mmGetPteAddress va) = t.entry t.cr3 pxiSelf := by rw [pxe, hpxi]
  have hppe : t.ppe (mmGetPteAddress va) = t.pxe va := by rw [ppe, hpxe, h.selfPfn, hppi, pxe]
  have hpde : t.pde (mmGetPteAddress va) = t.ppe va := by rw [pde, hppe, hpdi, ppe]
  have hpte : t.pte (mmGetPteAddress va) = t.pde va := by rw [pte, hpde, hpti, pde]
  unfold readVolatile translate
  rw [hpxe, hppe, hpde, hpte, hword, if_neg h.selfValid, if_neg hx, if_neg hp,
    if_neg (not_not.2 (h.ppeSmall va hx hp)), if_neg hd]
  rfl

theorem Permits.unique {accessMode : AccessMode} {needWrite : Bool} {p q : ℕ} (hp : t.Permits va accessMode needWrite p)
    (hq : t.Permits va accessMode needWrite q) : p = q := by
  obtain ⟨leaf, hleaf, rfl, -⟩ := hp
  obtain ⟨leaf', hleaf', rfl, -⟩ := hq
  cases hleaf.symm.trans hleaf'
  rfl

end PhysicalTables

section Walk
variable {t : PhysicalTables} {va : ℕ} {accessMode : AccessMode} {needWrite : Bool}

theorem rights_ok_iff (e : Pte) (p pfn : ℕ) :
    (if accessMode = .userMode ∧ e &&& pteUser = 0 then some (.error Ntstatus.accessViolation)
      else if needWrite = true ∧ e &&& pteReadwrite = 0 then some (.error Ntstatus.accessViolation)
      else some (Except.ok p)) = some (Except.ok pfn) ↔ Grants accessMode needWrite e ∧ p = pfn := by
  unfold Grants
  by_cases huser : accessMode = .userMode ∧ e &&& pteUser = 0
  · rw [if_pos huser]
    exact iff_of_false (fun h => by cases h) fun h => h.1.1 huser.1 huser.2
  · rw [if_neg huser]
    by_cases hwrite : needWrite = true ∧ e &&& pteReadwrite = 0
    · rw [if_pos hwrite]
      exact iff_of_false (fun h => by cases h) fun h => h.1.2 hwrite.1 hwrite.2
    · rw [if_neg hwrite]
      constructor
      · intro h
        refine ⟨⟨fun hm he => huser ⟨hm, he⟩, fun hn he => hwrite ⟨hn, he⟩⟩, ?_⟩
        cases h
        rfl
      · rintro ⟨-, rfl⟩
        rfl

theorem walkEntry_filter (word : Option Pte) (pfn : ℕ) : (word >>= walkEntry t va accessMode needWrite) = some (.ok pfn) ↔
    (word.filter PhysicalTables.present >>= walkEntry t va accessMode needWrite) = some (.ok pfn) := by
  cases word with
  | none => rfl
  | some e =>
    by_cases he : e &&& pteValid = 0
    · rw [Option.filter_some_neg (by simpa [PhysicalTables.present] using he)]
      have hrefused : walkEntry t va accessMode needWrite e = some (.error .accessViolation) := by rw [walkEntry, if_pos he]
      simp [hrefused]
    · rw [Option.filter_some_pos (by simpa [PhysicalTables.present] using he)]

theorem miPageWalk_iff (h : t.SelfMapped) (hdirect : ¬ TakenForDirect va accessMode) (hread : t.ReadsPde va) (pfn : ℕ) :
    miPageWalk t va accessMode needWrite = some (.ok pfn) ↔
      ∃ leaf, t.translate va = some leaf ∧ Grants accessMode needWrite leaf.entry ∧ leaf.pfn = pfn := by
  rw [miPageWalk, if_neg hdirect]
  rw [walkEntry_filter, hread, ← walkEntry_filter, PhysicalTables.translate]
  by_cases hx : t.pxe va &&& pteValid = 0
  · rw [if_pos hx, if_pos hx]
    simp
  rw [if_neg hx, if_neg hx]
  by_cases hp : t.ppe va &&& pteValid = 0
  · rw [if_pos hp, if_pos hp]
    simp
  rw [if_neg hp, if_neg hp]
  show walkEntry t va accessMode needWrite (t.pde va) = _ ↔ _
  rw [walkEntry]
  by_cases hd : t.pde va &&& pteValid = 0
  · rw [if_pos hd, if_pos hd]
    simp
  rw [if_neg hd, if_neg hd]
  by_cases hlarge : t.pde va &&& pteLargePage ≠ 0
  · rw [if_pos hlarge, if_pos hlarge, rights_ok_iff]
    simp
  rw [if_neg hlarge, if_neg hlarge, PhysicalTables.readVolatile_pte h hx hp hd]
  show (if t.pte va &&& pteValid = 0 then _ else _) = _ ↔ _
  by_cases ht : t.pte va &&& pteValid = 0
  · rw [if_pos ht, if_pos ht]
    simp
  · rw [if_neg ht, if_neg ht, rights_ok_iff]
    simp

/-- No level above the last entry withholds a right that the last entry grants. -/
def UpperGrant (t : PhysicalTables) (va : ℕ) (accessMode : AccessMode) (needWrite : Bool) : Prop :=
  ∀ leaf, t.translate va = some leaf → Grants accessMode needWrite leaf.entry → ∀ e ∈ leaf.upper, Grants accessMode needWrite e

theorem agrees_iff_upperGrant (h : t.SelfMapped) (hdirect : ¬ TakenForDirect va accessMode) (hread : t.ReadsPde va) :
    Agrees t va accessMode needWrite ↔ UpperGrant t va accessMode needWrite := by
  constructor
  · intro hagrees leaf hleaf hgrants e he
    obtain ⟨leaf', hleaf', -, hall⟩ := (hagrees leaf.pfn).1 ((miPageWalk_iff h hdirect hread _).2 ⟨leaf, hleaf, hgrants, rfl⟩)
    cases hleaf.symm.trans hleaf'
    exact hall e (List.mem_cons_of_mem _ he)
  · intro hupper pfn
    rw [miPageWalk_iff h hdirect hread]
    constructor
    · rintro ⟨leaf, hleaf, hgrants, rfl⟩
      refine ⟨leaf, hleaf, rfl, fun e he => ?_⟩
      rcases List.mem_cons.1 he with rfl | he
      · exact hgrants
      · exact hupper leaf hleaf hgrants e he
    · rintro ⟨leaf, hleaf, rfl, hall⟩
      exact ⟨leaf, hleaf, hall _ List.mem_cons_self, rfl⟩

theorem agrees_direct_iff (h : Documented t) (htaken : TakenForDirect va accessMode) :
    Agrees t va accessMode needWrite ↔ va < directEnd := by
  obtain ⟨rfl, hlow, -⟩ := id htaken
  have hwalk : miPageWalk t va .kernelMode needWrite = some (.ok ((va - hhdmBase) / pageSize)) := if_pos htaken
  constructor
  · intro hagrees
    obtain ⟨leaf, hleaf, hpfn, -⟩ := (hagrees _).1 hwalk
    have hframe := h.frames va leaf hleaf
    unfold directEnd
    unfold hhdmBase pageSize at hpfn
    omega
  · intro hend pfn
    rw [hwalk, Option.some.injEq, Except.ok.injEq]
    have hpermits := h.direct va needWrite hlow hend
    exact ⟨fun heq => heq ▸ hpermits, fun hpfn => hpermits.unique hpfn⟩

end Walk

/-- A kernel access below `HHDM_END` is to the direct map; any other finds its page directory entry,
and no upper level takes a right away. -/
def WalksRight (t : PhysicalTables) (va : ℕ) (accessMode : AccessMode) (needWrite : Bool) : Prop :=
  if TakenForDirect va accessMode then va < directEnd else t.ReadsPde va ∧ UpperGrant t va accessMode needWrite

theorem agrees_iff (t : PhysicalTables) (h : Documented t) (va : ℕ) (accessMode : AccessMode) (needWrite : Bool) :
    (WalksRight t va accessMode needWrite → Agrees t va accessMode needWrite) ∧
      (TakenForDirect va accessMode ∨ t.ReadsPde va →
        (Agrees t va accessMode needWrite ↔ WalksRight t va accessMode needWrite)) ∧
      (va < 2 ^ 47 → t.ReadsPde va) := by
  have hexact : TakenForDirect va accessMode ∨ t.ReadsPde va →
      (Agrees t va accessMode needWrite ↔ WalksRight t va accessMode needWrite) := by
    intro hread
    unfold WalksRight
    by_cases htaken : TakenForDirect va accessMode
    · rw [if_pos htaken]
      exact agrees_direct_iff h htaken
    · have hpde := hread.resolve_left htaken
      rw [if_neg htaken, agrees_iff_upperGrant h.toSelfMapped htaken hpde]
      exact ⟨fun hupper => ⟨hpde, hupper⟩, fun hright => hright.2⟩
  refine ⟨fun hright => (hexact ?_).2 hright, hexact, PhysicalTables.readsPde_user h.toSelfMapped⟩
  unfold WalksRight at hright
  split_ifs at hright with htaken
  · exact .inl htaken
  · exact .inr hright.1

/-- The self-map, the direct map of 8 TB in pages of 2 MB (frames from 8 on), and four user pages, three
of them in frame 7 (tables in frames 4, 5 and 6). -/
def documentedTables : PhysicalTables where
  cr3 := 0
  entry frame i :=
    if frame = 0 then
      if i = pxiSelf then pteValid ||| pteReadwrite
      else if 256 ≤ i ∧ i < 272 then pfnBits (8 + (i - 256)) ||| (pteValid ||| pteReadwrite)
      else if i = 0 then pfnBits 4 ||| (pteValid ||| pteReadwrite ||| pteUser)
      else 0
    else if frame = 4 ∧ i = 0 then pfnBits 5 ||| (pteValid ||| pteReadwrite ||| pteUser)
    else if frame = 5 ∧ i = 0 then pfnBits 6 ||| (pteValid ||| pteReadwrite ||| pteUser)
    else if frame = 6 ∧ (i = 16 ∨ i = 18 ∨ i = 20) then pfnBits 7 ||| (pteValid ||| pteReadwrite ||| pteUser)
    else if frame = 6 ∧ i = 19 then pfnBits 3 ||| (pteValid ||| pteReadwrite ||| pteUser)
    else if 8 ≤ frame ∧ frame < 24 then pfnBits (24 + (frame - 8) * 512 + i) ||| (pteValid ||| pteReadwrite)
    else if 24 ≤ frame then pfnBits (((frame - 24) * 512 + i) * 512 % 2 ^ 31) ||| (pteValid ||| pteReadwrite ||| pteLargePage)
    else 0

theorem documentedTables_small {frame : ℕ} (hframe : frame < 24) (i : ℕ) :
    documentedTables.entry frame i &&& pteLargePage = 0 := by
  have hlow : pteLargePage &&& 0xFFF#64 = pteLargePage := by decide
  unfold documentedTables
  dsimp only
  split_ifs
  all_goals first
    | (rw [pfnBits_or_and _ _ hlow]; decide)
    | decide
    | omega

theorem documentedTables_top (i : ℕ) : ptePfn (documentedTables.entry 0 i) < 24 := by
  have hflags : (pteValid ||| pteReadwrite) &&& frameless = pteValid ||| pteReadwrite := by decide
  have hflags' : (pteValid ||| pteReadwrite ||| pteUser) &&& frameless = pteValid ||| pteReadwrite ||| pteUser := by decide
  unfold documentedTables
  simp only [if_true]
  split_ifs with hself hdirect huser
  · decide
  · rw [ptePfn_pfnBits_or (by omega) hflags]
    omega
  · rw [ptePfn_pfnBits_or (by omega) hflags']
    omega
  · decide

theorem documentedTables_selfMapped : documentedTables.SelfMapped where
  selfValid := by decide
  selfPfn := by decide
  pxeSmall _ _ := documentedTables_small (by decide) _
  ppeSmall _ _ _ := documentedTables_small (documentedTables_top _) _

theorem largePfn_eq (e : Pte) (va : ℕ) : largePfn e va = ptePfn e / 512 * 512 + va / 2 ^ 12 % 512 := by
  have hframe : ptePfn e = e.toNat / 2 ^ 12 % 2 ^ 40 := by
    rw [ptePfn, BitVec.toNat_and, BitVec.toNat_ushiftRight, Nat.shiftRight_eq_div_pow]
    exact Nat.and_two_pow_sub_one_eq_mod _ 40
  have hbase : ((e &&& 0x000FFFFFFFE00000#64) >>> 12).toNat = e.toNat / 2 ^ 12 % 2 ^ 40 / 512 * 512 := by
    have hlow : ((e &&& 0x000FFFFFFFE00000#64) >>> 12).toNat % 2 ^ 9 = 0 := by
      rw [← Nat.and_two_pow_sub_one_eq_mod, BitVec.ushiftRight_and_distrib, BitVec.toNat_and, Nat.and_assoc]
      exact Nat.and_zero _
    have hhigh : ((e &&& 0x000FFFFFFFE00000#64) >>> 12).toNat / 2 ^ 9 = e.toNat / 2 ^ 21 % 2 ^ 31 := by
      rw [← Nat.shiftRight_eq_div_pow, ← BitVec.toNat_ushiftRight, ← BitVec.shiftRight_add, BitVec.ushiftRight_and_distrib,
        BitVec.toNat_and, BitVec.toNat_ushiftRight, Nat.shiftRight_eq_div_pow]
      exact Nat.and_two_pow_sub_one_eq_mod _ 31
    omega
  rw [largePfn, hbase, hframe]

theorem documentedTables_frame (frame : ℕ) {i : ℕ} (hi : i < 512) : ptePfn (documentedTables.entry frame i) < 2 ^ 31 := by
  have hpfn {n : ℕ} {flags : Pte} (hn : n < 2 ^ 31) (hf : flags &&& frameless = flags) : ptePfn (pfnBits n ||| flags) < 2 ^ 31 := by
    rwa [ptePfn_pfnBits_or (by omega) hf]
  unfold documentedTables
  dsimp only
  split_ifs
  all_goals first
    | decide
    | exact hpfn (by omega) (by decide)

theorem documentedTables_frames (va : ℕ) (leaf : Leaf) (hleaf : documentedTables.translate va = some leaf) : leaf.pfn < 2 ^ 31 := by
  have hlt (n : ℕ) : n % 512 < 512 := Nat.mod_lt _ (by decide)
  unfold PhysicalTables.translate at hleaf
  split_ifs at hleaf
  · cases hleaf
    have hframe := documentedTables_frame (ptePfn (documentedTables.ppe va)) (hlt (va / 2 ^ 21))
    show largePfn (documentedTables.pde va) va < 2 ^ 31
    rw [largePfn_eq]
    change ptePfn (documentedTables.pde va) < 2 ^ 31 at hframe
    omega
  · cases hleaf
    exact documentedTables_frame _ (hlt (va / 2 ^ 12))

theorem documentedTables_direct (va : ℕ) (needWrite : Bool) (hlow : hhdmBase ≤ va) (hhigh : va < directEnd) :
    documentedTables.Permits va .kernelMode needWrite ((va - hhdmBase) / pageSize) := by
  unfold hhdmBase at hlow
  unfold directEnd at hhigh
  have hflags : (pteValid ||| pteReadwrite) &&& frameless = pteValid ||| pteReadwrite := by decide
  have hflags' : (pteValid ||| pteReadwrite ||| pteLargePage) &&& frameless = pteValid ||| pteReadwrite ||| pteLargePage := by
    decide
  have hand (n : ℕ) (flags : Pte) {mask : Pte} (hm : mask &&& 0xFFF#64 = mask) :
      (pfnBits n ||| flags) &&& mask = flags &&& mask := pfnBits_or_and n flags hm
  obtain ⟨k, hk⟩ : ∃ k, pxi va = 256 + k ∧ k < 16 := ⟨pxi va - 256, by unfold pxi; omega, by unfold pxi; omega⟩
  have hi : ppi va < 512 := Nat.mod_lt _ (by decide)
  have hj : pdi va < 512 := Nat.mod_lt _ (by decide)
  have hpxe : documentedTables.pxe va = pfnBits (8 + k) ||| (pteValid ||| pteReadwrite) := by
    show documentedTables.entry 0 (pxi va) = _
    rw [hk.1]
    unfold documentedTables pxiSelf
    simp only [if_true]
    rw [if_neg (by omega), if_pos (by omega), show 256 + k - 256 = k by omega]
  have hppe : documentedTables.ppe va = pfnBits (24 + k * 512 + ppi va) ||| (pteValid ||| pteReadwrite) := by
    rw [PhysicalTables.ppe, hpxe, ptePfn_pfnBits_or (by omega) hflags]
    unfold documentedTables
    simp only
    rw [if_neg (by omega), if_neg (by omega), if_neg (by omega), if_neg (by omega), if_neg (by omega), if_pos (by omega),
      show 8 + k - 8 = k by omega]
  have hpde : documentedTables.pde va =
      pfnBits (512 * ((k * 512 + ppi va) * 512 + pdi va)) ||| (pteValid ||| pteReadwrite ||| pteLargePage) := by
    rw [PhysicalTables.pde, hppe, ptePfn_pfnBits_or (by omega) hflags]
    unfold documentedTables
    simp only
    rw [if_neg (by omega), if_neg (by omega), if_neg (by omega), if_neg (by omega), if_neg (by omega), if_neg (by omega),
      if_pos (by omega), show 24 + k * 512 + ppi va - 24 = k * 512 + ppi va by omega, Nat.mul_comm _ 512, Nat.mod_eq_of_lt (by omega)]
  have htranslate : documentedTables.translate va =
      some ⟨[documentedTables.pxe va, documentedTables.ppe va], documentedTables.pde va, largePfn (documentedTables.pde va) va⟩ := by
    unfold PhysicalTables.translate
    rw [if_neg, if_neg, if_neg, if_pos]
    · rw [hpde, hand _ _ (by decide)]
      decide
    · rw [hpde, hand _ _ (by decide)]
      decide
    · rw [hppe, hand _ _ (by decide)]
      decide
    · rw [hpxe, hand _ _ (by decide)]
      decide
  refine ⟨_, htranslate, ?_, ?_⟩
  · show largePfn (documentedTables.pde va) va = _
    rw [largePfn_eq, hpde, ptePfn_pfnBits_or (by omega) hflags']
    have hpxi : va / 2 ^ 39 % 512 = 256 + k := hk.1
    unfold ppi pdi hhdmBase pageSize
    omega
  · intro e he
    have hgrants (n : ℕ) (flags : Pte) (hflags : flags &&& pteReadwrite ≠ 0) : Grants .kernelMode needWrite (pfnBits n ||| flags) :=
      ⟨fun h => absurd h (by decide), fun _ => by rwa [hand _ _ (by decide)]⟩
    rcases List.mem_cons.1 he with rfl | he
    · rw [hpde]
      exact hgrants _ _ (by decide)
    · rcases List.mem_cons.1 he with rfl | he
      · rw [hpxe]
        exact hgrants _ _ (by decide)
      · rw [List.mem_singleton.1 he, hppe]
        exact hgrants _ _ (by decide)

theorem documentedTables_documented : Documented documentedTables where
  toSelfMapped := documentedTables_selfMapped
  direct := documentedTables_direct
  frames := documentedTables_frames

/-- The direct map, a user page, and an address in the kernel image, where nothing is mapped and the walk faults. -/
theorem agrees_documented : (∀ va needWrite, hhdmBase ≤ va → va < directEnd → Agrees documentedTables va .kernelMode needWrite) ∧
    Agrees documentedTables 0x10000 .userMode true ∧ Agrees documentedTables 0xFFFFFFFF80001000 .kernelMode false := by
  have hagrees := agrees_iff documentedTables documentedTables_documented
  refine ⟨fun va needWrite hlow hend => (hagrees va .kernelMode needWrite).1 ?_, (hagrees 0x10000 .userMode true).1 ?_,
    (hagrees 0xFFFFFFFF80001000 .kernelMode false).1 ?_⟩
  · have hbelow : va < hhdmEnd := by
      unfold directEnd at hend
      unfold hhdmEnd
      omega
    rwa [WalksRight, if_pos ⟨rfl, hlow, hbelow⟩]
  · have hupper : (documentedTables.translate 0x10000).all fun leaf => leaf.upper.all fun e => Grants .userMode true e := by
      decide
    refine ⟨PhysicalTables.readsPde_user documentedTables_selfMapped (by decide), fun leaf hleaf _ e he => ?_⟩
    rw [hleaf, Option.all_some, List.all_eq_true] at hupper
    exact of_decide_eq_true (hupper e he)
  · refine ⟨by unfold PhysicalTables.ReadsPde; decide, fun leaf hleaf => ?_⟩
    have hnone : documentedTables.translate 0xFFFFFFFF80001000 = none := by decide
    rw [hnone] at hleaf
    cases hleaf

/-- The entries of the top table, seen through the self-map, lie in frame 0; the walk names another frame. -/
theorem selfMap_taken_for_direct : Documented documentedTables ∧
    ¬ Agrees documentedTables 0xFFFFF6FB7DBED000 .kernelMode false := by
  refine ⟨documentedTables_documented, fun h => ?_⟩
  have hwalk : miPageWalk documentedTables 0xFFFFF6FB7DBED000 .kernelMode false =
      some (.ok ((0xFFFFF6FB7DBED000 - hhdmBase) / pageSize)) := if_pos (by decide)
  obtain ⟨leaf, hleaf, hpfn, -⟩ := (h _).1 hwalk
  have hframe : (documentedTables.translate 0xFFFFF6FB7DBED000).map Leaf.pfn = some 0 := by decide
  rw [hleaf, Option.map_some, hpfn] at hframe
  exact absurd hframe (by decide)

end XenOS.Mm
