import XenOS.Boot.PageTablesSpec

/-! The images are mapped one by one. Each call keeps what is mapped, and maps an image if it lies
in one gigabyte. -/

namespace XenOS.Boot

open General PageTables Mapping
open Function (update update_self update_of_ne update_apply)

variable {s : Mapping} {kernel module : Image} {T : PageTables} {d maxPhys : ℕ}

def emptyTables : PageTables := PageTables.new.setup 0

theorem emptyTables_pml4 : emptyTables.pml4 =
    update (update (update (update (fun _ => none) 0 (some .low)) 256 (some .hhdm))
      496 (some .kernel)) 511 (some .hal) := by
  rfl

/-- The root and the direct map are as they were set up, and nothing is mapped at the next free address
or above it. -/
structure Inv (s : Mapping) : Prop where
  pml4 : s.tables.pml4 = emptyTables.pml4
  hhdm : s.tables.pdpt .hhdm = gigabytePages
  noPages : ∀ i e, s.tables.pdpt .kernel i ≠ .page e
  free : ∃ top, s.nextVa = kernelVaBase + top ∧ top ≤ 2 ^ 39 ∧ 2 ^ 16 ∣ top ∧
    ∀ q < 2 ^ 27, top ≤ q * 4096 → s.tables.kernelLeaf q = 0

theorem pml4_kernel (h : T.pml4 = emptyTables.pml4) : T.pml4 496 = some .kernel := by
  rw [h, emptyTables_pml4]
  rfl

theorem roundUp64k_eq {n : ℕ} (hn : n ≤ 2 ^ 39) :
    roundUp64k (wrap64 (kernelVaBase + n)) = kernelVaBase + (n + 0xFFFF) / 2 ^ 16 * 2 ^ 16 := by
  have hwrap : wrap64 (kernelVaBase + n) = kernelVaBase + n := Nat.mod_eq_of_lt (by simp only [kernelVaBase]; omega)
  have hround : wrap64 (kernelVaBase + n + 0xFFFF) = kernelVaBase + n + 0xFFFF :=
    Nat.mod_eq_of_lt (by simp only [kernelVaBase]; omega)
  rw [hwrap, roundUp64k, hround]
  simp only [kernelVaBase]
  omega

theorem Inv.mapsMemory_iff (h : Inv s) : s.tables.MapsMemory maxPhys ↔ maxPhys ≤ 2 ^ 39 := by
  constructor
  · intro hmaps
    by_contra hlarge
    have hlast := hmaps (2 ^ 39) (by omega)
    unfold PageTables.translate at hlast
    rw [show wrap64 (hhdmOffset + 2 ^ 39) / 2 ^ 39 % 512 = 257 by decide, h.pml4, emptyTables_pml4] at hlast
    cases hlast
  · intro hle p hp
    have hwrap : wrap64 (hhdmOffset + p) = hhdmOffset + p := Nat.mod_eq_of_lt (by simp only [hhdmOffset]; omega)
    have hpml4 : (hhdmOffset + p) / 2 ^ 39 % 512 = 256 := by
      simp only [hhdmOffset]
      omega
    have hpdpt : (hhdmOffset + p) / 2 ^ 30 % 512 = p / 2 ^ 30 := by
      simp only [hhdmOffset]
      omega
    have hentry : wrap64 (p / 2 ^ 30 * pageSize1gb) ||| ptePresent ||| pteWritable ||| ptePageSize = p / 2 ^ 30 * 2 ^ 30 + 131 := by
      have hflags := Nat.two_pow_add_eq_or_of_lt (show 131 < 2 ^ 30 by norm_num) (p / 2 ^ 30)
      rw [show wrap64 (p / 2 ^ 30 * pageSize1gb) = 2 ^ 30 * (p / 2 ^ 30) by
          simp only [wrap64, pageSize1gb]
          omega, Nat.or_assoc, Nat.or_assoc, show ptePresent ||| (pteWritable ||| ptePageSize) = 131 from rfl, ← hflags,
        Nat.mul_comm]
    unfold PageTables.translate
    rw [hwrap, hpml4, h.pml4, show emptyTables.pml4 256 = some .hhdm from rfl, hpdpt]
    dsimp only
    rw [h.hhdm, gigabytePages, if_pos (by omega), hentry]
    dsimp only
    rw [if_pos (by omega)]
    congr 1
    simp only [hhdmOffset]
    omega

theorem pages_fit {top : ℕ} (hvalid : module.Valid) (hfits : module.FitsAt (kernelVaBase + top)) (htop : top ≤ 2 ^ 39)
    (halign : 2 ^ 16 ∣ top) :
    (pageCount module.size = 0 ∨ top % 2 ^ 30 / 4096 + pageCount module.size ≤ 2 ^ 18 ∧
        module.phys + pageCount module.size * pageSize ≤ 2 ^ 52) ∧
      top + pageCount module.size * pageSize ≤ 2 ^ 39 ∧ top + module.size ≤ 2 ^ 39 := by
  obtain ⟨c, hc⟩ := halign
  have hcount := pageCount_eq hvalid.size
  rcases hfits with hzero | ⟨hlow, hone, hphys⟩
  · have hnone : pageCount module.size = 0 := by
      rw [hcount, hzero]
    refine ⟨.inl hnone, ?_, ?_⟩
    · rw [hnone]
      omega
    · omega
  · have hpages := hvalid.pages_le hphys
    rw [Nat.add_sub_cancel_left] at hlow hone
    rw [hcount] at hpages ⊢
    simp only [pageSize] at *
    omega

theorem kernelLeaf_step (h : Inv s) {top : ℕ} (hnext : s.nextVa = kernelVaBase + top) (htop : top ≤ 2 ^ 39)
    (halign : 2 ^ 16 ∣ top) (hvalid : module.Valid) (hfits : module.FitsAt (kernelVaBase + top)) (q : ℕ) (hq : q < 2 ^ 27) :
    (s.step module).tables.kernelLeaf q = if top / 4096 ≤ q ∧ q < top / 4096 + pageCount module.size then
      pageEntry module.phys (q - top / 4096) else s.tables.kernelLeaf q := by
  obtain ⟨hfit, hlow, -⟩ := pages_fit hvalid hfits htop halign
  have hd : 4096 ∣ top := (show 4096 ∣ 2 ^ 16 by norm_num).trans halign
  unfold step
  rw [hnext]
  exact kernelLeaf_mapModule h.noPages hd hfit hlow q hq

theorem extends_step (h : Inv s) (hvalid : module.Valid) (hfits : module.FitsAt s.nextVa) :
    s.tables.Extends (s.step module).tables := by
  obtain ⟨top, hnext, htop, halign, hfree⟩ := h.free
  rw [hnext] at hfits
  have hleaf := kernelLeaf_step h hnext htop halign hvalid hfits
  have hkernel := pml4_kernel h.pml4
  intro va p hva
  by_cases hregion : va / 2 ^ 39 % 512 = 496
  · have hpml4' : (s.step module).tables.pml4 496 = some .kernel := hkernel
    rw [translate_kernel hkernel h.noPages hregion] at hva
    rw [translate_kernel hpml4' (mapModule_no_pages h.noPages _ _ _) hregion]
    have hold : ¬ (top / 4096 ≤ va % 2 ^ 39 / 4096 ∧ va % 2 ^ 39 / 4096 < top / 4096 + pageCount module.size) := by
      rintro ⟨hle, -⟩
      rw [hfree _ (by omega) (by omega)] at hva
      cases hva
    rw [hleaf _ (by omega), if_neg hold]
    exact hva
  · unfold PageTables.translate at hva ⊢
    rw [show (s.step module).tables.pml4 = s.tables.pml4 from rfl]
    have hother (name : Pdpt) (hname : s.tables.pml4 (va / 2 ^ 39 % 512) = some name) : name ≠ .kernel := by
      rintro rfl
      rw [h.pml4, emptyTables_pml4] at hname
      simp only [update_apply] at hname
      split_ifs at hname
      all_goals simp_all
    cases hname : s.tables.pml4 (va / 2 ^ 39 % 512) with
    | none =>
      rw [hname] at hva
      cases hva
    | some name =>
      rw [hname] at hva
      have hsame : (s.step module).tables.pdpt name = s.tables.pdpt name := mapModule_pdpt _ _ _ (hother name hname)
      dsimp only at hva ⊢
      rw [hsame]
      exact hva

theorem maps_step (h : Inv s) (hvalid : module.Valid) (hfits : module.FitsAt s.nextVa) :
    (s.step module).tables.Maps module s.nextVa := by
  obtain ⟨top, hnext, htop, halign, hfree⟩ := h.free
  rw [hnext] at hfits ⊢
  have hleaf := kernelLeaf_step h hnext htop halign hvalid hfits
  obtain ⟨-, hlow, hend⟩ := pages_fit hvalid hfits htop halign
  rcases hfits with hzero | ⟨-, -, hphys⟩
  · intro i hi
    omega
  · refine maps_of_leaf (pml4_kernel h.pml4) (mapModule_no_pages h.noPages _ _ _) hvalid
      ((show 4096 ∣ 2 ^ 16 by norm_num).trans halign) hend hphys fun k hk => ?_
    rw [hleaf _ (by simp only [pageSize] at hlow; omega), if_pos (by omega), Nat.add_sub_cancel_left]

theorem Inv.step (h : Inv s) (hvalid : module.Valid) (hfits : module.FitsAt s.nextVa) : Inv (s.step module) := by
  obtain ⟨top, hnext, htop, halign, hfree⟩ := h.free
  rw [hnext] at hfits
  have hleaf := kernelLeaf_step h hnext htop halign hvalid hfits
  obtain ⟨-, hlow, hend⟩ := pages_fit hvalid hfits htop halign
  have hhhdm : (s.step module).tables.pdpt .hhdm = s.tables.pdpt .hhdm := mapModule_pdpt _ _ _ (by decide)
  refine ⟨h.pml4, hhhdm.trans h.hhdm, mapModule_no_pages h.noPages _ _ _,
    (top + module.size + 0xFFFF) / 2 ^ 16 * 2 ^ 16, ?_, by omega, Dvd.intro_left _ rfl, fun q hq hle => ?_⟩
  · show roundUp64k (wrap64 (s.nextVa + module.size)) = _
    rw [hnext, Nat.add_assoc, roundUp64k_eq hend]
  · rw [hleaf q hq, if_neg, hfree q hq (by omega)]
    rw [pageCount_eq hvalid.size]
    obtain ⟨c, hc⟩ := halign
    omega

theorem not_maps_step (h : Inv s) (hmaps : (s.step module).tables.Maps module s.nextVa) : module.FitsAt s.nextVa := by
  obtain ⟨top, hnext, htop, halign, hfree⟩ := h.free
  have hkernel : (s.step module).tables.pml4 496 = some .kernel := pml4_kernel h.pml4
  rw [hnext] at hmaps ⊢
  by_cases hzero : module.size = 0
  · exact .inl hzero
  refine .inr ?_
  rw [Nat.add_sub_cancel_left]
  have hlow : top + module.size ≤ 2 ^ 39 := by
    by_contra hhigh
    have hout := hmaps (2 ^ 39 - top) (by omega)
    rw [show wrap64 (kernelVaBase + top + (2 ^ 39 - top)) = kernelVaBase + 2 ^ 39 by
      rw [show kernelVaBase + top + (2 ^ 39 - top) = kernelVaBase + 2 ^ 39 by omega]
      decide] at hout
    unfold PageTables.translate at hout
    rw [show (kernelVaBase + 2 ^ 39) / 2 ^ 39 % 512 = 497 by decide, show (s.step module).tables.pml4 = emptyTables.pml4 from h.pml4,
      emptyTables_pml4] at hout
    cases hout
  refine ⟨hlow, ?_, ?_⟩
  · by_contra hcross
    -- the first byte past the gigabyte is in a directory that the call does not touch
    obtain ⟨g, hg⟩ : ∃ g, g = top / 2 ^ 30 := ⟨_, rfl⟩
    have hout := hmaps ((g + 1) * 2 ^ 30 - top) (by omega)
    have hva : wrap64 (kernelVaBase + top + ((g + 1) * 2 ^ 30 - top)) = kernelVaBase + (g + 1) * 2 ^ 30 := by
      rw [wrap64, Nat.mod_eq_of_lt] <;> simp only [kernelVaBase] <;> omega
    have hindex : (kernelVaBase + (g + 1) * 2 ^ 30) / 2 ^ 39 % 512 = 496 := by
      simp only [kernelVaBase]
      omega
    have hpage : (kernelVaBase + (g + 1) * 2 ^ 30) % 2 ^ 39 / 4096 = (g + 1) * 2 ^ 18 := by
      simp only [kernelVaBase]
      omega
    have hleaf : (s.step module).tables.kernelLeaf ((g + 1) * 2 ^ 18) = 0 := by
      refine (kernelLeaf_mapModule_other _ _ ?_).trans (hfree _ (by omega) (by omega))
      rw [hnext]
      simp only [kernelVaBase]
      omega
    rw [hva, translate_kernel hkernel (mapModule_no_pages h.noPages _ _ _) hindex, hpage, hleaf] at hout
    cases hout
  · have hlast := translate_lt (hmaps (module.size - 1) (by omega))
    omega

theorem setup_eq (maxPhys : ℕ) : PageTables.new.setup maxPhys = emptyTables := rfl

theorem mapKernel_eq (hvalid : kernel.Valid) (hphys : kernel.size = 0 ∨ kernel.phys + kernel.size ≤ 2 ^ 52)
    (hsize : kernel.size ≤ 2 ^ 30) :
    ∃ pd, emptyTables.mapKernel kernel.phys kernel.size = some { emptyTables with
        pdpt := update emptyTables.pdpt .kernel (update (emptyTables.pdpt .kernel) 0 (.directory pd)) } ∧
      ∀ q, pdLeaf pd q = if q < pageCount kernel.size then pageEntry kernel.phys q else 0 := by
  have hcount := pageCount_eq hvalid.size
  obtain ⟨pd, heq, hleaf⟩ : ∃ pd, kernelPts (fun _ => none) 0 kernel.phys (pageCount kernel.size)
      (max ((pageCount kernel.size + 511) / 512) 1) = some pd ∧ ∀ q, pdLeaf pd q =
        if 0 * 512 ≤ q ∧ q < 0 * 512 + pageCount kernel.size then pageEntry kernel.phys (q - 0 * 512) else 0 := by
    rcases hphys with hzero | hphys
    · have hnone : pageCount kernel.size = 0 := by
        rw [hcount, hzero]
      rw [hnone]
      refine ⟨_, rfl, fun q => ?_⟩
      rw [if_neg (by omega)]
      unfold pdLeaf
      by_cases hq : q / 512 = 0
      · rw [hq, update_self]
        rfl
      · rw [update_of_ne hq]
    · exact kernelPts_eq (fun _ => none) (by omega) (by omega) (hvalid.pages_le hphys) fun _ _ => rfl
  refine ⟨pd, ?_, fun q => ?_⟩
  · unfold mapKernel
    dsimp only
    rw [show tableIndex kernelVaBase 21 = 0 by decide, show tableIndex kernelVaBase 30 = 0 by decide, heq]
  · rw [hleaf q]
    by_cases hq : q < pageCount kernel.size
    · rw [if_pos (by omega), if_pos hq]
      rfl
    · rw [if_neg (by omega), if_neg hq]

variable (maxPhys) in
theorem start_fits (hvalid : kernel.Valid) (hfits : kernel.FitsAt kernelVaBase) :
    ∃ s, start maxPhys kernel = some s ∧ Inv s ∧ s.images = [(kernel, kernelVaBase)] ∧
      s.nextVa = roundUp64k (wrap64 (kernelVaBase + kernel.size)) ∧ s.tables.Maps kernel kernelVaBase := by
  have hsize : kernel.size ≤ 2 ^ 30 := by
    rcases hfits with hzero | ⟨-, hone, -⟩
    · exact hzero ▸ Nat.zero_le _
    · omega
  have hphys : kernel.size = 0 ∨ kernel.phys + kernel.size ≤ 2 ^ 52 := hfits.imp_right fun h => h.2.2
  obtain ⟨pd, heq, hleaf⟩ := mapKernel_eq hvalid hphys hsize
  have hcount := pageCount_eq hvalid.size
  unfold start
  rw [setup_eq, heq]
  refine ⟨_, rfl, ?_⟩
  set T : PageTables := { emptyTables with
    pdpt := update emptyTables.pdpt .kernel (update (emptyTables.pdpt .kernel) 0 (.directory pd)) } with hT
  have hkernel : T.pml4 496 = some .kernel := pml4_kernel rfl
  have hentry (i : ℕ) : T.pdpt .kernel i = if i = 0 then .directory pd else .absent := by
    rw [hT]
    dsimp only
    rw [update_self]
    by_cases hi : i = 0
    · rw [hi, update_self, if_pos rfl]
    · rw [update_of_ne hi, if_neg hi]
      rfl
  have hno (i e : ℕ) : T.pdpt .kernel i ≠ .page e := by
    rw [hentry]
    split <;> simp
  have hpages (q : ℕ) (hq : q < 2 ^ 27) : T.kernelLeaf q = if q < pageCount kernel.size then pageEntry kernel.phys q else 0 := by
    unfold kernelLeaf
    rw [hentry]
    by_cases hzero : q / 2 ^ 18 = 0
    · rw [if_pos hzero]
      dsimp only
      rw [hleaf, Nat.mod_eq_of_lt (by omega)]
    · rw [if_neg hzero, if_neg (by omega)]
  refine ⟨⟨rfl, rfl, hno, (kernel.size + 0xFFFF) / 2 ^ 16 * 2 ^ 16, roundUp64k_eq (by omega), by omega,
    Dvd.intro_left _ rfl, fun q hq hle => ?_⟩, rfl, rfl, ?_⟩
  · show T.kernelLeaf q = 0
    rw [hpages q hq, if_neg (by omega)]
  · rcases hphys with hzero | hphys
    · intro i hi
      omega
    · refine maps_of_leaf (d := 0) hkernel hno hvalid (dvd_zero _) (by omega) hphys fun k hk => ?_
      rw [Nat.zero_div, Nat.zero_add, hpages k (by omega), if_pos hk]

theorem start_images (hstart : start maxPhys kernel = some s) : s.images = [(kernel, kernelVaBase)] := by
  unfold start at hstart
  split at hstart
  · rw [← Option.some.inj hstart]
  · exact absurd hstart (by simp)

theorem start_maps (hvalid : kernel.Valid) (hstart : start maxPhys kernel = some s)
    (hmaps : s.tables.Maps kernel kernelVaBase) : kernel.FitsAt kernelVaBase := by
  by_cases hzero : kernel.size = 0
  · exact .inl hzero
  have hphys := translate_lt (hmaps (kernel.size - 1) (by omega))
  have hsize : kernel.size ≤ 2 ^ 30 := by
    by_contra hlarge
    have hcount := pageCount_eq hvalid.size
    unfold start mapKernel at hstart
    dsimp only at hstart
    rw [show tableIndex kernelVaBase 21 = 0 by decide, kernelPts_none _ (by omega) (by omega)] at hstart
    cases hstart
  refine .inr ⟨?_, ?_, by omega⟩
  · omega
  · omega

/-- Every image mapped so far is at its address, and the direct map is complete. -/
def MapsAll (maxPhys : ℕ) (s : Mapping) : Prop :=
  (∀ image ∈ s.images, s.tables.Maps image.1 image.2) ∧ s.tables.MapsMemory maxPhys

def BootMaps (maxPhys : ℕ) (kernel : Image) (modules : List Image) : Prop :=
  ∃ s, start maxPhys kernel = some s ∧ MapsAll maxPhys s ∧
    EveryStep step (fun s module => MapsAll maxPhys (s.step module) ∧ s.tables.Extends (s.step module).tables) s modules

def placeModules (va : ℕ) : List Image → List (Image × ℕ)
  | [] => []
  | module :: modules => (module, va) :: placeModules (roundUp64k (wrap64 (va + module.size))) modules

theorem everyStep_fitsAt (s : Mapping) (modules : List Image) :
    EveryStep step (fun s module => module.FitsAt s.nextVa) s modules ↔
      ∀ placed ∈ placeModules s.nextVa modules, placed.1.FitsAt placed.2 := by
  induction modules generalizing s with
  | nil => simp [EveryStep, placeModules]
  | cons module modules ih =>
    rw [EveryStep, ih, placeModules, List.forall_mem_cons]
    rfl

theorem step_mapsAll (h : Inv s) (hall : MapsAll maxPhys s) (hvalid : module.Valid) (hfits : module.FitsAt s.nextVa) :
    MapsAll maxPhys (s.step module) ∧ s.tables.Extends (s.step module).tables := by
  have hext := extends_step h hvalid hfits
  refine ⟨⟨fun image himage => ?_, fun p hp => hext _ _ (hall.2 p hp)⟩, hext⟩
  rcases List.mem_cons.1 himage with rfl | hold
  · exact maps_step h hvalid hfits
  · exact (hall.1 image hold).extends hext

/-- The kernel and the modules are mapped exactly when memory ends at half a terabyte and every
image lies in one gigabyte. -/
theorem bootMaps_iff (maxPhys : ℕ) (hkernel : kernel.Valid) {modules : List Image} (hmodules : ∀ module ∈ modules, module.Valid) :
    BootMaps maxPhys kernel modules ↔ maxPhys ≤ 2 ^ 39 ∧ kernel.FitsAt kernelVaBase ∧
      ∀ placed ∈ placeModules (roundUp64k (wrap64 (kernelVaBase + kernel.size))) modules, placed.1.FitsAt placed.2 := by
  have hsteps (s : Mapping) (hinv : Inv s) (hall : MapsAll maxPhys s) :
      EveryStep step (fun s module => MapsAll maxPhys (s.step module) ∧ s.tables.Extends (s.step module).tables) s modules ↔
        EveryStep step (fun s module => module.FitsAt s.nextVa) s modules :=
    everyStep_iff (I := fun s => Inv s ∧ MapsAll maxPhys s) (G := fun _ module => module.Valid)
      (fun s module hi hv hf => ⟨hi.1.step hv hf, (step_mapsAll hi.1 hi.2 hv hf).1⟩)
      (fun s module hi hv hf => step_mapsAll hi.1 hi.2 hv hf)
      (fun s module hi _ hf hd => hf (not_maps_step hi.1 (hd.1.1 _ List.mem_cons_self)))
      ⟨hinv, hall⟩ (everyStep_of_forall hmodules)
  constructor
  · rintro ⟨s, hstart, hall, hrun⟩
    have hfits := start_maps hkernel hstart (hall.1 _ (start_images hstart ▸ List.mem_singleton_self _))
    obtain ⟨s', hstart', hinv, -, hnext, -⟩ := start_fits maxPhys hkernel hfits
    obtain rfl : s' = s := Option.some.inj (hstart'.symm.trans hstart)
    rw [← hnext, ← everyStep_fitsAt, ← hsteps _ hinv hall]
    exact ⟨hinv.mapsMemory_iff.1 hall.2, hfits, hrun⟩
  · rintro ⟨hmax, hfits, hplaced⟩
    obtain ⟨s, hstart, hinv, himages, hnext, hmaps⟩ := start_fits maxPhys hkernel hfits
    have hall : MapsAll maxPhys s := by
      refine ⟨fun image himage => ?_, hinv.mapsMemory_iff.2 hmax⟩
      rw [himages, List.mem_singleton] at himage
      rw [himage]
      exact hmaps
    rw [← hnext, ← everyStep_fitsAt, ← hsteps s hinv hall] at hplaced
    exact ⟨s, hstart, hall, hplaced⟩

/-- A kernel of three megabytes and a driver after it. -/
theorem bootMaps_two :
    BootMaps (4 * 2 ^ 30) ⟨0x100000, 0x300000⟩ [⟨0x800000, 0x12345⟩] :=
  Iff.mpr (bootMaps_iff _ ⟨by decide, by decide⟩ (by
    intro module hmodule
    rw [List.mem_singleton.1 hmodule]
    exact ⟨by decide, by decide⟩))
    ⟨by decide, .inr ⟨by decide, by decide, by decide⟩, by
      intro placed hplaced
      rw [List.mem_singleton.1 hplaced]
      exact .inr ⟨by decide, by decide, by decide⟩⟩

/-- The second of two images crosses a gigabyte: what lies past it is not mapped. -/
theorem crossing_not_mapped :
    ¬ BootMaps (4 * 2 ^ 30) ⟨0x100000, 0x3FFF0000⟩ [⟨0x80000000, 0x20000⟩] := by
  have hvalid : Image.Valid ⟨0x100000, 0x3FFF0000⟩ := ⟨by decide, by decide⟩
  rintro ⟨s, hstart, -, ⟨hall, -⟩, -⟩
  obtain ⟨s', hstart', hinv, -, hnext, -⟩ := start_fits (4 * 2 ^ 30) hvalid
    (.inr ⟨by decide, by decide, by decide⟩)
  obtain rfl : s' = s := Option.some.inj (hstart'.symm.trans hstart)
  rcases not_maps_step hinv (hall.1 _ List.mem_cons_self) with hzero | ⟨-, hone, -⟩
  · exact absurd hzero (by decide)
  · rw [hnext] at hone
    exact absurd hone (by decide)

end XenOS.Boot
