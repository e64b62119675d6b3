import XenOS.Boot.PageTables
import XenOS.General.Run
import Mathlib.Tactic.Linarith
import Mathlib.Tactic.Ring

/-! The tables map what the loader says: each image at its address, and all of physical memory in
the direct map. -/

namespace XenOS.Boot

open General PageTables
open Function (update update_self update_of_ne)

/-- The entry for a page of a directory, 0 where there is no table. -/
def pdLeaf (pd : Pd) (q : ℕ) : ℕ :=
  match pd (q / 512) with
  | some pt => pt (q % 512)
  | none => 0

def pageEntry (phys k : ℕ) : ℕ := phys + k * pageSize ||| ptePresent ||| pteWritable

theorem pageEntry_eq {phys : ℕ} (hphys : pageSize ∣ phys) (k : ℕ) : pageEntry phys k = phys + k * 4096 + 3 := by
  obtain ⟨c, rfl⟩ := hphys
  have hflags := Nat.two_pow_add_eq_or_of_lt (show 3 < 2 ^ 12 by norm_num) (c + k)
  rw [pageEntry, Nat.or_assoc, show ptePresent ||| pteWritable = 3 from rfl]
  simp only [pageSize]
  rw [show 4096 * c + k * 4096 = 2 ^ 12 * (c + k) by ring]
  exact hflags.symm

theorem fillPt_eq (pt : Pt) {phys : ℕ} (index n j : ℕ) (hphys : phys + n * pageSize ≤ 2 ^ 52) :
    fillPt pt index phys n j = if index ≤ j ∧ j < index + n then pageEntry phys (j - index) else pt j := by
  induction n generalizing pt index phys with
  | zero => rw [fillPt, if_neg (by omega)]
  | succ n ih =>
    have hnext : wrap64 (phys + pageSize) = phys + pageSize := Nat.mod_eq_of_lt (by simp only [pageSize] at *; omega)
    rw [fillPt, hnext, ih _ _ (by simp only [pageSize] at *; omega)]
    by_cases hj : j = index
    · subst hj
      rw [if_neg (by omega), if_pos (by omega), update_self, Nat.sub_self, pageEntry, Nat.zero_mul, Nat.add_zero]
    · rw [update_of_ne hj]
      by_cases hin : index + 1 ≤ j ∧ j < index + 1 + n
      · rw [if_pos hin, if_pos (by omega), pageEntry, pageEntry, show j - index = j - (index + 1) + 1 by omega, Nat.succ_mul,
          Nat.add_assoc, Nat.add_comm pageSize]
      · rw [if_neg hin, if_neg (by omega)]

theorem pdLeaf_fill (pd : Pd) {phys : ℕ} {r n : ℕ} (old : Pt) (hold : ∀ q, q / 512 = r / 512 → old (q % 512) = pdLeaf pd q)
    (hn : r % 512 + n ≤ 512) (hphys : phys + n * pageSize ≤ 2 ^ 52) (q : ℕ) :
    pdLeaf (update pd (r / 512) (some (fillPt old (r % 512) phys n))) q =
      if r ≤ q ∧ q < r + n then pageEntry phys (q - r) else pdLeaf pd q := by
  unfold pdLeaf
  by_cases hq : q / 512 = r / 512
  · rw [hq, update_self]
    dsimp only
    rw [fillPt_eq _ _ _ _ hphys]
    by_cases hin : r ≤ q ∧ q < r + n
    · rw [if_pos (by omega), if_pos hin, show q % 512 - r % 512 = q - r by omega]
    · rw [if_neg (by omega), if_neg hin, hold q hq, pdLeaf, hq]
  · rw [update_of_ne hq, if_neg (by omega)]

theorem kernelPts_eq (pd : Pd) {index phys count n : ℕ} (hn : index + n ≤ 512) (hcount : count ≤ n * 512)
    (hphys : phys + count * pageSize ≤ 2 ^ 52) (hpd : ∀ q, index * 512 ≤ q → pdLeaf pd q = 0) :
    ∃ pd', kernelPts pd index phys count n = some pd' ∧ ∀ q, pdLeaf pd' q =
      if index * 512 ≤ q ∧ q < index * 512 + count then pageEntry phys (q - index * 512) else pdLeaf pd q := by
  induction n generalizing pd index phys count with
  | zero => exact ⟨pd, rfl, fun q => by rw [if_neg (by omega)]⟩
  | succ n ih =>
    obtain ⟨m, hm⟩ : ∃ m, m = min count 512 := ⟨_, rfl⟩
    have hmul : m * pageSize ≤ count * pageSize := Nat.mul_le_mul_right _ (by omega)
    have hfill := pdLeaf_fill pd (r := index * 512) (n := m) (fun _ => 0)
      (fun q hq => (hpd q (by omega)).symm) (by omega) (show phys + m * pageSize ≤ 2 ^ 52 by omega)
    rw [show index * 512 / 512 = index by omega, show index * 512 % 512 = 0 by omega] at hfill
    have hnext : wrap64 (phys + m * pageSize) = phys + m * pageSize := Nat.mod_eq_of_lt (by omega)
    have hrest : m * pageSize + (count - 512) * pageSize ≤ count * pageSize := by
      rw [← Nat.add_mul]
      exact Nat.mul_le_mul_right _ (by omega)
    obtain ⟨pd', heq, hleaf⟩ := @ih (update pd index (some (fillPt (fun _ => 0) 0 phys m))) (index + 1)
      (phys + m * pageSize) (count - 512) (by omega) (by omega) (by omega) fun q hq => by
        rw [Nat.succ_mul] at hq
        rw [hfill, if_neg (by omega), hpd q (le_of_add_le_left hq)]
    refine ⟨pd', ?_, fun q => ?_⟩
    · rw [kernelPts, if_pos (by omega), ← hm, hnext, heq]
    · rw [hleaf, hfill, Nat.succ_mul]
      generalize index * 512 = start
      by_cases hlater : start + 512 ≤ q ∧ q < start + 512 + (count - 512)
      · rw [if_pos hlater, if_pos (by omega), pageEntry, pageEntry, show q - start = m + (q - (start + 512)) by omega,
          Nat.add_mul, Nat.add_assoc]
      · rw [if_neg hlater]
        by_cases hnow : start ≤ q ∧ q < start + m
        · rw [if_pos hnow, if_pos (by omega)]
        · rw [if_neg hnow, if_neg (by omega)]

theorem kernelPts_none (pd : Pd) {index phys count n : ℕ} (hn : 0 < n) (h : 512 < index + n) :
    kernelPts pd index phys count n = none := by
  induction n generalizing pd index phys count with
  | zero => omega
  | succ n ih =>
    rw [kernelPts]
    split
    · exact ih _ (by omega) (by omega)
    · rfl

theorem modulePts_eq (pd : Pd) {d phys n : ℕ} (hd : 4096 ∣ d) (hfit : d % 2 ^ 30 / 4096 + n ≤ 2 ^ 18)
    (hphys : phys + n * pageSize ≤ 2 ^ 52) (hlow : d + n * pageSize ≤ 2 ^ 39) (q : ℕ) :
    pdLeaf (modulePts pd (kernelVaBase + d) phys n) q =
      if d % 2 ^ 30 / 4096 ≤ q ∧ q < d % 2 ^ 30 / 4096 + n then pageEntry phys (q - d % 2 ^ 30 / 4096) else pdLeaf pd q := by
  induction n using Nat.strong_induction_on generalizing pd d phys with
  | _ n ih =>
    rw [modulePts]
    by_cases hn : n = 0
    · rw [if_pos hn, if_neg (by omega)]
    · rw [if_neg hn]
      dsimp only
      have hpd : tableIndex (kernelVaBase + d) 21 = d % 2 ^ 30 / 4096 / 512 := by
        rw [tableIndex_eq, kernelVaBase]
        omega
      have hpt : tableIndex (kernelVaBase + d) 12 = d % 2 ^ 30 / 4096 % 512 := by
        rw [tableIndex_eq, kernelVaBase]
        omega
      rw [hpd, hpt]
      obtain ⟨r, hr⟩ : ∃ r, r = d % 2 ^ 30 / 4096 := ⟨_, rfl⟩
      rw [← hr] at hfit ⊢
      obtain ⟨e, he⟩ : ∃ e, e = min (512 - r % 512) n := ⟨_, rfl⟩
      rw [← he]
      have hmul : e * pageSize + (n - e) * pageSize = n * pageSize := by
        rw [← Nat.add_mul]
        congr 1
        omega
      have hva : wrap64 (kernelVaBase + d + e * pageSize) = kernelVaBase + (d + e * pageSize) := by
        rw [wrap64, Nat.mod_eq_of_lt, Nat.add_assoc]
        simp only [kernelVaBase]
        omega
      have hnext : wrap64 (phys + e * pageSize) = phys + e * pageSize := Nat.mod_eq_of_lt (by omega)
      have hfill := pdLeaf_fill pd (r := r) (n := e) ((pd (r / 512)).getD fun _ => 0) (fun p hp => by
        rw [pdLeaf, hp]
        cases pd (r / 512) <;> rfl) (by omega) (show phys + e * pageSize ≤ 2 ^ 52 by omega)
      rw [hva, hnext]
      by_cases hlast : n - e = 0
      · rw [hlast, modulePts, if_pos rfl, hfill, show e = n by omega]
      · have hr' : (d + e * pageSize) % 2 ^ 30 / 4096 = r + e := by
          simp only [pageSize] at *
          omega
        have hrest : pdLeaf (modulePts (update pd (r / 512) (some (fillPt ((pd (r / 512)).getD fun _ => 0) (r % 512) phys e)))
            (kernelVaBase + (d + e * pageSize)) (phys + e * pageSize) (n - e)) q = _ :=
          ih (n - e) (by omega) _ (Nat.dvd_add hd ⟨e, by simp only [pageSize]; omega⟩) (by rw [hr']; omega) (by omega) (by omega)
        rw [hrest, hr', hfill]
        by_cases hlater : r + e ≤ q ∧ q < r + e + (n - e)
        · rw [if_pos hlater, if_pos (by omega), pageEntry, pageEntry, show q - r = e + (q - (r + e)) by omega, Nat.add_mul,
            Nat.add_assoc]
        · rw [if_neg hlater]
          by_cases hnow : r ≤ q ∧ q < r + e
          · rw [if_pos hnow, if_pos (by omega)]
          · rw [if_neg hnow, if_neg (by omega)]

namespace PageTables

def kernelLeaf (T : PageTables) (q : ℕ) : ℕ :=
  match T.pdpt .kernel (q / 2 ^ 18) with
  | .directory pd => pdLeaf pd (q % 2 ^ 18)
  | _ => 0

variable {T T' : PageTables} {va p : ℕ}

theorem translate_kernel (hpml4 : T.pml4 496 = some .kernel) (hno : ∀ i e, T.pdpt .kernel i ≠ .page e)
    (hva : va / 2 ^ 39 % 512 = 496) :
    T.translate va = if T.kernelLeaf (va % 2 ^ 39 / 4096) % 2 = 1 then
      some (T.kernelLeaf (va % 2 ^ 39 / 4096) % 2 ^ 52 / 2 ^ 12 * 2 ^ 12 + va % 2 ^ 12) else none := by
  have hpdpt : va / 2 ^ 30 % 512 = va % 2 ^ 39 / 4096 / 2 ^ 18 := by omega
  have hpd : va / 2 ^ 21 % 512 = va % 2 ^ 39 / 4096 % 2 ^ 18 / 512 := by omega
  have hpt : va / 2 ^ 12 % 512 = va % 2 ^ 39 / 4096 % 2 ^ 18 % 512 := by omega
  unfold PageTables.translate
  rw [hva, hpml4, hpdpt, hpd, hpt]
  dsimp only
  unfold kernelLeaf
  cases hentry : T.pdpt .kernel (va % 2 ^ 39 / 4096 / 2 ^ 18) with
  | absent => rfl
  | page e => exact absurd hentry (hno _ _)
  | directory pd =>
    dsimp only [pdLeaf]
    obtain hpage | ⟨pt, hpage⟩ := Option.eq_none_or_eq_some (pd (va % 2 ^ 39 / 4096 % 2 ^ 18 / 512)) <;>
      simp only [hpage, Nat.zero_mod, Nat.zero_ne_one, if_false]

theorem translate_lt (h : T.translate va = some p) : p < 2 ^ 52 := by
  unfold PageTables.translate at h
  split at h
  · cases h
  · split at h
    · cases h
    · split at h
      · cases h
        omega
      · cases h
    · split at h
      · cases h
      · dsimp only at h
        split at h
        · cases h
          omega
        · cases h

/-- A later call keeps what was translated before. -/
def Extends (T T' : PageTables) : Prop := ∀ va p, T.translate va = some p → T'.translate va = some p

def Maps (T : PageTables) (image : Image) (va : ℕ) : Prop :=
  ∀ i < image.size, T.translate (wrap64 (va + i)) = some (image.phys + i)

theorem Maps.extends {image : Image} (h : T.Maps image va) (hext : Extends T T') : T'.Maps image va :=
  fun i hi => hext _ _ (h i hi)

def MapsMemory (T : PageTables) (maxPhys : ℕ) : Prop := ∀ p < maxPhys, T.translate (wrap64 (hhdmOffset + p)) = some p

end PageTables

/-- The fields of a loaded image: `size_of_image` has 32 bits, and images start on a page. -/
structure Image.Valid (image : Image) : Prop where
  size : image.size < 2 ^ 32
  phys : pageSize ∣ image.phys

/-- An image that has bytes lies in one gigabyte of the kernel's half terabyte, and in physical memory. -/
def Image.FitsAt (image : Image) (va : ℕ) : Prop :=
  image.size = 0 ∨ va - kernelVaBase + image.size ≤ 2 ^ 39 ∧
    (va - kernelVaBase) / 2 ^ 30 = (va - kernelVaBase + image.size - 1) / 2 ^ 30 ∧ image.phys + image.size ≤ 2 ^ 52

variable {s : Mapping} {image module : Image} {T : PageTables} {d maxPhys : ℕ}

theorem pageCount_eq {size : ℕ} (h : size < 2 ^ 32) : pageCount size = (size + 4095) / 4096 := by
  have hwrap : wrap64 (size + pageSize - 1) = size + 4095 := by
    rw [wrap64, Nat.mod_eq_of_lt] <;> simp only [pageSize] <;> omega
  rw [pageCount, hwrap]
  simp only [pageSize]
  omega

theorem Image.Valid.pages_le (h : image.Valid) (hphys : image.phys + image.size ≤ 2 ^ 52) :
    image.phys + pageCount image.size * pageSize ≤ 2 ^ 52 := by
  obtain ⟨c, hc⟩ := h.phys
  rw [pageCount_eq h.size]
  simp only [pageSize] at *
  omega

theorem maps_of_leaf (hpml4 : T.pml4 496 = some .kernel) (hno : ∀ i e, T.pdpt .kernel i ≠ .page e) (hvalid : image.Valid)
    (hd : 4096 ∣ d) (hlow : d + image.size ≤ 2 ^ 39) (hphys : image.phys + image.size ≤ 2 ^ 52)
    (hleaf : ∀ k < pageCount image.size, T.kernelLeaf (d / 4096 + k) = pageEntry image.phys k) :
    T.Maps image (kernelVaBase + d) := by
  intro i hi
  obtain ⟨c, hc⟩ := hvalid.phys
  have hwrap : wrap64 (kernelVaBase + d + i) = kernelVaBase + (d + i) := by
    rw [wrap64, Nat.mod_eq_of_lt] <;> simp only [kernelVaBase] <;> omega
  have hindex : (kernelVaBase + (d + i)) / 2 ^ 39 % 512 = 496 := by
    simp only [kernelVaBase]
    omega
  have hpage : (kernelVaBase + (d + i)) % 2 ^ 39 / 4096 = d / 4096 + i / 4096 := by
    simp only [kernelVaBase]
    omega
  have hentry : T.kernelLeaf (d / 4096 + i / 4096) = image.phys + i / 4096 * 4096 + 3 := by
    rw [hleaf _ (by rw [pageCount_eq hvalid.size]; omega), pageEntry_eq hvalid.phys]
  rw [hwrap, translate_kernel hpml4 hno hindex, hpage, hentry]
  simp only [pageSize, kernelVaBase] at *
  rw [if_pos (by omega)]
  congr 1
  omega

theorem kernelLeaf_mapModule_other (phys size : ℕ) {va q : ℕ} (hq : q / 2 ^ 18 ≠ va / 2 ^ 30 % 512) :
    (T.mapModule phys va size).kernelLeaf q = T.kernelLeaf q := by
  unfold mapModule kernelLeaf
  dsimp only
  rw [update_self, tableIndex_eq, update_of_ne hq]

theorem mapModule_pdpt (phys va size : ℕ) {name : Pdpt} (hname : name ≠ .kernel) :
    (T.mapModule phys va size).pdpt name = T.pdpt name := by
  unfold mapModule
  dsimp only
  rw [update_of_ne hname]

theorem mapModule_no_pages (hno : ∀ i e, T.pdpt .kernel i ≠ .page e) (phys va size i e : ℕ) :
    (T.mapModule phys va size).pdpt .kernel i ≠ .page e := by
  unfold mapModule
  dsimp only
  rw [update_self]
  by_cases hi : i = tableIndex va 30
  · rw [hi, update_self]
    simp
  · rw [update_of_ne hi]
    exact hno i e

theorem kernelLeaf_mapModule (hno : ∀ i e, T.pdpt .kernel i ≠ .page e) {phys size : ℕ} (hd : 4096 ∣ d)
    (hfit : pageCount size = 0 ∨
      d % 2 ^ 30 / 4096 + pageCount size ≤ 2 ^ 18 ∧ phys + pageCount size * pageSize ≤ 2 ^ 52) (hlow : d + pageCount size * pageSize ≤ 2 ^ 39) (q : ℕ) (hq : q < 2 ^ 27) :
    (T.mapModule phys (kernelVaBase + d) size).kernelLeaf q =
      if d / 4096 ≤ q ∧ q < d / 4096 + pageCount size then pageEntry phys (q - d / 4096) else T.kernelLeaf q := by
  have hslot : (kernelVaBase + d) / 2 ^ 30 % 512 = d / 2 ^ 30 % 512 := by
    simp only [kernelVaBase]
    omega
  simp only [pageSize] at hlow
  by_cases hg : q / 2 ^ 18 = d / 2 ^ 30 % 512
  · unfold mapModule kernelLeaf
    dsimp only
    rw [update_self, tableIndex_eq, hslot, hg, update_self]
    dsimp only
    have hpages (pd : Pd) : pdLeaf (modulePts pd (kernelVaBase + d) phys (pageCount size)) (q % 2 ^ 18) =
        if d / 4096 ≤ q ∧ q < d / 4096 + pageCount size then pageEntry phys (q - d / 4096) else pdLeaf pd (q % 2 ^ 18) := by
      rcases hfit with hzero | ⟨hfit, hphys⟩
      · rw [hzero, modulePts, if_pos rfl, if_neg (by omega)]
      · rw [modulePts_eq pd hd hfit hphys (by simp only [pageSize]; exact hlow)]
        by_cases hin : d / 4096 ≤ q ∧ q < d / 4096 + pageCount size
        · rw [if_pos hin, if_pos (by omega), show q % 2 ^ 18 - d % 2 ^ 30 / 4096 = q - d / 4096 by omega]
        · rw [if_neg hin, if_neg (by omega)]
    cases hentry : T.pdpt .kernel (d / 2 ^ 30 % 512) with
    | absent => exact hpages _
    | page e => exact absurd hentry (hno _ _)
    | directory pd => exact hpages pd
  · rw [kernelLeaf_mapModule_other _ _ (by rw [hslot]; exact hg), if_neg (by omega)]

end XenOS.Boot
