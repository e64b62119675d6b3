import Mathlib.Algebra.Order.BigOperators.Group.List
import XenOS.General.Run
import XenOS.Mm.Pagefile

/-! Commitment is charged exactly while the limit, with what the paging files can still grow by,
allows it. -/

namespace XenOS.Mm

open General List Pagefiles Nat
open Option (bind_eq_bind bind_eq_some_iff bind_none bind_some)

variable {pf pf' : MmpagingFile} {files files' : List MmpagingFile} {pages added i ramLimit fuel : ℕ} {s s' : Pagefiles}

/-! ### A file -/

namespace MmpagingFile

def Growable (pf : MmpagingFile) : Prop := pf.active = true ∧ pf.extendable = true ∧ pf.size < pf.maximumSize

structure Sized (pf : MmpagingFile) : Prop where
  size : pf.size ≤ pf.maximumSize
  maximum : pf.maximumSize ≤ mmMaxPagefileSize
  inactive : pf.active = false → pf.size = 0

def spare (pf : MmpagingFile) : ℕ := if pf.active ∧ pf.extendable then pf.maximumSize - pf.size else 0

structure Extended (pf pf' : MmpagingFile) (added : ℕ) : Prop where
  size : pf'.size = pf.size + added
  pos : 0 < added
  le : pf.size + added ≤ pf.maximumSize
  maximum : pf'.maximumSize = pf.maximumSize
  minimum : pf'.minimumSize = pf.minimumSize
  active : pf'.active = pf.active
  extendable : pf'.extendable = pf.extendable

theorem Extended.sized (he : Extended pf pf' added) (h : pf.Sized) (hactive : pf.active = true) : pf'.Sized where
  size := by rw [he.size, he.maximum]; exact he.le
  maximum := by rw [he.maximum]; exact h.maximum
  inactive hoff := by rw [he.active, hactive] at hoff; cases hoff

theorem Extended.spare (he : Extended pf pf' added) (hg : pf.Growable) : pf'.spare + added = pf.spare := by
  have hle := he.le
  unfold MmpagingFile.spare
  rw [he.active, he.extendable, he.maximum, he.size, if_pos ⟨hg.1, hg.2.1⟩, if_pos ⟨hg.1, hg.2.1⟩]
  omega

theorem spare_eq_zero (hg : ¬ pf.Growable) : pf.spare = 0 := by
  unfold spare
  split_ifs with hflags
  · have hle : ¬ pf.size < pf.maximumSize := fun hlt => hg ⟨hflags.1, hflags.2, hlt⟩
    omega
  · rfl

theorem extend_of_not_growable (hg : ¬ pf.Growable) (pages : ℕ) (pool : Bool) : pf.extend pages pool = some none := by
  unfold extend
  split_ifs with hflags hfull
  · rfl
  · rfl
  · rw [not_or, Bool.not_eq_false, Bool.not_eq_false] at hflags
    exact absurd ⟨hflags.1, hflags.2, not_le.1 hfull⟩ hg

theorem extend_cases (h : pf.Sized) (hg : pf.Growable) (hpos : 0 < pages) (pool : Bool) :
    (2 ^ 64 ≤ pf.size + pages ∧ pf.extend pages pool = none) ∨
    (pf.size + pages < 2 ^ 64 ∧ pool = false ∧ pf.extend pages pool = some none) ∨
    (pf.size + pages < 2 ^ 64 ∧ ∃ pf' added, pf.extend pages pool = some (some (pf', added)) ∧ Extended pf pf' added ∧
      min pages (pf.maximumSize - pf.size) ≤ added) := by
  obtain ⟨hactive, hextendable, hlt⟩ := hg
  have hmax := h.maximum
  unfold mmMaxPagefileSize at hmax
  unfold extend
  rw [if_neg (by simp [hactive, hextendable]), if_neg (not_le.2 hlt)]
  by_cases hover : 2 ^ 64 ≤ pf.size + max pages (pf.size / 4)
  · exact Or.inl ⟨by omega, if_pos hover⟩
  simp only
  rw [if_neg hover, if_neg (by omega)]
  cases hgrow : growBitmap pf.bitmap (min (pf.size + max pages (pf.size / 4)) pf.maximumSize) pool with
  | none =>
    refine Or.inr (Or.inl ⟨by omega, ?_, rfl⟩)
    unfold growBitmap at hgrow
    simp only at hgrow
    split_ifs at hgrow with hshort hpool
    simpa using hpool
  | some bitmap =>
    refine Or.inr (Or.inr ⟨by omega, _, _, rfl, ⟨?_, ?_, ?_, rfl, rfl, rfl, rfl⟩, ?_⟩)
    · simp only
      omega
    · omega
    · omega
    · omega

theorem growable_of_extend {pool : Bool} (hret : pf.extend pages pool = some (some (pf', added))) : pf.Growable := by
  by_contra hg
  rw [extend_of_not_growable hg] at hret
  cases hret

theorem Sized.congr (h : pf.Sized) (hsame : pf'.size = pf.size ∧ pf'.maximumSize = pf.maximumSize ∧ pf'.active = pf.active) :
    pf'.Sized := by
  obtain ⟨hsize, hmax, hactive⟩ := hsame
  exact ⟨by rw [hsize, hmax]; exact h.size, by rw [hmax]; exact h.maximum, fun hoff => hsize.trans (h.inactive (hactive ▸ hoff))⟩

theorem takeSlot_sizes (pf : MmpagingFile) (w b : ℕ) : (pf.takeSlot w b).size = pf.size ∧
    (pf.takeSlot w b).maximumSize = pf.maximumSize ∧ (pf.takeSlot w b).active = pf.active := by
  unfold takeSlot
  exact ⟨rfl, rfl, rfl⟩

end MmpagingFile

open MmpagingFile

namespace Pagefiles

/-! ### The loop over the files -/

def sizes (files : List MmpagingFile) : ℕ := (files.map MmpagingFile.size).sum

def spares (files : List MmpagingFile) : ℕ := (files.map MmpagingFile.spare).sum

inductive ExtendedOne (files files' : List MmpagingFile) (added : ℕ) : Prop where
  | intro (l r : List MmpagingFile) (pf pf' : MmpagingFile) (hfiles : files = l ++ pf :: r) (hfiles' : files' = l ++ pf' :: r)
      (hgrow : pf.Growable) (hextended : Extended pf pf' added)

section
variable (h : ExtendedOne files files' added)
include h

theorem ExtendedOne.cons (pf : MmpagingFile) : ExtendedOne (pf :: files) (pf :: files') added := by
  obtain ⟨l, r, p, p', rfl, rfl, hgrow, hextended⟩ := h
  exact ⟨pf :: l, r, p, p', rfl, rfl, hgrow, hextended⟩

theorem ExtendedOne.sizes : sizes files' = sizes files + added := by
  obtain ⟨l, r, pf, pf', rfl, rfl, -, hextended⟩ := h
  simp only [sizes, map_append, map_cons, List.sum_append, sum_cons, hextended.size]
  omega

theorem ExtendedOne.spares : spares files' + added = spares files := by
  obtain ⟨l, r, pf, pf', rfl, rfl, hgrow, hextended⟩ := h
  have := hextended.spare hgrow
  simp only [spares, map_append, map_cons, List.sum_append, sum_cons]
  omega

theorem ExtendedOne.sized (hsized : ∀ pf ∈ files, pf.Sized) : ∀ pf ∈ files', pf.Sized := by
  obtain ⟨l, r, pf, pf', rfl, rfl, hgrow, hextended⟩ := h
  intro p hp
  rcases mem_append.1 hp with hp | hp
  · exact hsized p (mem_append_left _ hp)
  · rcases mem_cons.1 hp with rfl | hp
    · exact hextended.sized (hsized pf (by simp)) hgrow.1
    · exact hsized p (by simp [hp])

theorem ExtendedOne.length : files'.length = files.length := by
  obtain ⟨l, r, pf, pf', rfl, rfl, -, -⟩ := h
  simp

end

def Fits (files : List MmpagingFile) (pages : ℕ) : Prop := ∀ pf ∈ files, pf.Growable → pf.size + pages < 2 ^ 64

section
variable (hsized : ∀ pf ∈ files, pf.Sized)
include hsized

theorem extendLoop_some {pool : ℕ → Bool} (hpos : 0 < pages)
    (hret : extendLoop pages pool i files = some (some (files', added))) : ExtendedOne files files' added := by
  induction files generalizing i files' with
  | nil => cases hret
  | cons pf files ih =>
    obtain ⟨turn, hturn, hret⟩ := bind_eq_some_iff.1 hret
    cases turn with
    | some turn =>
      obtain ⟨pf', added'⟩ := turn
      cases hret
      have hgrow := growable_of_extend hturn
      rcases extend_cases (hsized pf mem_cons_self) hgrow hpos (pool i) with ⟨-, hnone⟩ | ⟨-, -, hnone⟩ | ⟨-, p, a, hsome, hextended, -⟩
      · cases hturn.symm.trans hnone
      · cases hturn.symm.trans hnone
      · cases hturn.symm.trans hsome
        exact ⟨[], files, pf, pf', rfl, rfl, hgrow, hextended⟩
    | none =>
      obtain ⟨rest, hrest, hret⟩ := bind_eq_some_iff.1 hret
      cases rest with
      | none => cases hret
      | some rest =>
        obtain ⟨files₁, added'⟩ := rest
        cases hret
        exact (ih (fun p hp => hsized p (mem_cons_of_mem _ hp)) hrest).cons pf

/-- Where nothing overflows and there is memory for the bitmaps, a file is extended as soon as one can grow. -/
theorem extendLoop_fits (hpos : 0 < pages) (hfits : Fits files pages) (i : ℕ) :
    (extendLoop pages (fun _ => true) i files = some none ∧ spares files = 0) ∨
      ∃ files' added, extendLoop pages (fun _ => true) i files = some (some (files', added)) ∧ Fits files' pages := by
  induction files generalizing i with
  | nil => exact Or.inl ⟨rfl, rfl⟩
  | cons pf files ih =>
    have hsized' : ∀ p ∈ files, p.Sized := fun p hp => hsized p (mem_cons_of_mem _ hp)
    have hfits' : Fits files pages := fun p hp => hfits p (mem_cons_of_mem _ hp)
    by_cases hgrow : pf.Growable
    · have hfit := hfits pf mem_cons_self hgrow
      rcases extend_cases (hsized pf mem_cons_self) hgrow hpos true with ⟨hover, -⟩ | ⟨-, hpool, -⟩ | ⟨-, pf', added, hsome, hextended, hleast⟩
      · omega
      · cases hpool
      · refine Or.inr ⟨pf' :: files, added, ?_, ?_⟩
        · simp only [extendLoop, hsome, bind_eq_bind, bind_some]
          rfl
        · intro p hp hgrow'
          rcases mem_cons.1 hp with rfl | hp
          · -- a file that is not full grew by all the pages, which are few
            have hlt := hgrow'.2.2
            have hmax := (hsized pf mem_cons_self).maximum
            rw [hextended.maximum, hextended.size] at hlt
            unfold mmMaxPagefileSize at hmax
            rw [hextended.size]
            omega
          · exact hfits' p hp hgrow'
    · have hnone := extend_of_not_growable hgrow pages true
      rcases ih hsized' hfits' (i + 1) with ⟨hrest, hzero⟩ | ⟨files', added, hrest, hfits''⟩
      · refine Or.inl ⟨?_, ?_⟩
        · simp only [extendLoop, hnone, hrest, bind_eq_bind, bind_some]
          rfl
        · simp only [spares, map_cons, sum_cons, spare_eq_zero hgrow, zero_add]
          exact hzero
      · refine Or.inr ⟨pf :: files', added, ?_, ?_⟩
        · simp only [extendLoop, hnone, hrest, bind_eq_bind, bind_some]
          rfl
        · intro p hp hgrow'
          rcases mem_cons.1 hp with rfl | hp
          · exact absurd hgrow' hgrow
          · exact hfits'' p hp hgrow'

theorem extendLoop_overflows (hpos : 0 < pages) (hover : ¬ Fits files pages) (i : ℕ) :
    extendLoop pages (fun _ => true) i files = none ∨
      ∃ files' added, extendLoop pages (fun _ => true) i files = some (some (files', added)) ∧ ¬ Fits files' pages := by
  induction files generalizing i with
  | nil => exact absurd (fun p hp => by cases hp) hover
  | cons pf files ih =>
    have hsized' : ∀ p ∈ files, p.Sized := fun p hp => hsized p (mem_cons_of_mem _ hp)
    by_cases hgrow : pf.Growable
    · rcases extend_cases (hsized pf mem_cons_self) hgrow hpos true with ⟨-, hnone⟩ | ⟨-, hpool, -⟩ | ⟨hfit, pf', added, hsome, -, -⟩
      · left
        simp only [extendLoop, hnone, bind_eq_bind, bind_none]
      · cases hpool
      · refine Or.inr ⟨pf' :: files, added, ?_, fun hfits => hover fun p hp hgrow' => ?_⟩
        · simp only [extendLoop, hsome, bind_eq_bind, bind_some]
          rfl
        · rcases mem_cons.1 hp with rfl | hp
          · exact hfit
          · exact hfits p (mem_cons_of_mem _ hp) hgrow'
    · have hnone := extend_of_not_growable hgrow pages true
      have hover' : ¬ Fits files pages := fun hfits => hover fun p hp hgrow' => by
        rcases mem_cons.1 hp with rfl | hp
        · exact absurd hgrow' hgrow
        · exact hfits p hp hgrow'
      rcases ih hsized' hover' (i + 1) with hrest | ⟨files', added, hrest, hover''⟩
      · left
        simp only [extendLoop, hnone, hrest, bind_eq_bind, bind_some, bind_none]
      · refine Or.inr ⟨pf :: files', added, ?_, fun hfits => hover'' fun p hp => hfits p (mem_cons_of_mem _ hp)⟩
        simp only [extendLoop, hnone, hrest, bind_eq_bind, bind_some]
        rfl

end

/-! ### The books -/

structure Books (ramLimit : ℕ) (s : Pagefiles) : Prop where
  length : s.files.length = mmMaxPagingFiles
  sized : ∀ pf ∈ s.files, pf.Sized
  limit : s.totalCommitLimit = ramLimit + sizes s.files
  committed : s.totalCommittedPages ≤ s.totalCommitLimit

theorem sizes_le (h : ∀ pf ∈ files, pf.Sized) : sizes files + spares files ≤ files.length * mmMaxPagefileSize := by
  induction files with
  | nil => exact le_refl _
  | cons pf files ih =>
    have hfile : pf.size + pf.spare ≤ mmMaxPagefileSize := by
      obtain ⟨hsize, hmax, -⟩ := h pf mem_cons_self
      unfold spare
      split_ifs <;> omega
    have hfiles := ih fun p hp => h p (mem_cons_of_mem _ hp)
    simp only [sizes, spares, map_cons, sum_cons, length_cons, succ_mul] at hfiles ⊢
    omega

theorem Books.limit_le (h : s.Books ramLimit) : s.totalCommitLimit + spares s.files ≤ ramLimit + 2 ^ 26 := by
  have hle := sizes_le h.sized
  rw [h.length] at hle
  rw [h.limit]
  unfold mmMaxPagingFiles mmMaxPagefileSize at hle
  omega

theorem books_init (ramLimit : ℕ) : (init ramLimit).Books ramLimit where
  length := length_replicate
  sized pf hpf := by
    rw [eq_of_mem_replicate hpf]
    exact ⟨le_refl _, zero_le _, fun _ => rfl⟩
  limit := by
    simp [init, sizes, MmpagingFile.new]
  committed := zero_le _

theorem Books.extended (h : s.Books ramLimit) (hram : ramLimit < 2 ^ 52) (hone : ExtendedOne s.files files' added) :
    Books ramLimit { s with
      files := files'
      pagefileSize := fetchAdd s.pagefileSize added
      totalCommitLimit := fetchAdd s.totalCommitLimit added } := by
  have hsizes := hone.sizes
  have hspares := hone.spares
  have hle := h.limit_le
  have hlimit : fetchAdd s.totalCommitLimit added = s.totalCommitLimit + added := fetchAdd_of_lt (by omega)
  refine ⟨hone.length.trans h.length, hone.sized h.sized, ?_, ?_⟩
  · have := h.limit
    simp only [hlimit, hsizes]
    omega
  · have := h.committed
    simp only [hlimit]
    omega

theorem miTryExtendPagefiles_cases {pool : ℕ → Bool} {extended : Bool} (hsized : ∀ pf ∈ s.files, pf.Sized) (hpos : 0 < pages)
    (hret : s.miTryExtendPagefiles pages pool = some (extended, s')) :
    (extended = false ∧ s' = s ∧ extendLoop pages pool 0 s.files = some none) ∨
    (extended = true ∧ ∃ files' added, ExtendedOne s.files files' added ∧ extendLoop pages pool 0 s.files = some (some (files', added)) ∧
      s' = { s with
        files := files'
        pagefileSize := fetchAdd s.pagefileSize added
        totalCommitLimit := fetchAdd s.totalCommitLimit added }) := by
  obtain ⟨out, hloop, hret⟩ := bind_eq_some_iff.1 hret
  cases out with
  | none =>
    cases hret
    exact Or.inl ⟨rfl, rfl, hloop⟩
  | some out =>
    obtain ⟨files', added⟩ := out
    cases hret
    exact Or.inr ⟨rfl, files', added, extendLoop_some hsized hpos hloop, hloop, rfl⟩

theorem Books.chargeLoop {pool : ℕ → ℕ → Bool} {granted : Bool} (h : s.Books ramLimit) (hram : ramLimit < 2 ^ 52) (hpos : 0 < pages)
    (hret : chargeLoop pages pool fuel s = some (granted, s')) : s'.Books ramLimit := by
  induction fuel generalizing s with
  | zero => cases hret
  | succ fuel ih =>
    unfold chargeLoop at hret
    simp only at hret
    split at hret
    · obtain ⟨⟨extended, s₁⟩, hextend, hrest⟩ := bind_eq_some_iff.1 hret
      rcases miTryExtendPagefiles_cases h.sized hpos hextend with ⟨rfl, rfl, -⟩ | ⟨rfl, files', added, hone, -, rfl⟩
      · cases hrest
        exact h
      · exact ih (h.extended hram hone) hrest
    · rename_i hle
      cases hret
      exact ⟨h.length, h.sized, h.limit, not_lt.1 hle⟩

theorem Books.miChargeCommitment {pool : ℕ → ℕ → Bool} {granted : Bool} (h : s.Books ramLimit) (hram : ramLimit < 2 ^ 52)
    (hret : s.miChargeCommitment pages pool = some (granted, s')) : s'.Books ramLimit := by
  unfold Pagefiles.miChargeCommitment at hret
  split_ifs at hret with hzero
  · cases hret
    exact h
  · exact h.chargeLoop hram (Nat.pos_of_ne_zero hzero) hret

/-! ### A charge -/

/-- What a charge should do: grant exactly what the limit and the room of the files allow, and
count exactly what it grants. -/
def ChargesRight (ramLimit : ℕ) (s : Pagefiles) (pages : ℕ) : Prop :=
  ∃ granted s', s.miChargeCommitment pages (fun _ _ => true) = some (granted, s') ∧
    (granted = true ↔ s.totalCommittedPages + pages ≤ s.totalCommitLimit + s.room) ∧
    s'.totalCommittedPages = (if granted then s.totalCommittedPages + pages else s.totalCommittedPages) ∧
    s'.totalCommittedPages ≤ s'.totalCommitLimit ∧ s'.totalCommitLimit = ramLimit + sizes s'.files

theorem chargeLoop_fits (h : s.Books ramLimit) (hram : ramLimit < 2 ^ 52) (hpos : 0 < pages)
    (hfits : s.totalCommittedPages + pages ≤ s.totalCommitLimit ∨ Fits s.files pages) (hfuel : spares s.files < fuel) :
    ∃ granted s', chargeLoop pages (fun _ _ => true) fuel s = some (granted, s') ∧
      (granted = true ↔ s.totalCommittedPages + pages ≤ s.totalCommitLimit + spares s.files) ∧
      s'.totalCommittedPages = if granted then s.totalCommittedPages + pages else s.totalCommittedPages := by
  induction fuel generalizing s with
  | zero => omega
  | succ fuel ih =>
    have hlimit := h.limit_le
    by_cases hle : s.totalCommittedPages + pages ≤ s.totalCommitLimit
    · have hcommit : min (s.totalCommittedPages + pages) usizeMax = s.totalCommittedPages + pages := by
        unfold usizeMax
        omega
      refine ⟨true, { s with
        totalCommittedPages := s.totalCommittedPages + pages
        peakCommitment := if s.peakCommitment < s.totalCommittedPages + pages then s.totalCommittedPages + pages else s.peakCommitment },
        ?_, iff_of_true rfl (by omega), rfl⟩
      unfold chargeLoop
      simp only [hcommit]
      rw [if_neg (not_lt.2 hle)]
      rfl
    · have hfits := hfits.resolve_left hle
      have hlt : s.totalCommitLimit < min (s.totalCommittedPages + pages) usizeMax := by
        unfold usizeMax
        omega
      rcases extendLoop_fits h.sized hpos hfits 0 with ⟨hloop, hzero⟩ | ⟨files', added, hloop, hfits'⟩
      · refine ⟨false, s, ?_, iff_of_false (by decide) (by omega), rfl⟩
        unfold chargeLoop miTryExtendPagefiles
        simp only [hloop, bind_eq_bind, bind_some]
        rw [if_pos hlt]
        rfl
      · have hone := extendLoop_some h.sized hpos hloop
        have hspares := hone.spares
        have hgot : 0 < added := by
          obtain ⟨l, r, pf, pf', -, -, -, hextended⟩ := hone
          exact hextended.pos
        have hadd : fetchAdd s.totalCommitLimit added = s.totalCommitLimit + added := fetchAdd_of_lt (by omega)
        obtain ⟨granted, s', hret, hiff, hcommitted⟩ := ih (h.extended hram hone) (Or.inr hfits') (by simp only; omega)
        refine ⟨granted, s', ?_, ?_, hcommitted⟩
        · unfold chargeLoop miTryExtendPagefiles
          simp only [hloop, bind_eq_bind, bind_some]
          rw [if_pos hlt]
          exact hret
        · rw [hiff]
          simp only [hadd]
          omega

theorem chargeLoop_overflows (h : s.Books ramLimit) (hram : ramLimit < 2 ^ 52) (hpos : 0 < pages) (hover : ¬ Fits s.files pages) (fuel : ℕ) :
    chargeLoop pages (fun _ _ => true) fuel s = none := by
  induction fuel generalizing s with
  | zero => rfl
  | succ fuel ih =>
    have hlarge : 2 ^ 63 ≤ pages := by
      by_contra hsmall
      refine hover fun pf hpf _ => ?_
      obtain ⟨hsize, hmax, -⟩ := h.sized pf hpf
      unfold mmMaxPagefileSize at hmax
      omega
    have hlimit := h.limit_le
    have hlt : s.totalCommitLimit < min (s.totalCommittedPages + pages) usizeMax := by
      unfold usizeMax
      omega
    unfold chargeLoop miTryExtendPagefiles
    simp only [if_pos hlt]
    rcases extendLoop_overflows h.sized hpos hover 0 with hloop | ⟨files', added, hloop, hover'⟩
    · simp only [hloop, bind_eq_bind, bind_none]
    · simp only [hloop, bind_eq_bind, bind_some]
      exact ih (h.extended hram (extendLoop_some h.sized hpos hloop)) hover'

theorem Books.right_iff (h : s.Books ramLimit) (hram : ramLimit < 2 ^ 52) :
    s.ChargesRight ramLimit pages ↔ s.totalCommittedPages + pages ≤ s.totalCommitLimit ∨ Fits s.files pages := by
  by_cases hzero : pages = 0
  · have hcommitted := h.committed
    refine iff_of_true ⟨true, s, ?_, iff_of_true rfl (by omega), ?_, h.committed, h.limit⟩ (Or.inl (by omega))
    · rw [Pagefiles.miChargeCommitment, if_pos hzero]
    · rw [hzero]
      rfl
  have hpos := Nat.pos_of_ne_zero hzero
  have hcharge : s.miChargeCommitment pages (fun _ _ => true) = Pagefiles.chargeLoop pages (fun _ _ => true) (s.room + 1) s := if_neg hzero
  constructor
  · rintro ⟨granted, s', hret, -⟩
    by_contra hover
    rw [not_or] at hover
    rw [hcharge, chargeLoop_overflows h hram hpos hover.2] at hret
    cases hret
  · intro hfits
    obtain ⟨granted, s', hret, hiff, hcommitted⟩ := chargeLoop_fits h hram hpos hfits (Nat.lt_succ_self s.room)
    have hbooks := h.chargeLoop hram hpos hret
    exact ⟨granted, s', hcharge.trans hret, hiff, hcommitted, hbooks.committed, hbooks.limit⟩

/-! ### Runs -/

inductive PagefileCall
  | create (inMemory : Bool) (minimumSize maximumSize : ℕ) (pool : Bool)
  | allocate
  | free (pagefileIndex offset : ℕ)
  | charge (pages : ℕ) (pool : ℕ → ℕ → Bool)
  | giveBack (pages : ℕ)

def step (s : Pagefiles) : PagefileCall → Pagefiles
  | .create inMemory minimumSize maximumSize pool => (s.ntCreatePagingFile inMemory minimumSize maximumSize pool).2
  | .allocate => s.miAllocatePagefileSpace.elim s Prod.snd
  | .free pagefileIndex offset => s.miFreePagefileSpace pagefileIndex offset
  | .charge pages pool => (s.miChargeCommitment pages pool).elim s Prod.snd
  | .giveBack pages => s.miReturnCommitment pages

def Admitted (s : Pagefiles) : PagefileCall → Prop
  | .giveBack pages => pages ≤ s.totalCommittedPages
  | _ => True

theorem sizes_set (h : files[i]? = some pf) (pf' : MmpagingFile) : sizes (files.set i pf') + pf.size = sizes files + pf'.size := by
  induction files generalizing i with
  | nil => cases h
  | cons p files ih =>
    cases i with
    | zero =>
      cases h
      simp only [set_cons_zero, sizes, map_cons, sum_cons]
      omega
    | succ i =>
      have hrest := ih h
      simp only [set_cons_succ, sizes, map_cons, sum_cons] at hrest ⊢
      omega

theorem sized_set (h : ∀ p ∈ files, p.Sized) (hpf : pf'.Sized) : ∀ p ∈ files.set i pf', p.Sized := by
  intro p hp
  rcases mem_or_eq_of_mem_set hp with hp | rfl
  · exact h p hp
  · exact hpf

theorem Books.setFile (h : s.Books ramLimit) (hget : s.files[i]? = some pf) (hsize : pf'.size = pf.size) (hpf : pf'.Sized) :
    Books ramLimit { s with files := s.files.set i pf' } := by
  have hsizes := sizes_set hget pf'
  refine ⟨(length_set).trans h.length, sized_set h.sized hpf, ?_, h.committed⟩
  have := h.limit
  simp only
  omega

theorem Books.create {inMemory pool : Bool} {minimumSize maximumSize : ℕ} (h : s.Books ramLimit) (hram : ramLimit < 2 ^ 52) :
    (s.ntCreatePagingFile inMemory minimumSize maximumSize pool).2.Books ramLimit := by
  unfold ntCreatePagingFile
  split_ifs with hmin hmax hmany hpool
  · exact h
  · exact h
  · exact h
  · cases hfind : s.files.findIdx? fun pf => !pf.active with
    | none => exact h
    | some slotIdx =>
      obtain ⟨hlt, hfree, -⟩ := findIdx?_eq_some_iff_getElem.1 hfind
      have hget : s.files[slotIdx]? = some s.files[slotIdx] := getElem?_eq_getElem hlt
      have hzero : s.files[slotIdx].size = 0 := (h.sized _ (getElem_mem hlt)).inactive (by simpa using hfree)
      have hsizes := sizes_set hget (.create minimumSize maximumSize slotIdx inMemory)
      have hlimit := h.limit_le
      have hcommitted := h.committed
      rw [not_or, not_lt, not_lt] at hmax
      have hadd : fetchAdd s.totalCommitLimit minimumSize = s.totalCommitLimit + minimumSize := by
        refine fetchAdd_of_lt ?_
        have hle := hmax.2
        unfold mmMaxPagefileSize at hle
        omega
      refine ⟨(length_set).trans h.length, sized_set h.sized ⟨hmax.1, hmax.2, fun hoff => by cases hoff⟩, ?_, ?_⟩
      · have hbooks := h.limit
        have hcreated : (MmpagingFile.create minimumSize maximumSize slotIdx inMemory).size = minimumSize := rfl
        simp only [hadd]
        omega
      · simp only [hadd]
        omega
  · cases s.files.findIdx? fun pf => !pf.active <;> exact h

theorem slotInWord_some {wordIdx offset : ℕ} (hret : pf.slotInWord wordIdx = some (offset, pf')) :
    pf.bitmap.getD wordIdx 0#64 ≠ 0#64 ∧ offset = wordIdx * 64 + trailingZeros (pf.bitmap.getD wordIdx 0#64) ∧ offset < pf.size ∧
      pf' = pf.takeSlot wordIdx (trailingZeros (pf.bitmap.getD wordIdx 0#64)) := by
  unfold slotInWord at hret
  simp only at hret
  split_ifs at hret with hzero hlarge
  cases hret
  exact ⟨hzero, rfl, not_le.1 hlarge, rfl⟩

theorem allocateSlot_some {offset : ℕ} (hret : pf.miAllocateSlotInPagefile = some (offset, pf')) :
    ∃ wordIdx < pf.bitmap.length, pf.slotInWord wordIdx = some (offset, pf') := by
  unfold miAllocateSlotInPagefile at hret
  split_ifs at hret with hnone hfull
  obtain ⟨i, hi, hslot⟩ := exists_of_findSome?_eq_some hret
  have hi := mem_range.1 hi
  exact ⟨_, mod_lt _ (by omega), hslot⟩

theorem allocate_some {fileIdx offset : ℕ} (hret : s.miAllocatePagefileSpace = some ((fileIdx, offset), s')) :
    fileIdx < s.numberOfPagingFiles ∧ ∃ pf pf', s.files[fileIdx]? = some pf ∧ pf.active = true ∧
      pf.miAllocateSlotInPagefile = some (offset, pf') ∧ s' = { s with files := s.files.set fileIdx pf' } := by
  unfold miAllocatePagefileSpace at hret
  split_ifs at hret with hzero
  obtain ⟨i, hi, hslot⟩ := exists_of_findSome?_eq_some hret
  have hi := mem_range.1 hi
  cases hget : s.files[i]? with
  | none =>
    rw [hget] at hslot
    cases hslot
  | some pf =>
    rw [hget] at hslot
    simp only at hslot
    split_ifs at hslot with hactive
    obtain ⟨⟨o, pf'⟩, halloc, hpair⟩ := Option.map_eq_some_iff.1 hslot
    cases hpair
    exact ⟨hi, pf, pf', hget, hactive, halloc, rfl⟩

theorem Books.allocate (h : s.Books ramLimit) : (s.step .allocate).Books ramLimit := by
  change Books ramLimit (s.miAllocatePagefileSpace.elim s Prod.snd)
  cases hret : s.miAllocatePagefileSpace with
  | none => exact h
  | some out =>
    obtain ⟨⟨fileIdx, offset⟩, s'⟩ := out
    obtain ⟨-, pf, pf', hget, -, halloc, rfl⟩ := allocate_some hret
    obtain ⟨w, -, hslot⟩ := allocateSlot_some halloc
    obtain ⟨-, -, -, rfl⟩ := slotInWord_some hslot
    have hsame := takeSlot_sizes pf w (trailingZeros (pf.bitmap.getD w 0#64))
    exact h.setFile hget hsame.1 ((h.sized pf (mem_of_getElem? hget)).congr hsame)

theorem freeSlot_sizes (pf : MmpagingFile) (offset : ℕ) : (pf.freeSlot offset).size = pf.size ∧
    (pf.freeSlot offset).maximumSize = pf.maximumSize ∧ (pf.freeSlot offset).active = pf.active := by
  unfold freeSlot
  split_ifs <;> exact ⟨rfl, rfl, rfl⟩

theorem Books.free {pagefileIndex offset : ℕ} (h : s.Books ramLimit) : (s.miFreePagefileSpace pagefileIndex offset).Books ramLimit := by
  unfold miFreePagefileSpace
  split_ifs with hlarge
  · exact h
  have hlt : pagefileIndex < s.files.length := by
    rw [h.length]
    omega
  have hsame := freeSlot_sizes s.files[pagefileIndex] offset
  rw [modify_eq_set_getElem?, getElem?_eq_getElem hlt]
  exact h.setFile (getElem?_eq_getElem hlt) hsame.1 ((h.sized _ (getElem_mem hlt)).congr hsame)

theorem Books.giveBack (h : s.Books ramLimit) (hram : ramLimit < 2 ^ 52) (hle : pages ≤ s.totalCommittedPages) :
    (s.miReturnCommitment pages).Books ramLimit := by
  unfold miReturnCommitment
  split_ifs
  · exact h
  have hlimit := h.limit_le
  have hcommitted := h.committed
  have hsub : fetchSub s.totalCommittedPages pages = s.totalCommittedPages - pages := fetchSub_of_le hle (by omega)
  refine ⟨h.length, h.sized, h.limit, ?_⟩
  simp only [hsub]
  omega

theorem Books.step (h : s.Books ramLimit) (hram : ramLimit < 2 ^ 52) (call : PagefileCall) (hcall : s.Admitted call) :
    (s.step call).Books ramLimit := by
  cases call with
  | create inMemory minimumSize maximumSize pool => exact h.create hram
  | allocate => exact h.allocate
  | free pagefileIndex offset => exact h.free
  | charge pages pool =>
    change Books ramLimit ((s.miChargeCommitment pages pool).elim s Prod.snd)
    cases hret : s.miChargeCommitment pages pool with
    | none => exact h
    | some out => exact h.miChargeCommitment hram hret
  | giveBack pages => exact h.giveBack hram hcall

/-- A charge is right exactly where it fits the limit at once, or no file that can grow has a size
that overflows with the pages. -/
theorem chargesRight_iff (hram : ramLimit < 2 ^ 52) {calls : List PagefileCall} (hcalls : EveryStep step Admitted (init ramLimit) calls)
    (pages : ℕ) : (run step (init ramLimit) calls).ChargesRight ramLimit pages ↔
      (run step (init ramLimit) calls).totalCommittedPages + pages ≤ (run step (init ramLimit) calls).totalCommitLimit ∨
        Fits (run step (init ramLimit) calls).files pages :=
  Books.right_iff (run_invariant (fun _ call hs => hs.step hram call) (books_init ramLimit) hcalls) hram

def oneFile : List PagefileCall := [.create true 4096 8192 true]

theorem books_oneFile : (run step (init 1000) oneFile).Books 1000 := (books_init 1000).create (by decide)

/-- More than the limit, and less than the file can grow. -/
theorem chargesRight_oneFile : (run step (init 1000) oneFile).ChargesRight 1000 6000 := by
  have hcalls : EveryStep step Admitted (init 1000) oneFile := And.intro trivial trivial
  refine (chargesRight_iff (by decide) hcalls 6000).2 (Or.inr fun pf hpf _ => ?_)
  obtain ⟨hsize, hmax, -⟩ := books_oneFile.sized pf hpf
  unfold mmMaxPagefileSize at hmax
  omega

/-- The largest number is not refused: the size of the file and the pages overflow. -/
theorem charge_overflows : (∀ fuel, chargeLoop (2 ^ 64 - 1) (fun _ _ => true) fuel (run step (init 1000) oneFile) = none) ∧
    ¬ (run step (init 1000) oneFile).ChargesRight 1000 (2 ^ 64 - 1) := by
  have hover : ¬ Fits (run step (init 1000) oneFile).files (2 ^ 64 - 1) := fun hfits => by
    have hsmall := hfits _ mem_cons_self ⟨rfl, rfl, by decide⟩
    exact absurd hsmall (by decide)
  refine ⟨chargeLoop_overflows books_oneFile (by decide) (by decide) hover, fun hright => ?_⟩
  rcases (books_oneFile.right_iff (by decide)).1 hright with hle | hfits
  · exact absurd hle (by decide)
  · exact hover hfits

end Pagefiles

end XenOS.Mm
