import XenOS.General.Run
import XenOS.Mm.SectionLife
import Mathlib.Data.List.Perm.Basic

/-! When control areas live exactly as long as they are used. Each is made with one reference, which
the deletion of the object and the unmapping of the last view both drop; images that run out of
memory, and prototype PTEs in several subsections, go wrong too. -/

namespace XenOS.Mm

open General List Subsection ControlArea Books
open Function (update update_self update_of_ne)

def ControlArea.blocks (area : ControlArea) (ca : ℕ) : List ℕ :=
  ca :: area.segment :: (area.prototypePte.toList ++ area.subsections.map block)

/-- The subsections give back exactly the array of prototype PTEs. -/
def ControlArea.Carved (area : ControlArea) : Prop :=
  area.subsections.map subsectionBase = area.prototypePte.toList.map fun ptes => (ptes, 0)

namespace SectionSpace

variable {s : SectionSpace} {ca object count : ℕ} {area : ControlArea} {entry : SectionEntry}

def Referenced (s : SectionSpace) (ca : ℕ) : Prop :=
  (∃ object entry, s.sections object = some entry ∧ entry.controlArea = ca) ∨ ∃ vad ∈ s.views, vad.controlArea = ca

/-- The block is part of a control area that is referred to. -/
def InUse (s : SectionSpace) (b : ℕ) : Prop := ∃ ca, s.Referenced ca ∧ b ∈ (s.controlAreas ca).blocks ca

def viewCount (s : SectionSpace) (ca : ℕ) : ℕ := s.views.countP fun vad => vad.controlArea = ca

/-- Each block was freed, once and by its own pointer, exactly if no section object or view refers
to its control area; those referred to count their views. -/
structure Sound (s : SectionSpace) : Prop where
  books : s.pool.Exact s.InUse
  counted : ∀ ca, s.Referenced ca → (s.controlAreas ca).numberOfMappedViews = s.viewCount ca

structure Kept (s : SectionSpace) (ca : ℕ) : Prop where
  derived : (s.controlAreas ca).derivedSectionCount = 1
  counted : (s.controlAreas ca).numberOfMappedViews = s.viewCount ca
  bound : s.viewCount ca < 2 ^ 32
  nodup : ((s.controlAreas ca).blocks ca).Nodup
  below : ∀ b ∈ (s.controlAreas ca).blocks ca, b < s.pool.next
  based : ∀ subsec ∈ (s.controlAreas ca).subsections, (s.controlAreas ca).prototypePte = some subsec.subsectionBase.1

/-- What every run that is right so far keeps. -/
structure Inv (s : SectionSpace) : Prop where
  books : s.pool.Exact s.InUse
  kept : ∀ object entry, s.sections object = some entry → s.Kept entry.controlArea
  numbered : ∀ object entry, s.sections object = some entry → object < s.nextSection
  viewed : ∀ vad ∈ s.views, ∃ object entry, s.sections object = some entry ∧ entry.controlArea = vad.controlArea
  apart : ∀ object object' entry entry' b, s.sections object = some entry → s.sections object' = some entry' →
    b ∈ (s.controlAreas entry.controlArea).blocks entry.controlArea →
    b ∈ (s.controlAreas entry'.controlArea).blocks entry'.controlArea → object = object'

theorem self_mem_blocks : ca ∈ area.blocks ca := by simp [blocks]

theorem Inv.referenced (h : s.Inv) : s.Referenced ca ↔ ∃ object entry, s.sections object = some entry ∧ entry.controlArea = ca := by
  refine ⟨?_, Or.inl⟩
  rintro (hsec | ⟨vad, hvad, rfl⟩)
  · exact hsec
  · exact h.viewed vad hvad

theorem Inv.sound (h : s.Inv) : s.Sound where
  books := h.books
  counted ca href := by
    obtain ⟨object, entry, hsec, rfl⟩ := h.referenced.1 href
    exact (h.kept object entry hsec).counted

theorem Inv.inUse_lt (h : s.Inv) {b : ℕ} (hb : s.InUse b) : b < s.pool.next := by
  obtain ⟨ca, href, hmem⟩ := hb
  obtain ⟨object, entry, hsec, rfl⟩ := h.referenced.1 href
  exact (h.kept object entry hsec).below b hmem

theorem inv_init : init.Inv where
  books := ⟨nodup_nil, fun p hp => absurd hp not_mem_nil, fun b hb => absurd hb (Nat.not_lt_zero b)⟩
  kept _ _ h := by cases h
  numbered _ _ h := by cases h
  viewed _ h := by cases h
  apart _ _ _ _ _ h := by cases h

/-! ### Creation -/

theorem Inv.refused (h : s.Inv) {pointers : List (ℕ × ℕ)} (blocks : List ℕ) (hnodup : blocks.Nodup)
    (hperm : pointers.Perm (starts blocks)) (hblocks : ∀ b, b ∈ blocks ↔ s.pool.next ≤ b ∧ b < s.pool.next + count) :
    ({ s with pool := (s.pool.allocate count).free pointers } : SectionSpace).Inv where
  books := h.books.transient hnodup hperm hblocks fun _ => h.inUse_lt
  kept object entry hsec :=
    { h.kept object entry hsec with below := fun b hb => Nat.lt_add_right _ ((h.kept object entry hsec).below b hb) }
  numbered := h.numbered
  viewed := h.viewed
  apart := h.apart

theorem Inv.created (h : s.Inv) (hblocks : ∀ b, b ∈ area.blocks s.pool.next ↔ s.pool.next ≤ b ∧ b < s.pool.next + count)
    (hnodup : (area.blocks s.pool.next).Nodup) (hderived : area.derivedSectionCount = 1)
    (hviews : area.numberOfMappedViews = 0)
    (hbased : ∀ subsec ∈ area.subsections, area.prototypePte = some subsec.subsectionBase.1) :
    (insertObject (({ s with pool := s.pool.allocate count } : SectionSpace).setControlArea s.pool.next area,
      some s.pool.next) true).Inv := by
  let t := insertObject (({ s with pool := s.pool.allocate count } : SectionSpace).setControlArea s.pool.next area,
    some s.pool.next) true
  show t.Inv
  have hnew : t.sections s.nextSection = some { controlArea := s.pool.next, handles := 1 } := update_self ..
  have hself : t.controlAreas s.pool.next = area := update_self ..
  have hother : ∀ object entry, t.sections object = some entry →
      object = s.nextSection ∧ entry.controlArea = s.pool.next ∨ s.sections object = some entry := fun object entry hsec => by
    by_cases heq : object = s.nextSection
    · subst heq
      rw [hnew] at hsec
      cases hsec
      exact Or.inl ⟨rfl, rfl⟩
    · exact Or.inr (by rwa [show t.sections object = s.sections object from update_of_ne heq _ _] at hsec)
  have hlt : ∀ object entry, s.sections object = some entry → entry.controlArea < s.pool.next := fun object entry hsec =>
    (h.kept object entry hsec).below _ self_mem_blocks
  have harea : ∀ object entry, s.sections object = some entry →
      t.controlAreas entry.controlArea = s.controlAreas entry.controlArea := fun object entry hsec =>
    update_of_ne (Nat.ne_of_lt (hlt object entry hsec)) _ _
  have hsame : ∀ object entry, s.sections object = some entry → t.sections object = some entry := fun object entry hsec => by
    have hne : object ≠ s.nextSection := Nat.ne_of_lt (h.numbered object entry hsec)
    rwa [show t.sections object = s.sections object from update_of_ne hne _ _]
  have hnone : t.viewCount s.pool.next = 0 := by
    rw [viewCount, countP_eq_zero]
    intro vad hvad
    obtain ⟨object, entry, hsec, hca⟩ := h.viewed vad hvad
    have := hlt object entry hsec
    simp only [decide_eq_true_eq]
    omega
  have hviewed : ∀ vad ∈ t.views, ∃ object entry, t.sections object = some entry ∧ entry.controlArea = vad.controlArea :=
    fun vad hvad => by
      obtain ⟨object, entry, hsec, hca⟩ := h.viewed vad hvad
      exact ⟨object, entry, hsame object entry hsec, hca⟩
  constructor
  · refine (h.books.allocate count).congr fun b hb => ?_
    have hb' : b < s.pool.next + count := hb
    constructor
    · rintro (⟨ca, href, hmem⟩ | hge)
      · obtain ⟨object, entry, hsec, rfl⟩ := h.referenced.1 href
        exact ⟨_, Or.inl ⟨object, entry, hsame object entry hsec, rfl⟩, by rwa [harea object entry hsec]⟩
      · exact ⟨_, Or.inl ⟨_, _, hnew, rfl⟩, by rw [hself]; exact (hblocks b).2 ⟨hge, hb'⟩⟩
    · rintro ⟨ca, href, hmem⟩
      have href' : ∃ object entry, t.sections object = some entry ∧ entry.controlArea = ca := by
        rcases href with hsec | ⟨vad, hvad, rfl⟩
        · exact hsec
        · exact hviewed vad hvad
      obtain ⟨object, entry, hsec, rfl⟩ := href'
      rcases hother object entry hsec with ⟨-, hca⟩ | hold
      · rw [hca, hself] at hmem
        exact Or.inr ((hblocks b).1 hmem).1
      · rw [harea object entry hold] at hmem
        exact Or.inl ⟨_, h.referenced.2 ⟨object, entry, hold, rfl⟩, hmem⟩
  · intro object entry hsec
    rcases hother object entry hsec with ⟨-, hca⟩ | hold
    · rw [hca]
      refine ⟨?_, ?_, ?_, ?_, ?_, ?_⟩
      · rw [hself]
        exact hderived
      · rw [hself, hnone]
        exact hviews
      · rw [hnone]
        decide
      · rw [hself]
        exact hnodup
      · rw [hself]
        exact fun b hb => ((hblocks b).1 hb).2
      · rw [hself]
        exact hbased
    · have hk := h.kept object entry hold
      have ha := harea object entry hold
      refine ⟨?_, ?_, hk.bound, ?_, ?_, ?_⟩
      · rw [ha]
        exact hk.derived
      · rw [ha]
        exact hk.counted
      · rw [ha]
        exact hk.nodup
      · rw [ha]
        exact fun b hb => Nat.lt_add_right _ (hk.below b hb)
      · rw [ha]
        exact hk.based
  · intro object entry hsec
    show object < s.nextSection + 1
    rcases hother object entry hsec with ⟨rfl, -⟩ | hold
    · exact Nat.lt_succ_self _
    · exact Nat.lt_succ_of_lt (h.numbered object entry hold)
  · exact hviewed
  · intro object object' entry entry' b hsec hsec' hb hb'
    rcases hother object entry hsec with ⟨rfl, hca⟩ | hold <;> rcases hother object' entry' hsec' with ⟨rfl, hca'⟩ | hold'
    · rfl
    · rw [hca, hself, hblocks] at hb
      rw [harea object' entry' hold'] at hb'
      have := (h.kept object' entry' hold').below b hb'
      omega
    · rw [hca', hself, hblocks] at hb'
      rw [harea object entry hold] at hb
      have := (h.kept object entry hold).below b hb
      omega
    · rw [harea object entry hold] at hb
      rw [harea object' entry' hold'] at hb'
      exact h.apart object object' entry entry' b hold hold' hb hb'

/-! ### Deletion -/

/-- The pointers that the delete procedure frees. -/
def torn (area : ControlArea) (ca : ℕ) : List (ℕ × ℕ) :=
  area.subsections.flatMap (fun subsec => [subsec.subsectionBase, (subsec.block, 0)]) ++ [(area.segment, 0), (ca, 0)]

theorem flatMap_pair_perm {A B : Type*} (f g : A → B) (l : List A) :
    (l.flatMap fun x => [f x, g x]).Perm (l.map f ++ l.map g) := by
  simpa [← map_eq_flatMap] using (map_append_flatMap_perm l f fun x => [g x]).symm

theorem torn_perm : (torn area ca).Perm (area.subsections.map subsectionBase ++
    starts (ca :: area.segment :: area.subsections.map block)) := by
  have hstarts : starts (ca :: area.segment :: area.subsections.map block) =
      [(ca, 0), (area.segment, 0)] ++ area.subsections.map fun subsec => (subsec.block, 0) := by
    simp [starts, Function.comp_def]
  rw [hstarts]
  calc (torn area ca).Perm ((area.subsections.map subsectionBase ++
        area.subsections.map fun subsec => (subsec.block, 0)) ++ [(area.segment, 0), (ca, 0)]) :=
        (flatMap_pair_perm _ _ _).append_right _
    _ = area.subsections.map subsectionBase ++
        ((area.subsections.map fun subsec => (subsec.block, 0)) ++ [(area.segment, 0), (ca, 0)]) := append_assoc ..
    _ |>.Perm _ := perm_append_comm.append_left _ |>.trans ((Perm.append_right _ (Perm.swap _ _ _)).append_left _)

theorem torn_perm_of_carved (h : area.Carved) : (torn area ca).Perm (starts (area.blocks ca)) := by
  refine torn_perm.trans ?_
  rw [show area.subsections.map subsectionBase = starts area.prototypePte.toList from h]
  have hblocks : starts (area.blocks ca) = starts [ca, area.segment] ++ (starts area.prototypePte.toList ++
      starts (area.subsections.map block)) := by
    simp [starts, blocks]
  have hrest : starts (ca :: area.segment :: area.subsections.map block) =
      starts [ca, area.segment] ++ starts (area.subsections.map block) := by
    simp [starts]
  rw [hblocks, hrest, ← append_assoc, ← append_assoc]
  exact perm_append_comm.append_right _

section Delete
variable (h : s.Inv) (hsec : s.sections object = some entry)
include h hsec

theorem Inv.deleteObject_eq : s.deleteObject object =
    { s with
      pool := s.pool.free (torn (s.controlAreas entry.controlArea) entry.controlArea)
      controlAreas := update s.controlAreas entry.controlArea
        { s.controlAreas entry.controlArea with derivedSectionCount := 0 }
      sections := update s.sections object none } := by
  have hderived := (h.kept object entry hsec).derived
  simp only [SectionSpace.deleteObject, hsec, miSectionDeleteProcedure, hderived, if_true, setControlArea, free, decrement]
  rfl

theorem Inv.sections_deleteObject : (s.deleteObject object).sections = update s.sections object none := by
  rw [h.deleteObject_eq hsec]

theorem Inv.views_deleteObject : (s.deleteObject object).views = s.views := by rw [h.deleteObject_eq hsec]

theorem Inv.pool_deleteObject : (s.deleteObject object).pool =
    s.pool.free (torn (s.controlAreas entry.controlArea) entry.controlArea) := by rw [h.deleteObject_eq hsec]

theorem Inv.sections_of_deleteObject {o : ℕ} {e : SectionEntry} (ho : (s.deleteObject object).sections o = some e) :
    o ≠ object ∧ s.sections o = some e := by
  rw [h.sections_deleteObject hsec] at ho
  by_cases hne : o = object
  · subst hne
    rw [update_self] at ho
    cases ho
  · rw [update_of_ne hne] at ho
    exact ⟨hne, ho⟩

theorem Inv.blocks_deleteObject (ca : ℕ) :
    ((s.deleteObject object).controlAreas ca).blocks ca = (s.controlAreas ca).blocks ca := by
  rw [h.deleteObject_eq hsec]
  by_cases hca : ca = entry.controlArea
  · subst hca
    show ((update s.controlAreas entry.controlArea _) entry.controlArea).blocks _ = _
    rw [update_self]
    rfl
  · show ((update s.controlAreas entry.controlArea _) ca).blocks _ = _
    rw [update_of_ne hca]

theorem Inv.inUse_deleteObject (hviews : s.viewCount entry.controlArea = 0) (b : ℕ) :
    (s.deleteObject object).InUse b ↔ s.InUse b ∧ b ∉ (s.controlAreas entry.controlArea).blocks entry.controlArea := by
  have hnoview : ∀ vad ∈ s.views, vad.controlArea ≠ entry.controlArea := fun vad hvad => by
    simpa using countP_eq_zero.1 hviews vad hvad
  constructor
  · rintro ⟨ca, href, hmem⟩
    rw [h.blocks_deleteObject hsec] at hmem
    have hold : ∃ o e, o ≠ object ∧ s.sections o = some e ∧ e.controlArea = ca := by
      rcases href with ⟨o, e, ho, rfl⟩ | ⟨vad, hvad, rfl⟩
      · obtain ⟨hne, ho⟩ := h.sections_of_deleteObject hsec ho
        exact ⟨o, e, hne, ho, rfl⟩
      · rw [h.views_deleteObject hsec] at hvad
        obtain ⟨o, e, ho, hca⟩ := h.viewed vad hvad
        refine ⟨o, e, ?_, ho, hca⟩
        rintro rfl
        rw [hsec] at ho
        cases ho
        exact hnoview vad hvad hca.symm
    obtain ⟨o, e, hne, ho, rfl⟩ := hold
    exact ⟨⟨_, Or.inl ⟨o, e, ho, rfl⟩, hmem⟩, fun hb => hne (h.apart o object e entry b ho hsec hmem hb)⟩
  · rintro ⟨⟨ca, href, hmem⟩, hb⟩
    obtain ⟨o, e, ho, rfl⟩ := h.referenced.1 href
    have hne : o ≠ object := by
      rintro rfl
      rw [hsec] at ho
      cases ho
      exact hb hmem
    refine ⟨_, Or.inl ⟨o, e, ?_, rfl⟩, by rwa [h.blocks_deleteObject hsec]⟩
    rw [h.sections_deleteObject hsec, update_of_ne hne]
    exact ho

theorem Inv.deleted (hviews : s.viewCount entry.controlArea = 0)
    (hcarved : (s.controlAreas entry.controlArea).Carved) : (s.deleteObject object).Inv := by
  have hk := h.kept object entry hsec
  have hdiff : ∀ o e, o ≠ object → s.sections o = some e → e.controlArea ≠ entry.controlArea := fun o e hne ho hca => by
    refine hne (h.apart o object e entry entry.controlArea ho hsec ?_ self_mem_blocks)
    rw [hca]
    exact self_mem_blocks
  have harea : ∀ ca, ca ≠ entry.controlArea → (s.deleteObject object).controlAreas ca = s.controlAreas ca := fun ca hca => by
    rw [h.deleteObject_eq hsec]
    exact update_of_ne hca _ _
  have hvs := h.views_deleteObject hsec
  have hnext : (s.deleteObject object).pool.next = s.pool.next := by
    rw [h.deleteObject_eq hsec]
    rfl
  constructor
  · have hfree := h.books.free (torn_perm_of_carved hcarved) hk.nodup fun b hb =>
      ⟨hk.below b hb, ⟨_, Or.inl ⟨object, entry, hsec, rfl⟩, hb⟩⟩
    rw [h.pool_deleteObject hsec]
    exact hfree.congr fun b _ => (h.inUse_deleteObject hsec hviews b).symm
  · intro o e ho
    obtain ⟨hne, ho⟩ := h.sections_of_deleteObject hsec ho
    have ha := harea _ (hdiff o e hne ho)
    have hko := h.kept o e ho
    refine ⟨?_, ?_, ?_, ?_, ?_, ?_⟩
    · rw [ha]
      exact hko.derived
    · rw [ha, viewCount, hvs]
      exact hko.counted
    · rw [viewCount, hvs]
      exact hko.bound
    · rw [ha]
      exact hko.nodup
    · rw [ha, hnext]
      exact hko.below
    · rw [ha]
      exact hko.based
  · intro o e ho
    show o < (s.deleteObject object).nextSection
    rw [show (s.deleteObject object).nextSection = s.nextSection by rw [h.deleteObject_eq hsec]]
    exact h.numbered o e (h.sections_of_deleteObject hsec ho).2
  · intro vad hvad
    rw [hvs] at hvad
    obtain ⟨o, e, ho, hca⟩ := h.viewed vad hvad
    have hne : o ≠ object := by
      rintro rfl
      rw [hsec] at ho
      cases ho
      simpa [hca] using countP_eq_zero.1 hviews vad hvad
    refine ⟨o, e, ?_, hca⟩
    rw [h.sections_deleteObject hsec, update_of_ne hne]
    exact ho
  · intro o o' e e' b ho ho' hb hb'
    rw [h.blocks_deleteObject hsec] at hb hb'
    exact h.apart o o' e e' b (h.sections_of_deleteObject hsec ho).2 (h.sections_of_deleteObject hsec ho').2 hb hb'

/-- A deletion under a view, or of a control area whose subsections do not give back the
array of prototype PTEs, is wrong. -/
theorem Inv.not_sound_deleteObject (hbad : ¬ ((s.controlAreas entry.controlArea).numberOfMappedViews = 0 ∧
    (s.controlAreas entry.controlArea).Carved)) : ¬ (s.deleteObject object).Sound := by
  intro hsound
  have hk := h.kept object entry hsec
  have hbooks := hsound.books
  rw [h.pool_deleteObject hsec] at hbooks
  have hfreed : ∀ p ∈ torn (s.controlAreas entry.controlArea) entry.controlArea,
      p ∈ (s.pool.free (torn (s.controlAreas entry.controlArea) entry.controlArea)).frees := fun p hp =>
    mem_append_right _ hp
  have htorn : (torn (s.controlAreas entry.controlArea) entry.controlArea).Perm _ := torn_perm
  by_cases hviews : s.viewCount entry.controlArea = 0
  swap
  · -- the view refers to the control area, which was freed
    obtain ⟨vad, hvad, hca⟩ := countP_pos_iff.1 (Nat.pos_of_ne_zero hviews)
    have hself : (entry.controlArea, 0) ∈ torn (s.controlAreas entry.controlArea) entry.controlArea := by simp [torn]
    refine hbooks.not_inUse (hfreed _ hself) ⟨entry.controlArea, Or.inr ⟨vad, ?_, by simpa using hca⟩, self_mem_blocks⟩
    rw [h.deleteObject_eq hsec]
    exact hvad
  refine hbad ⟨hk.counted.trans hviews, ?_⟩
  have hmem : ∀ p ∈ (s.controlAreas entry.controlArea).subsections.map subsectionBase,
      p ∈ torn (s.controlAreas entry.controlArea) entry.controlArea := fun p hp =>
    htorn.mem_iff.2 (mem_append_left _ hp)
  have hnodup : ((s.controlAreas entry.controlArea).subsections.map subsectionBase).Nodup :=
    (nodup_append.1 (htorn.nodup_iff.1 (nodup_append.1 hbooks.once).2.1)).1
  unfold Carved
  cases hptes : (s.controlAreas entry.controlArea).prototypePte with
  | none =>
    -- without the array there are no subsections
    cases hsub : (s.controlAreas entry.controlArea).subsections with
    | nil => rfl
    | cons subsec rest =>
      have := hk.based subsec (by simp [hsub])
      rw [hptes] at this
      cases this
  | some ptes =>
    -- every base is the start of the array, and only one of them is there
    have hbase : ∀ p ∈ (s.controlAreas entry.controlArea).subsections.map subsectionBase, p = (ptes, 0) := by
      rintro ⟨b, offset⟩ hp
      have h0 : offset = 0 := (hbooks.whole _ (hfreed _ (hmem _ hp))).1
      obtain ⟨subsec, hsub, heq⟩ := mem_map.1 hp
      have hb := hk.based subsec hsub
      rw [hptes, heq] at hb
      simp only [Option.some.injEq] at hb
      rw [h0, hb]
    have hblock : ptes ∈ (s.controlAreas entry.controlArea).blocks entry.controlArea := by
      simp [blocks, hptes]
    have hlt := hk.below ptes hblock
    have hgone : (ptes, 0) ∈ (s.pool.free (torn (s.controlAreas entry.controlArea) entry.controlArea)).frees :=
      (hbooks.accounted ptes hlt).2 fun hin => ((h.inUse_deleteObject hsec hviews ptes).1 hin).2 hblock
    have hold : (ptes, 0) ∉ s.pool.frees := fun hm =>
      h.books.not_inUse hm ⟨_, Or.inl ⟨object, entry, hsec, rfl⟩, hblock⟩
    have hin : (ptes, 0) ∈ (s.controlAreas entry.controlArea).subsections.map subsectionBase := by
      have hm := htorn.mem_iff.1 ((mem_append.1 hgone).resolve_left hold)
      refine (mem_append.1 hm).resolve_right fun hrest => ?_
      have hnd := hk.nodup
      rw [blocks, hptes] at hnd
      simp only [Option.toList_some, cons_append, nil_append, nodup_cons, mem_cons] at hnd
      have hr := (mem_starts.1 hrest).2
      simp only [mem_cons] at hr
      tauto
    have hone : (s.controlAreas entry.controlArea).subsections.map subsectionBase =
        replicate _ (ptes, 0) := eq_replicate_iff.2 ⟨rfl, hbase⟩
    rw [hone] at hnodup hin ⊢
    have hle := nodup_replicate.1 hnodup
    have hpos : 0 < ((s.controlAreas entry.controlArea).subsections.map subsectionBase).length := by
      rcases Nat.eq_zero_or_pos ((s.controlAreas entry.controlArea).subsections.map subsectionBase).length with h0 | h0
      · rw [h0] at hin
        cases hin
      · exact h0
    rw [show ((s.controlAreas entry.controlArea).subsections.map subsectionBase).length = 1 by omega]
    rfl

end Delete

/-! ### Views and handles -/

theorem Inv.recount (h : s.Inv) {n : ℕ} {views : List MappedVad}
    (hn : n = views.countP fun vad => vad.controlArea = ca) (hlt : n < 2 ^ 32)
    (hviewed : ∀ vad ∈ views, ∃ object entry, s.sections object = some entry ∧ entry.controlArea = vad.controlArea)
    (hsame : ∀ c, c ≠ ca → (views.countP fun vad => vad.controlArea = c) = s.viewCount c) :
    (({ s with views } : SectionSpace).setControlArea ca { s.controlAreas ca with numberOfMappedViews := n }).Inv := by
  let t := ({ s with views } : SectionSpace).setControlArea ca { s.controlAreas ca with numberOfMappedViews := n }
  show t.Inv
  have hself : t.controlAreas ca = { s.controlAreas ca with numberOfMappedViews := n } := update_self ..
  have hother : ∀ c, c ≠ ca → t.controlAreas c = s.controlAreas c := fun c hc => update_of_ne hc _ _
  have hblocks : ∀ c, (t.controlAreas c).blocks c = (s.controlAreas c).blocks c := fun c => by
    by_cases hca : c = ca
    · subst hca
      rw [hself]
      rfl
    · rw [hother c hca]
  have href : ∀ c, t.Referenced c ↔ s.Referenced c := fun c => by
    rw [h.referenced]
    refine ⟨?_, Or.inl⟩
    rintro (hs | ⟨vad, hvad, rfl⟩)
    · exact hs
    · exact hviewed vad hvad
  constructor
  · refine h.books.congr fun b _ => ?_
    simp only [InUse, href, hblocks]
  · intro o e ho
    have hk := h.kept o e ho
    by_cases hca : e.controlArea = ca
    · rw [hca] at hk ⊢
      refine ⟨?_, ?_, ?_, ?_, ?_, ?_⟩
      · rw [hself]
        exact hk.derived
      · rw [hself]
        exact hn
      · show (views.countP fun vad => vad.controlArea = ca) < 2 ^ 32
        rwa [← hn]
      · rw [hblocks]
        exact hk.nodup
      · rw [hblocks]
        exact hk.below
      · rw [hself]
        exact hk.based
    · have hcount : t.viewCount e.controlArea = s.viewCount e.controlArea := hsame _ hca
      refine ⟨?_, ?_, ?_, ?_, ?_, ?_⟩
      · rw [hother _ hca]
        exact hk.derived
      · rw [hother _ hca, hcount]
        exact hk.counted
      · rw [hcount]
        exact hk.bound
      · rw [hblocks]
        exact hk.nodup
      · rw [hblocks]
        exact hk.below
      · rw [hother _ hca]
        exact hk.based
  · exact h.numbered
  · exact hviewed
  · intro o o' e e' b ho ho' hb hb'
    rw [hblocks] at hb hb'
    exact h.apart o o' e e' b ho ho' hb hb'

variable {vad : MappedVad}

theorem Inv.mapped (h : s.Inv) (hsec : s.sections object = some entry)
    (hlt : (s.controlAreas entry.controlArea).numberOfMappedViews + 1 < 2 ^ 32)
    (hvad : vad.controlArea = entry.controlArea) :
    (({ s with views := vad :: s.views } : SectionSpace).setControlArea entry.controlArea
      { s.controlAreas entry.controlArea with
        numberOfMappedViews := increment (s.controlAreas entry.controlArea).numberOfMappedViews }).Inv := by
  have hcount := (h.kept object entry hsec).counted
  have hinc : increment (s.controlAreas entry.controlArea).numberOfMappedViews =
      (s.controlAreas entry.controlArea).numberOfMappedViews + 1 := Nat.mod_eq_of_lt hlt
  rw [hinc]
  refine h.recount ?_ hlt ?_ ?_
  · rw [countP_cons_of_pos (by simpa using hvad), hcount]
    rfl
  · intro v hv
    rcases mem_cons.1 hv with rfl | hv
    · exact ⟨object, entry, hsec, hvad.symm⟩
    · exact h.viewed v hv
  · intro ca hca
    rw [countP_cons_of_neg (by simpa [hvad] using Ne.symm hca)]
    rfl

theorem Inv.not_sound_mapped (h : s.Inv) (hsec : s.sections object = some entry)
    (hlt : ¬ (s.controlAreas entry.controlArea).numberOfMappedViews + 1 < 2 ^ 32)
    (hvad : vad.controlArea = entry.controlArea) :
    ¬ (({ s with views := vad :: s.views } : SectionSpace).setControlArea entry.controlArea
      { s.controlAreas entry.controlArea with
        numberOfMappedViews := increment (s.controlAreas entry.controlArea).numberOfMappedViews }).Sound := by
  intro hsound
  have hk := h.kept object entry hsec
  have hcount := hsound.counted entry.controlArea (Or.inl ⟨object, entry, hsec, rfl⟩)
  have hself : ∀ area, ((({ s with views := vad :: s.views } : SectionSpace).setControlArea entry.controlArea area).controlAreas
      entry.controlArea) = area := fun area => update_self ..
  have hviews : ∀ area, (({ s with views := vad :: s.views } : SectionSpace).setControlArea entry.controlArea area).viewCount
      entry.controlArea = s.viewCount entry.controlArea + 1 := fun area =>
    countP_cons_of_pos (by simpa using hvad)
  rw [hself, hviews] at hcount
  have hcounted := hk.counted
  simp only [increment] at hcount
  omega

variable {process vpn : ℕ}

theorem find_erase (hfind : s.views.find? (holds process vpn) = some vad) :
    ∃ as bs, s.views = as ++ vad :: bs ∧ s.views.eraseP (holds process vpn) = as ++ bs := by
  obtain ⟨hp, as, bs, heq, hnot⟩ := find?_eq_some_iff_append.1 hfind
  refine ⟨as, bs, heq, ?_⟩
  rw [heq, eraseP_append_right _ (fun b hb => by simpa using hnot b hb), eraseP_cons_of_pos hp]

theorem Inv.unmapped (h : s.Inv) (hfind : s.views.find? (holds process vpn) = some vad)
    (hlast : (s.controlAreas vad.controlArea).numberOfMappedViews ≠ 1) :
    (s.miUnmapViewOfSection process vpn).Inv := by
  obtain ⟨as, bs, hviews, herase⟩ := find_erase hfind
  obtain ⟨object, entry, hsec, hca⟩ := h.viewed vad (by simp [hviews])
  have hk := h.kept object entry hsec
  have hcount := hk.counted
  have hbound := hk.bound
  rw [hca] at hcount hbound
  have htotal : ∀ ca, s.viewCount ca = ((as ++ bs).countP fun v => v.controlArea = ca) + if vad.controlArea = ca then 1 else 0 :=
    fun ca => by
      simp only [viewCount, hviews, countP_append, countP_cons, decide_eq_true_eq]
      omega
  have htotal' := htotal vad.controlArea
  rw [if_pos rfl] at htotal'
  have hdec : decrement (s.controlAreas vad.controlArea).numberOfMappedViews =
      (s.controlAreas vad.controlArea).numberOfMappedViews - 1 := by
    unfold decrement
    omega
  simp only [miUnmapViewOfSection, hfind, if_neg hlast, hdec, herase]
  refine h.recount (by omega) (by omega) ?_ ?_
  · intro v hv
    have hold : v ∈ as ++ vad :: bs := by
      rcases mem_append.1 hv with hv | hv
      · exact mem_append_left _ hv
      · exact mem_append_right _ (mem_cons_of_mem _ hv)
    exact h.viewed v (hviews ▸ hold)
  · intro ca hne
    rw [htotal ca, if_neg (Ne.symm hne), Nat.add_zero]

theorem Inv.not_sound_unmapped (h : s.Inv) (hfind : s.views.find? (holds process vpn) = some vad)
    (hlast : (s.controlAreas vad.controlArea).numberOfMappedViews = 1) :
    ¬ (s.miUnmapViewOfSection process vpn).Sound := by
  intro hsound
  obtain ⟨object, entry, hsec, hca⟩ := h.viewed vad (mem_of_find?_eq_some hfind)
  have hderived := (h.kept object entry hsec).derived
  rw [hca] at hderived
  have hbooks := hsound.books
  have hsections : (s.miUnmapViewOfSection process vpn).sections = s.sections := by
    simp only [miUnmapViewOfSection, hfind, if_pos hlast, mmDereferenceSectionForControlArea]
    split <;> rfl
  refine hbooks.not_inUse (b := vad.controlArea) ?_ ⟨vad.controlArea, Or.inl ⟨object, entry, ?_, hca⟩, self_mem_blocks⟩
  · simp only [miUnmapViewOfSection, hfind, if_pos hlast, mmDereferenceSectionForControlArea, setControlArea,
      update_self, hderived, if_true, free, Books.free]
    simp
  · rw [hsections]
    exact hsec

theorem sections_setHandles (change : ℕ → ℕ) : (s.setHandles object change).sections =
    update s.sections object
      ((s.sections object).map fun entry => { entry with handles := change entry.handles }) := rfl

theorem Inv.handled (h : s.Inv) (object : ℕ) (change : ℕ → ℕ) : (s.setHandles object change).Inv := by
  have hold : ∀ o e, (s.setHandles object change).sections o = some e →
      ∃ e', s.sections o = some e' ∧ e'.controlArea = e.controlArea := fun o e ho => by
    by_cases hne : o = object
    · subst hne
      rw [sections_setHandles, update_self] at ho
      obtain ⟨e', he', rfl⟩ := Option.map_eq_some_iff.1 ho
      exact ⟨e', he', rfl⟩
    · rw [sections_setHandles, update_of_ne hne] at ho
      exact ⟨e, ho, rfl⟩
  have hnew : ∀ o e, s.sections o = some e →
      ∃ e', (s.setHandles object change).sections o = some e' ∧ e'.controlArea = e.controlArea := fun o e ho => by
    by_cases hne : o = object
    · subst hne
      exact ⟨{ e with handles := change e.handles }, by simp [sections_setHandles, ho], rfl⟩
    · exact ⟨e, by rw [sections_setHandles, update_of_ne hne]; exact ho, rfl⟩
  have href : ∀ ca, (s.setHandles object change).Referenced ca ↔ s.Referenced ca := fun ca => by
    refine or_congr_left ⟨?_, ?_⟩
    · rintro ⟨o, e, ho, rfl⟩
      obtain ⟨e', ho', hca⟩ := hold o e ho
      exact ⟨o, e', ho', hca⟩
    · rintro ⟨o, e, ho, rfl⟩
      obtain ⟨e', ho', hca⟩ := hnew o e ho
      exact ⟨o, e', ho', hca⟩
  constructor
  · refine h.books.congr fun b _ => ?_
    simp only [InUse, href]
    rfl
  · intro o e ho
    obtain ⟨e', ho', hca⟩ := hold o e ho
    rw [← hca]
    exact { h.kept o e' ho' with }
  · intro o e ho
    obtain ⟨e', ho', -⟩ := hold o e ho
    exact h.numbered o e' ho'
  · intro vad hvad
    obtain ⟨o, e, ho, hca⟩ := h.viewed vad hvad
    obtain ⟨e', ho', hca'⟩ := hnew o e ho
    exact ⟨o, e', ho', hca'.trans hca⟩
  · intro o o' e e' b ho ho' hb hb'
    obtain ⟨e1, h1, hc1⟩ := hold o e ho
    obtain ⟨e2, h2, hc2⟩ := hold o' e' ho'
    rw [← hc1] at hb
    rw [← hc2] at hb'
    exact h.apart o o' e1 e2 b h1 h2 hb hb'

/-! ### Runs -/

/-- An image made from memory gets all of its subsections or none; what is deleted has no views and
one array of prototype PTEs; the count of views does not overflow; and no last view is unmapped. -/
def Right (s : SectionSpace) : SectionOp → Prop
  | .createImageFromMemory pageCount startPteIndexes granted =>
    pageCount = 0 ∨ granted ≤ 4 ∨ 4 + startPteIndexes.length ≤ granted
  | .deleteObject object => ∀ entry, s.sections object = some entry → entry.handles = 0 →
    (s.controlAreas entry.controlArea).numberOfMappedViews = 0 ∧ (s.controlAreas entry.controlArea).Carved
  | .mapView object _ _ _ granted => granted = true → ∀ entry, s.sections object = some entry → entry.handles ≠ 0 →
    (s.controlAreas entry.controlArea).numberOfMappedViews + 1 < 2 ^ 32
  | .unmapView process vpn => ∀ vad, s.views.find? (holds process vpn) = some vad →
    (s.controlAreas vad.controlArea).numberOfMappedViews ≠ 1
  | _ => True

theorem insertObject_false {ca : ℕ} : insertObject (s, some ca) false =
    (insertObject (s, some ca) true).deleteObject s.nextSection := rfl

theorem Inv.inserted (h : s.Inv) (hblocks : ∀ b, b ∈ area.blocks s.pool.next ↔ s.pool.next ≤ b ∧ b < s.pool.next + count)
    (hnodup : (area.blocks s.pool.next).Nodup) (hderived : area.derivedSectionCount = 1)
    (hviews : area.numberOfMappedViews = 0) (hcarved : area.Carved)
    (hbased : ∀ subsec ∈ area.subsections, area.prototypePte = some subsec.subsectionBase.1) (inserted : Bool) :
    (insertObject (({ s with pool := s.pool.allocate count } : SectionSpace).setControlArea s.pool.next area,
      some s.pool.next) inserted).Inv := by
  have hinv := h.created hblocks hnodup hderived hviews hbased
  cases inserted with
  | true => exact hinv
  | false =>
    let t := insertObject (({ s with pool := s.pool.allocate count } : SectionSpace).setControlArea s.pool.next area,
      some s.pool.next) true
    have hsec : t.sections s.nextSection = some { controlArea := s.pool.next, handles := 1 } := update_self ..
    have hself : t.controlAreas s.pool.next = area := update_self ..
    rw [insertObject_false]
    have hcount := (hinv.kept _ _ hsec).counted
    rw [hself, hviews] at hcount
    refine hinv.deleted hsec hcount.symm ?_
    show (t.controlAreas s.pool.next).Carved
    rwa [hself]

theorem Inv.createPagefile (h : s.Inv) (pageCount granted : ℕ) (inserted : Bool) :
    (insertObject (s.miInitPagefileSection pageCount granted) inserted).Inv := by
  unfold miInitPagefileSection
  simp only
  split_ifs
  · exact h
  · exact h.refused [s.pool.next] (by simp) (Perm.refl _) (by simp; omega)
  · exact h.refused [s.pool.next + 1, s.pool.next] (by simp) (Perm.refl _) (by simp; omega)
  · exact h.refused [s.pool.next + 2, s.pool.next + 1, s.pool.next] (by simp) (Perm.refl _) (by simp; omega)
  · refine h.inserted ?_ (by simp [blocks]) rfl rfl (by simp [Carved]) (by simp) inserted
    intro b
    simp [blocks]
    omega

theorem Inv.createImage (h : s.Inv) (granted : ℕ) (inserted : Bool) :
    (insertObject (s.miInitImageSection granted) inserted).Inv := by
  unfold miInitImageSection
  simp only
  split_ifs
  · exact h
  · exact h.refused [s.pool.next] (by simp) (Perm.refl _) (by simp; omega)
  · refine h.inserted ?_ (by simp [blocks]) rfl rfl (by simp [Carved]) (by simp) inserted
    intro b
    simp [blocks]
    omega

theorem blocks_imageSubsections (block ptes : ℕ) (starts : List ℕ) :
    (imageSubsections block ptes starts).map Subsection.block = range' block starts.length := by
  induction starts generalizing block with
  | nil => rfl
  | cons start starts ih => simp [imageSubsections, ih, range'_succ]

theorem based_imageSubsections (block ptes : ℕ) (starts : List ℕ) :
    ∀ subsec ∈ imageSubsections block ptes starts, some ptes = some subsec.subsectionBase.1 := by
  induction starts generalizing block with
  | nil => simp [imageSubsections]
  | cons start starts ih =>
    intro subsec hsub
    rcases mem_cons.1 hsub with rfl | hsub
    · rfl
    · exact ih _ subsec hsub

theorem Inv.createImageFromMemory (h : s.Inv) {pageCount granted : ℕ} {starts : List ℕ}
    (hright : s.Right (.createImageFromMemory pageCount starts granted)) :
    (insertObject (s.miCreateImageSectionFromMemory pageCount starts granted) true).Inv := by
  simp only [Right] at hright
  unfold miCreateImageSectionFromMemory
  simp only
  split_ifs with h0 h1 h2 h3
  · exact h
  · exact h.refused [s.pool.next] (by simp) (Perm.refl _) (by simp; omega)
  · exact h.refused [s.pool.next + 1, s.pool.next] (by simp) (Perm.refl _) (by simp; omega)
  · obtain rfl : granted = 4 := by omega
    exact h.refused [s.pool.next + 2, s.pool.next + 1, s.pool.next] (by simp) (Perm.refl _) (by simp; omega)
  · refine h.created ?_ ?_ rfl rfl (based_imageSubsections _ _ _)
    · intro b
      simp only [blocks, blocks_imageSubsections, Option.toList_some, cons_append, nil_append,
        mem_cons, mem_range'_1]
      omega
    · simp only [blocks, blocks_imageSubsections, Option.toList_some, cons_append, nil_append,
        nodup_cons, mem_cons, mem_range'_1]
      exact ⟨by omega, by omega, by omega, nodup_range'⟩

/-- Where the pool refuses a later subsection, the first one is neither freed nor part of a
control area. -/
theorem Inv.not_sound_createImageFromMemory (h : s.Inv) {pageCount granted : ℕ} {starts : List ℕ}
    (hright : ¬ s.Right (.createImageFromMemory pageCount starts granted)) :
    ¬ (insertObject (s.miCreateImageSectionFromMemory pageCount starts granted) true).Sound := by
  simp only [Right, not_or, Nat.not_le] at hright
  obtain ⟨hpages, hgranted, hshort⟩ := hright
  have hmade : s.miCreateImageSectionFromMemory pageCount starts granted =
      (({ s with
        pool := (s.pool.allocate (3 + (granted - 4))).free [(s.pool.next + 2, 0), (s.pool.next + 1, 0), (s.pool.next, 0)]
        } : SectionSpace), none) := by
    unfold miCreateImageSectionFromMemory
    simp only [if_neg (show granted ≠ 0 by omega), if_neg (show granted ≠ 1 by omega),
      if_neg (show ¬ (pageCount = 0 ∨ granted ≤ 3) by omega), if_pos hshort]
  rw [hmade]
  intro hsound
  have hlost : ¬ s.InUse (s.pool.next + 3) := fun hin => by
    have := h.inUse_lt hin
    omega
  have hfreed := (hsound.books.accounted (s.pool.next + 3) (by
    show s.pool.next + 3 < s.pool.next + (3 + (granted - 4))
    omega)).2 hlost
  rcases mem_append.1 hfreed with hold | hnew
  · have := (h.books.whole _ hold).2
    simp only at this
    omega
  · simp at hnew

theorem Inv.step (h : s.Inv) (op : SectionOp) (hright : s.Right op) : (s.step op).Inv := by
  cases op with
  | createPagefile pageCount granted inserted => exact h.createPagefile pageCount granted inserted
  | createImage granted inserted => exact h.createImage granted inserted
  | createImageFromMemory pageCount starts granted => exact h.createImageFromMemory hright
  | openHandle object => exact h.handled object fun handles => handles + 1
  | closeHandle object => exact h.handled object fun handles => handles - 1
  | deleteObject object =>
    cases hsec : s.sections object with
    | none => simpa [SectionSpace.step, hsec] using h
    | some entry =>
      by_cases hhandles : entry.handles = 0
      · obtain ⟨hviews, hcarved⟩ := hright entry hsec hhandles
        have hcount := (h.kept object entry hsec).counted
        simpa [SectionSpace.step, hsec, hhandles] using h.deleted hsec (hcount.symm.trans hviews) hcarved
      · simpa [SectionSpace.step, hsec, hhandles] using h
  | mapView object process startVpn endVpn granted =>
    simp only [SectionSpace.step, ntMapViewOfSection]
    cases hsec : s.sections object with
    | none => exact h
    | some entry =>
      simp only
      split_ifs with hno
      · exact h
      · simp only [not_or, not_not] at hno
        exact h.mapped hsec (hright hno.2 entry hsec hno.1) rfl
  | unmapView process vpn =>
    cases hfind : s.views.find? (holds process vpn) with
    | none => simpa [SectionSpace.step, miUnmapViewOfSection, hfind] using h
    | some vad => exact h.unmapped hfind (hright vad hfind)

theorem Inv.breaks (h : s.Inv) (op : SectionOp) (hright : ¬ s.Right op) : ¬ (s.step op).Sound := by
  cases op with
  | createPagefile => exact absurd trivial hright
  | createImage => exact absurd trivial hright
  | createImageFromMemory pageCount starts granted => exact h.not_sound_createImageFromMemory hright
  | openHandle => exact absurd trivial hright
  | closeHandle => exact absurd trivial hright
  | deleteObject object =>
    simp only [Right, not_forall] at hright
    obtain ⟨entry, hsec, hhandles, hbad⟩ := hright
    simpa [SectionSpace.step, hsec, hhandles] using h.not_sound_deleteObject hsec hbad
  | mapView object process startVpn endVpn granted =>
    simp only [Right, not_forall] at hright
    obtain ⟨hgranted, entry, hsec, hhandles, hbad⟩ := hright
    simp only [SectionSpace.step, ntMapViewOfSection, hsec, hgranted, hhandles, not_true_eq_false, or_self, if_false]
    exact h.not_sound_mapped hsec hbad rfl
  | unmapView process vpn =>
    simp only [Right, not_forall, not_not] at hright
    obtain ⟨vad, hfind, hlast⟩ := hright
    exact h.not_sound_unmapped hfind hlast

/-- Control areas live as long as they are used, in every state of a run, exactly if every
step meets the condition. -/
theorem controlAreas_sound_iff (ops : List SectionOp) :
    EveryState step Sound init ops ↔ EveryStep step Right init ops :=
  everyState_iff_everyStep (G := fun _ _ => True) (I := Inv) (fun _ op h _ hright => h.step op hright)
    (fun _ h => h.sound) (fun _ op h _ hright => h.breaks op hright) inv_init
    (everyStep_of_forall (G := fun _ => True) fun _ _ => trivial)

/-- A view is unmapped while the handle is open: the control area is freed under the section object.
-/
theorem unmap_frees_open_section :
    ¬ EveryState step Sound init [.createPagefile 16 4 true, .mapView 0 0 0x100000 0x10000F true, .unmapView 0 0x100000] := by
  rw [everyState_iff_take]
  intro hsound
  have hbooks := (hsound 3).books
  exact hbooks.not_inUse (b := 0) (by decide) ⟨0, Or.inl ⟨0, ⟨0, 1⟩, by rfl, rfl⟩, self_mem_blocks⟩

end SectionSpace

end XenOS.Mm
