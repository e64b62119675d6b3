import XenOS.General.RamRings

/-! Taking entries out of circular lists. -/

namespace XenOS.General

open List


section Remove
variable {α : Type*} {m : Links α} {a b h k x y : α} {xs ys zs : List α}

theorem Linked.unique (hx : Linked m a xs b) (hy : Linked m a ys b) (hbx : b ∉ xs) (hby : b ∉ ys) : xs = ys := by
  induction xs generalizing a ys with
  | nil =>
    cases ys with
    | nil => rfl
    | cons y ys => exact absurd (hx.1.symm.trans hy.1) (fun hsame => hby (by simp [hsame]))
  | cons x xs ih =>
    cases ys with
    | nil => exact absurd (hy.1.symm.trans hx.1) (fun hsame => hbx (by simp [hsame]))
    | cons y ys =>
      obtain rfl : x = y := hx.1.symm.trans hy.1
      simp only [mem_cons, not_or] at hbx hby
      rw [ih hx.2.2 hy.2.2 hbx.2 hby.2]

theorem Ring.unique (hx : Ring m h xs) (hy : Ring m h ys) : xs = ys :=
  hx.linked.unique hy.linked (nodup_cons.1 hx.nodup).1 (nodup_cons.1 hy.nodup).1

theorem Linked.next_mem (hl : Linked m a xs b) : m.next a ∈ xs ++ [b] := by
  cases xs with
  | nil => simp [hl.1]
  | cons x xs => simp [hl.1]

theorem Linked.prev_mem (hl : Linked m a xs b) : m.prev b ∈ a :: xs := by
  induction xs generalizing a with
  | nil => simp [hl.2]
  | cons x xs ih => exact mem_cons_of_mem _ (ih hl.2.2)

variable [DecidableEq α]

/-- Take an entry out of its list. -/
def Links.unlink (m : Links α) (x : α) : Links α := m.join (m.prev x) (m.next x)

theorem Linked.unlink (hy : Linked m a ys x) (hz : Linked m x zs b) (hnodup : (ys ++ zs).Nodup) (ha : a ∉ ys ++ zs) (hb : b ∉ ys ++ zs) :
    Linked (m.unlink x) a (ys ++ zs) b := by
  induction ys generalizing a with
  | nil =>
    obtain ⟨hnext, hprev⟩ := hy
    have hjoin : m.unlink x = m.join a (m.next x) := by rw [Links.unlink, hprev]
    rw [hjoin]
    cases zs with
    | nil =>
      obtain ⟨hxb, -⟩ := hz
      rw [hxb]
      exact ⟨join_next, join_prev⟩
    | cons q zs =>
      obtain ⟨hxq, -, hrest⟩ := hz
      rw [hxq]
      simp only [nil_append, nodup_cons, mem_cons, not_or] at hnodup ha hb
      refine ⟨join_next, join_prev, hrest.congr (fun y hy => join_next_of_ne ?_) fun y hy => join_prev_of_ne ?_⟩
      · rintro rfl
        rcases mem_cons.1 hy with rfl | hy
        · exact ha.1 rfl
        · exact ha.2 hy
      · rintro rfl
        rcases mem_append.1 hy with hy | hy
        · exact hnodup.1 hy
        · exact hb.1 (mem_singleton.1 hy).symm
  | cons y ys ih =>
    obtain ⟨hnext, hprev, hrest⟩ := hy
    simp only [cons_append, nodup_cons, mem_cons, not_or] at hnodup ha hb
    have hbefore := hrest.prev_mem
    have hbehind := hz.next_mem
    refine ⟨(join_next_of_ne ?_).trans hnext, (join_prev_of_ne ?_).trans hprev, ih hrest hnodup.2 hnodup.1 hb.2⟩
    · intro hsame
      rw [← hsame] at hbefore
      rcases mem_cons.1 hbefore with rfl | hmem
      · exact ha.1 rfl
      · exact ha.2 (mem_append_left _ hmem)
    · intro hsame
      rw [← hsame] at hbehind
      rcases mem_append.1 hbehind with hmem | hmem
      · exact hnodup.1 (mem_append_right _ hmem)
      · exact hb.1 (mem_singleton.1 hmem).symm

theorem Ring.unlink (r : Ring m h xs) (hx : x ∈ xs) : Ring (m.unlink x) h (xs.erase x) := by
  obtain ⟨ys, zs, hys, rfl, herase⟩ := exists_erase_eq hx
  rw [herase]
  obtain ⟨hbefore, hbehind⟩ := linked_append.1 r.linked
  have hsub : (h :: (ys ++ zs)).Sublist (h :: (ys ++ x :: zs)) :=
    ((sublist_cons_self x zs).append_left ys).cons_cons h
  have hnodup := r.nodup.sublist hsub
  obtain ⟨hh, hrest⟩ := nodup_cons.1 hnodup
  exact ⟨hbefore.unlink hbehind hrest hh hh, hnodup⟩

theorem Ring.neighbours_mem (r : Ring m h xs) (hx : x ∈ xs) : m.prev x ∈ h :: xs ∧ m.next x ∈ h :: xs := by
  obtain ⟨ys, zs, hys, rfl, -⟩ := exists_erase_eq hx
  obtain ⟨hbefore, hbehind⟩ := linked_append.1 r.linked
  have hprev := hbefore.prev_mem
  have hnext := hbehind.next_mem
  simp only [mem_cons, mem_append, not_mem_nil, or_false] at hprev hnext ⊢
  tauto

end Remove

/-! ### In memory -/

namespace Ram
variable {m : Ram} {C : Set ℕ} {l : Links ℕ} {x : ℕ}

theorem HasLinks.removeEntry (hl : HasLinks C m l) (hC : Cells C) (hx : x ∈ C) (hnext : l.next x ∈ C) (hprev : l.prev x ∈ C) :
    HasLinks C (m.removeEntry x) (l.unlink x) := by
  have hflink : m.u64 x = l.next x := (hl x hx).1
  have hblink : m.u64 (x + 8) = l.prev x := (hl x hx).2
  unfold Ram.removeEntry Links.unlink Links.join
  rw [hflink, hblink]
  exact (hl.setFlink hC hprev hnext).setBlink hC hnext hprev

end Ram

namespace Rings
variable {ι : Type*} [DecidableEq ι] {m : Ram} {head : ι → ℕ} {R : ι → List ℕ} {i : ι} {x : ℕ}

omit [DecidableEq ι] in
theorem cells_all (h : Rings m head R) : Ram.Cells {a | ∃ i, a ∈ head i :: R i} := by
  constructor
  · rintro a ⟨i, ha⟩ b ⟨j, hb⟩
    exact (h.apart i a ha j b hb).imp And.right id
  · rintro a ⟨i, ha⟩
    exact h.lt i a ha

theorem removeEntry (h : Rings m head R) (hx : x ∈ R i) : Rings (m.removeEntry x) head (Function.update R i ((R i).erase x)) := by
  obtain ⟨hprev, hnext⟩ := (h.ring i).neighbours_mem hx
  have hcell : x ∈ head i :: R i := mem_cons_of_mem _ hx
  have hlinks : Ram.HasLinks _ (m.removeEntry x) (m.links.unlink x) :=
    Ram.HasLinks.removeEntry (fun _ _ => ⟨rfl, rfl⟩) h.cells_all ⟨i, hcell⟩ ⟨i, hnext⟩ ⟨i, hprev⟩
  have hmem : ∀ {j a}, a ∈ head j :: Function.update R i ((R i).erase x) j → a ∈ head j :: R j := by
    intro j a ha
    rcases eq_or_ne j i with rfl | hne
    · rw [Function.update_self] at ha
      exact (mem_cons.1 ha).elim (fun hah => hah ▸ mem_cons_self) fun ha => mem_cons_of_mem _ (mem_of_mem_erase ha)
    · rwa [Function.update_of_ne hne] at ha
  refine ⟨fun j => ?_, fun j a ha k b hb => h.apart j a (hmem ha) k b (hmem hb), fun j a ha => h.lt j a (hmem ha)⟩
  rcases eq_or_ne j i with rfl | hne
  · rw [Function.update_self]
    refine ((h.ring j).unlink hx).congr fun a ha => hlinks a ⟨j, ?_⟩
    exact (mem_cons.1 ha).elim (fun hah => hah ▸ mem_cons_self) fun ha => mem_cons_of_mem _ (mem_of_mem_erase ha)
  · rw [Function.update_of_ne hne]
    refine (h.ring j).congr fun a ha => ?_
    obtain ⟨hl, hr⟩ := hlinks a ⟨j, ha⟩
    exact ⟨hl.trans (join_next_of_ne (h.ne_of_mem hne ha hprev)), hr.trans (join_prev_of_ne (h.ne_of_mem hne ha hnext))⟩

omit [DecidableEq ι] in
theorem byte_removeEntry (h : Rings m head R) (hx : x ∈ R i) {k : ℕ} (hk : ∀ a ∈ head i :: R i, k < a ∨ a + 16 ≤ k) :
    (m.removeEntry x).byte k = m.byte k := by
  obtain ⟨hprev, hnext⟩ := (h.ring i).neighbours_mem hx
  exact (Ram.byte_setBlink (hk _ hnext)).trans (Ram.byte_setFlink (hk _ hprev))

end Rings

end XenOS.General
