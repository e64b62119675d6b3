import Mathlib.Data.List.Nodup

/-! Circular doubly linked lists threaded through a head. A ring is the list of the entries met from
the head back to the head. Insertion and linking leave the links of other rings alone. -/

namespace XenOS.General

open Function (update update_self update_of_ne)
open List (mem_append mem_cons mem_singleton nodup_append nodup_cons)

variable {α : Type*}

/-- The two pointers of every cell. -/
structure Links (α : Type*) where
  next : α → α
  prev : α → α

/-- The cells of the list lie between `a` and `b`, linked in both directions. -/
def Linked (m : Links α) : α → List α → α → Prop
  | a, [], b => m.next a = b ∧ m.prev b = a
  | a, x :: xs, b => m.next a = x ∧ m.prev x = a ∧ Linked m x xs b

/-- The entries of a circular list with head `h`. -/
structure Ring (m : Links α) (h : α) (xs : List α) : Prop where
  linked : Linked m h xs h
  nodup : (h :: xs).Nodup

section Linked
variable {m m' : Links α} {a b x : α} {xs ys : List α}

theorem linked_append : Linked m a (xs ++ x :: ys) b ↔ Linked m a xs x ∧ Linked m x ys b := by
  induction xs generalizing a with
  | nil => simp [Linked, and_assoc]
  | cons y xs ih => simp [Linked, ih, and_assoc]

/-- A segment depends on the next links of its cells but the last, and on the previous links of its cells but the first. -/
theorem Linked.congr (h : Linked m a xs b) (hnext : ∀ y ∈ a :: xs, m'.next y = m.next y)
    (hprev : ∀ y ∈ xs ++ [b], m'.prev y = m.prev y) : Linked m' a xs b := by
  induction xs generalizing a with
  | nil => exact ⟨(hnext a (by simp)).trans h.1, (hprev b (by simp)).trans h.2⟩
  | cons y xs ih =>
    refine ⟨(hnext a (by simp)).trans h.1, (hprev y (by simp)).trans h.2.1, ?_⟩
    exact ih h.2.2 (fun z hz => hnext z (List.mem_cons_of_mem _ hz)) fun z hz => hprev z (List.mem_cons_of_mem _ hz)

end Linked

section Operations
variable [DecidableEq α]

/-- Let `a` and `b` point to each other. -/
def Links.join (m : Links α) (a b : α) : Links α where
  next := update m.next a b
  prev := update m.prev b a

def Links.initHead (m : Links α) (h : α) : Links α := m.join h h

def Links.insertTail (m : Links α) (h x : α) : Links α :=
  let blink := m.prev h
  let m := { m with next := update m.next x h }
  let m := { m with prev := update m.prev x blink }
  let m := { m with next := update m.next blink x }
  { m with prev := update m.prev h x }

def Links.insertTails (m : Links α) (h : α) (xs : List α) : Links α := xs.foldl (fun m x => m.insertTail h x) m

def Links.linkEntries (m : Links α) (h : α) : α → List α → Links α
  | _, [] => m
  | p, x :: xs =>
    let m := m.join p x
    let m := if xs.isEmpty then m.join x h else m
    m.linkEntries h x xs

variable {m : Links α} {a b h k p x y : α} {xs ys zs : List α}

theorem join_next_of_ne (hy : y ≠ a) : (m.join a b).next y = m.next y := update_of_ne hy _ _

theorem join_prev_of_ne (hy : y ≠ b) : (m.join a b).prev y = m.prev y := update_of_ne hy _ _

theorem join_next : (m.join a b).next a = b := update_self ..

theorem join_prev : (m.join a b).prev b = a := update_self ..

theorem ring_initHead : Ring (m.initHead h) h [] := ⟨⟨join_next, join_prev⟩, by simp⟩

omit [DecidableEq α] in
theorem Ring.congr {m' : Links α} (r : Ring m h xs) (hsame : ∀ y ∈ h :: xs, m'.next y = m.next y ∧ m'.prev y = m.prev y) :
    Ring m' h xs := by
  refine ⟨r.linked.congr (fun y hy => (hsame y hy).1) fun y hy => (hsame y ?_).2, r.nodup⟩
  simp only [mem_append, mem_cons] at hy ⊢
  tauto

theorem insertTail_frame (hy : y ≠ h ∧ y ≠ x ∧ y ≠ m.prev h) :
    (m.insertTail h x).next y = m.next y ∧ (m.insertTail h x).prev y = m.prev y := by
  simp [Links.insertTail, update_of_ne hy.1, update_of_ne hy.2.1, update_of_ne hy.2.2]

omit [DecidableEq α] in
theorem Ring.prev_mem (r : Ring m h xs) : m.prev h ∈ h :: xs := by
  rcases List.eq_nil_or_concat' xs with rfl | ⟨ys, b, rfl⟩
  · simp [r.linked.2]
  · have hlinked := r.linked
    rw [linked_append] at hlinked
    simp [hlinked.2.2]

theorem linkEntries_next (hy : y ∉ p :: xs) : (m.linkEntries h p xs).next y = m.next y := by
  induction xs generalizing m p with
  | nil => rfl
  | cons x xs ih =>
    simp only [mem_cons, not_or] at hy ih
    refine (ih ⟨hy.2.1, hy.2.2⟩).trans ?_
    split
    · rw [join_next_of_ne hy.2.1, join_next_of_ne hy.1]
    · rw [join_next_of_ne hy.1]

theorem linkEntries_prev (hy : y ∉ h :: xs) : (m.linkEntries h p xs).prev y = m.prev y := by
  induction xs generalizing m p with
  | nil => rfl
  | cons x xs ih =>
    simp only [mem_cons, not_or] at hy ih
    refine (ih ⟨hy.1, hy.2.2⟩).trans ?_
    split
    · rw [join_prev_of_ne hy.1, join_prev_of_ne hy.2.1]
    · rw [join_prev_of_ne hy.2.1]

theorem Ring.insertTail (r : Ring m h xs) (hx : x ∉ h :: xs) : Ring (m.insertTail h x) h (xs ++ [x]) := by
  have hnodup : (h :: (xs ++ [x])).Nodup := by
    have := r.nodup
    simp only [nodup_cons, nodup_append, mem_append, mem_cons] at this hx ⊢
    grind
  refine ⟨?_, hnodup⟩
  simp only [mem_cons, not_or] at hx
  rcases List.eq_nil_or_concat' xs with rfl | ⟨ys, b, rfl⟩
  · have hself : m.prev h = h := r.linked.2
    simp [Linked, Links.insertTail, hself, hx.1]
  · obtain ⟨hinit, hlast, hback⟩ := linked_append.1 r.linked
    simp only [nodup_cons, nodup_append, mem_append, mem_cons, List.not_mem_nil, or_false,
      not_or] at hnodup hx
    have hbx : b ≠ x := fun hsame => hx.2.2 hsame.symm
    have hhx : h ≠ x := fun hsame => hx.1 hsame.symm
    have hhb : h ≠ b := fun hsame => hnodup.1.1.2 hsame
    -- only the links of the last entry, the new one and the head change
    rw [List.append_assoc, List.singleton_append, linked_append]
    refine ⟨hinit.congr (fun y hy => ?_) fun y hy => ?_, ?_⟩
    · have hyb : y ≠ b := by
        rintro rfl
        rcases mem_cons.1 hy with rfl | hys
        · exact hhb rfl
        · exact hnodup.2.1.2.2 _ hys _ rfl rfl
      have hyx : y ≠ x := by
        rintro rfl
        rcases mem_cons.1 hy with rfl | hys
        · exact hhx rfl
        · exact hx.2.1 hys
      simp [Links.insertTail, hback, update_of_ne hyb, update_of_ne hyx]
    · have hyh : y ≠ h := by
        rintro rfl
        rcases mem_append.1 hy with hys | hys
        · exact hnodup.1.1.1 hys
        · exact hhb (mem_singleton.1 hys)
      have hyx : y ≠ x := by
        rintro rfl
        rcases mem_append.1 hy with hys | hys
        · exact hx.2.1 hys
        · exact hbx (mem_singleton.1 hys).symm
      simp [Links.insertTail, update_of_ne hyh, update_of_ne hyx]
    · simp [Linked, Links.insertTail, hback, Ne.symm hbx, Ne.symm hhx]

theorem Ring.insertTails (r : Ring m h xs) (hnodup : (h :: (xs ++ ys)).Nodup) :
    Ring (m.insertTails h ys) h (xs ++ ys) := by
  induction ys generalizing m xs with
  | nil => simpa [Links.insertTails] using r
  | cons y ys ih =>
    have hy : y ∉ h :: xs := by
      simp only [nodup_cons, nodup_append, mem_append, mem_cons] at hnodup ⊢
      grind
    have hrest := ih (r.insertTail hy) (by simpa using hnodup)
    simpa [Links.insertTails] using hrest

theorem Ring.insertTails_frame (r : Ring m h xs) (other : Ring m k zs) (hnodup : (h :: (xs ++ ys)).Nodup)
    (hdisjoint : ∀ y ∈ k :: zs, y ∉ h :: (xs ++ ys)) : Ring (m.insertTails h ys) k zs := by
  induction ys generalizing m xs with
  | nil => exact other
  | cons y ys ih =>
    have hy : y ∉ h :: xs := by
      simp only [nodup_cons, nodup_append, mem_append, mem_cons] at hnodup ⊢
      grind
    have hkept : Ring (m.insertTail h y) k zs := by
      refine other.congr fun z hz => XenOS.General.insertTail_frame ⟨?_, ?_, ?_⟩
      · rintro rfl
        exact hdisjoint _ hz (by simp)
      · rintro rfl
        exact hdisjoint _ hz (by simp)
      · rintro rfl
        have hmem := r.prev_mem
        refine hdisjoint _ hz ?_
        simp only [mem_cons, mem_append] at hmem ⊢
        tauto
    exact ih (r.insertTail hy) hkept (by simpa using hnodup) (by simpa using hdisjoint)

theorem linked_linkEntries (hxs : xs ≠ []) (hnodup : (p :: xs).Nodup) (hh : h ∉ xs) :
    Linked (m.linkEntries h p xs) p xs h := by
  induction xs generalizing m p with
  | nil => exact absurd rfl hxs
  | cons x xs ih =>
    simp only [mem_cons, not_or] at hh
    have hpx : p ≠ x := fun hsame => (nodup_cons.1 hnodup).1 (by simp [hsame])
    cases xs with
    | nil =>
      refine ⟨?_, ?_, ?_, ?_⟩
      · exact (join_next_of_ne hpx).trans join_next
      · exact (join_prev_of_ne (Ne.symm hh.1)).trans join_prev
      · exact join_next
      · exact join_prev
    | cons y ys =>
      have hrest := ih (m := m.join p x) (p := x) (by simp) (nodup_cons.1 hnodup).2 hh.2
      have hp : p ∉ x :: y :: ys := (nodup_cons.1 hnodup).1
      have hx : x ∉ y :: ys := (nodup_cons.1 (nodup_cons.1 hnodup).2).1
      refine ⟨?_, ?_, hrest⟩
      · exact (linkEntries_next hp).trans join_next
      · have hkept : ((m.join p x).linkEntries h x (y :: ys)).prev x = (m.join p x).prev x := by
          refine linkEntries_prev fun hmem => ?_
          rcases mem_cons.1 hmem with hsame | hmem
          · exact hh.1 hsame.symm
          · exact hx hmem
        exact hkept.trans join_prev

theorem ring_linkEntries (hnodup : (h :: xs).Nodup) : Ring ((m.initHead h).linkEntries h h xs) h xs := by
  cases xs with
  | nil => exact ring_initHead
  | cons x xs => exact ⟨linked_linkEntries (by simp) hnodup (nodup_cons.1 hnodup).1, hnodup⟩

theorem Ring.linkEntries_frame (other : Ring m k zs) (hdisjoint : ∀ y ∈ k :: zs, y ∉ h :: xs) :
    Ring ((m.initHead h).linkEntries h h xs) k zs := by
  refine other.congr fun y hy => ?_
  have hne : y ≠ h := fun hsame => hdisjoint y hy (by simp [hsame])
  exact ⟨(linkEntries_next (hdisjoint y hy)).trans (join_next_of_ne hne),
    (linkEntries_prev (hdisjoint y hy)).trans (join_prev_of_ne hne)⟩

end Operations

section InsertHead
variable {α : Type*} [DecidableEq α] {m : Links α} {h k x y : α} {xs zs : List α}

def Links.insertHead (m : Links α) (h x : α) : Links α :=
  let flink := m.next h
  let m := { m with next := update m.next x flink }
  let m := { m with prev := update m.prev x h }
  let m := { m with prev := update m.prev flink x }
  { m with next := update m.next h x }

theorem insertHead_frame (hy : y ≠ h ∧ y ≠ x ∧ y ≠ m.next h) :
    (m.insertHead h x).next y = m.next y ∧ (m.insertHead h x).prev y = m.prev y := by
  simp [Links.insertHead, update_of_ne hy.1, update_of_ne hy.2.1, update_of_ne hy.2.2]

omit [DecidableEq α] in
theorem Ring.next_mem (r : Ring m h xs) : m.next h ∈ h :: xs := by
  cases xs with
  | nil => simp [r.linked.1]
  | cons a xs => simp [r.linked.1]

theorem Ring.insertHead (r : Ring m h xs) (hx : x ∉ h :: xs) : Ring (m.insertHead h x) h (x :: xs) := by
  have hnodup : (h :: x :: xs).Nodup := by
    have := r.nodup
    simp only [nodup_cons, mem_cons] at this hx ⊢
    tauto
  refine ⟨?_, hnodup⟩
  simp only [mem_cons, not_or] at hx
  cases xs with
  | nil =>
    have hself : m.next h = h := r.linked.1
    simp [Linked, Links.insertHead, hself, hx.1]
  | cons a ys =>
    obtain ⟨hnext, hprev, hrest⟩ := r.linked
    simp only [nodup_cons, mem_cons, not_or] at hnodup hx
    have hax : a ≠ x := fun hsame => hx.2.1 hsame.symm
    have hah : a ≠ h := fun hsame => hnodup.1.2.1 hsame.symm
    have hhx : h ≠ x := fun hsame => hx.1 hsame.symm
    -- only the links of the head, the new entry and the first one change
    refine ⟨?_, ?_, ?_, ?_, hrest.congr (fun y hy => ?_) fun y hy => ?_⟩
    · simp [Links.insertHead]
    · simp [Links.insertHead, hnext, Ne.symm hax]
    · simp [Links.insertHead, hnext, hx.1]
    · simp [Links.insertHead, hnext]
    · have hyh : y ≠ h := by
        rintro rfl
        rcases mem_cons.1 hy with rfl | hys
        · exact hah rfl
        · exact hnodup.1.2.2 hys
      have hyx : y ≠ x := by
        rintro rfl
        rcases mem_cons.1 hy with rfl | hys
        · exact hax rfl
        · exact hx.2.2 hys
      simp [Links.insertHead, update_of_ne hyh, update_of_ne hyx]
    · have hya : y ≠ a := by
        rintro rfl
        rcases mem_append.1 hy with hys | hys
        · exact hnodup.2.2.1 hys
        · exact hah (mem_singleton.1 hys)
      have hyx : y ≠ x := by
        rintro rfl
        rcases mem_append.1 hy with hys | hys
        · exact hx.2.2 hys
        · exact hhx (mem_singleton.1 hys).symm
      simp [Links.insertHead, hnext, update_of_ne hya, update_of_ne hyx]

end InsertHead

end XenOS.General
