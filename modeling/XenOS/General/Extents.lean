import Mathlib.Algebra.GroupWithZero.Nat
import Mathlib.Algebra.BigOperators.Group.Finset.Piecewise
import Mathlib.Algebra.Order.BigOperators.Group.List
import Mathlib.Order.Interval.Finset.Nat

/-! Lists of extents, each a start and a length. How often a number is covered adds up over lists in
any order, so a tiling survives splitting, joining and moving extents. -/

namespace XenOS.General

abbrev Extent := ℕ × ℕ

namespace Extent

/-- One past the last number. -/
def stop (r : Extent) : ℕ := r.1 + r.2

def Contains (r : Extent) (k : ℕ) : Prop := r.1 ≤ k ∧ k < r.stop

instance (r : Extent) (k : ℕ) : Decidable (r.Contains k) := inferInstanceAs (Decidable (_ ∧ _))

def Apart (r r' : Extent) : Prop := r.stop ≤ r'.1 ∨ r'.stop ≤ r.1

theorem Apart.symm {r r' : Extent} (h : r.Apart r') : r'.Apart r := Or.symm h

instance : Std.Symm Apart := ⟨fun _ _ => Apart.symm⟩

theorem contains_iff {i n k : ℕ} : Contains (i, n) k ↔ i ≤ k ∧ k < i + n := Iff.rfl

theorem apart_iff {i n j m : ℕ} : Apart (i, n) (j, m) ↔ i + n ≤ j ∨ j + m ≤ i := Iff.rfl

theorem apart_of_disjoint {r r' : Extent} (hr : 0 < r.2) (hr' : 0 < r'.2)
    (h : ∀ k, ¬ (r.Contains k ∧ r'.Contains k)) : r.Apart r' := by
  obtain ⟨i, n⟩ := r
  obtain ⟨j, m⟩ := r'
  have hmax := h (max i j)
  simp only [contains_iff] at hmax
  simp only [apart_iff]
  simp only at hr hr'
  omega

end Extent

open Extent List

/-- How many extents of the list contain `k`. -/
def cover (l : List Extent) (k : ℕ) : ℕ := l.countP fun r => decide (r.Contains k)

section Cover
variable {l l' : List Extent} {r : Extent} {k : ℕ}

@[simp] theorem cover_nil : cover [] k = 0 := rfl

theorem cover_cons : cover (r :: l) k = cover l k + if r.Contains k then 1 else 0 := by
  simp [cover, countP_cons]

@[simp] theorem cover_append : cover (l ++ l') k = cover l k + cover l' k := countP_append

theorem cover_perm (h : l.Perm l') : cover l k = cover l' k := h.countP_eq _

theorem cover_pos_iff : 0 < cover l k ↔ ∃ r ∈ l, r.Contains k := by
  simp [cover, countP_pos_iff]

theorem cover_join (i n m : ℕ) : cover ((i, n) :: (i + n, m) :: l) k = cover ((i, n + m) :: l) k := by
  simp only [cover_cons, contains_iff]
  split_ifs <;> omega

def totalLength (l : List Extent) : ℕ := (l.map Prod.snd).sum

@[simp] theorem totalLength_nil : totalLength [] = 0 := rfl

@[simp] theorem totalLength_cons : totalLength (r :: l) = r.2 + totalLength l := by
  simp [totalLength]

@[simp] theorem totalLength_append : totalLength (l ++ l') = totalLength l + totalLength l' := by
  simp [totalLength]

theorem length_le_totalLength (hpos : ∀ r ∈ l, 0 < r.2) : l.length ≤ totalLength l := by
  induction l with
  | nil => exact le_rfl
  | cons r l ih =>
    have hr := hpos r (by simp)
    have := ih fun q hq => hpos q (by simp [hq])
    simp only [length_cons, totalLength_cons]
    omega

theorem sum_cover {N : ℕ} (hstop : ∀ r ∈ l, r.stop ≤ N) : ∑ k ∈ Finset.range N, cover l k = totalLength l := by
  induction l with
  | nil => simp
  | cons r l ih =>
    have hr := hstop r (by simp)
    have hone : ∑ k ∈ Finset.range N, (if r.Contains k then 1 else 0) = r.2 := by
      rw [← Finset.card_filter]
      have : (Finset.range N).filter r.Contains = Finset.Ico r.1 r.stop := by
        ext k
        simp only [Finset.mem_filter, Finset.mem_range, Finset.mem_Ico, Extent.Contains]
        omega
      rw [this, Nat.card_Ico, Extent.stop]
      omega
    simp only [cover_cons, Finset.sum_add_distrib]
    rw [ih fun q hq => hstop q (by simp [hq]), hone, totalLength_cons]
    omega

theorem pairwise_apart (hpos : ∀ r ∈ l, 0 < r.2) (hone : ∀ k, cover l k ≤ 1) : l.Pairwise Apart := by
  induction l with
  | nil => exact Pairwise.nil
  | cons r l ih =>
    refine pairwise_cons.2 ⟨fun r' hr' => ?_, ih (fun q hq => hpos q (mem_cons_of_mem _ hq)) fun k => ?_⟩
    · refine apart_of_disjoint (hpos r (by simp)) (hpos r' (by simp [hr'])) fun k hk => ?_
      have htwice := hone k
      have hpos' : 0 < cover l k := cover_pos_iff.2 ⟨r', hr', hk.2⟩
      rw [cover_cons, if_pos hk.1] at htwice
      omega
    · have := hone k
      rw [cover_cons] at this
      omega

end Cover

structure Separate (l : List Extent) : Prop where
  pos : ∀ r ∈ l, 0 < r.2
  apart : ∀ r ∈ l, ∀ r' ∈ l, r ≠ r' → r.Apart r'

theorem Separate.mono {l l' : List Extent} (h : Separate l) (hs : ∀ r ∈ l', r ∈ l) : Separate l' :=
  ⟨fun r hr => h.pos r (hs r hr), fun r hr r' hr' => h.apart r (hs r hr) r' (hs r' hr')⟩

theorem Separate.eq_of_contains {l : List Extent} (h : Separate l) {r r' : Extent} (hr : r ∈ l) (hr' : r' ∈ l)
    {k : ℕ} (hk : r.Contains k) (hk' : r'.Contains k) : r = r' := by
  by_contra hne
  have := h.apart r hr r' hr' hne
  simp only [Extent.Apart, Extent.Contains, Extent.stop] at *
  omega

theorem Extent.contains_start {r : Extent} (hr : 0 < r.2) : r.Contains r.1 := by
  simp only [Extent.Contains, Extent.stop]
  omega

/-- The extents of the list cover every number below `N` exactly once, and no other. -/
structure Tiles (N : ℕ) (l : List Extent) : Prop where
  pos : ∀ r ∈ l, 0 < r.2
  cover : ∀ k, cover l k = if k < N then 1 else 0

namespace Tiles
variable {N : ℕ} {l l' : List Extent} {i n m : ℕ}

theorem perm (h : Tiles N l) (hp : l.Perm l') : Tiles N l' where
  pos r hr := h.pos r (hp.mem_iff.2 hr)
  cover k := by rw [← cover_perm hp, h.cover]

theorem apart (h : Tiles N l) : l.Pairwise Apart := by
  refine pairwise_apart h.pos fun k => ?_
  rw [h.cover]
  split <;> omega

theorem separate (h : Tiles N l) : Separate l where
  pos := h.pos
  apart _ hr _ hr' hne := h.apart.forall hr hr' hne

theorem nodup (h : Tiles N l) : l.Nodup := by
  refine h.apart.imp_of_mem fun hr _ ha => ?_
  rintro rfl
  have := h.pos _ hr
  simp only [Extent.Apart, Extent.stop] at ha
  omega

theorem apart_head {r r' : Extent} (h : Tiles N (r :: l)) (hr' : r' ∈ l) : r.Apart r' :=
  rel_of_pairwise_cons h.apart hr'

theorem stop_le {r : Extent} (h : Tiles N l) (hr : r ∈ l) : r.stop ≤ N := by
  have hpos := h.pos r hr
  have hlast : 0 < General.cover l (r.stop - 1) := by
    refine cover_pos_iff.2 ⟨r, hr, ?_, ?_⟩ <;> simp only [Extent.stop] <;> omega
  rw [h.cover] at hlast
  have : r.stop - 1 < N := by
    by_contra hge
    rw [if_neg hge] at hlast
    omega
  simp only [Extent.stop] at *
  omega

theorem totalLength_eq (h : Tiles N l) : totalLength l = N := by
  rw [← sum_cover (N := N) fun r hr => h.stop_le hr]
  calc ∑ k ∈ Finset.range N, General.cover l k = ∑ k ∈ Finset.range N, 1 :=
        Finset.sum_congr rfl fun k hk => by rw [h.cover, if_pos (Finset.mem_range.1 hk)]
    _ = N := by simp

theorem join (h : Tiles N ((i, n) :: (i + n, m) :: l)) : Tiles N ((i, n + m) :: l) where
  pos r hr := by
    rcases mem_cons.1 hr with rfl | hr
    · have : 0 < n := h.pos (i, n) (by simp)
      simp only
      omega
    · exact h.pos r (by simp [hr])
  cover k := by rw [← cover_join, h.cover]

theorem split (h : Tiles N ((i, n + m) :: l)) (hn : 0 < n) (hm : 0 < m) : Tiles N ((i, n) :: (i + n, m) :: l) where
  pos r hr := by
    rcases mem_cons.1 hr with rfl | hr
    · exact hn
    · rcases mem_cons.1 hr with rfl | hr
      · exact hm
      · exact h.pos r (by simp [hr])
  cover k := by rw [cover_join, h.cover]

theorem single (hN : 0 < N) : Tiles N [(0, N)] where
  pos r hr := by
    obtain rfl := mem_singleton.1 hr
    exact hN
  cover k := by
    rw [cover_cons, cover_nil]
    simp [contains_iff]

end Tiles

/-! ### Coalesced lists -/

def Coalesced (l : List Extent) : Prop := ∀ r ∈ l, ∀ r' ∈ l, r.stop ≠ r'.1

theorem Coalesced.mono {l l' : List Extent} (h : Coalesced l) (hs : ∀ r ∈ l', r ∈ l) : Coalesced l' :=
  fun r hr r' hr' => h r (hs r hr) r' (hs r' hr')

theorem coalesced_cons {r : Extent} {l : List Extent} (hr : 0 < r.2) :
    Coalesced (r :: l) ↔ Coalesced l ∧ ∀ r' ∈ l, r'.stop ≠ r.1 ∧ r.stop ≠ r'.1 := by
  constructor
  · intro h
    exact ⟨h.mono fun q hq => mem_cons_of_mem _ hq,
      fun r' hr' => ⟨h r' (by simp [hr']) r (by simp), h r (by simp) r' (by simp [hr'])⟩⟩
  · rintro ⟨h, hnew⟩ q hq q' hq'
    rcases mem_cons.1 hq with h1 | h1 <;> rcases mem_cons.1 hq' with h2 | h2
    · rw [h1, h2]
      simp only [Extent.stop]
      omega
    · rw [h1]
      exact (hnew q' h2).2
    · rw [h2]
      exact (hnew q h1).1
    · exact h q h1 q' h2

/-- An extent whose tail is split off touches nothing that starts after it: the tail is in between. -/
theorem Tiles.coalesced_head {N i n m : ℕ} {l l' : List Extent} (h : Tiles N ((i, n) :: (i + n, m) :: (l ++ l')))
    (hl : Coalesced l) (hbefore : ∀ r ∈ l, r.stop ≠ i) : Coalesced ((i, n) :: l) := by
  refine (coalesced_cons (h.pos _ (by simp))).2 ⟨hl, fun r hr => ⟨hbefore r hr, ?_⟩⟩
  rintro (hstart : i + n = r.1)
  have hr' : r ∈ (i, n) :: (i + n, m) :: (l ++ l') := by simp [hr]
  have htail : (i + n, m) ∈ (i, n) :: (i + n, m) :: (l ++ l') := by simp
  have heq : r = (i + n, m) :=
    h.separate.eq_of_contains hr' htail (Extent.contains_start (h.pos r hr'))
      (hstart ▸ Extent.contains_start (h.pos _ htail))
  have hnd := (nodup_cons.1 (nodup_cons.1 h.nodup).2).1
  exact hnd (heq ▸ mem_append_left _ hr)

/-- Extents that do not touch are separated by the others. -/
theorem Tiles.length_le {N : ℕ} {l l' : List Extent} (h : Tiles N (l ++ l')) (hl : Coalesced l) : l.length ≤ l'.length + 1 := by
  have hsub : l.map stop ⊆ N :: l'.map Prod.fst := by
    intro k hk
    obtain ⟨r, hr, rfl⟩ := mem_map.1 hk
    rcases (h.stop_le (mem_append_left l' hr)).eq_or_lt with hN | hN
    · exact hN ▸ mem_cons_self
    · have hcover : 0 < General.cover (l ++ l') r.stop := by
        rw [h.cover, if_pos hN]
        exact Nat.one_pos
      obtain ⟨q, hq, hcontains⟩ := cover_pos_iff.1 hcover
      have hne : r ≠ q := fun heq => Nat.lt_irrefl _ (heq ▸ hcontains.2 : r.stop < r.stop)
      have hstart : q.1 = r.stop := by
        have hapart := h.separate.apart r (mem_append_left l' hr) q hq hne
        simp only [Apart, Contains, stop] at hapart hcontains ⊢
        omega
      rcases mem_append.1 hq with hq | hq
      · exact absurd hstart.symm (hl r hr q hq)
      · exact mem_cons_of_mem _ (hstart ▸ mem_map_of_mem hq)
  have hnodup : (l.map stop).Nodup := by
    refine pairwise_map.2 ((pairwise_append.1 h.apart).1.imp_of_mem fun {r q} hr hq ha => ?_)
    have hposr := h.pos r (mem_append_left l' hr)
    have hposq := h.pos q (mem_append_left l' hq)
    simp only [Apart, stop] at ha ⊢
    omega
  simpa using (hnodup.subperm hsub).length_le

end XenOS.General
