import Mathlib.Data.List.Nodup

/-! The books of an allocator. Blocks are numbered in the order of their allocation, a pointer is a
block with an offset. The books are exact when the blocks no longer in use, and no others, were
freed, once and at their start. -/

namespace XenOS.General

structure Books where
  next : ℕ
  frees : List (ℕ × ℕ)

namespace Books

def allocate (l : Books) (count : ℕ) : Books := { l with next := l.next + count }

def free (l : Books) (pointers : List (ℕ × ℕ)) : Books := { l with frees := l.frees ++ pointers }

def starts (blocks : List ℕ) : List (ℕ × ℕ) := blocks.map fun b => (b, 0)

structure Exact (l : Books) (inUse : ℕ → Prop) : Prop where
  once : l.frees.Nodup
  whole : ∀ p ∈ l.frees, p.2 = 0 ∧ p.1 < l.next
  accounted : ∀ b < l.next, (b, 0) ∈ l.frees ↔ ¬ inUse b

variable {l : Books} {inUse inUse' : ℕ → Prop} {blocks : List ℕ} {count : ℕ}

@[simp] theorem mem_starts {p : ℕ × ℕ} : p ∈ starts blocks ↔ p.2 = 0 ∧ p.1 ∈ blocks := by
  obtain ⟨b, offset⟩ := p
  simp [starts, eq_comm, and_comm]

theorem nodup_starts (h : blocks.Nodup) : (starts blocks).Nodup := h.map fun a b hab => by simpa using hab

section
variable (h : l.Exact inUse)
include h

theorem Exact.congr (hin : ∀ b < l.next, inUse b ↔ inUse' b) : l.Exact inUse' where
  once := h.once
  whole := h.whole
  accounted b hb := (h.accounted b hb).trans (not_congr (hin b hb))

theorem Exact.not_inUse {b : ℕ} (hb : (b, 0) ∈ l.frees) : ¬ inUse b :=
  (h.accounted b (h.whole _ hb).2).1 hb

theorem Exact.allocate (count : ℕ) :
    (l.allocate count).Exact fun b => inUse b ∨ l.next ≤ b where
  once := h.once
  whole p hp := ⟨(h.whole p hp).1, Nat.lt_add_right _ (h.whole p hp).2⟩
  accounted b _ := by
    by_cases hb : b < l.next
    · rw [show (b, 0) ∈ (l.allocate count).frees ↔ ¬ inUse b from h.accounted b hb]
      exact not_congr ⟨Or.inl, fun hin => hin.resolve_right (Nat.not_le.2 hb)⟩
    · refine iff_of_false (fun hm => hb (h.whole _ hm).2) fun hn => hn (Or.inr (Nat.le_of_not_lt hb))

theorem Exact.free {pointers : List (ℕ × ℕ)} (hperm : pointers.Perm (starts blocks))
    (hnodup : blocks.Nodup) (hin : ∀ b ∈ blocks, b < l.next ∧ inUse b) :
    (l.free pointers).Exact fun b => inUse b ∧ b ∉ blocks where
  once := by
    refine h.once.append ((hperm.nodup_iff).2 (nodup_starts hnodup)) fun p hp hp' => ?_
    obtain ⟨b, offset⟩ := p
    obtain ⟨rfl, hb⟩ := mem_starts.1 (hperm.mem_iff.1 hp')
    exact h.not_inUse hp (hin _ hb).2
  whole p hp := by
    rcases List.mem_append.1 hp with hp | hp
    · exact h.whole p hp
    · obtain ⟨h0, hb⟩ := mem_starts.1 (hperm.mem_iff.1 hp)
      exact ⟨h0, (hin _ hb).1⟩
  accounted b hb := by
    show (b, 0) ∈ l.frees ++ pointers ↔ _
    rw [List.mem_append, hperm.mem_iff, mem_starts, h.accounted b hb]
    by_cases hm : b ∈ blocks <;> simp [hm]

theorem Exact.transient {pointers : List (ℕ × ℕ)} (hnodup : blocks.Nodup)
    (hperm : pointers.Perm (starts blocks)) (hblocks : ∀ b, b ∈ blocks ↔ l.next ≤ b ∧ b < l.next + count)
    (hold : ∀ b, inUse b → b < l.next) : ((l.allocate count).free pointers).Exact inUse := by
  refine ((h.allocate count).free hperm hnodup fun b hb => ?_).congr fun b hb => ?_
  · obtain ⟨h1, h2⟩ := (hblocks b).1 hb
    exact ⟨h2, Or.inr h1⟩
  · have hb' : b < l.next + count := hb
    rw [hblocks]
    constructor
    · rintro ⟨hin | hge, hn⟩
      · exact hin
      · exact absurd ⟨hge, hb'⟩ hn
    · intro hin
      have := hold b hin
      exact ⟨Or.inl hin, fun hm => by omega⟩

end

end Books

end XenOS.General
