import XenOS.Mm.PageFault
import XenOS.Mm.Pool

/-! The pages of nonpaged pool: every entry of a block maps a page of its own, and the free and the
mapped pages are all there were. -/

namespace XenOS.Mm

open PfnState Set
open Function (update update_self update_of_ne)

theorem poolPte_valid (pfn : ℕ) (execute : Bool) : poolPte pfn execute &&& pteValid ≠ 0 := by
  have hpfn : pfnBits pfn &&& pteValid = 0 := by
    apply BitVec.eq_of_getLsbD_eq
    intro i hi
    rw [pfnBits, BitVec.getLsbD_and, BitVec.getLsbD_shiftLeft, pteValid, BitVec.getLsbD_shiftLeft, BitVec.getLsbD_one]
    by_cases h0 : i = 0
    · simp [h0]
    · simp [h0]
  rw [poolPte, BitVec.and_or_distrib_right, hpfn]
  cases execute <;> decide

theorem ptePfn_poolPte {pfn : ℕ} (hp : pfn < 2 ^ 40) (execute : Bool) : ptePfn (poolPte pfn execute) = pfn := by
  apply ptePfn_pfnBits_or hp
  cases execute <;> decide

/-- A page that an allocation can get. -/
def PfnState.FreePfn (σ : PfnState) (p : ℕ) : Prop := OnList σ .zeroed p ∨ OnList σ .free p

/-- The held entries map different pages, none of which is on a list; with the free ones they are the
pages `pages`. -/
structure Mapped (σ : PfnState) (table : ℕ → Pte) (held pages : Set ℕ) (c : PageList → List ℕ) : Prop where
  lists : Lists σ c
  end_le : σ.endPfn ≤ 2 ^ 40
  valid : ∀ k ∈ held, table k &&& pteValid ≠ 0
  located : ∀ k ∈ held, σ.isValidPfn (ptePfn (table k))
  off : ∀ k ∈ held, ∀ L, ptePfn (table k) ∉ c L
  inj : ∀ k ∈ held, ∀ k' ∈ held, ptePfn (table k) = ptePfn (table k') → k = k'
  pages : ∀ p, p ∈ pages ↔ (p ∈ c .zeroed ∨ p ∈ c .free) ∨ ∃ k ∈ held, ptePfn (table k) = p

namespace Mapped
variable {σ σ' : PfnState} {table table' : ℕ → Pte} {held pages : Set ℕ} {c : PageList → List ℕ} {k p : ℕ}

section
variable (h : Mapped σ table held pages c)
include h

theorem free_iff (p : ℕ) :
    σ.FreePfn p ↔ p ∈ pages ∧ ¬ ∃ k ∈ held, ptePfn (table k) = p := by
  rw [FreePfn, h.lists.onList_iff, h.lists.onList_iff, h.pages]
  constructor
  · intro hfree
    refine ⟨Or.inl hfree, ?_⟩
    rintro ⟨k, hk, rfl⟩
    rcases hfree with hzeroed | hfree
    · exact h.off k hk _ hzeroed
    · exact h.off k hk _ hfree
  · rintro ⟨hfree | hheld, hnot⟩
    · exact hfree
    · exact absurd hheld hnot

theorem congr (hsame : ∀ k ∈ held, table' k = table k) : Mapped σ table' held pages c where
  lists := h.lists
  end_le := h.end_le
  valid k hk := by rw [hsame k hk]; exact h.valid k hk
  located k hk := by rw [hsame k hk]; exact h.located k hk
  off k hk := by rw [hsame k hk]; exact h.off k hk
  inj k hk k' hk' := by rw [hsame k hk, hsame k' hk']; exact h.inj k hk k' hk'
  pages p := by
    rw [h.pages]
    refine or_congr_right ⟨?_, ?_⟩
    all_goals
      rintro ⟨k, hk, rfl⟩
      exact ⟨k, hk, by rw [hsame k hk]⟩

theorem map (hret : miAllocatePfn σ = some (p, σ')) (hk : k ∉ held) (execute : Bool) :
    ∃ c', Mapped σ' (update table k (poolPte p execute)) (insert k held) pages c' := by
  obtain ⟨L, hL, htaken⟩ := miAllocatePfn_some h.lists hret
  have hleft := htaken.left
  have hmem := hleft.mem
  have hvalid := h.lists.valid L p hmem
  have hpfn : ptePfn (poolPte p execute) = p := ptePfn_poolPte (hvalid.2.trans_le h.end_le) execute
  have hother : ∀ k' ∈ held, k' ≠ k := fun k' hk' heq => hk (heq ▸ hk')
  have hsame : ∀ k' ∈ held, update table k (poolPte p execute) k' = table k' :=
    fun k' hk' => update_of_ne (hother k' hk') _ _
  have hne : ∀ k' ∈ held, ptePfn (table k') ≠ p := fun k' hk' heq => h.off k' hk' L (heq ▸ hmem)
  refine ⟨_, hleft.lists, hleft.samePages.endPfn ▸ h.end_le, ?_, ?_, ?_, ?_, ?_⟩
  · rintro k' (rfl | hk')
    · rw [update_self]
      exact poolPte_valid p execute
    · rw [hsame k' hk']
      exact h.valid k' hk'
  · rintro k' (rfl | hk')
    · rw [update_self, hpfn]
      exact hleft.samePages.valid_iff.2 hvalid
    · rw [hsame k' hk']
      exact hleft.samePages.valid_iff.2 (h.located k' hk')
  · rintro k' (rfl | hk') M hM
    · rw [update_self, hpfn] at hM
      exact ((hleft.mem_iff h.lists).1 hM).2 rfl
    · rw [hsame k' hk'] at hM
      exact h.off k' hk' M ((hleft.mem_iff h.lists).1 hM).1
  · rintro k' (rfl | hk') k'' (rfl | hk'') heq
    · rfl
    · rw [update_self, hpfn, hsame k'' hk''] at heq
      exact absurd heq.symm (hne k'' hk'')
    · rw [update_self, hpfn, hsame k' hk'] at heq
      exact absurd heq (hne k' hk')
    · rw [hsame k' hk', hsame k'' hk''] at heq
      exact h.inj k' hk' k'' hk'' heq
  · intro q
    rw [h.pages, hleft.mem_iff h.lists, hleft.mem_iff h.lists]
    constructor
    · rintro (hq | ⟨k', hk', rfl⟩)
      · by_cases hqp : q = p
        · exact Or.inr ⟨k, mem_insert k held, by rw [update_self, hpfn, hqp]⟩
        · exact Or.inl (hq.imp (fun hq => ⟨hq, hqp⟩) fun hq => ⟨hq, hqp⟩)
      · exact Or.inr ⟨k', mem_insert_of_mem k hk', by rw [hsame k' hk']⟩
    · rintro (hq | ⟨k', rfl | hk', heq⟩)
      · exact Or.inl (hq.imp And.left And.left)
      · rw [update_self, hpfn] at heq
        subst heq
        rcases hL with rfl | rfl
        · exact Or.inl (Or.inl hmem)
        · exact Or.inl (Or.inr hmem)
      · rw [hsame k' hk'] at heq
        exact Or.inr ⟨k', hk', heq⟩

theorem unmap (hk : k ∈ held) :
    ∃ c', Mapped (miFreePfn σ (ptePfn (table k))) (update table k 0) (held \ {k}) pages c' := by
  have hentered := entered_miFreePfn h.lists (h.located k hk) (h.off k hk)
  have hsame : ∀ k' ∈ held \ {k}, update table k 0 k' = table k' :=
    fun k' hk' => update_of_ne hk'.2 _ _
  refine ⟨_, hentered.lists, hentered.samePages.endPfn ▸ h.end_le, ?_, ?_, ?_, ?_, ?_⟩
  · intro k' hk'
    rw [hsame k' hk']
    exact h.valid k' hk'.1
  · intro k' hk'
    rw [hsame k' hk']
    exact hentered.samePages.valid_iff.2 (h.located k' hk'.1)
  · intro k' hk' M hM
    rw [hsame k' hk', hentered.mem_iff] at hM
    rcases hM with ⟨-, heq⟩ | hM
    · exact hk'.2 (h.inj k' hk'.1 k hk heq)
    · exact h.off k' hk'.1 M hM
  · intro k' hk' k'' hk'' heq
    rw [hsame k' hk', hsame k'' hk''] at heq
    exact h.inj k' hk'.1 k'' hk''.1 heq
  · intro q
    rw [h.pages, hentered.mem_iff, hentered.mem_iff]
    constructor
    · rintro ((hq | hq) | ⟨k', hk', rfl⟩)
      · exact Or.inl (Or.inl (Or.inr hq))
      · exact Or.inl (Or.inr (Or.inr hq))
      · by_cases hkk : k' = k
        · exact Or.inl (Or.inr (Or.inl ⟨rfl, by rw [hkk]⟩))
        · exact Or.inr ⟨k', ⟨hk', hkk⟩, by rw [hsame k' ⟨hk', hkk⟩]⟩
    · rintro (((⟨hL, -⟩ | hq) | (⟨-, rfl⟩ | hq)) | ⟨k', hk', heq⟩)
      · cases hL
      · exact Or.inl (Or.inl hq)
      · exact Or.inr ⟨k, hk, rfl⟩
      · exact Or.inl (Or.inr hq)
      · rw [hsame k' hk'] at heq
        exact Or.inr ⟨k', hk'.1, heq⟩

end

theorem union_step (held : Set ℕ) (index n : ℕ) :
    insert index held ∪ Ico (index + 1) (index + 1 + n) = held ∪ Ico index (index + (n + 1)) := by
  ext k
  simp only [mem_union, mem_insert_iff, mem_Ico]
  by_cases hk : k ∈ held
  · simp [hk]
  · simp only [hk, or_false, false_or]
    omega

theorem diff_step (held : Set ℕ) (index n : ℕ) :
    (held \ {index}) \ Ico (index + 1) (index + 1 + n) = held \ Ico index (index + (n + 1)) := by
  ext k
  simp only [mem_sdiff, mem_singleton_iff, mem_Ico, and_assoc]
  refine and_congr_right fun _ => ?_
  omega

theorem mapPages (execute : Bool) (n index : ℕ) (h : Mapped σ table held pages c)
    (hfree : ∀ k, index ≤ k → k < index + n → k ∉ held) :
    (mapPoolPages execute n index σ table).1 ≤ n ∧
      (∃ c', Mapped (mapPoolPages execute n index σ table).2.1 (mapPoolPages execute n index σ table).2.2
        (held ∪ Ico index (index + (mapPoolPages execute n index σ table).1)) pages c') ∧
      ∀ k, ¬ (index ≤ k ∧ k < index + n) → (mapPoolPages execute n index σ table).2.2 k = table k := by
  induction n generalizing index σ table held c with
  | zero => exact ⟨Nat.le_refl 0, ⟨c, by simpa [mapPoolPages] using h⟩, fun _ _ => rfl⟩
  | succ n ih =>
    rw [mapPoolPages]
    cases hret : miAllocatePfn σ with
    | none => exact ⟨Nat.zero_le _, ⟨c, by simpa using h⟩, fun _ _ => rfl⟩
    | some out =>
      obtain ⟨p, σ'⟩ := out
      obtain ⟨c', hmapped⟩ := h.map hret (hfree index (Nat.le_refl _) (by omega)) execute
      have hnext : ∀ k, index + 1 ≤ k → k < index + 1 + n → k ∉ insert index held := by
        rintro k hlow hhigh (rfl | hk)
        · omega
        · exact hfree k (by omega) (by omega) hk
      obtain ⟨hle, ⟨c'', hall⟩, hframe⟩ := ih (index + 1) hmapped hnext
      refine ⟨Nat.succ_le_succ hle, ⟨c'', ?_⟩, fun k hk => ?_⟩
      · rw [union_step] at hall
        exact hall
      · have hne : k ≠ index := by omega
        exact (hframe k (by omega)).trans (update_of_ne hne _ _)

theorem mapPages_le (execute : Bool) (n index : ℕ) (h : Lists σ c) :
    (mapPoolPages execute n index σ table).1 ≤ (c .zeroed).length + (c .free).length := by
  induction n generalizing index σ table c with
  | zero => exact Nat.zero_le _
  | succ n ih =>
    rw [mapPoolPages]
    cases hret : miAllocatePfn σ with
    | none => exact Nat.zero_le _
    | some out =>
      obtain ⟨p, σ'⟩ := out
      obtain ⟨L, hL, htaken⟩ := miAllocatePfn_some h hret
      have hrest : (mapPoolPages execute n (index + 1) σ' (update table index (poolPte p execute))).1 ≤ _ :=
        ih (index + 1) htaken.left.lists
      have hlength := List.length_erase_of_mem htaken.left.mem
      have hpos := List.length_pos_of_mem htaken.left.mem
      dsimp only
      rcases hL with rfl | rfl
      · rw [update_self, update_of_ne (by decide), hlength] at hrest
        omega
      · rw [update_self, update_of_ne (by decide), hlength] at hrest
        omega

theorem unmapPages (n index : ℕ) (h : Mapped σ table held pages c) (hheld : ∀ k, index ≤ k → k < index + n → k ∈ held) :
    (∃ c', Mapped (unmapPoolPages n index σ table).1 (unmapPoolPages n index σ table).2
      (held \ Ico index (index + n)) pages c') ∧
      ∀ k, ¬ (index ≤ k ∧ k < index + n) → (unmapPoolPages n index σ table).2 k = table k := by
  induction n generalizing index σ table held c with
  | zero => exact ⟨⟨c, by simpa [unmapPoolPages] using h⟩, fun _ _ => rfl⟩
  | succ n ih =>
    have hindex : index ∈ held := hheld index (Nat.le_refl _) (by omega)
    rw [unmapPoolPages]
    simp only [if_pos (h.valid index hindex)]
    obtain ⟨c', hcleared⟩ := h.unmap hindex
    have hnext : ∀ k, index + 1 ≤ k → k < index + 1 + n → k ∈ held \ {index} := by
      intro k hlow hhigh
      exact ⟨hheld k (by omega) (by omega), by simp only [mem_singleton_iff]; omega⟩
    obtain ⟨⟨c'', hall⟩, hframe⟩ := ih (index + 1) hcleared hnext
    refine ⟨⟨c'', ?_⟩, fun k hk => ?_⟩
    · rw [diff_step] at hall
      exact hall
    · have hne : k ≠ index := by omega
      exact (hframe k (by omega)).trans (update_of_ne hne _ _)

end Mapped

theorem unmapPoolPages_unmapped (n index : ℕ) (σ : PfnState) {table : ℕ → Pte} (h : ∀ k, table k &&& pteValid = 0) :
    (unmapPoolPages n index σ table).1 = σ ∧ ∀ k, (unmapPoolPages n index σ table).2 k &&& pteValid = 0 := by
  induction n generalizing index table with
  | zero => exact ⟨rfl, h⟩
  | succ n ih =>
    rw [unmapPoolPages]
    simp only [if_neg (not_not.2 (h index))]
    apply ih
    intro k
    by_cases hk : k = index
    · rw [hk, update_self]
      decide
    · rw [update_of_ne hk, h]

end XenOS.Mm
