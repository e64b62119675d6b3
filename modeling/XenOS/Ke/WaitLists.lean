import XenOS.Ke.WaitAccounts

/-! The wait lists and the blocks that are linked in them. One relation says which blocks are
linked, whatever their threads do; the calls are followed by how they change that set. -/

namespace XenOS.Ke

namespace WaitState

variable {s s' s'' : WaitState} {b : ℕ × Slot} {B : Set (ℕ × Slot)} {t : ℕ}

def waitList (s : WaitState) (o : ObjectId) : List (ℕ × Slot) := (s.headers o).waitListHead

/-- The wait lists hold the blocks of one set, each once and in the list of its object, and these
blocks are the linked ones. -/
structure Links (s : WaitState) (B : Set (ℕ × Slot)) : Prop where
  mem : ∀ o b, b ∈ s.waitList o ↔ b ∈ B ∧ (s.block b).object = o
  nodup : ∀ o, (s.waitList o).Nodup
  linked : ∀ b, (s.block b).linked = true ↔ b ∈ B

theorem block_setBlock (s : WaitState) (b b' : ℕ × Slot) (block : KWaitBlock) :
    (s.setBlock b block).block b' = if b' = b then block else s.block b' := by
  obtain ⟨t, slot⟩ := b
  obtain ⟨t', slot'⟩ := b'
  by_cases ht : t' = t
  · subst ht
    by_cases hslot : slot' = slot
    · subst hslot
      simp [WaitState.block, setBlock, setThread]
    · simp [WaitState.block, setBlock, setThread, hslot]
  · simp [WaitState.block, setBlock, setThread, ht]

theorem waitList_setHeader (s : WaitState) (o o' : ObjectId) (list : List (ℕ × Slot)) :
    (s.setHeader o { s.headers o with waitListHead := list }).waitList o' = if o' = o then list else s.waitList o' := by
  by_cases ho : o' = o
  · subst ho
    simp [waitList, setHeader]
  · simp [waitList, setHeader, ho]

theorem Links.of_same (h : Links s B) (hlist : ∀ o, s'.waitList o = s.waitList o)
    (hobject : ∀ b ∈ B, (s'.block b).object = (s.block b).object)
    (hlinked : ∀ b, (s'.block b).linked = (s.block b).linked) : Links s' B where
  mem o b := by
    rw [hlist, h.mem]
    constructor
    · rintro ⟨hb, rfl⟩
      exact ⟨hb, hobject b hb⟩
    · rintro ⟨hb, rfl⟩
      exact ⟨hb, (hobject b hb).symm⟩
  nodup o := by rw [hlist]; exact h.nodup o
  linked b := by rw [hlinked]; exact h.linked b

theorem block_linkBlock (s : WaitState) (b b' : ℕ × Slot) :
    (s.linkBlock b).block b' = if b' = b then { s.block b with linked := true } else s.block b' :=
  block_setBlock s b b' _

theorem waitList_linkBlock (s : WaitState) (b : ℕ × Slot) (o : ObjectId) :
    (s.linkBlock b).waitList o = if o = (s.block b).object then s.waitList o ++ [b] else s.waitList o := by
  refine (waitList_setHeader _ _ o _).trans ?_
  split
  · rename_i ho
    subst ho
    rfl
  · rfl

theorem Links.linkBlock (h : Links s B) (hb : b ∉ B) : Links (s.linkBlock b) (insert b B) where
  mem o b' := by
    rw [waitList_linkBlock, block_linkBlock, Set.mem_insert_iff]
    by_cases hb' : b' = b
    · subst hb'
      rw [if_pos rfl]
      dsimp only
      by_cases ho : o = (s.block b').object
      · simp [ho]
      · rw [if_neg ho, h.mem]
        exact ⟨fun hmem => absurd hmem.1 hb, fun hmem => absurd hmem.2.symm ho⟩
    · rw [if_neg hb']
      have hmem := h.mem o b'
      split
      · simp [hmem, hb']
      · simp [hmem, hb']
  nodup o := by
    rw [waitList_linkBlock]
    split
    · refine List.nodup_append.2 ⟨h.nodup o, List.nodup_singleton b, fun b' hb' b'' hb'' => ?_⟩
      rintro rfl
      rw [List.mem_singleton] at hb''
      subst hb''
      exact hb ((h.mem o b').1 hb').1
    · exact h.nodup o
  linked b' := by
    rw [block_linkBlock, Set.mem_insert_iff]
    by_cases hb' : b' = b
    · simp [hb']
    · rw [if_neg hb', h.linked]
      simp [hb']

theorem block_unlinkBlock (s : WaitState) (b b' : ℕ × Slot) :
    (s.unlinkBlock b).block b' = if b' = b then { s.block b with linked := false } else s.block b' := by
  unfold unlinkBlock
  split
  · exact block_setBlock s b b' _
  · rename_i hlinked
    split
    · rename_i hb
      subst hb
      rw [← Bool.eq_false_iff.2 hlinked]
    · rfl

theorem waitList_unlinkBlock (s : WaitState) (b : ℕ × Slot) (o : ObjectId) :
    (s.unlinkBlock b).waitList o =
      if (s.block b).linked = true ∧ o = (s.block b).object then (s.waitList o).erase b else s.waitList o := by
  unfold unlinkBlock
  by_cases hlinked : (s.block b).linked = true
  · rw [if_pos hlinked]
    refine (waitList_setHeader _ _ o _).trans ?_
    by_cases ho : o = (s.block b).object
    · subst ho
      rw [if_pos rfl, if_pos ⟨hlinked, rfl⟩]
      rfl
    · rw [if_neg ho, if_neg fun h => ho h.2]
      rfl
  · rw [if_neg hlinked, if_neg fun h => hlinked h.1]

theorem Links.unlinkBlock (h : Links s B) (b : ℕ × Slot) : Links (s.unlinkBlock b) (B \ {b}) where
  mem o b' := by
    have hobject : ((s.unlinkBlock b).block b').object = (s.block b').object := by
      rw [block_unlinkBlock]
      split
      · rename_i hb
        rw [hb]
      · rfl
    rw [hobject, waitList_unlinkBlock, Set.mem_sdiff, Set.mem_singleton_iff]
    split
    · rw [(h.nodup o).mem_erase_iff, h.mem]
      tauto
    · rename_i hother
      rw [h.mem]
      constructor
      · rintro ⟨hb', ho⟩
        refine ⟨⟨hb', ?_⟩, ho⟩
        rintro rfl
        exact hother ⟨(h.linked b').2 hb', ho.symm⟩
      · rintro ⟨⟨hb', -⟩, ho⟩
        exact ⟨hb', ho⟩
  nodup o := by
    rw [waitList_unlinkBlock]
    split
    · exact (h.nodup o).erase b
    · exact h.nodup o
  linked b' := by
    rw [block_unlinkBlock, Set.mem_sdiff, Set.mem_singleton_iff]
    by_cases hb' : b' = b
    · simp [hb']
    · rw [if_neg hb', h.linked]
      simp [hb']

structure Relinks (s s' : WaitState) (t : ℕ) : Prop where
  others : ∀ t', t' ≠ t → s'.threads t' = s.threads t'
  state : (s'.threads t).state = (s.threads t).state
  waitStatus : (s'.threads t).waitStatus = (s.threads t).waitStatus
  waitBlockList : (s'.threads t).waitBlockList = (s.threads t).waitBlockList
  call : (s'.threads t).call = (s.threads t).call
  object : ∀ slot, (s'.block (t, slot)).object = (s.block (t, slot)).object
  waitKey : ∀ slot, (s'.block (t, slot)).waitKey = (s.block (t, slot)).waitKey
  waitType : ∀ slot, (s'.block (t, slot)).waitType = (s.block (t, slot)).waitType
  inserted : s'.inserted = s.inserted
  deferred : s'.deferred = s.deferred
  hung : s'.hung = s.hung

namespace Relinks

theorem refl (s : WaitState) (t : ℕ) : Relinks s s t :=
  ⟨fun _ _ => rfl, rfl, rfl, rfl, rfl, fun _ => rfl, fun _ => rfl, fun _ => rfl, rfl, rfl, rfl⟩

theorem trans (h : Relinks s s' t) (h' : Relinks s' s'' t) : Relinks s s'' t where
  others t' ht := (h'.others t' ht).trans (h.others t' ht)
  state := h'.state.trans h.state
  waitStatus := h'.waitStatus.trans h.waitStatus
  waitBlockList := h'.waitBlockList.trans h.waitBlockList
  call := h'.call.trans h.call
  object slot := (h'.object slot).trans (h.object slot)
  waitKey slot := (h'.waitKey slot).trans (h.waitKey slot)
  waitType slot := (h'.waitType slot).trans (h.waitType slot)
  inserted := h'.inserted.trans h.inserted
  deferred := h'.deferred.trans h.deferred
  hung := h'.hung.trans h.hung

theorem setLink (s : WaitState) (t : ℕ) (slot : Slot) (linked : Bool) :
    Relinks s (s.setBlock (t, slot) { s.block (t, slot) with linked := linked }) t := by
  have hblock (slot' : Slot) := block_setBlock s (t, slot) (t, slot') { s.block (t, slot) with linked := linked }
  refine ⟨fun t' ht => Function.update_of_ne ht .., ?_, ?_, ?_, ?_, fun slot' => ?_, fun slot' => ?_, fun slot' => ?_, rfl,
    rfl, rfl⟩
  · simp [setBlock, setThread]
  · simp [setBlock, setThread]
  · simp [setBlock, setThread]
  · simp [setBlock, setThread]
  all_goals
    rw [hblock]
    split
    · rename_i heq
      rw [heq]
    · rfl

theorem linkBlock (s : WaitState) (t : ℕ) (slot : Slot) : Relinks s (s.linkBlock (t, slot)) t := by
  have h := setLink s t slot true
  exact ⟨h.1, h.2, h.3, h.4, h.5, h.6, h.7, h.8, h.9, h.10, h.11⟩

theorem unlinkBlock (s : WaitState) (t : ℕ) (slot : Slot) : Relinks s (s.unlinkBlock (t, slot)) t := by
  unfold WaitState.unlinkBlock
  split
  · have h := setLink s t slot false
    exact ⟨h.1, h.2, h.3, h.4, h.5, h.6, h.7, h.8, h.9, h.10, h.11⟩
  · exact refl s t

end Relinks

theorem Links.linkRing {ring : List Slot} (h : Links s B) (hring : ring.Nodup) (hout : ∀ slot ∈ ring, (t, slot) ∉ B) :
    Links (ring.foldl (fun s slot => s.linkBlock (t, slot)) s) (B ∪ {b | b.1 = t ∧ b.2 ∈ ring}) ∧
      Relinks s (ring.foldl (fun s slot => s.linkBlock (t, slot)) s) t := by
  induction ring generalizing s B with
  | nil =>
    refine ⟨?_, .refl s t⟩
    simpa using h
  | cons slot ring ih =>
    obtain ⟨hnot, hring⟩ := List.nodup_cons.1 hring
    have hfirst := h.linkBlock (hout slot List.mem_cons_self)
    obtain ⟨hlinks, hrelinks⟩ := ih hfirst hring fun slot' hslot' hmem => by
      rcases hmem with heq | hmem
      · cases heq
        exact hnot hslot'
      · exact hout slot' (List.mem_cons_of_mem _ hslot') hmem
    refine ⟨?_, (Relinks.linkBlock s t slot).trans hrelinks⟩
    have hset : B ∪ {b | b.1 = t ∧ b.2 ∈ slot :: ring} = insert (t, slot) B ∪ {b | b.1 = t ∧ b.2 ∈ ring} := by
      ext ⟨t', slot'⟩
      simp only [Set.mem_union, Set.mem_ofPred_eq, List.mem_cons, Set.mem_insert_iff, Prod.mk.injEq]
      tauto
    rw [hset]
    exact hlinks

theorem Links.unlinkRing (h : Links s B) (ring : List Slot) :
    Links (ring.foldl (fun s slot => s.unlinkBlock (t, slot)) s) (B \ {b | b.1 = t ∧ b.2 ∈ ring}) ∧
      Relinks s (ring.foldl (fun s slot => s.unlinkBlock (t, slot)) s) t := by
  induction ring generalizing s B with
  | nil =>
    refine ⟨?_, .refl s t⟩
    simpa using h
  | cons slot ring ih =>
    obtain ⟨hlinks, hrelinks⟩ := ih (h.unlinkBlock (t, slot))
    refine ⟨?_, (Relinks.unlinkBlock s t slot).trans hrelinks⟩
    have hset : B \ {b | b.1 = t ∧ b.2 ∈ slot :: ring} = (B \ {(t, slot)}) \ {b | b.1 = t ∧ b.2 ∈ ring} := by
      ext ⟨t', slot'⟩
      simp only [Set.mem_sdiff, Set.mem_ofPred_eq, List.mem_cons, Set.mem_singleton_iff, Prod.mk.injEq]
      tauto
    rw [hset]
    exact hlinks

end WaitState

end XenOS.Ke
