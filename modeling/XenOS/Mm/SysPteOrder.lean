import XenOS.Mm.SysPteRuns

/-! The order of the free list. A reservation puts a rest where the sizes want it; a release
remembers its place by the cluster before it, and the head has none. -/

namespace XenOS.Mm

open General List

/-- A free cluster that the released pages are joined with. -/
def Touches (c q : Extent) : Prop := q.stop = c.1 ∨ c.stop = q.1

instance (c q : Extent) : Decidable (Touches c q) := inferInstanceAs (Decidable (_ ∨ _))

/-- The clusters that a release passes. -/
def others (c : Extent) (cs : List Extent) : List Extent := cs.filter fun q => ¬ Touches c q

def joinedSize (c : Extent) (cs : List Extent) : ℕ := c.2 + totalLength (cs.filter fun q => Touches c q)

/-- The first of the other clusters is not larger than the new one. -/
def ReleasedInOrder (cs : List Extent) (c : Extent) : Prop := ∀ q ∈ (others c cs).head?, q.2 ≤ joinedSize c cs

section Lists
variable {s : SysPtes} {cs cs' seen todo : List Extent} {c q : Extent}

theorem FreeList.unique (h : FreeList s cs) (h' : FreeList s cs') : cs = cs' := by
  have hread : ∀ {l : List Extent}, FreeList s l → l = (l.map Prod.fst).map fun i => (i, s.getClusterSize i) := fun {l} hl => by
    rw [map_map]
    conv_lhs => rw [← map_id l]
    refine map_congr_left fun r hr => ?_
    simp only [id, Function.comp_apply, getClusterSize_of_isCluster (hl.clusters r hr)]
  rw [hread h, hread h', h.walk.unique h'.walk]

theorem FreeList.lastOf_ne {as : List Extent} (h : FreeList s cs) (hs : ∀ q ∈ as, q ∈ cs) (hne : as ≠ []) : lastOf as ≠ mmEmptyList := by
  obtain ⟨z, hz, hlast⟩ : ∃ z ∈ as, z.1 = lastOf as := by
    rw [lastOf, getLastD_eq_getLast?, getLast?_map]
    cases hlast : as.getLast? with
    | none => exact absurd (getLast?_eq_none_iff.1 hlast) hne
    | some z => exact ⟨z, mem_of_getLast? hlast, rfl⟩
  rw [← hlast]
  exact h.ne_end (hs z hz)

theorem others_append : others c (seen ++ todo) = others c seen ++ others c todo := filter_append _ _

theorem others_single : others c [q] = if Touches c q then [] else [q] := by
  unfold others
  rw [filter_singleton]
  by_cases h : Touches c q <;> simp [h]

theorem joinedSize_concat : joinedSize c (seen ++ [q]) = if Touches c q then joinedSize c seen + q.2 else joinedSize c seen := by
  unfold joinedSize
  rw [filter_append, totalLength_append, filter_singleton]
  by_cases h : Touches c q
  · simp [h, Nat.add_assoc]
  · simp [h]

end Lists

namespace Release
variable {N : ℕ} {s : SysPtes} {cs res : List Extent} {r : Release} {ks seen todo : List Extent} {c q : Extent}

/-- What the walk has done with the clusters it has seen, and the place that it remembers: only a
place after a cluster counts. -/
structure Tracked (cs : List Extent) (c : Extent) (r : Release) (seen todo : List Extent) : Prop where
  split : cs = seen ++ todo
  count : r.count = joinedSize c seen
  start : r.startIndex = c.1 ∨ ∃ l ∈ seen, l.stop = c.1 ∧ r.startIndex = l.1
  stop : r.released.stop = c.stop ∨ ∃ l ∈ seen, c.stop = l.1 ∧ r.released.stop = l.stop
  place : (r.insertAfter = mmEmptyList ∧ ∀ k ∈ (others c seen).tail, k.2 < r.count) ∨
    ∃ x t y b, others c seen = x :: t ++ y :: b ∧ r.insertAfter = lastOf (x :: t) ∧ (∀ k ∈ t, k.2 < r.count) ∧ r.count ≤ y.2

section
variable (h : Tracked cs c r seen (q :: todo))
include h

theorem Tracked.touches_iff (ht : Tiles N (c :: (cs ++ res))) (hcs : Coalesced cs) :
    (q.stop = r.released.1 ∨ r.released.stop = q.1) ↔ Touches c q := by
  have hq : q ∈ cs := by simp [h.split]
  have hin : ∀ l ∈ seen, l ∈ cs := fun l hl => by simp [h.split, hl]
  have hsep : Separate cs := ht.separate.mono fun l hl => mem_cons_of_mem _ (mem_append_left _ hl)
  have hnd : (seen ++ q :: todo).Nodup := h.split ▸ (nodup_append.1 (nodup_cons.1 ht.nodup).2).1
  -- a cluster that was seen is another one
  have hne : ∀ l ∈ seen, l ≠ q := fun l hl heq => (nodup_append.1 hnd).2.2 l hl q mem_cons_self heq
  have hqpos := hsep.pos q hq
  constructor
  · rintro (hleft | hright)
    · rcases h.start with hstart | ⟨l, hl, -, hstart⟩
      · exact Or.inl (hleft.trans hstart)
      · exact absurd (hleft.trans hstart) (hcs q hq l (hin l hl))
    · rcases h.stop with hstop | ⟨l, hl, -, hstop⟩
      · exact Or.inr (hstop.symm.trans hright)
      · exact absurd (hstop.symm.trans hright) (hcs l (hin l hl) q hq)
  · rintro (hleft | hright)
    · rcases h.start with hstart | ⟨l, hl, hstop, -⟩
      · exact Or.inl (hleft.trans hstart.symm)
      · -- both would hold the page before the released ones
        have hlpos := hsep.pos l (hin l hl)
        refine absurd (hsep.eq_of_contains (k := c.1 - 1) (hin l hl) hq ?_ ?_) (hne l hl) <;>
          simp only [Extent.Contains, Extent.stop] at * <;> omega
    · rcases h.stop with hstop | ⟨l, hl, hstart, -⟩
      · exact Or.inr (hstop.trans hright)
      · have hlpos := hsep.pos l (hin l hl)
        refine absurd (hsep.eq_of_contains (k := c.stop) (hin l hl) hq ?_ ?_) (hne l hl) <;>
          simp only [Extent.Contains, Extent.stop] at * <;> omega

theorem Tracked.join (hw : Walked N s res r (others c seen) (q :: todo))
    (ht : Tiles N (c :: (cs ++ res))) (hcs : Coalesced cs) (hsorted : SizeSorted cs) (htouches : Touches c q) :
    Tracked cs c r.turn (seen ++ [q]) todo := by
  have hadj := (h.touches_iff ht hcs).2 htouches
  have hrpos : 0 < r.count := hw.tiles.pos r.released (by simp)
  have hqpos : 0 < q.2 := hw.tiles.pos q (by simp)
  rw [turn_join hw.current (getClusterSize_of_isCluster (hw.free.clusters q (by simp))) hadj]
  have hothers : others c (seen ++ [q]) = others c seen := by
    rw [others_append, others_single, if_pos htouches, append_nil]
  have hbelow : ∀ k ∈ (others c seen).tail, k.2 < r.count + q.2 := fun k hk => by
    have hk := (mem_filter.1 (mem_of_mem_tail hk)).1
    have hle := (pairwise_append.1 (h.split ▸ hsorted)).2.2 k hk q mem_cons_self
    omega
  have hcount : r.count + q.2 = joinedSize c (seen ++ [q]) := by
    rw [joinedSize_concat, if_pos htouches, h.count]
  have hq : q ∈ seen ++ [q] := by simp
  have hseen : ∀ l ∈ seen, l ∈ seen ++ [q] := fun l hl => mem_append_left _ hl
  have hsplit : cs = seen ++ [q] ++ todo := by rw [h.split]; simp
  rcases hadj with hleft | hright
  · have hlt : q.1 < r.startIndex := by
      simp only [Extent.stop, released] at hleft
      omega
    refine ⟨hsplit, hcount, Or.inr ⟨q, hq, ?_, if_pos hlt⟩, ?_, Or.inl ⟨rfl, by rw [hothers]; exact hbelow⟩⟩
    · rcases htouches with htouches | htouches
      · exact htouches
      · -- the cluster cannot lie on both sides
        rcases h.start with hstart | ⟨l, hl, hstop, hstart⟩
        · exact hleft.trans hstart
        · exact absurd (hleft.trans hstart) (hcs q (by simp [h.split]) l (by simp [h.split, hl]))
    · have hsame : Extent.stop (r.joined q) = r.released.stop := by
        simp only [joined, Extent.stop, released] at hleft ⊢
        rw [if_pos hlt]
        omega
      rcases h.stop with hstop | ⟨l, hl, hl1, hstop⟩
      · exact Or.inl (hsame.trans hstop)
      · exact Or.inr ⟨l, hseen l hl, hl1, hsame.trans hstop⟩
  · have hle : ¬ q.1 < r.startIndex := by
      simp only [Extent.stop, released] at hright
      omega
    refine ⟨hsplit, hcount, ?_, Or.inr ⟨q, hq, ?_, ?_⟩, Or.inl ⟨rfl, by rw [hothers]; exact hbelow⟩⟩
    · simp only [joined, if_neg hle]
      rcases h.start with hstart | ⟨l, hl, hl1, hstart⟩
      · exact Or.inl hstart
      · exact Or.inr ⟨l, hseen l hl, hl1, hstart⟩
    · rcases h.stop with hstop | ⟨l, hl, -, hstop⟩
      · exact hstop.symm.trans hright
      · exact absurd (hstop.symm.trans hright) (hcs l (by simp [h.split, hl]) q (by simp [h.split]))
    · simp only [joined, Extent.stop, released] at hright ⊢
      rw [if_neg hle]
      omega

theorem Tracked.pass (hw : Walked N s res r (others c seen) (q :: todo))
    (ht : Tiles N (c :: (cs ++ res))) (hcs : Coalesced cs) (htouches : ¬ Touches c q) : Tracked cs c r.turn (seen ++ [q]) todo := by
  have hadj := fun hadj => htouches ((h.touches_iff ht hcs).1 hadj)
  rw [turn_pass hw.current (getClusterSize_of_isCluster (hw.free.clusters q (by simp))) hadj]
  have hothers : others c (seen ++ [q]) = others c seen ++ [q] := by
    rw [others_append, others_single, if_neg htouches]
  have hseen : ∀ l ∈ seen, l ∈ seen ++ [q] := fun l hl => mem_append_left _ hl
  refine ⟨by rw [h.split]; simp, by rw [joinedSize_concat, if_neg htouches]; exact h.count, ?_, ?_, ?_⟩
  · exact h.start.imp id fun ⟨l, hl, hrest⟩ => ⟨l, hseen l hl, hrest⟩
  · exact h.stop.imp id fun ⟨l, hl, hrest⟩ => ⟨l, hseen l hl, hrest⟩
  rw [hothers]
  rcases h.place with ⟨hnone, hbelow⟩ | ⟨x, t, y, b, hsplit, hafter, hbelow, hle⟩
  · by_cases hcount : r.count ≤ q.2
    · simp only [hnone, hcount, and_self, if_true]
      cases hks : others c seen with
      | nil => exact Or.inl ⟨hw.prev.trans (by rw [hks]; rfl), fun k hk => by cases hk⟩
      | cons x t =>
        rw [hks] at hbelow
        exact Or.inr ⟨x, t, q, [], by simp, hw.prev.trans (by rw [hks]), hbelow, hcount⟩
    · refine Or.inl ⟨by simp only [hcount, and_false, if_false, hnone], fun k hk => ?_⟩
      cases hks : others c seen with
      | nil =>
        rw [hks] at hk
        cases hk
      | cons x t =>
        rw [hks] at hk hbelow
        rcases mem_append.1 hk with hk | hk
        · exact hbelow k hk
        · rw [mem_singleton.1 hk]
          exact Nat.not_le.1 hcount
  · -- the place that is remembered stays
    have hne : r.insertAfter ≠ mmEmptyList := by
      rw [hafter]
      refine hw.free.lastOf_ne (fun l hl => ?_) (cons_ne_nil x t)
      rw [hsplit]
      exact mem_append_left _ (mem_append_left _ hl)
    refine Or.inr ⟨x, t, y, b ++ [q], by rw [hsplit]; simp, ?_, hbelow, hle⟩
    rw [if_neg fun hboth => hne hboth.1]
    exact hafter

end

theorem Tracked.loop (ht : Tiles N (c :: (cs ++ res))) (hcs : Coalesced cs) (hsorted : SizeSorted cs) (hN : N ≤ maxSystemPtes) (todo : List Extent) :
    ∀ {r : Release} {seen : List Extent} {fuel : ℕ}, Tracked cs c r seen todo → Walked N s res r (others c seen) todo → todo.length < fuel →
      ∃ r', Release.loop fuel r = some r' ∧ Tracked cs c r' cs [] ∧ Walked N s res r' (others c cs) [] := by
  induction todo with
  | nil =>
    intro r seen fuel h hw hfuel
    obtain ⟨fuel, rfl⟩ := Nat.exists_eq_add_one.2 hfuel
    have hall : cs = seen := h.split.trans (append_nil seen)
    rw [← hall] at h hw
    exact ⟨r, if_pos hw.current, h, hw⟩
  | cons q todo ih =>
    intro r seen fuel h hw hfuel
    obtain ⟨fuel, rfl⟩ := Nat.exists_eq_add_one.2 (Nat.zero_lt_of_lt hfuel)
    have hne : r.current ≠ mmEmptyList := hw.current ▸ hw.free.ne_end (r := q) (by simp)
    rw [Release.loop, if_neg hne]
    have hturn := hw.turn hN
    rw [if_congr (h.touches_iff ht hcs) rfl rfl] at hturn
    have hlen : todo.length < fuel := by simpa using hfuel
    by_cases htouches : Touches c q
    · rw [if_pos htouches] at hturn
      refine ih (h.join hw ht hcs hsorted htouches) ?_ hlen
      rwa [others_append, others_single, if_pos htouches, append_nil]
    · rw [if_neg htouches] at hturn
      refine ih (h.pass hw ht hcs htouches) ?_ hlen
      rwa [others_append, others_single, if_neg htouches]

theorem Tracked.insert (h : Tracked cs c r cs []) (hw : Walked N s res r (others c cs) []) (hsorted : SizeSorted cs) (hN : N ≤ maxSystemPtes) :
    ∃ cs', FreeList r.insert cs' ∧ (SizeSorted cs' ↔ ReleasedInOrder cs c) := by
  have hothers : SizeSorted (others c cs) := hsorted.filter _
  rcases h.place with ⟨hnone, hbelow⟩ | ⟨x, t, y, b, hsplit, hafter, hbelow, hle⟩
  · -- at the end: only the first cluster may be larger
    obtain ⟨-, hfree, -⟩ := hw.insert_after hN (append_nil _).symm (by rw [if_pos hnone]; exact hw.prev)
    refine ⟨_, hfree, ?_⟩
    unfold ReleasedInOrder
    rw [← h.count]
    cases hks : others c cs with
    | nil => exact iff_of_true (pairwise_singleton _ _) fun q hq => by cases hq
    | cons x t =>
      rw [hks] at hbelow hothers
      constructor
      · intro hnew q hq
        cases hq
        exact (pairwise_append.1 hnew).2.2 x mem_cons_self _ mem_cons_self
      · intro hfirst
        have hall : SizeSorted (x :: t ++ []) := by rwa [append_nil]
        refine hall.insert (fun q hq => ?_) fun q hq => by cases hq
        rcases mem_cons.1 hq with rfl | hq
        · exact hfirst q rfl
        · exact (hbelow q hq).le
  · have hks : others c cs = (x :: t) ++ y :: b := hsplit
    have hne : r.insertAfter ≠ mmEmptyList := by
      rw [hafter]
      refine hw.free.lastOf_ne (fun l hl => ?_) (cons_ne_nil x t)
      rw [hks]
      exact mem_append_left _ (mem_append_left _ hl)
    obtain ⟨-, hfree, -⟩ := hw.insert_after hN hks (by rw [if_neg hne]; exact hafter)
    refine ⟨_, hfree, ?_⟩
    unfold ReleasedInOrder
    rw [← h.count, hks]
    rw [hks] at hothers
    constructor
    · intro hnew q hq
      cases hq
      exact (pairwise_append.1 hnew).2.2 x mem_cons_self _ mem_cons_self
    · intro hfirst
      refine hothers.insert (fun q hq => ?_) (SizeSorted.all_le (pairwise_append.1 hothers).2.1 fun q hq => ?_)
      · rcases mem_cons.1 hq with rfl | hq
        · exact hfirst q rfl
        · exact (hbelow q hq).le
      · cases hq
        exact hle

end Release

theorem releasePtesWithCoalescing_order {N : ℕ} {s : SysPtes} {cs res : List Extent} {c : Extent} (hfree : FreeList s cs)
    (ht : Tiles N (c :: (cs ++ res))) (hcs : Coalesced cs) (hsorted : SizeSorted cs) (hN : N ≤ maxSystemPtes) (hpc : s.pteCount = N) :
    ∃ s' cs', releasePtesWithCoalescing s c.1 c.2 = some s' ∧ FreeList s' cs' ∧ (SizeSorted cs' ↔ ReleasedInOrder cs c) := by
  have hlen := length_lt_pteCount ht hpc
  have hstart : Release.Tracked cs c ⟨s, c.1, c.2, mmEmptyList, mmEmptyList, s.freeListHead⟩ [] cs :=
    ⟨rfl, rfl, Or.inl rfl, Or.inl rfl, Or.inl ⟨rfl, fun k hk => by cases hk⟩⟩
  obtain ⟨r, hloop, htracked, hwalked⟩ := Release.Tracked.loop ht hcs hsorted hN cs hstart (walked_start hfree ht hcs) hlen
  obtain ⟨cs', hfree', horder⟩ := htracked.insert hwalked hsorted hN
  refine ⟨r.insert, cs', ?_, hfree', horder⟩
  rw [releasePtesWithCoalescing, hloop]
  rfl

namespace SysPteClients
variable {s : SysPteClients} {cs : List Extent}

/-- The list is ordered by size, and a reservation takes the tail of a smallest cluster that is
large enough. -/
def BestFit (s : SysPteClients) : Prop :=
  ∃ cs, FreeList s.ptes cs ∧ SizeSorted cs ∧ ∀ count index p, 0 < count → allocateFromFreeList s.ptes count = some (some (index, p)) →
    ∃ c ∈ cs, count ≤ c.2 ∧ index + count = c.stop ∧ ∀ q ∈ cs, count ≤ q.2 → c.2 ≤ q.2

def Places (s : SysPteClients) : SysPteOp → Prop
  | .release base count => ∀ cs, FreeList s.ptes cs → ReleasedInOrder cs (s.held (base, count))
  | _ => True

theorem Inv.bestFit_iff (h : s.Inv) (hfree : FreeList s.ptes cs) : s.BestFit ↔ SizeSorted cs := by
  obtain ⟨cs', hfree', ht, hcs, -⟩ := h.list
  obtain rfl := hfree.unique hfree'
  constructor
  · rintro ⟨cs', hfree', hsorted, -⟩
    rwa [hfree.unique hfree']
  · intro hsorted
    refine ⟨cs, hfree, hsorted, fun count index p hcount halloc => ?_⟩
    obtain ⟨taken, halloc', htakes⟩ := allocateFromFreeList_spec hfree ht hcs h.size rfl hcount
    obtain rfl := Option.some.inj (halloc.symm.trans halloc')
    obtain ⟨c, hc, hle, hstop, hsmallest⟩ := (htakes index p rfl).cluster
    exact ⟨c, hc, hle, hstop, hsmallest hsorted⟩

theorem Inv.order (h : s.Inv) (hfree : FreeList s.ptes cs) (hsorted : SizeSorted cs) (op : SysPteOp) (ha : s.Admitted op) :
    ∃ cs', FreeList (s.step op).ptes cs' ∧ (SizeSorted cs' ↔ s.Places op) := by
  obtain ⟨cs', hfree', ht, hcs, -⟩ := h.list
  obtain rfl := hfree.unique hfree'
  cases op with
  | reserve count =>
    rcases h.reserve_cases ha hfree ht hcs with hnone | ⟨index, p, hsome, htakes⟩
    · simp only [SysPteClients.step, hnone]
      exact ⟨cs, hfree, iff_of_true hsorted trivial⟩
    · obtain ⟨cs', hfree'', -, -, hkeeps⟩ := htakes.list
      simp only [SysPteClients.step, hsome]
      exact ⟨cs', ⟨hfree''.walk, hfree''.clusters⟩, iff_of_true (hkeeps hsorted) trivial⟩
  | release base count =>
    obtain ⟨ht', hzero, hsome⟩ := h.release_start ha hfree ht
    obtain ⟨p, cs', hrelease, hfree'', horder⟩ :=
      releasePtesWithCoalescing_order (c := s.held (base, count)) hzero ht' hcs hsorted h.size rfl
    rw [show releasePtesWithCoalescing (s.ptes.zeroPtes (s.ptes.vaToIndex base) count) (s.ptes.vaToIndex base) count = some p from hrelease,
      Option.map_some] at hsome
    simp only [SysPteClients.step, hsome]
    refine ⟨cs', ⟨hfree''.walk, hfree''.clusters⟩, horder.trans ⟨fun hplaced cs₁ hfree₁ => ?_, fun hplaced => hplaced cs hfree⟩⟩
    rwa [← hfree.unique hfree₁]
  | store index value => exact ⟨cs, freeList_store hfree ht ha, iff_of_true hsorted trivial⟩

/-- In every run the list is ordered, and reservations are best fit, exactly if no release forms a
cluster that belongs at the head. -/
theorem bestFit_iff_places {p : SysPtes} {baseVa count : ℕ} (hp : p.initialized = false) (hcount : 2 ≤ count)
    (hbase : 0 < baseVa) (hfits : baseVa + min count maxSystemPtes * pageSize ≤ 2 ^ 64) {ops : List SysPteOp}
    (hops : EveryStep step Admitted ⟨miInitializeSystemPtes p baseVa count, []⟩ ops) :
    EveryState step BestFit ⟨miInitializeSystemPtes p baseVa count, []⟩ ops ↔
      EveryStep step Places ⟨miInitializeSystemPtes p baseVa count, []⟩ ops := by
  have hinv := inv_miInitializeSystemPtes hp hcount hbase hfits
  have hfresh : ∃ cs, FreeList (miInitializeSystemPtes p baseVa count) cs ∧ SizeSorted cs :=
    ⟨_, freeList_miInitializeSystemPtes hp hcount, pairwise_singleton _ _⟩
  refine everyState_iff_everyStep (I := fun s => s.Inv ∧ ∃ cs, FreeList s.ptes cs ∧ SizeSorted cs) ?_ ?_ ?_ ⟨hinv, hfresh⟩ hops
  · rintro s op ⟨hs, cs, hfree, hsorted⟩ ha hplaces
    obtain ⟨cs', hfree', horder⟩ := hs.order hfree hsorted op ha
    exact ⟨(hs.step ha).2, cs', hfree', horder.2 hplaces⟩
  · rintro s ⟨hs, cs, hfree, hsorted⟩
    exact (hs.bestFit_iff hfree).2 hsorted
  · rintro s op ⟨hs, cs, hfree, hsorted⟩ ha hplaces hbest
    obtain ⟨cs', hfree', horder⟩ := hs.order hfree hsorted op ha
    exact hplaces (horder.1 (((hs.step ha).2.bestFit_iff hfree').1 hbest))

def four : SysPteClients := ⟨miInitializeSystemPtes uninitialized 0xFFFFF80000000000 4, []⟩

/-- The entry that is released joins the cluster before it. -/
theorem bestFit_joined : EveryState step BestFit four [.reserve 1, .release 0xFFFFF80000003000 1] := by
  have hops : EveryStep step Admitted four [.reserve 1, .release 0xFFFFF80000003000 1] := ⟨by decide, by decide, trivial⟩
  refine (bestFit_iff_places rfl (by decide) (by decide) (by decide) hops).2 ⟨trivial, fun cs hfree => ?_, trivial⟩
  have hone : FreeList (four.step (.reserve 1)).ptes [(0, 3)] :=
    ⟨walk_cons.2 ⟨by decide, by decide, walk_nil.2 (by decide)⟩, fun r hr => mem_singleton.1 hr ▸ (by unfold IsCluster; decide)⟩
  rw [hfree.unique hone]
  unfold ReleasedInOrder
  decide

/-- A cluster of one entry is put after the cluster of two. -/
theorem release_misplaces : EveryStep step Admitted four [.reserve 1, .reserve 1, .release 0xFFFFF80000003000 1] ∧
    ¬ EveryState step BestFit four [.reserve 1, .reserve 1, .release 0xFFFFF80000003000 1] := by
  refine ⟨⟨by decide, by decide, by decide, trivial⟩, fun hall => ?_⟩
  obtain ⟨cs, hfree, hsorted, -⟩ := hall.2.2.2
  have htwo : FreeList (run step four [.reserve 1, .reserve 1, .release 0xFFFFF80000003000 1]).ptes [(0, 2), (3, 1)] := by
    refine ⟨walk_cons.2 ⟨by decide, by decide, walk_cons.2 ⟨by decide, by decide, walk_nil.2 (by decide)⟩⟩, fun r hr => ?_⟩
    rcases mem_cons.1 hr with rfl | hr
    · unfold IsCluster
      decide
    · rw [mem_singleton.1 hr]
      unfold IsCluster
      decide
  rw [hfree.unique htwo] at hsorted
  exact absurd ((pairwise_cons.1 hsorted).1 (3, 1) mem_cons_self) (by decide)

end SysPteClients

end XenOS.Mm
