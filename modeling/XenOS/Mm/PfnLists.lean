import Mathlib.Data.Finset.Card
import XenOS.General.Walk
import XenOS.Mm.Pfn

/-! Well-formed page lists: five finite lists that the links, ends and totals of the database spell
out in both directions. Inserting and unlinking one page are one lemma about walks each, and all
operations are composed of these two. -/

namespace XenOS.Mm

open General List Mmpfn
open Function (update update_self update_of_ne update_eq_self)

namespace PfnState

variable (σ : PfnState)

def flinkOf (pfn : ℕ) : ℕ := (σ.entries pfn).flink

def blinkOf (pfn : ℕ) : ℕ := (σ.entries pfn).blink

def locationOf (pfn : ℕ) : MmLists := (σ.entries pfn).pageLocation

@[simp] theorem heads_modifyEntry (p : ℕ) (f : Mmpfn → Mmpfn) : (σ.modifyEntry p f).heads = σ.heads := by
  unfold modifyEntry; split <;> rfl

@[simp] theorem startPfn_modifyEntry (p : ℕ) (f : Mmpfn → Mmpfn) :
    (σ.modifyEntry p f).startPfn = σ.startPfn := by
  unfold modifyEntry; split <;> rfl

@[simp] theorem endPfn_modifyEntry (p : ℕ) (f : Mmpfn → Mmpfn) : (σ.modifyEntry p f).endPfn = σ.endPfn := by
  unfold modifyEntry; split <;> rfl

@[simp] theorem startPfn_modifyHead (L : PageList) (f : MmpfnList → MmpfnList) :
    (σ.modifyHead L f).startPfn = σ.startPfn := rfl

@[simp] theorem endPfn_modifyHead (L : PageList) (f : MmpfnList → MmpfnList) :
    (σ.modifyHead L f).endPfn = σ.endPfn := rfl

@[simp] theorem entries_modifyHead (L : PageList) (f : MmpfnList → MmpfnList) :
    (σ.modifyHead L f).entries = σ.entries := rfl

@[simp] theorem heads_modifyHead (L : PageList) (f : MmpfnList → MmpfnList) :
    (σ.modifyHead L f).heads = update σ.heads L (f (σ.heads L)) := rfl

variable {σ}

theorem entries_modifyEntry {p : ℕ} (hp : σ.isValidPfn p) (f : Mmpfn → Mmpfn) :
    (σ.modifyEntry p f).entries = update σ.entries p (f (σ.entries p)) := by
  rw [modifyEntry, if_pos hp]

theorem field_modifyEntry {β : Type*} (π : Mmpfn → β) {p : ℕ} (hp : σ.isValidPfn p) (f : Mmpfn → Mmpfn) :
    (fun q => π ((σ.modifyEntry p f).entries q)) =
      update (fun q => π (σ.entries q)) p (π (f (σ.entries p))) := by
  rw [entries_modifyEntry hp]
  funext q
  by_cases hq : q = p
  · subst hq; simp
  · simp [hq]

theorem field_modifyEntry_same {β : Type*} (π : Mmpfn → β) {p : ℕ} {f : Mmpfn → Mmpfn}
    (hf : ∀ e, π (f e) = π e) : (fun q => π ((σ.modifyEntry p f).entries q)) = fun q => π (σ.entries q) := by
  by_cases hp : σ.isValidPfn p
  · rw [field_modifyEntry π hp, hf, update_eq_self]
  · rw [modifyEntry, if_neg hp]

theorem entries_modifyEntry_of_ne {p q : ℕ} (hq : q ≠ p) (f : Mmpfn → Mmpfn) :
    (σ.modifyEntry p f).entries q = σ.entries q := by
  by_cases hp : σ.isValidPfn p
  · rw [entries_modifyEntry hp, update_of_ne hq]
  · rw [modifyEntry, if_neg hp]

theorem flinkOf_modifyEntry {p : ℕ} (hp : σ.isValidPfn p) (f : Mmpfn → Mmpfn) :
    (σ.modifyEntry p f).flinkOf = update σ.flinkOf p (f (σ.entries p)).flink :=
  field_modifyEntry flink hp f

theorem blinkOf_modifyEntry {p : ℕ} (hp : σ.isValidPfn p) (f : Mmpfn → Mmpfn) :
    (σ.modifyEntry p f).blinkOf = update σ.blinkOf p (f (σ.entries p)).blink :=
  field_modifyEntry blink hp f

theorem locationOf_modifyEntry {p : ℕ} (hp : σ.isValidPfn p) (f : Mmpfn → Mmpfn) :
    (σ.modifyEntry p f).locationOf = update σ.locationOf p (f (σ.entries p)).pageLocation :=
  field_modifyEntry pageLocation hp f

theorem locationOf_modifyEntry_same {p : ℕ} {f : Mmpfn → Mmpfn}
    (hf : ∀ e, (f e).pageLocation = e.pageLocation) : (σ.modifyEntry p f).locationOf = σ.locationOf :=
  field_modifyEntry_same pageLocation hf

section Neighbours
variable {L : PageList} {n v : ℕ}

theorem flinkOf_setBlink : (σ.setBlink L n v).flinkOf = σ.flinkOf := by
  unfold setBlink
  split
  · exact field_modifyEntry_same flink fun _ => rfl
  · rfl

theorem blinkOf_setFlink : (σ.setFlink L n v).blinkOf = σ.blinkOf := by
  unfold setFlink
  split
  · exact field_modifyEntry_same blink fun _ => rfl
  · rfl

theorem blinkOf_setBlink (hn : n ≠ listHead → σ.isValidPfn n) :
    (σ.setBlink L n v).blinkOf = if n = listHead then σ.blinkOf else update σ.blinkOf n v := by
  unfold setBlink
  by_cases h : n = listHead
  · simp only [h, ne_eq, not_true, if_false, if_true]; rfl
  · simp only [h, ne_eq, not_false_eq_true, if_true, if_false]
    exact blinkOf_modifyEntry (hn h) _

theorem flinkOf_setFlink (hn : n ≠ listHead → σ.isValidPfn n) :
    (σ.setFlink L n v).flinkOf = if n = listHead then σ.flinkOf else update σ.flinkOf n v := by
  unfold setFlink
  by_cases h : n = listHead
  · simp only [h, ne_eq, not_true, if_false, if_true]; rfl
  · simp only [h, ne_eq, not_false_eq_true, if_true, if_false]
    exact flinkOf_modifyEntry (hn h) _

theorem field_setBlink {β : Type*} (π : Mmpfn → β) (hπ : ∀ e : Mmpfn, π { e with blink := v } = π e) :
    (fun q => π ((σ.setBlink L n v).entries q)) = fun q => π (σ.entries q) := by
  unfold setBlink
  split
  · exact field_modifyEntry_same π hπ
  · rfl

theorem field_setFlink {β : Type*} (π : Mmpfn → β) (hπ : ∀ e : Mmpfn, π { e with flink := v } = π e) :
    (fun q => π ((σ.setFlink L n v).entries q)) = fun q => π (σ.entries q) := by
  unfold setFlink
  split
  · exact field_modifyEntry_same π hπ
  · rfl

theorem heads_setBlink : (σ.setBlink L n v).heads =
    if n = listHead then update σ.heads L { σ.heads L with blink := v } else σ.heads := by
  unfold setBlink
  by_cases h : n = listHead <;> simp [h]

theorem heads_setFlink : (σ.setFlink L n v).heads =
    if n = listHead then update σ.heads L { σ.heads L with flink := v } else σ.heads := by
  unfold setFlink
  by_cases h : n = listHead <;> simp [h]

@[simp] theorem startPfn_setBlink : (σ.setBlink L n v).startPfn = σ.startPfn := by
  unfold setBlink; split <;> simp

@[simp] theorem endPfn_setBlink : (σ.setBlink L n v).endPfn = σ.endPfn := by
  unfold setBlink; split <;> simp

@[simp] theorem startPfn_setFlink : (σ.setFlink L n v).startPfn = σ.startPfn := by
  unfold setFlink; split <;> simp

@[simp] theorem endPfn_setFlink : (σ.setFlink L n v).endPfn = σ.endPfn := by
  unfold setFlink; split <;> simp

end Neighbours

theorem isValidPfn_congr {σ' : PfnState} (hs : σ'.startPfn = σ.startPfn) (he : σ'.endPfn = σ.endPfn) {p : ℕ} :
    σ'.isValidPfn p ↔ σ.isValidPfn p := by
  rw [isValidPfn, isValidPfn, hs, he]

end PfnState

open PfnState

/-! ### What insertion and removal do -/

section Effects
variable {σ : PfnState} {L : PageList} {p : ℕ}

section
variable (hp : σ.isValidPfn p)
include hp

theorem heads_miInsertPageInList :
    (miInsertPageInList σ L p).heads = update σ.heads L
      { total := fetchAdd (σ.heads L).total 1
        flink := p
        blink := if (σ.heads L).flink = listHead then p else (σ.heads L).blink } := by
  by_cases hh : (σ.heads L).flink = listHead <;> simp [miInsertPageInList, hp, hh, heads_setBlink]

theorem flinkOf_miInsertPageInList :
    (miInsertPageInList σ L p).flinkOf = update σ.flinkOf p (σ.heads L).flink := by
  unfold miInsertPageInList
  rw [if_neg (not_not.2 hp)]
  exact flinkOf_setBlink.trans (flinkOf_modifyEntry hp _)

theorem blinkOf_miInsertPageInList
    (hh : (σ.heads L).flink ≠ listHead → σ.isValidPfn (σ.heads L).flink) :
    (miInsertPageInList σ L p).blinkOf =
      if (σ.heads L).flink = listHead then update σ.blinkOf p listHead
      else update (update σ.blinkOf p listHead) (σ.heads L).flink p := by
  unfold miInsertPageInList
  rw [if_neg (not_not.2 hp)]
  refine (blinkOf_setBlink fun h => ?_).trans ?_
  · exact (isValidPfn_congr (by simp) (by simp)).2 (hh h)
  · rw [blinkOf_modifyEntry hp]

theorem locationOf_miInsertPageInList :
    (miInsertPageInList σ L p).locationOf = update σ.locationOf p L.name := by
  unfold miInsertPageInList
  rw [if_neg (not_not.2 hp)]
  exact (field_setBlink pageLocation fun _ => rfl).trans (locationOf_modifyEntry hp _)

theorem heads_miRemovePageFromList :
    (miRemovePageFromList σ L p).heads = update σ.heads L
      { total := fetchSub (σ.heads L).total 1
        flink := if σ.blinkOf p = listHead then σ.flinkOf p else (σ.heads L).flink
        blink := if σ.flinkOf p = listHead then σ.blinkOf p else (σ.heads L).blink } := by
  by_cases hf : (σ.entries p).flink = listHead <;> by_cases hb : (σ.entries p).blink = listHead <;>
    simp [miRemovePageFromList, flinkOf, blinkOf, hp, hf, hb, heads_setBlink, heads_setFlink]

theorem flinkOf_miRemovePageFromList
    (hb : σ.blinkOf p ≠ listHead → σ.isValidPfn (σ.blinkOf p)) :
    (miRemovePageFromList σ L p).flinkOf = update
      (if σ.blinkOf p = listHead then σ.flinkOf else update σ.flinkOf (σ.blinkOf p) (σ.flinkOf p))
      p listHead := by
  unfold miRemovePageFromList
  rw [if_neg (not_not.2 hp)]
  refine (flinkOf_modifyEntry ((isValidPfn_congr (by simp) (by simp)).2 hp) _).trans ?_
  congr 1
  refine (flinkOf_setFlink fun h => ?_).trans ?_
  · exact (isValidPfn_congr (by simp) (by simp)).2 (hb h)
  · rw [flinkOf_setBlink]; rfl

theorem blinkOf_miRemovePageFromList
    (hf : σ.flinkOf p ≠ listHead → σ.isValidPfn (σ.flinkOf p)) :
    (miRemovePageFromList σ L p).blinkOf = update
      (if σ.flinkOf p = listHead then σ.blinkOf else update σ.blinkOf (σ.flinkOf p) (σ.blinkOf p))
      p listHead := by
  unfold miRemovePageFromList
  rw [if_neg (not_not.2 hp)]
  refine (blinkOf_modifyEntry ((isValidPfn_congr (by simp) (by simp)).2 hp) _).trans ?_
  congr 1
  refine blinkOf_setFlink.trans (blinkOf_setBlink ?_)
  exact hf

end

theorem locationOf_miRemovePageFromList : (miRemovePageFromList σ L p).locationOf = σ.locationOf := by
  unfold miRemovePageFromList
  split
  · rfl
  · have hlast : ∀ σ' : PfnState,
        (σ'.modifyEntry p fun e => { e with flink := listHead, blink := listHead }).locationOf = σ'.locationOf :=
      fun σ' => field_modifyEntry_same pageLocation fun _ => rfl
    refine (hlast _).trans ?_
    refine (field_setFlink pageLocation fun _ => rfl).trans ?_
    exact field_setBlink pageLocation fun _ => rfl

@[simp] theorem startPfn_miInsertPageInList : (miInsertPageInList σ L p).startPfn = σ.startPfn := by
  unfold miInsertPageInList; split <;> simp

@[simp] theorem endPfn_miInsertPageInList : (miInsertPageInList σ L p).endPfn = σ.endPfn := by
  unfold miInsertPageInList; split <;> simp

@[simp] theorem startPfn_miRemovePageFromList : (miRemovePageFromList σ L p).startPfn = σ.startPfn := by
  unfold miRemovePageFromList; split <;> simp

@[simp] theorem endPfn_miRemovePageFromList : (miRemovePageFromList σ L p).endPfn = σ.endPfn := by
  unfold miRemovePageFromList; split <;> simp

end Effects

/-! ### Well-formed lists -/

/-- The contents of the five lists, read off the links in both directions. -/
structure Lists (σ : PfnState) (c : PageList → List ℕ) : Prop where
  flinks : ∀ L, Walk listHead σ.flinkOf (σ.heads L).flink (c L)
  blinks : ∀ L, Walk listHead σ.blinkOf (σ.heads L).blink (c L).reverse
  total : ∀ L, (σ.heads L).total = (c L).length
  valid : ∀ L p, p ∈ c L → σ.isValidPfn p
  disjoint : ∀ L L' p, p ∈ c L → p ∈ c L' → L = L'
  bound : σ.endPfn ≤ listHead

/-- `p` is met on the walk of `list`. -/
def OnList (σ : PfnState) (list : PageList) (p : ℕ) : Prop :=
  ∃ xs, Walk listHead σ.flinkOf (σ.heads list).flink xs ∧ p ∈ xs

namespace Lists
variable {σ σ' : PfnState} {c : PageList → List ℕ} {L : PageList} {p : ℕ}

section
variable (h : Lists σ c)
include h

theorem unique {c' : PageList → List ℕ} (h' : Lists σ c') : c = c' :=
  funext fun L => (h.flinks L).unique (h'.flinks L)

theorem onList_iff : OnList σ L p ↔ p ∈ c L := by
  constructor
  · rintro ⟨xs, hw, hp⟩
    rwa [(h.flinks L).unique hw]
  · exact fun hp => ⟨c L, h.flinks L, hp⟩

theorem nodup (L : PageList) : (c L).Nodup := (h.flinks L).nodup

theorem ne_listHead (hp : σ.isValidPfn p) : p ≠ listHead := by
  have := h.bound
  have := hp.2
  omega

theorem length_le (L : PageList) : (c L).length ≤ usizeMax := by
  have hcard := Finset.card_le_card (s := (c L).toFinset) (t := Finset.range σ.endPfn)
    (fun q hq => Finset.mem_range.2 (h.valid L q (by simpa using hq)).2)
  rw [toFinset_card_of_nodup (h.nodup L), Finset.card_range] at hcard
  exact hcard.trans h.bound

theorem length_lt (hp : σ.isValidPfn p) (hmem : ∀ L, p ∉ c L) (L : PageList) :
    (c L).length + 1 < 2 ^ 64 := by
  have hsub : (p :: c L).toFinset ⊆ Finset.range σ.endPfn := by
    intro q hq
    simp only [mem_toFinset, mem_cons] at hq
    rcases hq with rfl | hq
    · exact Finset.mem_range.2 hp.2
    · exact Finset.mem_range.2 (h.valid L q hq).2
  have hcard := Finset.card_le_card hsub
  rw [toFinset_card_of_nodup (nodup_cons.2 ⟨hmem L, h.nodup L⟩), Finset.card_range] at hcard
  have := h.bound
  simp only [listHead, usizeMax, length_cons] at *
  omega

theorem congr (hf : σ'.flinkOf = σ.flinkOf) (hb : σ'.blinkOf = σ.blinkOf)
    (hh : σ'.heads = σ.heads) (hs : σ'.startPfn = σ.startPfn) (he : σ'.endPfn = σ.endPfn) : Lists σ' c where
  flinks L := by rw [hf, hh]; exact h.flinks L
  blinks L := by rw [hb, hh]; exact h.blinks L
  total L := by rw [hh]; exact h.total L
  valid L p hp := (isValidPfn_congr hs he).2 (h.valid L p hp)
  disjoint := h.disjoint
  bound := by rw [he]; exact h.bound

theorem modifyEntry {f : Mmpfn → Mmpfn} (hf : ∀ e, (f e).flink = e.flink)
    (hb : ∀ e, (f e).blink = e.blink) : Lists (σ.modifyEntry p f) c :=
  h.congr (field_modifyEntry_same flink hf) (field_modifyEntry_same blink hb) (by simp) (by simp) (by simp)

theorem head_flink (L : PageList) : (σ.heads L).flink = (c L).headD listHead :=
  (h.flinks L).head_eq

theorem flink_mem (hne : (σ.heads L).flink ≠ listHead) : (σ.heads L).flink ∈ c L := by
  rw [h.head_flink] at hne ⊢
  cases hc : c L with
  | nil => simp [hc] at hne
  | cons q qs => simp

theorem disjoint_cons (hmem : ∀ L, p ∉ c L) {M M' : PageList} {q : ℕ}
    (hq : q ∈ update c L (p :: c L) M) (hq' : q ∈ update c L (p :: c L) M') : M = M' := by
  have hiff : ∀ N, q ∈ update c L (p :: c L) N ↔ (N = L ∧ q = p) ∨ q ∈ c N := by
    intro N
    by_cases hN : N = L
    · subst hN; simp
    · simp [hN]
  rcases (hiff M).1 hq with ⟨hM, hp⟩ | hM <;> rcases (hiff M').1 hq' with ⟨hM', hp'⟩ | hM'
  · rw [hM, hM']
  · exact absurd (hp ▸ hM') (hmem M')
  · exact absurd (hp' ▸ hM) (hmem M)
  · exact h.disjoint M M' q hM hM'

theorem insert (hp : σ.isValidPfn p) (hmem : ∀ L, p ∉ c L) :
    Lists (miInsertPageInList σ L p) (update c L (p :: c L)) := by
  have hpl := h.ne_listHead hp
  have hvalid : (σ.heads L).flink ≠ listHead → σ.isValidPfn (σ.heads L).flink :=
    fun hne => h.valid L _ (h.flink_mem hne)
  have hheads := heads_miInsertPageInList (L := L) hp
  have hflink := flinkOf_miInsertPageInList (L := L) hp
  have hblink := blinkOf_miInsertPageInList (L := L) hp hvalid
  constructor
  · intro M
    rw [hheads, hflink]
    by_cases hM : M = L
    · subst hM
      simpa using (h.flinks M).push (hmem M) hpl
    · simpa [hM] using (h.flinks M).update_of_notMem (hmem M)
  · intro M
    rw [hheads, hblink]
    have hnot : p ∉ (c M).reverse := by simpa using hmem M
    by_cases hM : M = L
    · subst hM
      -- walked backwards, the new page is linked last
      have hlast : (c M).reverse.getLastD listHead = (σ.heads M).flink := by
        rw [h.head_flink]; cases c M <;> simp
      have happend := (h.blinks M).append hnot hpl
      rw [hlast] at happend
      simpa using happend
    · have hup := (h.blinks M).update_of_notMem (v := listHead) hnot
      split
      · simpa [hM] using hup
      · rename_i hne
        -- the old first page of `L` is on no other list
        have hhead : (σ.heads L).flink ∉ (c M).reverse := fun hm =>
          hM (h.disjoint M L _ (by simpa using hm) (h.flink_mem hne))
        simpa [hM] using hup.update_of_notMem hhead
  · intro M
    rw [hheads]
    by_cases hM : M = L
    · subst hM
      have := h.length_lt hp hmem M
      simp [h.total, fetchAdd_of_lt this]
    · simp [hM, h.total]
  · intro M q hq
    rw [show PfnState.isValidPfn _ q ↔ σ.isValidPfn q from isValidPfn_congr (by simp) (by simp)]
    by_cases hM : M = L
    · subst hM
      simp only [update_self, mem_cons] at hq
      rcases hq with rfl | hq
      · exact hp
      · exact h.valid M q hq
    · rw [update_of_ne hM] at hq
      exact h.valid M q hq
  · intro M M' q hq hq'
    exact h.disjoint_cons hmem hq hq'
  · simpa using h.bound

theorem blinkOf_eq {as bs : List ℕ} (hc : c L = as ++ p :: bs) :
    σ.blinkOf p = as.getLastD listHead := by
  have hb : Walk listHead σ.blinkOf (σ.heads L).blink (bs.reverse ++ p :: as.reverse) := by
    simpa [hc] using h.blinks L
  rw [hb.next_eq]
  rcases eq_nil_or_concat as with rfl | ⟨as, q, rfl⟩ <;> simp

theorem remove {as bs : List ℕ} (hc : c L = as ++ p :: bs) :
    Lists (miRemovePageFromList σ L p) (update c L (as ++ bs)) := by
  have hpL : p ∈ c L := by simp [hc]
  have hp := h.valid L p hpL
  have hf : Walk listHead σ.flinkOf (σ.heads L).flink (as ++ p :: bs) := hc ▸ h.flinks L
  have hb : Walk listHead σ.blinkOf (σ.heads L).blink (bs.reverse ++ p :: as.reverse) := by
    simpa [hc] using h.blinks L
  have hfp : σ.flinkOf p = bs.reverse.getLastD listHead := by
    rw [hf.next_eq]; cases bs <;> simp
  have hbp : σ.blinkOf p = as.getLastD listHead := h.blinkOf_eq hc
  have hsub : ∀ q, q ∈ as ++ bs → q ∈ c L := by
    intro q hq
    simp only [hc, mem_append, mem_cons] at hq ⊢
    tauto
  have hflinkMem : σ.flinkOf p ≠ listHead → σ.flinkOf p ∈ as ++ bs := by
    rw [hf.next_eq]; cases bs <;> simp
  have hblinkMem : σ.blinkOf p ≠ listHead → σ.blinkOf p ∈ as ++ bs := by
    rw [hbp]
    rcases eq_nil_or_concat as with rfl | ⟨as, q, rfl⟩ <;> simp
  have hheads := heads_miRemovePageFromList (L := L) hp
  have hflink := flinkOf_miRemovePageFromList (L := L) hp fun hne => h.valid L _ (hsub _ (hblinkMem hne))
  have hblink := blinkOf_miRemovePageFromList (L := L) hp fun hne => h.valid L _ (hsub _ (hflinkMem hne))
  have hmem : ∀ M q, q ∈ update c L (as ++ bs) M → q ∈ c M := by
    intro M q hq
    by_cases hM : M = L
    · subst hM
      exact hsub q (by simpa using hq)
    · rwa [update_of_ne hM] at hq
  -- a page of `L` is on no other list, so the stores miss the other lists
  have hother : ∀ M, M ≠ L → ∀ q ∈ c L, q ∉ c M := fun M hM q hq hq' => hM (h.disjoint M L q hq' hq)
  constructor
  · intro M
    rw [hheads, hflink]
    by_cases hM : M = L
    · subst hM
      have herase := hf.erase (v := listHead)
      rw [← hbp] at herase
      simpa using herase
    · have hpM := hother M hM p hpL
      rw [update_of_ne hM, update_of_ne hM]
      refine Walk.update_of_notMem hpM ?_
      split
      · exact h.flinks M
      · rename_i hne
        exact (h.flinks M).update_of_notMem (hother M hM _ (hsub _ (hblinkMem hne)))
  · intro M
    rw [hheads, hblink]
    by_cases hM : M = L
    · subst hM
      have herase := hb.erase (v := listHead)
      rw [← hfp] at herase
      simpa using herase
    · have hpM : p ∉ (c M).reverse := by simpa using hother M hM p hpL
      rw [update_of_ne hM, update_of_ne hM]
      refine Walk.update_of_notMem hpM ?_
      split
      · exact h.blinks M
      · rename_i hne
        refine (h.blinks M).update_of_notMem ?_
        simpa using hother M hM _ (hsub _ (hflinkMem hne))
  · intro M
    rw [hheads]
    by_cases hM : M = L
    · subst hM
      have htot := h.total M
      have hmax := h.length_le M
      simp only [update_self]
      rw [htot, fetchSub_of_le (by simp [hc]; omega) (by simp only [usizeMax] at hmax; omega)]
      simp [hc]
    · simp [hM, h.total]
  · intro M q hq
    rw [show PfnState.isValidPfn _ q ↔ σ.isValidPfn q from isValidPfn_congr (by simp) (by simp)]
    exact h.valid M q (hmem M q hq)
  · intro M M' q hq hq'
    exact h.disjoint M M' q (hmem M q hq) (hmem M' q hq')
  · simpa using h.bound

/-- A removal that names the wrong list: the walk of its own list stops at a page that was first,
and skips another. -/
theorem remove_from_other {M : PageList} (hp : p ∈ c L) (hM : L ≠ M) :
    (miRemovePageFromList σ M p).heads L = σ.heads L ∧
      ∃ ys, Walk listHead (miRemovePageFromList σ M p).flinkOf (σ.heads L).flink ys ∧
        (ys = [p] ∨ p ∉ ys ∧ ys.length + 1 = (c L).length) := by
  have hvalid := h.valid L p hp
  refine ⟨by rw [heads_miRemovePageFromList hvalid, update_of_ne hM], ?_⟩
  obtain ⟨as, bs, hc⟩ := append_of_mem hp
  have hbp := h.blinkOf_eq hc
  have hw : Walk listHead σ.flinkOf (σ.heads L).flink (as ++ p :: bs) := hc ▸ h.flinks L
  have hblinkMem : σ.blinkOf p ≠ listHead → σ.blinkOf p ∈ c L := by
    rw [hbp, hc]
    rcases eq_nil_or_concat as with rfl | ⟨as, q, rfl⟩ <;> simp
  rw [flinkOf_miRemovePageFromList hvalid fun hne => h.valid L _ (hblinkMem hne)]
  rcases eq_nil_or_concat as with rfl | ⟨as, q, rfl⟩
  · refine ⟨[p], walk_cons.2 ⟨(walk_cons.1 hw).1, h.ne_listHead hvalid, walk_nil.2 ?_⟩, Or.inl rfl⟩
    rw [update_self]
  · refine ⟨as ++ [q] ++ bs, ?_, Or.inr ⟨?_, ?_⟩⟩
    · have herase := hw.erase (v := listHead)
      have hq : q ≠ listHead := fun e => hw.2 (by simp [e])
      rw [← hbp] at herase
      simpa [hbp, hq] using herase
    · have hnd := hw.nodup
      simp only [nodup_append, nodup_cons] at hnd
      simp only [mem_append, not_or]
      exact ⟨⟨fun ha => hnd.2.2 p (by simp [ha]) p (by simp) rfl,
        fun ha => hnd.2.2 p (by simpa using Or.inr ha) p (by simp) rfl⟩, hnd.2.1.1⟩
    · simp [hc]
      omega

end

end Lists

end XenOS.Mm
