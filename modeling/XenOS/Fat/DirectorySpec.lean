import Mathlib.Order.Interval.Finset.Nat
import XenOS.Fat.Directory

/-! When the directory operations agree with a finite map. The search walks the whole chain, the
others look at its first cluster only, and a directory grows from its first cluster. -/

namespace XenOS.Fat

open FatVolume List Nat DirEntry Except

inductive Chain (fat : ℕ → ℕ) : ℕ → List ℕ → Prop where
  | last {c : ℕ} (hc : ValidCluster c) (hend : fat32EocMin ≤ fat c) : Chain fat c [c]
  | link {c : ℕ} {cs : List ℕ} (hc : ValidCluster c) (h : Chain fat (fat c) cs) : Chain fat c (c :: cs)

variable {v w : FatVolume} {dir c i : ℕ} {cs ds fs : List ℕ} {name m : ShortName} {p q : ℕ × ℕ} {e : DirEntry} {fcb : Fcb}

namespace FatVolume

/-- The entry at a place of the directory. -/
def Shown (v : FatVolume) (cs : List ℕ) (p : ℕ × ℕ) : Prop := p.1 ∈ cs ∧ p.2 < v.entriesPerCluster ∧ (v.slots p.1 p.2).live = true

def EndsOnce (v : FatVolume) : List ℕ → Prop
  | [] => True
  | c :: cs =>
    (∀ i < v.entriesPerCluster, (v.slots c i).isEnd = true →
      (∀ j < v.entriesPerCluster, i < j → (v.slots c j).live = false) ∧ ∀ q, ¬ v.Shown cs q) ∧ v.EndsOnce cs

structure WellFormed (v : FatVolume) (dir : ℕ) (cs : List ℕ) : Prop where
  chain : Chain v.fat dir cs
  nodup : cs.Nodup
  room : 2 ≤ v.entriesPerCluster
  ends : v.EndsOnce cs
  distinct : ∀ p q, v.Shown cs p → v.Shown cs q → namesMatch (v.slots p.1 p.2).name (v.slots q.1 q.2).name = true → p = q

def IsData (v : FatVolume) (c : ℕ) : Prop := 2 ≤ c ∧ c < v.clusterCount + 2

def freeClusters (v : FatVolume) : List ℕ := (range' 2 (min 0x0FFFFFF0 100000 - 2)).filter fun c => v.fat c == 0

/-- The new entry is added and nothing else; where the directory grew, its chain is kept and the rest of the new cluster is free. -/
structure Adds (v w : FatVolume) (dir : ℕ) (cs : List ℕ) (name : ShortName) (isDirectory : Bool) (fcb : Fcb) : Prop where
  found : ∀ m, w.fatFindFile dir m = if namesMatch name m then some (.ok fcb) else v.fatFindFile dir m
  chain : ∃ ds, Chain w.fat dir ds ∧ (ds = cs ∨ ∃ c, v.fat c = 0 ∧ v.IsData c ∧ ds = cs ++ [c] ∧
    ∀ i < v.entriesPerCluster, 0 < i → (w.slots c i).isFree = true)
  own : isDirectory = true → v.fat fcb.firstCluster = 0 ∧ v.IsData fcb.firstCluster

/-- The first cluster has a free entry, or is the whole directory and gets a cluster of the volume
with only free entries behind the first. -/
structure Grows (v : FatVolume) (dir : ℕ) (cs : List ℕ) (isDirectory : Bool) : Prop where
  slot : (∃ i < v.entriesPerCluster, (v.slots dir i).isFree = true) ∨ cs = [dir] ∧ ∀ c ∈ v.freeClusters.head?, v.IsData c ∧
    ∀ i < v.entriesPerCluster, 0 < i → (v.slots c i).isFree = true
  own : isDirectory = true → if ∃ i < v.entriesPerCluster, (v.slots dir i).isFree = true then ∀ c ∈ v.freeClusters.head?, v.IsData c
    else ∀ c ∈ v.freeClusters.tail.head?, v.IsData c

def Updates (v : FatVolume) (dir : ℕ) (p : ℕ × ℕ) : Prop :=
  ∀ fcb : Fcb, fcb.fileName = (v.slots p.1 p.2).name →
    v.fatUpdateDirectoryEntry fcb dir = .ok (v.setSlot p.1 p.2 (v.updated fcb (v.slots p.1 p.2)))

def without (v : FatVolume) (fs : List ℕ) (p : ℕ × ℕ) : FatVolume :=
  ({ v with fat := fun c => if c ∈ fs then 0 else v.fat c } : FatVolume).setSlot p.1 p.2 (deleted (v.slots p.1 p.2))

structure Removes (v : FatVolume) (dir : ℕ) (fs : List ℕ) (p : ℕ × ℕ) (name : ShortName) (fcb : Fcb) : Prop where
  done : v.fatDeleteFile dir name fcb = .ok (v.without fs p)
  found : ∀ m, (v.without fs p).fatFindFile dir m = if namesMatch name m then some (.error .objectNameNotFound) else v.fatFindFile dir m

/-- A file's clusters, apart from those of its directory. -/
def OwnChain (v : FatVolume) (first : ℕ) (fs cs : List ℕ) : Prop :=
  (first < 2 ∧ fs = [] ∨ 2 ≤ first ∧ Chain v.fat first fs ∧ fs.Nodup) ∧ ∀ c ∈ fs, c ∉ cs

/-- Some entry other than `.` and `..` is live. -/
def Occupied (v : FatVolume) (ds : List ℕ) : Prop :=
  ∃ q, v.Shown ds q ∧ (v.slots q.1 q.2).name ≠ dotName 1 ∧ (v.slots q.1 q.2).name ≠ dotName 2

end FatVolume

/-! ### Chains -/

namespace Chain

variable {fat fat' : ℕ → ℕ}

section
variable (h : Chain fat c cs)
include h

theorem valid : ValidCluster c := by
  cases h with
  | last hc _ => exact hc
  | link hc _ => exact hc

theorem unique (h' : Chain fat c ds) : cs = ds := by
  induction h generalizing ds with
  | last hc hend =>
    cases h' with
    | last => rfl
    | link _ h => exact absurd h.valid.2 (not_lt.2 (le_of_succ_le hend))
  | link hc h ih =>
    cases h' with
    | last _ hend => exact absurd h.valid.2 (not_lt.2 (le_of_succ_le hend))
    | link _ h' => rw [ih h']

theorem head_mem : c ∈ cs := by
  cases h <;> exact mem_cons_self

theorem facts : ∀ b ∈ cs, ValidCluster b ∧ fat b ≠ 0 := by
  induction h with
  | last hc hend =>
    intro b hb
    obtain rfl := mem_singleton.1 hb
    exact ⟨hc, fun h => by rw [h] at hend; exact absurd hend (by decide)⟩
  | @link c cs hc h ih =>
    intro b hb
    rcases mem_cons.1 hb with rfl | hb
    · exact ⟨hc, fun h0 => absurd h.valid.1 (by rw [h0]; decide)⟩
    · exact ih b hb

theorem congr (hsame : ∀ b ∈ cs, fat b = fat' b) : Chain fat' c cs := by
  induction h with
  | last hc hend => exact Chain.last hc (by rw [← hsame _ mem_cons_self]; exact hend)
  | @link c cs hc h ih =>
    have hrest := ih fun b hb => hsame b (mem_cons_of_mem c hb)
    rw [hsame c mem_cons_self] at hrest
    exact Chain.link hc hrest

theorem length_le (hnodup : cs.Nodup) : cs.length ≤ fat32Bad := by
  have hsub : cs.toFinset ⊆ Finset.range fat32Bad := fun b hb => Finset.mem_range.2 (h.facts b (mem_toFinset.1 hb)).1.2
  have hcard := Finset.card_le_card hsub
  rwa [toFinset_card_of_nodup hnodup, Finset.card_range] at hcard

end

end Chain

/-! ### Search -/

variable {a b : ShortName}

theorem namesMatch_iff : namesMatch a b = true ↔ ∀ i, toUpper (a i) = toUpper (b i) := by simp [namesMatch]

theorem namesMatch_symm (h : namesMatch a b = true) : namesMatch b a = true :=
  namesMatch_iff.2 fun i => (namesMatch_iff.1 h i).symm

theorem namesMatch_trans {d : ShortName} (h : namesMatch a b = true) (h' : namesMatch b d = true) :
    namesMatch a d = true :=
  namesMatch_iff.2 fun i => (namesMatch_iff.1 h i).trans (namesMatch_iff.1 h' i)

theorem scan_spec (accept : DirEntry → Bool) (entry : ℕ → DirEntry) (i n : ℕ) :
    (∃ j, scan accept entry i n = .found j ∧ i ≤ j ∧ j < i + n ∧ (entry j).isEnd = false ∧ accept (entry j) = true ∧
        ∀ k, i ≤ k → k < j → (entry k).isEnd = false ∧ accept (entry k) = false) ∨
      (scan accept entry i n = .through ∧ ∀ k, i ≤ k → k < i + n → (entry k).isEnd = false ∧ accept (entry k) = false) ∨
      ∃ j, scan accept entry i n = .ended ∧ i ≤ j ∧ j < i + n ∧ (entry j).isEnd = true ∧
        ∀ k, i ≤ k → k < j → (entry k).isEnd = false ∧ accept (entry k) = false := by
  induction n generalizing i with
  | zero => exact Or.inr (Or.inl ⟨rfl, fun k hlow hhigh => by omega⟩)
  | succ n ih =>
    by_cases hend : (entry i).isEnd = true
    · exact Or.inr (Or.inr ⟨i, by rw [scan, if_pos hend], le_refl i, by omega, hend, fun k hlow hhigh => by omega⟩)
    · have hnot : (entry i).isEnd = false := by simpa using hend
      by_cases haccept : accept (entry i) = true
      · exact Or.inl ⟨i, by rw [scan, if_neg hend, if_pos haccept], le_refl i, by omega, hnot, haccept, fun k hlow hhigh => by omega⟩
      · have hskip : scan accept entry i (n + 1) = scan accept entry (i + 1) n := by rw [scan, if_neg hend, if_neg haccept]
        have hfirst : ∀ k, i ≤ k → ¬ i + 1 ≤ k → (entry k).isEnd = false ∧ accept (entry k) = false := fun k hlow hhigh => by
          obtain rfl : k = i := by omega
          exact ⟨hnot, by simpa using haccept⟩
        rw [hskip]
        rcases ih (i + 1) with ⟨j, hfound, hlow, hhigh, hj, hacc, hbefore⟩ | ⟨hthrough, hall⟩ | ⟨j, hended, hlow, hhigh, hj, hbefore⟩
        · exact Or.inl ⟨j, hfound, by omega, by omega, hj, hacc, fun k hk hkj =>
            if h : i + 1 ≤ k then hbefore k h hkj else hfirst k hk h⟩
        · exact Or.inr (Or.inl ⟨hthrough, fun k hk hkn => if h : i + 1 ≤ k then hall k h (by omega) else hfirst k hk h⟩)
        · exact Or.inr (Or.inr ⟨j, hended, by omega, by omega, hj, fun k hk hkj =>
            if h : i + 1 ≤ k then hbefore k h hkj else hfirst k hk h⟩)

theorem live_iff : e.live = true ↔ e.isEnd = false ∧ e.shows = true := by simp [live]

theorem findAccepts_iff : findAccepts name e = true ↔ e.shows = true ∧ namesMatch e.name name = true := by simp [findAccepts]

theorem shown_cons : v.Shown (c :: cs) q ↔ (q.1 = c ∧ q.2 < v.entriesPerCluster ∧ (v.slots q.1 q.2).live = true) ∨ v.Shown cs q := by
  unfold Shown
  rw [mem_cons, or_and_right]

theorem scan_cluster (name : ShortName) (hends : v.EndsOnce (c :: cs)) :
    (∃ j, scan (findAccepts name) (v.slots c) 0 v.entriesPerCluster = .found j ∧ v.Shown (c :: cs) (c, j) ∧
        namesMatch (v.slots c j).name name = true) ∨
      (scan (findAccepts name) (v.slots c) 0 v.entriesPerCluster = .through ∧
        ∀ q, v.Shown (c :: cs) q → namesMatch (v.slots q.1 q.2).name name = true → v.Shown cs q) ∨
      (scan (findAccepts name) (v.slots c) 0 v.entriesPerCluster = .ended ∧
        ∀ q, v.Shown (c :: cs) q → namesMatch (v.slots q.1 q.2).name name = true → False) := by
  have hpassed : ∀ q : ℕ × ℕ, q.1 = c → (v.slots q.1 q.2).live = true → namesMatch (v.slots q.1 q.2).name name = true →
      findAccepts name (v.slots c q.2) = false → False := by
    rintro ⟨b, k⟩ rfl hlive hmatch hskip
    rw [findAccepts_iff.2 ⟨(live_iff.1 hlive).2, hmatch⟩] at hskip
    cases hskip
  rcases scan_spec (findAccepts name) (v.slots c) 0 v.entriesPerCluster with
    ⟨j, hfound, -, hhigh, hj, haccept, -⟩ | ⟨hthrough, hall⟩ | ⟨j, hended, -, hhigh, hj, hbefore⟩
  · obtain ⟨hshows, hmatch⟩ := findAccepts_iff.1 haccept
    exact Or.inl ⟨j, hfound, ⟨mem_cons_self, by omega, live_iff.2 ⟨hj, hshows⟩⟩, hmatch⟩
  · refine Or.inr (Or.inl ⟨hthrough, fun q hq hmatch => ?_⟩)
    rcases shown_cons.1 hq with ⟨hc, hlt, hlive⟩ | hq
    · exact (hpassed q hc hlive hmatch (hall q.2 (zero_le _) (by omega)).2).elim
    · exact hq
  · refine Or.inr (Or.inr ⟨hended, fun q hq hmatch => ?_⟩)
    obtain ⟨hlater, hrest⟩ := hends.1 j (by omega) hj
    rcases shown_cons.1 hq with ⟨hc, hlt, hlive⟩ | hq
    · rcases lt_trichotomy q.2 j with hlow | heq | hhigh
      · exact hpassed q hc hlive hmatch (hbefore q.2 (zero_le _) hlow).2
      · rw [hc, heq, live, hj] at hlive
        cases hlive
      · rw [hc, hlater q.2 hlt hhigh] at hlive
        cases hlive
    · exact hrest q hq

theorem findFrom_of_shown (hchain : Chain v.fat c cs) (hends : v.EndsOnce cs) {fuel : ℕ} (hfuel : cs.length ≤ fuel) (hp : v.Shown cs p)
    (hmatch : namesMatch (v.slots p.1 p.2).name name = true)
    (hunique : ∀ q, v.Shown cs q → namesMatch (v.slots q.1 q.2).name name = true → q = p) : v.findFrom name fuel c = some (.ok p) := by
  induction hchain generalizing fuel with
  | @last c hc hend =>
    obtain ⟨fuel, rfl⟩ : ∃ k, fuel = k + 1 := ⟨fuel - 1, by simp at hfuel; omega⟩
    rw [findFrom, if_neg (not_not.2 hc)]
    rcases scan_cluster name hends with ⟨j, hscan, hj, hjm⟩ | ⟨-, hall⟩ | ⟨-, hall⟩
    · rw [hscan, ← hunique (c, j) hj hjm]
    · exact absurd (hall p hp hmatch).1 not_mem_nil
    · exact (hall p hp hmatch).elim
  | @link c cs hc h ih =>
    obtain ⟨fuel, rfl⟩ : ∃ k, fuel = k + 1 := ⟨fuel - 1, by simp at hfuel; omega⟩
    rw [findFrom, if_neg (not_not.2 hc)]
    rcases scan_cluster name hends with ⟨j, hscan, hj, hjm⟩ | ⟨hscan, hall⟩ | ⟨-, hall⟩
    · rw [hscan, ← hunique (c, j) hj hjm]
    · rw [hscan]
      simp only [if_pos h.valid]
      exact ih hends.2 (by simpa using hfuel) (hall p hp hmatch) fun q hq => hunique q (shown_cons.2 (Or.inr hq))
    · exact (hall p hp hmatch).elim

theorem findFrom_of_none (hchain : Chain v.fat c cs) (hends : v.EndsOnce cs) {fuel : ℕ} (hfuel : cs.length ≤ fuel)
    (hnone : ∀ q, v.Shown cs q → namesMatch (v.slots q.1 q.2).name name = true → False) :
    v.findFrom name fuel c = some (.error .objectNameNotFound) := by
  induction hchain generalizing fuel with
  | @last c hc hend =>
    obtain ⟨fuel, rfl⟩ : ∃ k, fuel = k + 1 := ⟨fuel - 1, by simp at hfuel; omega⟩
    have hstop : ¬ ValidCluster (v.fat c) := fun h => absurd h.2 (not_lt.2 (le_of_succ_le hend))
    rw [findFrom, if_neg (not_not.2 hc)]
    rcases scan_cluster name hends with ⟨j, -, hj, hjm⟩ | ⟨hscan, -⟩ | ⟨hscan, -⟩
    · exact (hnone _ hj hjm).elim
    · rw [hscan]
      simp only [if_neg hstop]
    · rw [hscan]
  | @link c cs hc h ih =>
    obtain ⟨fuel, rfl⟩ : ∃ k, fuel = k + 1 := ⟨fuel - 1, by simp at hfuel; omega⟩
    rw [findFrom, if_neg (not_not.2 hc)]
    rcases scan_cluster name hends with ⟨j, -, hj, hjm⟩ | ⟨hscan, -⟩ | ⟨hscan, -⟩
    · exact (hnone _ hj hjm).elim
    · rw [hscan]
      simp only [if_pos h.valid]
      exact ih hends.2 (by simpa using hfuel) fun q hq => hnone q (shown_cons.2 (Or.inr hq))
    · rw [hscan]

structure Searched (v : FatVolume) (dir : ℕ) (cs : List ℕ) : Prop where
  chain : Chain v.fat dir cs
  nodup : cs.Nodup
  ends : v.EndsOnce cs

theorem FatVolume.WellFormed.searched (h : v.WellFormed dir cs) : Searched v dir cs := ⟨h.chain, h.nodup, h.ends⟩

theorem Searched.fatFindFile (h : Searched v dir cs) (name : ShortName) :
    v.fatFindFile dir name = (v.findFrom name fat32Bad dir).map fun found => found.map (v.fcbAt dir) := by
  have hdir : dir ≠ 0 := fun h0 => absurd h.chain.valid.1 (by rw [h0]; decide)
  rw [FatVolume.fatFindFile]
  simp only [if_neg hdir]

theorem Searched.find_shown (h : Searched v dir cs) (hp : v.Shown cs p) (hmatch : namesMatch (v.slots p.1 p.2).name name = true)
    (hunique : ∀ q, v.Shown cs q → namesMatch (v.slots q.1 q.2).name name = true → q = p) :
    v.fatFindFile dir name = some (.ok (v.fcbAt dir p)) := by
  rw [h.fatFindFile, findFrom_of_shown h.chain h.ends (h.chain.length_le h.nodup) hp hmatch hunique]
  rfl

theorem Searched.find_none (h : Searched v dir cs) (hnone : ∀ q, v.Shown cs q → namesMatch (v.slots q.1 q.2).name name = true → False) :
    v.fatFindFile dir name = some (.error .objectNameNotFound) := by
  rw [h.fatFindFile, findFrom_of_none h.chain h.ends (h.chain.length_le h.nodup) hnone]
  rfl

/-- Directories with the same live entries, apart from one place, are searched with the same result for other names. -/
theorem find_congr (hv : v.WellFormed dir cs) (hw : Searched w dir ds) (p : ℕ × ℕ)
    (hother : ∀ q, q ≠ p → (w.Shown ds q ↔ v.Shown cs q) ∧ (v.Shown cs q → w.slots q.1 q.2 = v.slots q.1 q.2))
    (hold : v.Shown cs p → namesMatch (v.slots p.1 p.2).name m = false) (hnew : w.Shown ds p → namesMatch (w.slots p.1 p.2).name m = false) :
    w.fatFindFile dir m = v.fatFindFile dir m := by
  have hback : ∀ q, w.Shown ds q → namesMatch (w.slots q.1 q.2).name m = true →
      q ≠ p ∧ v.Shown cs q ∧ namesMatch (v.slots q.1 q.2).name m = true := by
    intro q hq hmatch
    have hne : q ≠ p := by
      rintro rfl
      rw [hnew hq] at hmatch
      cases hmatch
    have hshown := ((hother q hne).1).1 hq
    rw [(hother q hne).2 hshown] at hmatch
    exact ⟨hne, hshown, hmatch⟩
  by_cases hsome : ∃ q, v.Shown cs q ∧ namesMatch (v.slots q.1 q.2).name m = true
  · obtain ⟨q, hq, hmatch⟩ := hsome
    have hunique : ∀ r, v.Shown cs r → namesMatch (v.slots r.1 r.2).name m = true → r = q := fun r hr hrm =>
      hv.distinct r q hr hq (namesMatch_trans hrm (namesMatch_symm hmatch))
    have hne : q ≠ p := by
      rintro rfl
      rw [hold hq] at hmatch
      cases hmatch
    have hsame := (hother q hne).2 hq
    rw [hv.searched.find_shown hq hmatch hunique, hw.find_shown ((hother q hne).1.2 hq) (by rw [hsame]; exact hmatch) fun r hr hrm =>
      hunique r (hback r hr hrm).2.1 (hback r hr hrm).2.2]
    unfold fcbAt
    rw [hsame]
  · rw [hv.searched.find_none fun q hq hmatch => hsome ⟨q, hq, hmatch⟩,
      hw.find_none fun q hq hmatch => hsome ⟨q, (hback q hq hmatch).2⟩]

theorem slots_setSlot_self : (v.setSlot c i e).slots c i = e := by simp [setSlot]

theorem slots_setSlot_of_ne (h : q ≠ (c, i)) : (v.setSlot c i e).slots q.1 q.2 = v.slots q.1 q.2 := by
  unfold setSlot
  by_cases hc : q.1 = c
  · have hi : q.2 ≠ i := fun hi => h (Prod.ext hc hi)
    simp only [hc, Function.update_self, Function.update_of_ne hi]
  · simp only [Function.update_of_ne hc]

/-! ### Creation -/

theorem isFree_of_isEnd (h : e.isEnd = true) : e.isFree = true := by
  rw [isFree]
  exact Bool.or_eq_true_iff.2 (Or.inl h)

theorem not_live_of_isFree (h : e.isFree = true) : e.live = false := by
  rcases Bool.or_eq_true_iff.1 h with h | h
  · have hend : e.isEnd = true := h
    simp [live, hend]
  · have hdeleted : e.name 0 = 0xE5 := by simpa using h
    simp [live, shows, hdeleted]

theorem mem_freeClusters (h : c ∈ v.freeClusters) : v.fat c = 0 ∧ ValidCluster c := by
  obtain ⟨hrange, hzero⟩ := mem_filter.1 h
  obtain ⟨k, hk, rfl⟩ := mem_range'.1 hrange
  exact ⟨by simpa using hzero, by unfold ValidCluster fat32Bad; omega⟩

theorem nodup_freeClusters (v : FatVolume) : v.freeClusters.Nodup := (nodup_range' 1).filter _

theorem freeClusters_setFat {value : ℕ} (hvalue : value ≠ 0) :
    (v.setFat c value).freeClusters = v.freeClusters.filter (· ≠ c) := by
  unfold freeClusters setFat
  rw [filter_filter]
  refine filter_congr fun b _ => ?_
  by_cases hb : b = c
  · simp [hb, hvalue]
  · simp [hb]

theorem fatAllocateCluster_ok (h : v.fatAllocateCluster = .ok (c, w)) : v.freeClusters.head? = some c ∧ w = v.setFat c fat32EocMin := by
  unfold fatAllocateCluster at h
  split at h
  · cases h
  · rename_i b hb
    obtain ⟨rfl, rfl⟩ := Prod.mk.inj (ok.inj h)
    exact ⟨head?_filter.trans hb, rfl⟩

def grown (v : FatVolume) (dir c : ℕ) : FatVolume := ((v.setFat c fat32EocMin).setFat dir c).setFat c fat32EocMin

theorem findFreeDirectorySlot_ok (h : v.findFreeDirectorySlot dir = .ok (p, w)) :
    (∃ i < v.entriesPerCluster, p = (dir, i) ∧ (v.slots dir i).isFree = true ∧ (∀ j < i, ¬ (v.slots dir j).isFree = true) ∧ w = v) ∨
      (¬ (∃ i < v.entriesPerCluster, (v.slots dir i).isFree = true) ∧ ∃ c, p = (c, 0) ∧ v.freeClusters.head? = some c ∧ w = grown v dir c) := by
  unfold findFreeDirectorySlot at h
  split_ifs at h
  split at h
  · rename_i i hi
    obtain ⟨rfl, rfl⟩ := Prod.mk.inj (ok.inj h)
    obtain ⟨hfree, hlt, hbefore⟩ := find?_range_eq_some.1 hi
    exact Or.inl ⟨i, by simpa using hlt, rfl, hfree, fun j hj => by simpa using hbefore j hj, rfl⟩
  · rename_i hi
    refine Or.inr ⟨fun ⟨i, hlt, hfree⟩ => find?_eq_none.1 hi i (mem_range.2 hlt) hfree, ?_⟩
    unfold fatExtendChain at h
    cases halloc : v.fatAllocateCluster with
    | error s => rw [halloc] at h; cases h
    | ok r =>
      obtain ⟨c, u⟩ := r
      rw [halloc] at h
      obtain ⟨hhead, rfl⟩ := fatAllocateCluster_ok halloc
      obtain ⟨rfl, rfl⟩ := Prod.mk.inj (ok.inj h)
      exact ⟨c, rfl, hhead, rfl⟩

structure Created (base w : FatVolume) (dir : ℕ) (p : ℕ × ℕ) (name : ShortName) (isDirectory : Bool) (fcb : Fcb) : Prop where
  fat : ∀ b, base.fat b ≠ 0 → w.fat b = base.fat b
  entries : w.entriesPerCluster = base.entriesPerCluster
  root : w.rootDirectoryCluster = base.rootDirectoryCluster
  other : ∀ q, base.fat q.1 ≠ 0 → q ≠ p → w.slots q.1 q.2 = base.slots q.1 q.2
  name : (w.slots p.1 p.2).name = name
  attr : (w.slots p.1 p.2).attr = if isDirectory then attrDirectory else attrArchive
  control : fcb = w.fcbAt dir p
  first : isDirectory = true → base.freeClusters.head? = some fcb.firstCluster

variable {isDirectory : Bool}

theorem fatCreateFile_ok (h : v.fatCreateFile dir name isDirectory = .ok (fcb, w)) :
    ∃ p base, v.findFreeDirectorySlot dir = .ok (p, base) ∧ Created base w dir p name isDirectory fcb := by
  unfold fatCreateFile at h
  cases hslot : v.findFreeDirectorySlot dir with
  | error s => rw [hslot] at h; cases h
  | ok r =>
    obtain ⟨p, base⟩ := r
    rw [hslot] at h
    refine ⟨p, base, rfl, ?_⟩
    cases isDirectory with
    | false =>
      obtain ⟨rfl, rfl⟩ := Prod.mk.inj (ok.inj h)
      refine ⟨fun b _ => rfl, rfl, rfl, fun q _ hq => slots_setSlot_of_ne hq, ?_, ?_, ?_, fun h => absurd h Bool.false_ne_true⟩
      · rw [slots_setSlot_self]
        rfl
      · rw [slots_setSlot_self]
        rfl
      · unfold fcbAt
        rw [slots_setSlot_self]
        rfl
    | true =>
      replace h : (base.fatAllocateCluster >>= fun r => ok ((⟨r.1, 0, attrDirectory, name, dir, 1, false⟩ : Fcb),
          (r.2.initializeDirectory r.1 dir).setSlot p.1 p.2
            ((r.2.initializeDirectory r.1 dir).createDirectoryEntryStruct name r.1 0 true))) = .ok (fcb, w) := h
      cases halloc : base.fatAllocateCluster with
      | error s =>
        rw [halloc] at h
        cases h
      | ok r =>
        obtain ⟨a, u⟩ := r
        obtain ⟨hhead, rfl⟩ := fatAllocateCluster_ok halloc
        have hfree := (mem_freeClusters (mem_of_mem_head? hhead)).1
        rw [halloc] at h
        obtain ⟨rfl, rfl⟩ := Prod.mk.inj (ok.inj h)
        have hne : ∀ b, base.fat b ≠ 0 → b ≠ a := fun b hb hba => hb (by rw [hba]; exact hfree)
        refine ⟨fun b hb => Function.update_of_ne (hne b hb) _ _, rfl, rfl, fun q hq hqp => ?_, ?_, ?_, ?_, fun _ => hhead⟩
        · rw [slots_setSlot_of_ne hqp]
          exact congrFun (Function.update_of_ne (hne q.1 hq) _ _) q.2
        · rw [slots_setSlot_self]
          rfl
        · rw [slots_setSlot_self]
          rfl
        · unfold fcbAt
          rw [slots_setSlot_self]
          rfl

theorem Created.live {base : FatVolume} (h : Created base w dir p name isDirectory fcb) (hfirst : name 0 ≠ 0)
    (hdeleted : name 0 ≠ 0xE5) : (w.slots p.1 p.2).live = true := by
  have hname := h.name
  have hattr := h.attr
  cases isDirectory <;>
    simp [live, isEnd, shows, hname, hattr, hfirst, hdeleted, attrDirectory, attrArchive, attrLongName, attrVolumeId]

theorem endsOnce_mono (hentries : w.entriesPerCluster = v.entriesPerCluster)
    (hend : ∀ q : ℕ × ℕ, q.1 ∈ cs → (w.slots q.1 q.2).isEnd = true → (v.slots q.1 q.2).isEnd = true)
    (hlive : ∀ q : ℕ × ℕ, q.1 ∈ cs → (w.slots q.1 q.2).live = true → (v.slots q.1 q.2).live = true) (h : v.EndsOnce cs) : w.EndsOnce cs := by
  induction cs with
  | nil => trivial
  | cons c cs ih =>
    refine ⟨fun i hi hi' => ?_, ih (fun q hq => hend q (mem_cons_of_mem c hq)) (fun q hq => hlive q (mem_cons_of_mem c hq)) h.2⟩
    rw [hentries] at hi
    obtain ⟨hlater, hrest⟩ := h.1 i hi (hend (c, i) mem_cons_self hi')
    refine ⟨fun j hj hij => ?_, fun q hq => hrest q ⟨hq.1, hentries ▸ hq.2.1, hlive q (mem_cons_of_mem c hq.1) hq.2.2⟩⟩
    rw [hentries] at hj
    by_contra hshown
    have hold := hlive (c, j) mem_cons_self (by simpa using hshown)
    rw [hlater j hj hij] at hold
    cases hold

theorem not_match_of_find (hv : v.WellFormed dir cs) (hnew : v.fatFindFile dir name = some (.error .objectNameNotFound)) :
    ∀ q, v.Shown cs q → namesMatch (v.slots q.1 q.2).name name = true → False := by
  intro q hq hmatch
  rw [hv.searched.find_shown hq hmatch fun r hr hrm => hv.distinct r q hr hq (namesMatch_trans hrm (namesMatch_symm hmatch))] at hnew
  cases hnew

theorem found_of_added (hv : v.WellFormed dir cs) (hw : Searched w dir ds) (hp : w.Shown ds p) (hname : (w.slots p.1 p.2).name = name)
    (hnew : v.fatFindFile dir name = some (.error .objectNameNotFound)) (hold : ¬ v.Shown cs p)
    (hother : ∀ q, q ≠ p → (w.Shown ds q ↔ v.Shown cs q) ∧ (v.Shown cs q → w.slots q.1 q.2 = v.slots q.1 q.2)) (m : ShortName) :
    w.fatFindFile dir m = if namesMatch name m then some (.ok (w.fcbAt dir p)) else v.fatFindFile dir m := by
  by_cases hmatch : namesMatch name m = true
  · rw [if_pos hmatch]
    refine hw.find_shown hp (by rw [hname]; exact hmatch) fun q hq hqm => ?_
    by_contra hne
    have hshown := (hother q hne).1.1 hq
    rw [(hother q hne).2 hshown] at hqm
    exact not_match_of_find hv hnew q hshown (namesMatch_trans hqm (namesMatch_symm hmatch))
  · rw [if_neg hmatch]
    exact find_congr hv hw p hother (fun h => absurd h hold) fun _ => by rw [hname]; simpa using hmatch

theorem freeClusters_grown (hhead : v.freeClusters.head? = some c) (hdir : v.fat dir ≠ 0) :
    (grown v dir c).freeClusters = v.freeClusters.tail := by
  obtain ⟨rest, hlist⟩ : ∃ rest, v.freeClusters = c :: rest := ⟨v.freeClusters.tail, (cons_head?_tail hhead).symm⟩
  have hc := mem_freeClusters (mem_of_mem_head? hhead)
  have hnodup := nodup_freeClusters v
  rw [hlist] at hnodup
  have hrest : ∀ b ∈ rest, b ≠ c ∧ b ≠ dir := by
    intro b hb
    have hfree := (mem_freeClusters (show b ∈ v.freeClusters by rw [hlist]; exact mem_cons_of_mem c hb)).1
    exact ⟨fun h => (nodup_cons.1 hnodup).1 (h ▸ hb), fun h => hdir (h ▸ hfree)⟩
  have hzero : c ≠ 0 := fun h0 => absurd hc.2.1 (by rw [h0]; decide)
  unfold grown
  rw [freeClusters_setFat (by decide), freeClusters_setFat hzero, freeClusters_setFat (by decide), hlist, tail_cons]
  have hone : (c :: rest).filter (· ≠ c) = rest := by
    rw [filter_cons_of_neg (by simp)]
    exact filter_eq_self.2 fun b hb => by simpa using (hrest b hb).1
  have htwo : rest.filter (· ≠ dir) = rest := filter_eq_self.2 fun b hb => by simpa using (hrest b hb).2
  rw [hone, htwo]
  exact filter_eq_self.2 fun b hb => by simpa using (hrest b hb).1

theorem found_of_slot (hv : v.WellFormed dir cs)
    (hcreated : Created v w dir (dir, i) name isDirectory fcb) (hfirst : name 0 ≠ 0)
    (hdeleted : name 0 ≠ 0xE5) (hnew : v.fatFindFile dir name = some (.error .objectNameNotFound))
    (hi : i < v.entriesPerCluster) (hfree : (v.slots dir i).isFree = true)
    (hbefore : ∀ j < i, ¬ (v.slots dir j).isFree = true) :
    Chain w.fat dir cs ∧ ∀ m, w.fatFindFile dir m = if namesMatch name m then some (.ok fcb) else v.fatFindFile dir m := by
  have hused := hv.chain.facts
  have hchain : Chain w.fat dir cs := hv.chain.congr fun b hb => (hcreated.fat b (hused b hb).2).symm
  have hlive := hcreated.live hfirst hdeleted
  have hsame : ∀ q : ℕ × ℕ, q.1 ∈ cs → q ≠ (dir, i) → w.slots q.1 q.2 = v.slots q.1 q.2 := fun q hq => hcreated.other q (hused q.1 hq).2
  have hends : w.EndsOnce cs := by
    obtain ⟨rest, hcs⟩ : ∃ rest, cs = dir :: rest := by
      cases hv.chain with
      | last => exact ⟨[], rfl⟩
      | link => exact ⟨_, rfl⟩
    have hnodup := hv.nodup
    have hold := hv.ends
    rw [hcs] at hnodup hold hsame ⊢
    have hrest : ∀ q : ℕ × ℕ, q.1 ∈ rest → w.slots q.1 q.2 = v.slots q.1 q.2 := fun q hq =>
      hsame q (mem_cons_of_mem dir hq) fun h => (nodup_cons.1 hnodup).1 (by rw [h] at hq; exact hq)
    have hends : w.EndsOnce rest :=
      endsOnce_mono hcreated.entries (fun q hq h => by rwa [hrest q hq] at h) (fun q hq h => by rwa [hrest q hq] at h) hold.2
    refine ⟨fun k hk hend => ?_, hends⟩
    rw [hcreated.entries] at hk
    have hne : k ≠ i := by
      rintro rfl
      rw [(live_iff.1 hlive).1] at hend
      cases hend
    have hkept : ∀ j, j ≠ i → w.slots dir j = v.slots dir j := fun j hj =>
      hsame (dir, j) mem_cons_self fun h => hj (congrArg Prod.snd h)
    rw [hkept k hne] at hend
    have hlow : i < k := lt_of_le_of_ne (not_lt.1 fun hlt => hbefore k hlt (isFree_of_isEnd hend)) hne.symm
    obtain ⟨hlater, hnone⟩ := hold.1 k hk hend
    refine ⟨fun j hj hkj => ?_, fun q hq => hnone q ⟨hq.1, hcreated.entries ▸ hq.2.1, by rw [← hrest q hq.1]; exact hq.2.2⟩⟩
    rw [hcreated.entries] at hj
    rw [hkept j (by omega)]
    exact hlater j hj hkj
  refine ⟨hchain, fun m => ?_⟩
  have hold : ¬ v.Shown cs (dir, i) := fun h => by
    have hshown : (v.slots dir i).live = true := h.2.2
    rw [not_live_of_isFree hfree] at hshown
    cases hshown
  rw [hcreated.control]
  refine found_of_added hv ⟨hchain, hv.nodup, hends⟩ ⟨hv.chain.head_mem, by rw [hcreated.entries]; exact hi, hlive⟩ hcreated.name hnew hold
    (fun q hq => ?_) m
  unfold Shown
  rw [hcreated.entries]
  exact ⟨and_congr_right fun hmem => by rw [hsame q hmem hq], fun h => hsame q h.1 hq⟩

theorem found_of_growth (hv : v.WellFormed dir [dir])
    (hcreated : Created (grown v dir c) w dir (c, 0) name isDirectory fcb)
    (hchain : Chain w.fat dir [dir, c]) (hzero : v.fat c = 0) (hfirst : name 0 ≠ 0)
    (hdeleted : name 0 ≠ 0xE5) (hnew : v.fatFindFile dir name = some (.error .objectNameNotFound))
    (hfull : ¬ ∃ i < v.entriesPerCluster, (v.slots dir i).isFree = true)
    (hbase : ∀ b ∈ [dir, c], (grown v dir c).fat b ≠ 0)
    (hrest : ∀ i < v.entriesPerCluster, 0 < i → (w.slots c i).isFree = true) (m : ShortName) :
    w.fatFindFile dir m = if namesMatch name m then some (.ok fcb) else v.fatFindFile dir m := by
  have hne : dir ≠ c := fun h => (hv.chain.facts dir mem_cons_self).2 (h ▸ hzero)
  have hlive := hcreated.live hfirst hdeleted
  have hentries : w.entriesPerCluster = v.entriesPerCluster := hcreated.entries
  have hdir : ∀ j, w.slots dir j = v.slots dir j := fun j =>
    hcreated.other (dir, j) (hbase dir mem_cons_self) fun h => hne (congrArg Prod.fst h)
  have hends : w.EndsOnce [dir, c] := by
    refine ⟨fun k hk hend => ?_, fun k hk hend => ⟨fun j hj hkj => ?_, fun q hq => absurd hq.1 not_mem_nil⟩, trivial⟩
    · rw [hdir k] at hend
      exact absurd ⟨k, hentries ▸ hk, isFree_of_isEnd hend⟩ hfull
    · exact not_live_of_isFree (hrest j (hentries ▸ hj) (by omega))
  have hpos : 0 < v.entriesPerCluster := Nat.lt_of_lt_of_le Nat.two_pos hv.room
  rw [hcreated.control]
  refine found_of_added hv ⟨hchain, by simpa using hne, hends⟩ ⟨by simp, by rw [hentries]; exact hpos, hlive⟩ hcreated.name hnew
    (fun h => hne (mem_singleton.1 h.1).symm) (fun q hq => ?_) m
  have hnot : w.Shown [dir, c] q → q.1 = dir := by
    rintro ⟨hmem, hlt, hshown⟩
    rcases mem_cons.1 hmem with h | h
    · exact h
    · have hc := mem_singleton.1 h
      have hpos : 0 < q.2 := Nat.pos_of_ne_zero fun h0 => hq (Prod.ext hc h0)
      rw [hc, not_live_of_isFree (hrest q.2 (hentries ▸ hlt) hpos)] at hshown
      cases hshown
  refine ⟨⟨fun h => ?_, fun h => ?_⟩, fun h => ?_⟩
  · have hq1 := hnot h
    refine ⟨by rw [hq1]; exact mem_cons_self, hentries ▸ h.2.1, ?_⟩
    rw [hq1, ← hdir, ← hq1]
    exact h.2.2
  · have hq1 := mem_singleton.1 h.1
    refine ⟨by rw [hq1]; exact mem_cons_self, hentries.symm ▸ h.2.1, ?_⟩
    rw [hq1, hdir, ← hq1]
    exact h.2.2
  · rw [mem_singleton.1 h.1, hdir]

/-- A creation adds exactly its entry if and only if there is room in the first cluster, or the directory grows from one clean cluster. -/
theorem adds_iff (hv : v.WellFormed dir cs) (hfirst : name 0 ≠ 0) (hdeleted : name 0 ≠ 0xE5)
    (hnew : v.fatFindFile dir name = some (.error .objectNameNotFound))
    (hok : v.fatCreateFile dir name isDirectory = .ok (fcb, w)) :
    Adds v w dir cs name isDirectory fcb ↔ Grows v dir cs isDirectory := by
  have hdir := hv.chain.facts dir hv.chain.head_mem
  obtain ⟨p, base, hslot, hcreated⟩ := fatCreateFile_ok hok
  rcases findFreeDirectorySlot_ok hslot with ⟨i, hi, rfl, hfree, hbefore, rfl⟩ | ⟨hfull, c, rfl, hhead, rfl⟩
  · obtain ⟨hchain, hfound⟩ := found_of_slot hv hcreated hfirst hdeleted hnew hi hfree hbefore
    have hroom : ∃ i < base.entriesPerCluster, (base.slots dir i).isFree = true := ⟨i, hi, hfree⟩
    constructor
    · intro h
      refine ⟨Or.inl hroom, fun hisdir => ?_⟩
      rw [if_pos hroom, hcreated.first hisdir]
      intro c hc
      obtain rfl := Option.some.inj hc
      exact (h.own hisdir).2
    · intro h
      refine ⟨hfound, ⟨cs, hchain, Or.inl rfl⟩, fun hisdir => ?_⟩
      have hown := h.own hisdir
      rw [if_pos hroom] at hown
      exact ⟨(mem_freeClusters (mem_of_mem_head? (hcreated.first hisdir))).1, hown _ (hcreated.first hisdir)⟩
  · obtain ⟨hzero, hvalid⟩ := mem_freeClusters (mem_of_mem_head? hhead)
    have hne : dir ≠ c := fun h => hdir.2 (h ▸ hzero)
    have hfatdir : (grown v dir c).fat dir = c := by simp [grown, setFat, hne]
    have hfatc : (grown v dir c).fat c = fat32EocMin := by simp [grown, setFat]
    have hbase : ∀ b ∈ [dir, c], (grown v dir c).fat b ≠ 0 := by
      intro b hb
      rcases mem_cons.1 hb with rfl | hb
      · rw [hfatdir]
        exact fun h0 => absurd hvalid.1 (by rw [h0]; decide)
      · rw [mem_singleton.1 hb, hfatc]
        decide
    have hchain : Chain w.fat dir [dir, c] := by
      have hwc : w.fat c = fat32EocMin := (hcreated.fat c (hbase c (by simp))).trans hfatc
      refine Chain.link hdir.1 ?_
      rw [hcreated.fat dir (hbase dir mem_cons_self), hfatdir]
      exact Chain.last hvalid (Nat.le_of_eq hwc.symm)
    have hslots : ∀ j, 0 < j → w.slots c j = v.slots c j := fun j hj =>
      hcreated.other (c, j) (hbase c (by simp)) fun h => absurd (congrArg Prod.snd h) (Nat.pos_iff_ne_zero.1 hj)
    have hown : isDirectory = true → v.freeClusters.tail.head? = some fcb.firstCluster := fun hisdir => by
      rw [← freeClusters_grown hhead hdir.2]
      exact hcreated.first hisdir
    constructor
    · intro h
      obtain ⟨ds, hds, hcases⟩ := h.chain
      obtain rfl := hds.unique hchain
      rcases hcases with heq | ⟨b, -, hdata, heq, hrest⟩
      · exact absurd hzero (hv.chain.facts c (by rw [← heq]; simp)).2
      · obtain ⟨hcs, hb⟩ := append_inj' (show [dir] ++ [c] = cs ++ [b] from heq) rfl
        obtain rfl := (cons.inj hb).1
        refine ⟨Or.inr ⟨hcs.symm, fun b hb => ?_⟩, fun hisdir => ?_⟩
        · obtain rfl := Option.some.inj (hhead.symm.trans hb)
          exact ⟨hdata, fun j hj hpos => by rw [← hslots j hpos]; exact hrest j hj hpos⟩
        · rw [if_neg hfull, hown hisdir]
          intro b hb
          obtain rfl := Option.some.inj hb
          exact (h.own hisdir).2
    · intro h
      obtain ⟨rfl, hclean⟩ := h.slot.resolve_left hfull
      obtain ⟨hdata, hstale⟩ := hclean c hhead
      have hrest : ∀ i < v.entriesPerCluster, 0 < i → (w.slots c i).isFree = true := fun j hj hpos => by
        rw [hslots j hpos]
        exact hstale j hj hpos
      refine ⟨found_of_growth hv hcreated hchain hzero hfirst hdeleted hnew hfull hbase hrest,
        ⟨[dir, c], hchain, Or.inr ⟨c, hzero, hdata, rfl, hrest⟩⟩, fun hisdir => ?_⟩
      have hcluster := h.own hisdir
      rw [if_neg hfull] at hcluster
      exact ⟨(mem_freeClusters (mem_of_mem_tail (mem_of_mem_head? (hown hisdir)))).1, hcluster _ (hown hisdir)⟩

/-! ### Update and deletion -/

theorem FatVolume.WellFormed.scan_found (hv : v.WellFormed dir cs) {f : DirEntry → Bool} (hp : v.Shown cs (dir, i))
    (haccept : f (v.slots dir i) = true) (hbefore : ∀ j < i, ¬ f (v.slots dir j) = true) :
    scan f (v.slots dir) 0 v.entriesPerCluster = .found i := by
  have hlive : (v.slots dir i).live = true := hp.2.2
  have hin : i < v.entriesPerCluster := hp.2.1
  have hlater : ∀ j < v.entriesPerCluster, (v.slots dir j).isEnd = true → j < i → False := by
    intro j hj hend hji
    have hends := hv.ends
    cases hv.chain with
    | last | link => exact absurd hlive (by rw [(hends.1 j hj hend).1 i hin hji]; exact Bool.false_ne_true)
  rcases scan_spec f (v.slots dir) 0 v.entriesPerCluster with
    ⟨j, hfound, -, hhigh, -, hacc, hprev⟩ | ⟨-, hall⟩ | ⟨j, -, -, hhigh, hend, hprev⟩
  · rcases lt_trichotomy j i with hlt | rfl | hlt
    · exact absurd hacc (hbefore j hlt)
    · exact hfound
    · rw [(hprev i (zero_le _) hlt).2] at haccept
      cases haccept
  · rw [(hall i (zero_le _) (by omega)).2] at haccept
    cases haccept
  · rcases lt_trichotomy j i with hlt | rfl | hlt
    · exact (hlater j (by omega) hend hlt).elim
    · rw [(live_iff.1 hlive).1] at hend
      cases hend
    · rw [(hprev i (zero_le _) hlt).2] at haccept
      cases haccept

theorem updateAccepts_iff : updateAccepts name e = true ↔ e.name 0 ≠ 0xE5 ∧ e.attr ≠ attrLongName ∧ ∀ i, e.name i = name i := by
  simp [updateAccepts, and_assoc]

theorem shows_iff : e.shows = true ↔ e.name 0 ≠ 0xE5 ∧ e.attr ≠ attrLongName ∧ e.attr &&& attrVolumeId = 0 := by
  simp [shows, and_assoc]

/-- An update finds its entry if and only if that is in the first cluster, behind no volume label of the same name. -/
theorem updates_iff (hv : v.WellFormed dir cs) (hp : v.Shown cs p) :
    Updates v dir p ↔ p.1 = dir ∧ ∀ j < p.2, ¬ updateAccepts (v.slots p.1 p.2).name (v.slots dir j) = true := by
  have hvalid := hv.chain.valid
  have htwo : ¬ dir < 2 := not_lt.2 hvalid.1
  constructor
  · intro h
    have hscan := scan_spec (updateAccepts (v.slots p.1 p.2).name) (v.slots dir) 0 v.entriesPerCluster
    rcases hscan with ⟨j, hfound, -, -, -, -, hprev⟩ | ⟨hthrough, -⟩ | ⟨j, hended, -⟩
    · have hat : p = (dir, j) := by
        by_contra hne
        have hdone := h ⟨(v.slots dir j).firstCluster + 1, 0, 0, (v.slots p.1 p.2).name, 0, 1, false⟩ rfl
        rw [fatUpdateDirectoryEntry, if_neg htwo, if_neg (not_not.2 hvalid)] at hdone
        simp only [hfound] at hdone
        have hslot := congrArg (fun u : FatVolume => (u.slots dir j).firstCluster) (ok.inj hdone)
        simp only [slots_setSlot_self] at hslot
        rw [show ((v.setSlot p.1 p.2 _).slots dir j) = v.slots dir j from slots_setSlot_of_ne (q := (dir, j)) (Ne.symm hne)] at hslot
        exact absurd hslot (succ_ne_self _)
      rw [hat] at hprev ⊢
      exact ⟨rfl, fun k hk => by simpa using (hprev k (zero_le _) hk).2⟩
    · have hdone := h ⟨0, 0, 0, (v.slots p.1 p.2).name, 0, 1, false⟩ rfl
      rw [fatUpdateDirectoryEntry, if_neg htwo, if_neg (not_not.2 hvalid)] at hdone
      simp only [hthrough] at hdone
      cases hdone
    · have hdone := h ⟨0, 0, 0, (v.slots p.1 p.2).name, 0, 1, false⟩ rfl
      rw [fatUpdateDirectoryEntry, if_neg htwo, if_neg (not_not.2 hvalid)] at hdone
      simp only [hended] at hdone
      cases hdone
  · obtain ⟨b, k⟩ := p
    rintro ⟨rfl, hbefore⟩ fcb hname
    obtain ⟨hdeleted, hlong, -⟩ := shows_iff.1 (live_iff.1 hp.2.2).2
    have hfound := hv.scan_found (f := updateAccepts fcb.fileName) hp
      (by rw [hname]; exact updateAccepts_iff.2 ⟨hdeleted, hlong, fun _ => rfl⟩) (by rw [hname]; exact hbefore)
    rw [fatUpdateDirectoryEntry, if_neg htwo, if_neg (not_not.2 hvalid)]
    simp only [hfound]

theorem fatFreeChain_eq (n : ℕ) (hchain : Chain v.fat c fs) (hnodup : fs.Nodup) :
    fatFreeChain n c v = if fs.length ≤ n then .ok { v with fat := fun b => if b ∈ fs then 0 else v.fat b } else .error .fileCorruptError := by
  induction fs generalizing n c v with
  | nil => cases hchain
  | cons b fs ih =>
    cases n with
    | zero => rfl
    | succ n =>
      cases hchain with
      | last hc hend =>
        have hstop : ¬ ValidCluster (v.fat b) := fun h => absurd h.2 (not_lt.2 (le_of_succ_le hend))
        rw [fatFreeChain, if_neg (not_not.2 hc), if_pos hstop, if_pos (by simp)]
        refine congrArg ok (congrArg (fun f => ({ v with fat := f } : FatVolume)) ?_)
        funext x
        by_cases hx : x = b <;> simp [hx]
      | link hc h =>
        obtain ⟨hnot, hrest⟩ := nodup_cons.1 hnodup
        have hchain : Chain (v.setFat b 0).fat (v.fat b) fs :=
          h.congr fun x hx => (Function.update_of_ne (fun heq => hnot (by rw [← heq]; exact hx)) _ _).symm
        rw [fatFreeChain, if_neg (not_not.2 hc), if_neg (not_not.2 h.valid), ih n hchain hrest]
        simp only [length_cons, succ_le_succ_iff]
        by_cases hle : fs.length ≤ n
        · rw [if_pos hle, if_pos hle]
          refine congrArg ok (congrArg (fun f => ({ v with fat := f } : FatVolume)) ?_)
          funext x
          by_cases hx : x = b
          · simp [hx, setFat]
          · simp [hx, setFat]
        · rw [if_neg hle, if_neg hle]

theorem find_shown_of_found (hv : v.WellFormed dir cs) (hp : v.Shown cs p) (hmatch : namesMatch (v.slots p.1 p.2).name name = true) :
    v.fatFindFile dir name = some (.ok (v.fcbAt dir p)) :=
  hv.searched.find_shown hp hmatch fun q hq hqm => hv.distinct q p hq hp (namesMatch_trans hqm (namesMatch_symm hmatch))

theorem not_live_deleted : (deleted e).live = false := by simp [live, shows, deleted]

theorem not_isEnd_deleted : (deleted e).isEnd = false := by
  rw [isEnd, deleted]
  simp

theorem find_without (hv : v.WellFormed dir cs) (hp : v.Shown cs p) (hmatch : namesMatch (v.slots p.1 p.2).name name = true)
    (hapart : ∀ c ∈ fs, c ∉ cs) (m : ShortName) :
    (v.without fs p).fatFindFile dir m = if namesMatch name m then some (.error .objectNameNotFound) else v.fatFindFile dir m := by
  have hself : (v.without fs p).slots p.1 p.2 = deleted (v.slots p.1 p.2) := slots_setSlot_self
  have hother : ∀ q, q ≠ p → (v.without fs p).slots q.1 q.2 = v.slots q.1 q.2 := fun q hq => slots_setSlot_of_ne hq
  have hgone : ¬ (v.without fs p).Shown cs p := fun h => by
    have hlive := h.2.2
    rw [hself, not_live_deleted] at hlive
    cases hlive
  have hends : (v.without fs p).EndsOnce cs := by
    refine endsOnce_mono (show (v.without fs p).entriesPerCluster = v.entriesPerCluster from rfl) (fun q _ hq => ?_) (fun q _ hq => ?_) hv.ends
    · by_cases hqp : q = p
      · rw [hqp, hself, not_isEnd_deleted] at hq
        cases hq
      · rwa [hother q hqp] at hq
    · by_cases hqp : q = p
      · rw [hqp, hself, not_live_deleted] at hq
        cases hq
      · rwa [hother q hqp] at hq
  have hchain : Chain (v.without fs p).fat dir cs := hv.chain.congr fun b hb => (if_neg fun hfs => hapart b hfs hb).symm
  have hsearched : Searched (v.without fs p) dir cs := ⟨hchain, hv.nodup, hends⟩
  have hshown : ∀ q, q ≠ p → ((v.without fs p).Shown cs q ↔ v.Shown cs q) := fun q hq => by
    unfold Shown
    rw [hother q hq]
    rfl
  by_cases hm : namesMatch name m = true
  · rw [if_pos hm]
    refine hsearched.find_none fun q hq hqm => ?_
    by_cases hqp : q = p
    · exact hgone (hqp ▸ hq)
    · rw [hother q hqp] at hqm
      have hqn := namesMatch_trans (namesMatch_trans hqm (namesMatch_symm hm)) (namesMatch_symm hmatch)
      exact hqp (hv.distinct q p ((hshown q hqp).1 hq) hp hqn)
  · rw [if_neg hm]
    refine find_congr hv hsearched p (fun q hq => ⟨hshown q hq, fun _ => hother q hq⟩) (fun _ => ?_) fun h => absurd h hgone
    by_contra hpm
    exact hm (namesMatch_trans (namesMatch_symm hmatch) (by simpa using hpm))

/-- A found file is removed exactly if the name is spelled as in the entry, the entry is in the
first cluster, and the file has at most 10000 clusters. -/
theorem removes_iff (hv : v.WellFormed dir cs) (hp : v.Shown cs p) (hmatch : namesMatch (v.slots p.1 p.2).name name = true)
    (hfound : v.fatFindFile dir name = some (.ok fcb)) (hfile : fcb.isDirectory = false) (hown : v.OwnChain fcb.firstCluster fs cs) :
    Removes v dir fs p name fcb ↔ (∀ i, (v.slots p.1 p.2).name i = name i) ∧ p.1 = dir ∧ fs.length ≤ 10000 := by
  obtain rfl := ok.inj (Option.some.inj (hfound.symm.trans (find_shown_of_found hv hp hmatch)))
  obtain ⟨hfs, hapart⟩ := hown
  have hfree : (if 2 ≤ (v.fcbAt dir p).firstCluster then fatFreeChain 10000 (v.fcbAt dir p).firstCluster v else .ok v) =
      if fs.length ≤ 10000 then .ok { v with fat := fun b => if b ∈ fs then 0 else v.fat b } else .error .fileCorruptError := by
    rcases hfs with ⟨hlt, rfl⟩ | ⟨hle, hchain, hnodup⟩
    · rw [if_neg (Nat.not_le.2 hlt), if_pos (by simp)]
      simp only [not_mem_nil, if_false]
    · rw [if_pos hle]
      exact fatFreeChain_eq 10000 hchain hnodup
  have hdelete : v.fatDeleteFile dir name (v.fcbAt dir p) =
      (if fs.length ≤ 10000 then .ok { v with fat := fun b => if b ∈ fs then 0 else v.fat b } else .error .fileCorruptError) >>=
        fun u : FatVolume => u.markDirectoryEntryDeleted dir name := by
    rw [← hfree, fatDeleteFile, if_neg (by simp [fcbAt]), if_neg (by simp [hfile])]
  have hvalid := hv.chain.valid
  constructor
  · intro h
    have hdone := h.done
    rw [hdelete] at hdone
    by_cases hle : fs.length ≤ 10000
    · rw [if_pos hle] at hdone
      replace hdone : FatVolume.markDirectoryEntryDeleted { v with fat := fun b => if b ∈ fs then 0 else v.fat b } dir name =
        .ok (v.without fs p) := hdone
      rw [markDirectoryEntryDeleted, if_neg (not_not.2 hvalid)] at hdone
      rcases scan_spec (deleteAccepts name) (v.slots dir) 0 v.entriesPerCluster with
        ⟨j, -, -, hhigh, hend, haccept, -⟩ | ⟨hthrough, -⟩ | ⟨j, hended, -⟩
      · obtain ⟨hshows, hname⟩ : (v.slots dir j).shows = true ∧ ∀ i, (v.slots dir j).name i = name i := by
          simpa [deleteAccepts] using haccept
        have hshown : v.Shown cs (dir, j) := ⟨hv.chain.head_mem, by omega, live_iff.2 ⟨hend, hshows⟩⟩
        have hsame : (v.slots dir j).name = name := funext hname
        have heq := hv.distinct (dir, j) p hshown hp (by
          rw [hsame]
          exact namesMatch_symm hmatch)
        rw [← heq]
        exact ⟨hname, rfl, hle⟩
      · simp only [hthrough] at hdone
        cases hdone
      · simp only [hended] at hdone
        cases hdone
    · rw [if_neg hle] at hdone
      cases hdone
  · obtain ⟨b, k⟩ := p
    rintro ⟨hname, rfl, hle⟩
    refine ⟨?_, find_without hv hp hmatch hapart⟩
    rw [hdelete, if_pos hle]
    change FatVolume.markDirectoryEntryDeleted { v with fat := fun b => if b ∈ fs then 0 else v.fat b } b name = _
    rw [markDirectoryEntryDeleted, if_neg (not_not.2 hvalid)]
    have haccept : deleteAccepts name (v.slots b k) = true := by
      rw [deleteAccepts, (live_iff.1 hp.2.2).2]
      simpa using hname
    have hscan := hv.scan_found hp haccept fun j hj hj' => by
      obtain ⟨hshows, hjname⟩ : (v.slots b j).shows = true ∧ ∀ i, (v.slots b j).name i = name i := by simpa [deleteAccepts] using hj'
      have hsame : (v.slots b j).name = (v.slots b k).name := funext fun i => (hjname i).trans (hname i).symm
      by_cases hend : (v.slots b j).isEnd = true
      · have hzero : (v.slots b k).isEnd = true := by
          rw [isEnd, ← hsame]
          exact hend
        rw [(live_iff.1 hp.2.2).1] at hzero
        cases hzero
      · have hshown : v.Shown cs (b, j) := ⟨hv.chain.head_mem, Nat.lt_trans hj hp.2.1, live_iff.2 ⟨by simpa using hend, hshows⟩⟩
        have heq := hv.distinct (b, j) (b, k) hshown hp (by rw [hsame]; exact namesMatch_iff.2 fun _ => rfl)
        exact absurd (congrArg Prod.snd heq) (Nat.ne_of_lt hj)
    simp only [hscan]
    rfl

theorem isDirectoryEmpty_iff (hchain : Chain v.fat c ds) (hends : v.EndsOnce ds) :
    v.isDirectoryEmpty c = false ↔ ∃ j < v.entriesPerCluster, (v.slots c j).live = true ∧ (v.slots c j).dotLike = false := by
  have hfirst : ∀ j k, j < v.entriesPerCluster → (v.slots c j).isEnd = true → k < v.entriesPerCluster → j < k → (v.slots c k).live = false := by
    intro j k hj hend hk hjk
    cases hchain with
    | last | link => exact (hends.1 j hj hend).1 k hk hjk
  unfold isDirectoryEmpty
  rw [decide_eq_true hchain.valid, Bool.true_and]
  rcases scan_spec (fun e => e.shows && !e.dotLike) (v.slots c) 0 v.entriesPerCluster with
    ⟨j, hfound, -, hhigh, hend, haccept, -⟩ | ⟨hthrough, hall⟩ | ⟨j, hended, -, hhigh, hend, hprev⟩
  · simp only [hfound, true_iff]
    obtain ⟨hshows, hdot⟩ : (v.slots c j).shows = true ∧ (v.slots c j).dotLike = false := by simpa using haccept
    exact ⟨j, by omega, live_iff.2 ⟨hend, hshows⟩, hdot⟩
  · simp only [hthrough, Bool.true_eq_false, false_iff]
    rintro ⟨j, hj, hlive, hdot⟩
    have hskip := (hall j (zero_le _) (by omega)).2
    rw [(live_iff.1 hlive).2, hdot] at hskip
    cases hskip
  · simp only [hended, Bool.true_eq_false, false_iff]
    rintro ⟨k, hk, hlive, hdot⟩
    rcases lt_trichotomy k j with hlt | rfl | hlt
    · have hskip := (hprev k (zero_le _) hlt).2
      rw [(live_iff.1 hlive).2, hdot] at hskip
      cases hskip
    · rw [(live_iff.1 hlive).1] at hend
      cases hend
    · rw [hfirst j k (by omega) hend hk hlt] at hlive
      cases hlive

theorem fatFreeChain_ne (n : ℕ) : fatFreeChain n c v ≠ .error .directoryNotEmpty := by
  induction n generalizing c v with
  | zero => exact fun h => by cases h
  | succ n ih =>
    rw [fatFreeChain]
    split_ifs
    · exact ih
    · exact fun h => by cases h
    · exact fun h => by cases h

theorem markDirectoryEntryDeleted_ne : v.markDirectoryEntryDeleted c name ≠ .error .directoryNotEmpty := by
  unfold markDirectoryEntryDeleted
  split_ifs
  · split <;> exact fun h => by cases h
  · exact fun h => by cases h

theorem refuses_iff (hone : fcb.referenceCount ≤ 1) (hdir : fcb.isDirectory = true) (hroot : fcb.isRootDirectory = false)
    (hchain : Chain v.fat fcb.firstCluster ds) (hends : v.EndsOnce ds) :
    (v.fatDeleteFile dir name fcb = .error .directoryNotEmpty ↔ v.Occupied ds) ↔
      (v.Occupied ds → ∃ j < v.entriesPerCluster, (v.slots fcb.firstCluster j).live = true ∧ (v.slots fcb.firstCluster j).dotLike = false) := by
  have hcode : v.fatDeleteFile dir name fcb = .error .directoryNotEmpty ↔ v.isDirectoryEmpty fcb.firstCluster = false := by
    rw [fatDeleteFile, if_neg (not_lt.2 hone)]
    by_cases hempty : v.isDirectoryEmpty fcb.firstCluster = true
    · rw [if_neg (by simp [hempty])]
      refine iff_of_false (fun h => ?_) (by simp [hempty])
      cases hfree : (if 2 ≤ fcb.firstCluster then fatFreeChain 10000 fcb.firstCluster v else .ok v) with
      | error s =>
        rw [hfree] at h
        rw [error.inj h] at hfree
        split_ifs at hfree
        exact fatFreeChain_ne 10000 hfree
      | ok u =>
        rw [hfree] at h
        exact markDirectoryEntryDeleted_ne h
    · rw [if_pos ⟨hdir, by simp [hroot], hempty⟩]
      exact iff_of_true rfl (by simpa using hempty)
  rw [hcode, isDirectoryEmpty_iff hchain hends]
  refine ⟨fun h => h.2, fun h => ⟨?_, h⟩⟩
  rintro ⟨j, hj, hlive, hdot⟩
  refine ⟨(fcb.firstCluster, j), ⟨hchain.head_mem, hj, hlive⟩, fun heq => ?_, fun heq => ?_⟩
  · have hdots : (v.slots fcb.firstCluster j).dotLike = true := by
      rw [dotLike, show (v.slots fcb.firstCluster j).name = dotName 1 from heq]
      decide
    rw [hdot] at hdots
    cases hdots
  · have hdots : (v.slots fcb.firstCluster j).dotLike = true := by
      rw [dotLike, show (v.slots fcb.firstCluster j).name = dotName 2 from heq]
      decide
    rw [hdot] at hdots
    cases hdots

/-- When each operation on a directory does to it what it does to a finite map. -/
theorem directory_exact (hv : v.WellFormed dir cs) :
    (∀ name isDirectory fcb w, name 0 ≠ 0 → name 0 ≠ 0xE5 → v.fatFindFile dir name = some (.error .objectNameNotFound) →
      v.fatCreateFile dir name isDirectory = .ok (fcb, w) → (Adds v w dir cs name isDirectory fcb ↔ Grows v dir cs isDirectory)) ∧
    (∀ p, v.Shown cs p →
      (Updates v dir p ↔ p.1 = dir ∧ ∀ j < p.2, ¬ updateAccepts (v.slots p.1 p.2).name (v.slots dir j) = true)) ∧
    (∀ name fcb p fs, v.Shown cs p → namesMatch (v.slots p.1 p.2).name name = true → v.fatFindFile dir name = some (.ok fcb) →
      fcb.isDirectory = false → v.OwnChain fcb.firstCluster fs cs →
      (Removes v dir fs p name fcb ↔ (∀ i, (v.slots p.1 p.2).name i = name i) ∧ p.1 = dir ∧ fs.length ≤ 10000)) ∧
    ∀ name fcb ds, fcb.referenceCount ≤ 1 → fcb.isDirectory = true → fcb.isRootDirectory = false → Chain v.fat fcb.firstCluster ds →
      v.EndsOnce ds → ((v.fatDeleteFile dir name fcb = .error .directoryNotEmpty ↔ v.Occupied ds) ↔
        (v.Occupied ds → ∃ j < v.entriesPerCluster, (v.slots fcb.firstCluster j).live = true ∧ (v.slots fcb.firstCluster j).dotLike = false)) :=
  ⟨fun _ _ _ _ hfirst hdeleted hnew hok => adds_iff hv hfirst hdeleted hnew hok, fun _ hp => updates_iff hv hp,
    fun _ _ _ _ hp hmatch hfound hfile hown => removes_iff hv hp hmatch hfound hfile hown,
    fun _ _ _ hone hisdir hroot hchain hends => refuses_iff hone hisdir hroot hchain hends⟩

def letterA : ShortName := fun i => if i.val = 0 then 65 else 32

def letter (c : UInt8) : ShortName := fun i => if i.val = 0 then c else 32

/-- A root directory of two clusters with the file A of two clusters, the directory B with a file, the
empty directory C and the file D. -/
def smallTree : FatVolume where
  rootDirectoryCluster := 2
  clusterCount := 100
  entriesPerCluster := 16
  fat c := if c = 2 then 3 else if c = 4 then 5 else if c ∈ [3, 5, 6, 7] then fat32EocMin else 0
  slots
    | 2, 0 => ⟨letterA, attrArchive, (0, 0), 4, 600⟩
    | 2, 1 => ⟨letter 66, attrDirectory, (0, 0), 6, 0⟩
    | 2, 2 => ⟨letter 67, attrDirectory, (0, 0), 7, 0⟩
    | 2, _ => ⟨fun _ => 0xE5, 0, (0, 0), 0, 0⟩
    | 3, 0 => ⟨letter 68, attrArchive, (0, 0), 0, 0⟩
    | 6, 0 | 7, 0 => ⟨dotName 1, attrDirectory, (0, 0), 0, 0⟩
    | 6, 1 | 7, 1 => ⟨dotName 2, attrDirectory, (0, 0), 2, 0⟩
    | 6, 2 => ⟨letter 69, attrArchive, (0, 0), 0, 0⟩
    | _, _ => unused
  now := 0

theorem smallTree_wellFormed : smallTree.WellFormed 2 [2, 3] := by
  have hlive : ∀ p, smallTree.Shown [2, 3] p → p ∈ [(2, 0), (2, 1), (2, 2), (3, 0)] := by
    rintro ⟨c, i⟩ ⟨hmem, hi, hlive⟩
    have hall : ∀ c ∈ [2, 3], ∀ i < 16, (smallTree.slots c i).live = true → (c, i) ∈ [(2, 0), (2, 1), (2, 2), (3, 0)] := by
      decide
    exact hall c hmem i hi hlive
  refine ⟨.link (by decide) (.last (by decide) (by decide)), by decide, by decide, ⟨fun i hi hend => ?_, fun i hi hend =>
    ⟨fun j hj hij => ?_, fun _ hq => absurd hq.1 not_mem_nil⟩, trivial⟩, fun p q hp hq hmatch => ?_⟩
  · exact absurd hend ((by decide : ∀ i < 16, ¬ (smallTree.slots 2 i).isEnd = true) i hi)
  · exact (by decide : ∀ i < 16, (smallTree.slots 3 i).isEnd = true → ∀ j < 16, i < j → (smallTree.slots 3 j).live = false) i hi
      hend j hj hij
  · exact (by decide : ∀ p ∈ [(2, 0), (2, 1), (2, 2), (3, 0)], ∀ q ∈ [(2, 0), (2, 1), (2, 2), (3, 0)],
      namesMatch (smallTree.slots p.1 p.2).name (smallTree.slots q.1 q.2).name = true → p = q) p (hlive p hp) q (hlive q hq) hmatch

/-- A file is added to the directory, A is updated and deleted, B is refused and C is not. -/
theorem directory_smallTree :
    (∃ fcb w, smallTree.fatCreateFile 2 (letter 70) false = .ok (fcb, w) ∧ Adds smallTree w 2 [2, 3] (letter 70) false fcb) ∧
      Updates smallTree 2 (2, 0) ∧ Removes smallTree 2 [4, 5] (2, 0) letterA (smallTree.fcbAt 2 (2, 0)) ∧
      (smallTree.fatDeleteFile 2 (letter 66) (smallTree.fcbAt 2 (2, 1)) = .error .directoryNotEmpty ↔ smallTree.Occupied [6]) ∧
      (smallTree.fatDeleteFile 2 (letter 67) (smallTree.fcbAt 2 (2, 2)) = .error .directoryNotEmpty ↔ smallTree.Occupied [7]) := by
  obtain ⟨hadds, hupdates, hremoves, hempty⟩ := directory_exact smallTree_wellFormed
  have hshown : smallTree.Shown [2, 3] (2, 0) := ⟨by decide, by decide, by decide⟩
  have hends : ∀ c ∈ [6, 7], smallTree.EndsOnce [c] := by
    intro c hc
    refine ⟨fun i hi hend => ⟨fun j hj hij => ?_, fun _ hq => absurd hq.1 not_mem_nil⟩, trivial⟩
    exact (by decide : ∀ c ∈ [6, 7], ∀ i < 16, (smallTree.slots c i).isEnd = true → ∀ j < 16, i < j →
      (smallTree.slots c j).live = false) c hc i hi hend j hj hij
  refine ⟨⟨_, _, rfl, (hadds _ _ _ _ (by decide) (by decide) rfl rfl).2 ⟨.inl ⟨3, by decide, rfl⟩, fun h => absurd h Bool.false_ne_true⟩⟩,
    (hupdates _ hshown).2 ⟨rfl, fun _ hj => absurd hj (not_lt_zero _)⟩,
    (hremoves _ _ _ [4, 5] hshown (by decide) rfl rfl ⟨.inr ⟨by decide, .link (by decide) (.last (by decide) (by decide)), by decide⟩,
      by decide⟩).2 ⟨fun _ => rfl, rfl, by decide⟩,
    (hempty _ _ [6] (by decide) rfl rfl (.last (by decide) (by decide)) (hends 6 (by decide))).2 fun _ =>
      ⟨2, by decide, by decide, by decide⟩,
    (hempty _ _ [7] (by decide) rfl rfl (.last (by decide) (by decide)) (hends 7 (by decide))).2 fun ⟨q, ⟨hmem, hlt, hlive⟩, hdot⟩ => ?_⟩
  obtain ⟨c, i⟩ := q
  obtain rfl := mem_singleton.1 hmem
  have hdots : ∀ i < 16, (smallTree.slots 7 i).live = true → i = 0 ∨ i = 1 := by decide
  obtain rfl | rfl := hdots i hlt hlive
  · exact absurd rfl hdot.1
  · exact absurd rfl hdot.2

def secondCluster : FatVolume :=
  ⟨2, 100, 16, fun c => if c = 2 then 3 else if c = 3 then fat32EocMin else 0,
    fun c i => if c = 2 then ⟨fun _ => 0xE5, 0, (0, 0), 0, 0⟩ else if i = 0 then ⟨letterA, attrArchive, (0, 0), 0, 0⟩ else unused, 0⟩

theorem secondCluster_wellFormed : secondCluster.WellFormed 2 [2, 3] := by
  have hlive : ∀ p, secondCluster.Shown [2, 3] p → p = (3, 0) := by
    rintro ⟨c, i⟩ ⟨hmem, -, hlive⟩
    rcases mem_cons.1 hmem with rfl | hmem
    · cases hlive
    · obtain rfl := mem_singleton.1 hmem
      cases i with
      | zero => rfl
      | succ i => cases hlive
  refine ⟨Chain.link (by decide) (Chain.last (by decide) (by decide)), by decide, by decide, ⟨fun i _ hend => (by cases hend),
    fun i _ hend => ⟨fun j _ hij => ?_, fun _ hq => absurd hq.1 not_mem_nil⟩, trivial⟩, fun p q hp hq _ => ?_⟩
  · cases j with
    | zero => exact absurd hij (not_lt_zero i)
    | succ j => rfl
  · rw [hlive p hp, hlive q hq]

theorem secondCluster_missed : secondCluster.WellFormed 2 [2, 3] ∧
    secondCluster.fatFindFile 2 letterA = some (.ok (secondCluster.fcbAt 2 (3, 0))) ∧ ¬ Updates secondCluster 2 (3, 0) ∧
    secondCluster.fatDeleteFile 2 letterA (secondCluster.fcbAt 2 (3, 0)) = .error .objectNameNotFound := by
  refine ⟨secondCluster_wellFormed, rfl, fun h => ?_, rfl⟩
  have hdone := h (secondCluster.fcbAt 2 (3, 0)) rfl
  have hcode : secondCluster.fatUpdateDirectoryEntry (secondCluster.fcbAt 2 (3, 0)) 2 = .error .objectNameNotFound := rfl
  rw [hcode] at hdone
  cases hdone

end XenOS.Fat
