import Mathlib.Algebra.Order.BigOperators.Group.Finset
import XenOS.Mm.PagefileSlots

/-! Runs of the slot allocator, with the slots that its clients hold. -/

namespace XenOS.Mm

open General List MmpagingFile Nat Function Pagefiles

variable {pf pf' : MmpagingFile} {files files' : List MmpagingFile} {i offset added neededPages : ℕ}

namespace MmpagingFile

def Overflows (pf : MmpagingFile) (neededPages : ℕ) : Prop := pf.Growable ∧ 2 ^ 64 ≤ pf.size + max neededPages (pf.size / 4)

/-- A turn of the extension loop gives this file pages, if it does not panic: it can grow, and its
bitmap is or can be long enough. -/
def TakesPages (pf : MmpagingFile) (neededPages : ℕ) (pool : Bool) : Prop :=
  pf.Growable ∧ (pool = true ∨ (min (pf.size + max neededPages (pf.size / 4)) pf.maximumSize + 63) / 64 ≤ pf.bitmap.length)

theorem takesPages_of_extend {pool : Bool} (hret : pf.extend neededPages pool = some (some (pf', added))) : pf.TakesPages neededPages pool := by
  have hgrow := growable_of_extend hret
  refine ⟨hgrow, ?_⟩
  by_contra hnone
  rw [not_or, not_le] at hnone
  unfold extend at hret
  simp only at hret
  rw [if_neg (by simp [hgrow.1, hgrow.2.1]), if_neg (not_le.2 hgrow.2.2)] at hret
  split_ifs at hret
  · cases hret
  · rw [growBitmap, if_pos hnone.2, if_neg hnone.1] at hret
    cases hret

theorem not_overflows_of_extend {pool : Bool} {out : Option (MmpagingFile × ℕ)} (hret : pf.extend neededPages pool = some out) :
    ¬ pf.Overflows neededPages := by
  rintro ⟨hgrow, hover⟩
  unfold extend at hret
  simp only at hret
  rw [if_neg (by simp [hgrow.1, hgrow.2.1]), if_neg (not_le.2 hgrow.2.2), if_pos hover] at hret
  cases hret

theorem Slots.not_takesPages {taken : Finset ℕ} {pool : Bool} (h : pf.Slots taken) (hmin : mmMinPagefileSize ≤ pf.minimumSize)
    (hret : pf.extend neededPages pool = some none) : ¬ pf.TakesPages neededPages pool := by
  rintro ⟨hgrow, hmemory⟩
  have hsize := h.minimum.2
  have hlt := hgrow.2.2
  unfold mmMinPagefileSize at hmin
  unfold MmpagingFile.extend at hret
  simp only at hret
  rw [if_neg (by simp [hgrow.1, hgrow.2.1]), if_neg (not_le.2 hgrow.2.2)] at hret
  split_ifs at hret with hover hsmall
  · omega
  · unfold growBitmap at hret
    simp only at hret
    split_ifs at hret with hlong hpool
    · cases hret
    · exact hmemory.elim hpool (not_le.2 hlong)
    · cases hret

end MmpagingFile

namespace Pagefiles

theorem extendLoop_first {pool : ℕ → Bool} (hret : extendLoop neededPages pool i files = some (some (files', added))) :
    ∃ l pf r pf', files = l ++ pf :: r ∧ files' = l ++ pf' :: r ∧ (∀ (j : ℕ) (p : MmpagingFile), l[j]? = some p → p.extend neededPages (pool (i + j)) = some none) ∧
      pf.extend neededPages (pool (i + l.length)) = some (some (pf', added)) := by
  induction files generalizing i files' with
  | nil => cases hret
  | cons pf files ih =>
    obtain ⟨turn, hturn, hret⟩ := Option.bind_eq_some_iff.1 hret
    cases turn with
    | some turn =>
      cases hret
      exact ⟨[], pf, files, turn.1, rfl, rfl, fun j p hj => (by cases hj), hturn⟩
    | none =>
      obtain ⟨rest, hrest, hret⟩ := Option.bind_eq_some_iff.1 hret
      cases rest with
      | none => cases hret
      | some rest =>
        cases hret
        obtain ⟨l, p, r, p', rfl, hfiles, hskip, hextend⟩ := ih hrest
        refine ⟨pf :: l, p, r, p', rfl, by rw [hfiles]; rfl, fun j q hj => ?_, ?_⟩
        · cases j with
          | zero =>
            cases hj
            exact hturn
          | succ j =>
            have hq := hskip j q hj
            rwa [add_right_comm, add_assoc] at hq
        · rw [length_cons, ← add_assoc, add_right_comm]
          exact hextend

end Pagefiles

/-- The paging files, and the slots of each that are held. -/
structure PagefileRun where
  pagefiles : Pagefiles
  taken : ℕ → Finset ℕ

inductive SlotCall
  | create (inMemory : Bool) (minimumSize maximumSize : ℕ) (pool : Bool)
  | allocate
  | free (pagefileIndex offset : ℕ)
  | extend (neededPages : ℕ) (pool : ℕ → Bool)

namespace PagefileRun

variable {r : PagefileRun}

def init (ramLimit : ℕ) : PagefileRun := ⟨.init ramLimit, fun _ => ∅⟩

def step (r : PagefileRun) : SlotCall → PagefileRun
  | .create inMemory minimumSize maximumSize pool => { r with pagefiles := (r.pagefiles.ntCreatePagingFile inMemory minimumSize maximumSize pool).2 }
  | .allocate =>
    match r.pagefiles.miAllocatePagefileSpace with
    | none => r
    | some ((i, offset), pagefiles) => ⟨pagefiles, update r.taken i (insert offset (r.taken i))⟩
  | .free i offset => ⟨r.pagefiles.miFreePagefileSpace i offset, update r.taken i ((r.taken i).erase offset)⟩
  | .extend neededPages pool =>
    match r.pagefiles.miTryExtendPagefiles neededPages pool with
    | none => r
    | some (_, pagefiles) => { r with pagefiles }

/-- Only held slots are given back. -/
def Admitted (r : PagefileRun) : SlotCall → Prop
  | .free i offset => offset ∈ r.taken i
  | _ => True

structure FileSound (pf : MmpagingFile) (taken : Finset ℕ) : Prop where
  total : pf.usedSpace + pf.freeSpace = pf.size
  free : pf.freeSpace = (Finset.range pf.size \ taken).card
  found : 0 < pf.freeSpace → pf.miAllocateSlotInPagefile ≠ none

structure Sound (r : PagefileRun) : Prop where
  fresh : ∀ i offset s, r.pagefiles.miAllocatePagefileSpace = some ((i, offset), s) →
    offset ∉ r.taken i ∧ ∃ pf, r.pagefiles.files[i]? = some pf ∧ offset < pf.size
  files : ∀ (i : ℕ) (pf : MmpagingFile), r.pagefiles.files[i]? = some pf → pf.active = true → FileSound pf (r.taken i)
  found : ∀ (i : ℕ) (pf : MmpagingFile), r.pagefiles.files[i]? = some pf → pf.active = true → 0 < pf.freeSpace → r.pagefiles.miAllocatePagefileSpace ≠ none

structure Inv (r : PagefileRun) : Prop where
  length : r.pagefiles.files.length = mmMaxPagingFiles
  number : r.pagefiles.numberOfPagingFiles ≤ mmMaxPagingFiles
  active : ∀ (i : ℕ) (pf : MmpagingFile), r.pagefiles.files[i]? = some pf → (pf.active = true ↔ i < r.pagefiles.numberOfPagingFiles)
  slots : ∀ (i : ℕ) (pf : MmpagingFile), r.pagefiles.files[i]? = some pf → pf.active = true → pf.Slots (r.taken i) ∧ mmMinPagefileSize ≤ pf.minimumSize
  none : ∀ i, r.pagefiles.numberOfPagingFiles ≤ i → r.taken i = ∅

/-- No active file has masked bits inside. -/
def Whole (r : PagefileRun) : Prop := ∀ (i : ℕ) (pf : MmpagingFile), r.pagefiles.files[i]? = some pf → pf.active = true → pf.Whole

theorem inv_init (ramLimit : ℕ) : (init ramLimit).Inv where
  length := length_replicate
  number := zero_le _
  active i pf hget := by
    rw [eq_of_mem_replicate (mem_of_getElem? hget)]
    exact iff_of_false Bool.false_ne_true (not_lt_zero i)
  slots i pf hget hactive := by
    rw [eq_of_mem_replicate (mem_of_getElem? hget)] at hactive
    cases hactive
  none _ _ := rfl

theorem whole_init (ramLimit : ℕ) : (init ramLimit).Whole := by
  intro i pf hget hactive
  rw [eq_of_mem_replicate (mem_of_getElem? hget)] at hactive
  cases hactive

theorem Inv.setFile {taken : Finset ℕ} (h : r.Inv) (hget : r.pagefiles.files[i]? = some pf) (hactive : pf.active = true)
    (hactive' : pf'.active = true) (hslots : pf'.Slots taken) (hmin : pf'.minimumSize = pf.minimumSize) {s : Pagefiles}
    (hfiles : s.files = r.pagefiles.files.set i pf') (hnumber : s.numberOfPagingFiles = r.pagefiles.numberOfPagingFiles) :
    Inv ⟨s, update r.taken i taken⟩ := by
  have hlt : i < r.pagefiles.files.length := (List.getElem?_eq_some_iff.1 hget).1
  have hnum := (h.active i pf hget).1 hactive
  constructor
  case length => exact (congrArg List.length hfiles).trans (List.length_set.trans h.length)
  case number => exact hnumber.le.trans h.number
  case active =>
    intro j p hj
    simp only [hfiles, hnumber] at hj ⊢
    by_cases heq : i = j
    · rw [← heq, List.getElem?_set_self hlt] at hj
      cases hj
      rw [← heq]
      exact iff_of_true hactive' hnum
    · rw [List.getElem?_set_ne heq] at hj
      exact h.active j p hj
  case slots =>
    intro j p hj hact
    simp only [hfiles] at hj ⊢
    by_cases heq : i = j
    · rw [← heq, List.getElem?_set_self hlt] at hj
      cases hj
      rw [← heq, update_self, hmin]
      exact ⟨hslots, (h.slots i pf hget hactive).2⟩
    · rw [List.getElem?_set_ne heq] at hj
      rw [update_of_ne (Ne.symm heq)]
      exact h.slots j p hj hact
  case none =>
    intro j hj
    simp only [hnumber] at hj ⊢
    rw [update_of_ne (by omega)]
    exact h.none j hj

theorem Whole.setFile (h : r.Whole) (hwhole : pf'.Whole) {s : Pagefiles} (hfiles : s.files = r.pagefiles.files.set i pf')
    (taken : ℕ → Finset ℕ) : Whole ⟨s, taken⟩ := by
  intro j p hj hact
  simp only [hfiles] at hj
  by_cases heq : i = j
  · rw [← heq, getElem?_set] at hj
    rw [if_pos rfl] at hj
    split_ifs at hj
    cases hj
    exact hwhole
  · rw [getElem?_set_ne heq] at hj
    exact h j p hj hact

/-! ### The calls -/

theorem Inv.create {inMemory pool : Bool} {minimumSize maximumSize : ℕ} (h : r.Inv) :
    (r.step (.create inMemory minimumSize maximumSize pool)).Inv ∧
      (r.Whole → (r.step (.create inMemory minimumSize maximumSize pool)).Whole) := by
  change Inv { r with pagefiles := (r.pagefiles.ntCreatePagingFile inMemory minimumSize maximumSize pool).2 } ∧
    (r.Whole → Whole { r with pagefiles := (r.pagefiles.ntCreatePagingFile inMemory minimumSize maximumSize pool).2 })
  unfold ntCreatePagingFile
  split_ifs with hmin hmax hmany hpool
  · exact ⟨h, id⟩
  · exact ⟨h, id⟩
  · exact ⟨h, id⟩
  · cases hfind : r.pagefiles.files.findIdx? fun pf => !pf.active with
    | none => exact ⟨h, id⟩
    | some slotIdx =>
      obtain ⟨hlt, hfree, hbefore⟩ := findIdx?_eq_some_iff_getElem.1 hfind
      have hget : r.pagefiles.files[slotIdx]? = some r.pagefiles.files[slotIdx] := getElem?_eq_getElem hlt
      -- the first file that is not active is the one after the active ones
      have hslot : slotIdx = r.pagefiles.numberOfPagingFiles := by
        have hle : r.pagefiles.numberOfPagingFiles ≤ slotIdx := by
          by_contra hin
          have hactive := (h.active slotIdx _ hget).2 (not_le.1 hin)
          rw [hactive] at hfree
          cases hfree
        by_contra hne
        have hlt' : r.pagefiles.numberOfPagingFiles < slotIdx := by omega
        have hget' := getElem?_eq_getElem (lt_trans hlt' hlt)
        have hin := hbefore _ hlt'
        exact lt_irrefl _ ((h.active _ _ hget').1 (by simpa using hin))
      rw [not_lt] at hmin
      rw [not_or, not_lt, not_lt] at hmax
      rw [not_le] at hmany
      have hnumber : fetchAdd r.pagefiles.numberOfPagingFiles 1 = r.pagefiles.numberOfPagingFiles + 1 := by
        refine fetchAdd_of_lt ?_
        unfold mmMaxPagingFiles at hmany
        omega
      have hpos : 0 < minimumSize := lt_of_lt_of_le (by decide) hmin
      have hslots : (MmpagingFile.create minimumSize maximumSize slotIdx inMemory).Slots ∅ := MmpagingFile.slots_create hpos hmax.1 hmax.2
      refine ⟨⟨length_set.trans h.length, ?_, fun j p hj => ?_, fun j p hj hact => ?_, fun j hj => ?_⟩, fun hwhole => ?_⟩
      · simp only [hnumber]
        omega
      · simp only [hnumber] at hj ⊢
        by_cases heq : slotIdx = j
        · rw [← heq, getElem?_set_self hlt] at hj
          cases hj
          exact iff_of_true rfl (by omega)
        · rw [getElem?_set_ne heq] at hj
          exact (h.active j p hj).trans (by omega)
      · by_cases heq : slotIdx = j
        · simp only at hj ⊢
          rw [← heq, getElem?_set_self hlt] at hj
          cases hj
          rw [← heq, h.none slotIdx hslot.ge]
          exact ⟨hslots, hmin⟩
        · simp only at hj ⊢
          rw [getElem?_set_ne heq] at hj
          exact h.slots j p hj hact
      · simp only [hnumber] at hj
        exact h.none j (by omega)
      · exact hwhole.setFile (Or.inr rfl) rfl r.taken
  · cases r.pagefiles.files.findIdx? fun pf => !pf.active <;> exact ⟨h, id⟩

theorem Inv.allocate (h : r.Inv) : (r.step .allocate).Inv ∧ (r.Whole → (r.step .allocate).Whole) := by
  unfold step
  simp only
  cases hret : r.pagefiles.miAllocatePagefileSpace with
  | none => exact ⟨h, id⟩
  | some out =>
    obtain ⟨⟨fileIdx, offset⟩, s⟩ := out
    obtain ⟨-, pf, pf', hget, hactive, halloc, rfl⟩ := allocate_some hret
    obtain ⟨-, -, hslots, hmin, hsize, hact⟩ := (h.slots fileIdx pf hget hactive).1.allocate halloc
    refine ⟨h.setFile hget hactive (hact.trans hactive) hslots hmin rfl rfl, fun hwhole => hwhole.setFile ?_ rfl _⟩
    have hpf := hwhole fileIdx pf hget hactive
    unfold MmpagingFile.Whole at hpf ⊢
    rwa [hmin, hsize]

theorem Inv.free (h : r.Inv) (hmem : offset ∈ r.taken i) :
    (r.step (.free i offset)).Inv ∧ (r.Whole → (r.step (.free i offset)).Whole) := by
  have hi : i < r.pagefiles.numberOfPagingFiles := by
    by_contra hout
    rw [h.none i (not_lt.1 hout)] at hmem
    cases hmem
  have hnumber := h.number
  have hlt : i < r.pagefiles.files.length := by
    rw [h.length]
    omega
  have hget : r.pagefiles.files[i]? = some r.pagefiles.files[i] := getElem?_eq_getElem hlt
  have hactive := (h.active i _ hget).2 hi
  obtain ⟨hslots, hmin⟩ := (h.slots i _ hget hactive).1.freeSlot hactive hmem
  obtain ⟨hsize, -, hact⟩ := freeSlot_sizes r.pagefiles.files[i] offset
  have hfree : (r.pagefiles.miFreePagefileSpace i offset) =
      { r.pagefiles with files := r.pagefiles.files.set i (r.pagefiles.files[i].freeSlot offset) } := by
    rw [miFreePagefileSpace, if_neg (by omega), modify_eq_set_getElem?, hget]
    rfl
  refine ⟨h.setFile hget hactive (hact.trans hactive) hslots hmin (by rw [hfree]) (by rw [hfree]), fun hwhole => hwhole.setFile ?_ (by rw [hfree]) _⟩
  have hpf := hwhole i _ hget hactive
  unfold MmpagingFile.Whole at hpf ⊢
  rwa [hmin, hsize]

def ExtendsWhole (files : List MmpagingFile) (neededPages : ℕ) (pool : ℕ → Bool) : Prop :=
  ∀ l pf rest, files = l ++ pf :: rest →
    (∀ (j : ℕ) (p : MmpagingFile), l[j]? = some p → ¬ p.Overflows neededPages ∧ ¬ p.TakesPages neededPages (pool j)) →
    ¬ pf.Overflows neededPages → pf.TakesPages neededPages (pool l.length) → pf.minimumSize % 64 = 0

theorem Inv.extend {pool : ℕ → Bool} (h : r.Inv) : (r.step (.extend neededPages pool)).Inv ∧
    (ExtendsWhole r.pagefiles.files neededPages pool → r.Whole → (r.step (.extend neededPages pool)).Whole) := by
  unfold step
  simp only
  cases hret : r.pagefiles.miTryExtendPagefiles neededPages pool with
  | none => exact ⟨h, fun _ => id⟩
  | some out =>
    obtain ⟨loop, hloop, hret⟩ := Option.bind_eq_some_iff.1 hret
    cases loop with
    | none =>
      cases hret
      exact ⟨h, fun _ => id⟩
    | some loop =>
      obtain ⟨files', added⟩ := loop
      cases hret
      obtain ⟨l, pf, rest, pf', hfiles, rfl, hskip, hextend⟩ := extendLoop_first hloop
      have hget : r.pagefiles.files[l.length]? = some pf := by
        rw [hfiles, List.getElem?_append_right (Nat.le_refl _), Nat.sub_self, List.getElem?_cons_zero]
      have hset : l ++ pf' :: rest = r.pagefiles.files.set l.length pf' := by
        rw [hfiles, List.set_append_right _ _ (Nat.le_refl _), Nat.sub_self, List.set_cons_zero]
      rw [Nat.zero_add] at hextend
      have hactive := (growable_of_extend hextend).1
      obtain ⟨hslots, hmin, hact⟩ := (h.slots l.length pf hget hactive).1.extend hextend
      have htaken : update r.taken l.length (r.taken l.length) = r.taken := update_eq_self _ _
      have hinv := h.setFile hget hactive (hact.trans hactive) hslots hmin
        (s := { r.pagefiles with
          files := l ++ pf' :: rest
          pagefileSize := fetchAdd r.pagefiles.pagefileSize added
          totalCommitLimit := fetchAdd r.pagefiles.totalCommitLimit added }) hset rfl
      rw [htaken] at hinv
      refine ⟨hinv, fun hcond hwhole => hwhole.setFile (Or.inl ?_) hset r.taken⟩
      rw [hmin]
      refine hcond l pf rest hfiles (fun j p hj => ?_) (not_overflows_of_extend hextend)
        (takesPages_of_extend hextend)
      have hskip := hskip j p hj
      rw [Nat.zero_add] at hskip
      -- a file that is not active does not take pages either
      refine ⟨not_overflows_of_extend hskip, fun htakes => ?_⟩
      have hp : r.pagefiles.files[j]? = some p := by
        rw [hfiles, List.getElem?_append_left (List.getElem?_eq_some_iff.1 hj).1, hj]
      obtain ⟨hpslots, hpmin⟩ := h.slots j p hp htakes.1.1
      exact hpslots.not_takesPages hpmin hskip htakes

/-! ### Runs -/

/-- The condition on a step: an extension grows a file whose minimum size fills its last word. -/
def Covered (r : PagefileRun) : SlotCall → Prop
  | .extend neededPages pool => ExtendsWhole r.pagefiles.files neededPages pool
  | _ => True

theorem Inv.step (h : r.Inv) (call : SlotCall) (hcall : r.Admitted call) :
    (r.step call).Inv ∧ (r.Covered call → r.Whole → (r.step call).Whole) := by
  cases call with
  | create inMemory minimumSize maximumSize pool => exact ⟨h.create.1, fun _ => h.create.2⟩
  | allocate => exact ⟨h.allocate.1, fun _ => h.allocate.2⟩
  | free i offset => exact ⟨(h.free hcall).1, fun _ => (h.free hcall).2⟩
  | extend neededPages pool => exact h.extend

theorem Inv.files_of_whole (h : r.Inv) (hwhole : r.Whole) (hget : r.pagefiles.files[i]? = some pf) (hactive : pf.active = true) :
    FileSound pf (r.taken i) := by
  have hslots := (h.slots i pf hget hactive).1
  have hfree := hslots.free
  refine ⟨by rw [hslots.used]; omega, ?_, hslots.allocate_ne_none (hwhole i pf hget hactive)⟩
  have hsub : r.taken i ⊆ Finset.range pf.size := fun o ho => Finset.mem_range.2 (hslots.inside o ho).1
  rw [Finset.card_sdiff_of_subset hsub, Finset.card_range]
  omega

theorem Inv.sound (h : r.Inv) (hwhole : r.Whole) : r.Sound where
  fresh i offset s hret := by
    obtain ⟨-, pf, pf', hget, hactive, halloc, -⟩ := allocate_some hret
    obtain ⟨hnot, hlt, -⟩ := (h.slots i pf hget hactive).1.allocate halloc
    exact ⟨hnot, pf, hget, hlt⟩
  files i pf hget hactive := h.files_of_whole hwhole hget hactive
  found i pf hget hactive hpos := by
    have hfound := (h.files_of_whole hwhole hget hactive).found hpos
    have hi := (h.active i pf hget).1 hactive
    intro hnone
    unfold miAllocatePagefileSpace at hnone
    rw [if_neg (by omega)] at hnone
    have hslot := findSome?_eq_none_iff.1 hnone i (mem_range.2 hi)
    simp only [hget, hactive, if_true] at hslot
    exact hfound (Option.map_eq_none_iff.1 hslot)

/-- While each extension grows a file without a partial last word, the allocator keeps its promise. -/
theorem pagefile_sound (ramLimit : ℕ) {calls : List SlotCall}
    (hcalls : EveryStep step (fun r call => r.Admitted call ∧ r.Covered call) (init ramLimit) calls) :
    EveryState step Sound (init ramLimit) calls := by
  have hinv : EveryState step (fun r => r.Inv ∧ r.Whole) (init ramLimit) calls := by
    refine everyState_invariant (fun r call hr hcall => ?_) ⟨inv_init ramLimit, whole_init ramLimit⟩ hcalls
    obtain ⟨hkeep, hwhole⟩ := hr.1.step call hcall.1
    exact ⟨hkeep, hwhole hcall.2 hr.2⟩
  exact hinv.imp fun r hr => hr.1.sound hr.2

/-- A file of 4096 pages grows. -/
theorem pagefile_sound_wholeWords :
    EveryState step Sound (init 0) [.create true 4096 8192 true, .extend 100 (fun _ => true), .allocate] := by
  refine pagefile_sound 0 ⟨⟨trivial, trivial⟩, ⟨trivial, ?_⟩, ⟨trivial, trivial⟩, trivial⟩
  intro l pf rest hfiles _ _ htakes
  have hmem : pf ∈ (run step (init 0) [.create true 4096 8192 true]).pagefiles.files := by
    rw [show (run step (init 0) [.create true 4096 8192 true]).pagefiles.files = l ++ pf :: rest from hfiles]
    simp
  rcases mem_cons.1 hmem with rfl | hmem
  · rfl
  · have hactive := htakes.1.1
    rw [eq_of_mem_replicate hmem] at hactive
    cases hactive

/-! ### The masked bits -/

def held (r : PagefileRun) : ℕ := ∑ i ∈ Finset.range mmMaxPagingFiles, (r.taken i).card

theorem Inv.held_le (h : r.Inv) : r.held ≤ mmMaxPagingFiles * mmMaxPagefileSize := by
  refine (Finset.sum_le_card_nsmul _ _ mmMaxPagefileSize fun i hi => ?_).trans (le_of_eq (by rw [Finset.card_range]; rfl))
  have hlt : i < r.pagefiles.files.length := h.length ▸ Finset.mem_range.1 hi
  by_cases hnum : i < r.pagefiles.numberOfPagingFiles
  · have hget := getElem?_eq_getElem hlt
    have hslots := (h.slots i _ hget ((h.active i _ hget).2 hnum)).1
    have hfree := hslots.free
    have hsize := hslots.sized.size
    have hmax := hslots.sized.maximum
    omega
  · rw [h.none i (not_lt.1 hnum)]
    exact zero_le _

theorem Inv.free_pos (h : r.Inv) (hget : r.pagefiles.files[i]? = some pf) (hactive : pf.active = true) (hwhole : ¬ pf.Whole) :
    0 < pf.freeSpace := by
  have hslots := (h.slots i pf hget hactive).1
  have hmin := hslots.minimum.2
  unfold MmpagingFile.Whole at hwhole
  have hsub : r.taken i ⊆ (Finset.range pf.size).erase pf.minimumSize := fun o ho => by
    obtain ⟨hlt, hkept⟩ := hslots.inside o ho
    refine Finset.mem_erase.2 ⟨fun heq => hkept ?_, Finset.mem_range.2 hlt⟩
    unfold MmpagingFile.Lost
    omega
  have hcard := Finset.card_le_card hsub
  rw [Finset.card_erase_of_mem (Finset.mem_range.2 (by omega)), Finset.card_range] at hcard
  have hfree := hslots.free
  omega

theorem Inv.allocate_of_sound (h : r.Inv) (hsound : r.Sound) (hwhole : ¬ r.Whole) :
    ¬ (r.step .allocate).Whole ∧ (r.step .allocate).held = r.held + 1 := by
  obtain ⟨i, pf, hget, hactive, hpf⟩ : ∃ (i : ℕ) (pf : MmpagingFile), r.pagefiles.files[i]? = some pf ∧ pf.active = true ∧ ¬ pf.Whole := by
    by_contra hall
    exact hwhole fun i pf hget hactive => by
      by_contra hpf
      exact hall ⟨i, pf, hget, hactive, hpf⟩
  have hsome := hsound.found i pf hget hactive (h.free_pos hget hactive hpf)
  unfold PagefileRun.step
  simp only
  cases hret : r.pagefiles.miAllocatePagefileSpace with
  | none => exact absurd hret hsome
  | some out =>
    obtain ⟨⟨fileIdx, offset⟩, s⟩ := out
    obtain ⟨hnum, p, p', hgetp, hactp, halloc, rfl⟩ := allocate_some hret
    obtain ⟨hnot, -, -, hmin, hsize, hact⟩ := (h.slots fileIdx p hgetp hactp).1.allocate halloc
    have hnumber := h.number
    constructor
    · intro hw
      by_cases heq : fileIdx = i
      · subst heq
        cases hget.symm.trans hgetp
        have hp' := hw fileIdx p' (List.getElem?_set_self (List.getElem?_eq_some_iff.1 hget).1) (hact.trans hactive)
        unfold MmpagingFile.Whole at hp' hpf
        rw [hmin, hsize] at hp'
        exact hpf hp'
      · refine hpf (hw i pf ?_ hactive)
        simp only
        rw [List.getElem?_set_ne heq, hget]
    · unfold held
      have hmem : fileIdx ∈ Finset.range mmMaxPagingFiles := Finset.mem_range.2 (by omega)
      rw [← Finset.add_sum_erase _ _ hmem, ← Finset.add_sum_erase _ (fun i => (r.taken i).card) hmem]
      simp only [update_self]
      rw [Finset.card_insert_of_notMem hnot, Finset.sum_congr rfl fun j hj => by rw [update_of_ne (Finset.ne_of_mem_erase hj)]]
      omega

theorem Inv.allocations (h : r.Inv) (hwhole : ¬ r.Whole) {n : ℕ} (hsound : EveryState PagefileRun.step Sound r (replicate n .allocate)) :
    (run PagefileRun.step r (replicate n .allocate)).Inv ∧ (run PagefileRun.step r (replicate n .allocate)).held = r.held + n := by
  induction n generalizing r with
  | zero =>
    rw [replicate_zero, run, add_zero]
    exact ⟨h, rfl⟩
  | succ n ih =>
    rw [replicate_succ] at hsound ⊢
    rw [run]
    obtain ⟨hfirst, hrest⟩ := hsound
    obtain ⟨hwhole', hheld⟩ := h.allocate_of_sound hfirst hwhole
    obtain ⟨hinv, hsum⟩ := ih h.allocate.1 hwhole' hrest
    refine ⟨hinv, ?_⟩
    rw [hsum, hheld, add_right_comm, add_assoc]

/-- Once a file with masked bits inside exists, allocations alone lead to one that fails although
slots are counted as free. -/
theorem Inv.exists_unsound (h : r.Inv) (hwhole : ¬ r.Whole) : ∃ n, ¬ EveryState PagefileRun.step Sound r (replicate n .allocate) := by
  obtain ⟨n, hlarge⟩ : ∃ n, mmMaxPagingFiles * mmMaxPagefileSize < n := ⟨_, lt_succ_self _⟩
  refine ⟨n, fun hsound => ?_⟩
  obtain ⟨hinv, hsum⟩ := h.allocations hwhole hsound
  have hle := hinv.held_le
  omega

/-- A file of 4097 pages that grows by one page. -/
def grown : List SlotCall := [.create true 4097 4098 true, .extend 1 fun _ => true]

/-- After it, some number of allocations breaks the promise. -/
theorem pagefile_masked : ∃ n, EveryStep step Admitted (init 0) (grown ++ replicate n .allocate) ∧
    ¬ EveryState step Sound (init 0) (grown ++ replicate n .allocate) := by
  have hcreated : (run step (init 0) [.create true 4097 4098 true]).Inv := (inv_init 0).create.1
  have hinv : (run step (init 0) grown).Inv := (hcreated.step (.extend 1 fun _ => true) trivial).1
  have hnot : ¬ (run step (init 0) grown).Whole := fun hwhole => by
    rcases hwhole 0 _ rfl rfl with h | h <;> revert h <;> decide
  obtain ⟨n, hn⟩ := hinv.exists_unsound hnot
  refine ⟨n, ⟨trivial, trivial, ?_⟩, fun hevery => hn hevery.2.2⟩
  refine (everyStep_of_forall (G := fun call => call = .allocate) fun call hcall => eq_of_mem_replicate hcall).mono fun r call hcall => ?_
  rw [hcall]
  trivial

end PagefileRun

end XenOS.Mm
