import Mathlib.Data.Finset.Card
import XenOS.Mm.CommitCharge

/-! The slots of the paging files. A bit of the bitmap is set where its slot is free, but for the
bits that the creation masked: those stay clear when the file grows over them. -/

namespace XenOS.Mm

open General Finset

variable {pf pf' : MmpagingFile} {taken : Finset ℕ} {offset i added : ℕ}

namespace MmpagingFile

/-- The bits that the mask of the last word cleared. -/
def Lost (pf : MmpagingFile) (i : ℕ) : Prop := pf.minimumSize ≤ i ∧ i < (pf.minimumSize + 63) / 64 * 64

structure Slots (pf : MmpagingFile) (taken : Finset ℕ) : Prop where
  sized : pf.Sized
  minimum : 0 < pf.minimumSize ∧ pf.minimumSize ≤ pf.size
  words : pf.bitmap.length = (pf.size + 63) / 64
  bits : ∀ i < pf.bitmap.length * 64, bitAt pf.bitmap i = true ↔ i ∉ taken ∧ ¬ pf.Lost i
  inside : ∀ i ∈ taken, i < pf.size ∧ ¬ pf.Lost i
  used : pf.usedSpace = taken.card
  free : pf.freeSpace + taken.card = pf.size

theorem Slots.lt (h : pf.Slots taken) : pf.size < 2 ^ 63 := by
  have hsize := h.sized.size
  have hmax := h.sized.maximum
  unfold mmMaxPagefileSize at hmax
  omega

def Whole (pf : MmpagingFile) : Prop := pf.minimumSize % 64 = 0 ∨ pf.size = pf.minimumSize

theorem Whole.not_lost (h : pf.Whole) (hi : i < pf.size) : ¬ pf.Lost i := by
  unfold Lost
  rcases h with h | h <;> omega

theorem bitAt_word {words : List (BitVec 64)} {w b : ℕ} (hb : b < 64) : bitAt words (w * 64 + b) = (words.getD w 0#64).getLsbD b := by
  rw [bitAt, show (w * 64 + b) / 64 = w by omega, show (w * 64 + b) % 64 = b by omega]

theorem takeSlot_minimum (pf : MmpagingFile) (w b : ℕ) : (pf.takeSlot w b).minimumSize = pf.minimumSize := by
  unfold takeSlot
  rfl

theorem takeSlot_bitmap (pf : MmpagingFile) (w b : ℕ) : (pf.takeSlot w b).bitmap = clearAt pf.bitmap w b := by
  unfold takeSlot
  rfl

theorem takeSlot_counts (pf : MmpagingFile) (w b : ℕ) :
    (pf.takeSlot w b).freeSpace = fetchSub pf.freeSpace 1 ∧ (pf.takeSlot w b).usedSpace = fetchAdd pf.usedSpace 1 := by
  unfold takeSlot
  exact ⟨rfl, rfl⟩

theorem Slots.allocate (h : pf.Slots taken) (hret : pf.miAllocateSlotInPagefile = some (offset, pf')) :
    offset ∉ taken ∧ offset < pf.size ∧ pf'.Slots (insert offset taken) ∧ pf'.minimumSize = pf.minimumSize ∧ pf'.size = pf.size ∧
      pf'.active = pf.active := by
  have hfree : pf.freeSpace ≠ 0 := by
    intro hzero
    unfold miAllocateSlotInPagefile at hret
    rw [if_pos hzero] at hret
    split_ifs at hret
  obtain ⟨w, hw, hslot⟩ := Pagefiles.allocateSlot_some hret
  obtain ⟨hword, rfl, hlt, rfl⟩ := Pagefiles.slotInWord_some hslot
  obtain ⟨hb, hbit, -⟩ := trailingZeros_spec hword
  have hset : bitAt pf.bitmap (w * 64 + trailingZeros (pf.bitmap.getD w 0#64)) = true := (bitAt_word hb).trans hbit
  obtain ⟨hnot, hkept⟩ := (h.bits _ (by omega)).1 hset
  generalize trailingZeros (pf.bitmap.getD w 0#64) = b at *
  have hlen := h.lt
  have hcount := h.free
  have hsub : fetchSub pf.freeSpace 1 = pf.freeSpace - 1 := fetchSub_of_le (by omega) (by omega)
  have hadd : fetchAdd pf.usedSpace 1 = pf.usedSpace + 1 := fetchAdd_of_lt (by rw [h.used]; omega)
  have hsame := takeSlot_sizes pf w b
  have hmin := takeSlot_minimum pf w b
  have hwords := takeSlot_bitmap pf w b
  obtain ⟨hfrees, huses⟩ := takeSlot_counts pf w b
  refine ⟨hnot, hlt, ?_, hmin, hsame.1, hsame.2.2⟩
  constructor
  case sized => exact h.sized.congr hsame
  case minimum =>
    rw [hmin, hsame.1]
    exact h.minimum
  case words =>
    rw [hwords, length_clearAt, hsame.1]
    exact h.words
  case bits =>
    intro i hi
    rw [hwords, length_clearAt] at hi
    rw [hwords, bitAt_clearAt hw hb, mem_insert, Lost, hmin]
    by_cases heq : i = w * 64 + b
    · rw [if_pos heq]
      exact iff_of_false Bool.false_ne_true fun hboth => hboth.1 (Or.inl heq)
    · rw [if_neg heq, h.bits i hi]
      exact ⟨fun hboth => ⟨fun hor => hor.elim heq hboth.1, hboth.2⟩, fun hboth => ⟨fun hmem => hboth.1 (Or.inr hmem), hboth.2⟩⟩
  case inside =>
    intro i hi
    rw [Lost, hmin, hsame.1]
    rcases mem_insert.1 hi with rfl | hi
    · exact ⟨hlt, hkept⟩
    · exact h.inside i hi
  case used => rw [card_insert_of_notMem hnot, huses, hadd, h.used]
  case free =>
    rw [card_insert_of_notMem hnot, hfrees, hsub, hsame.1]
    omega

theorem Slots.allocate_ne_none (h : pf.Slots taken) (hwhole : pf.Whole) (hpos : 0 < pf.freeSpace) : pf.miAllocateSlotInPagefile ≠ none := by
  -- some slot is not given away
  obtain ⟨i, hi, hnot⟩ : ∃ i < pf.size, i ∉ taken := by
    by_contra hall
    have hsub : range pf.size ⊆ taken := fun i hi => by
      by_contra hnot
      exact hall ⟨i, mem_range.1 hi, hnot⟩
    have hcard := card_le_card hsub
    rw [card_range] at hcard
    have := h.free
    omega
  have hlen : pf.size ≤ pf.bitmap.length * 64 := by
    rw [h.words]
    omega
  have hbit := (h.bits i (by omega)).2 ⟨hnot, hwhole.not_lost hi⟩
  have hi64 : i / 64 < pf.bitmap.length := by omega
  have hword : pf.bitmap.getD (i / 64) 0#64 ≠ 0#64 := fun hzero => by
    rw [bitAt, hzero] at hbit
    simp at hbit
  obtain ⟨-, -, hleast⟩ := trailingZeros_spec hword
  have hle := hleast _ hbit
  obtain ⟨k, hk, hwrap⟩ := exists_wrapped (pf.nextHint / 64) hi64
  intro hnone
  unfold miAllocateSlotInPagefile at hnone
  rw [if_neg, if_neg (by omega)] at hnone
  · have hslot := List.findSome?_eq_none_iff.1 hnone k (List.mem_range.2 hk)
    rw [hwrap, slotInWord] at hslot
    simp only at hslot
    rw [if_neg hword, if_neg (by omega)] at hslot
    cases hslot
  · rintro (hzero | hnil)
    · omega
    · rw [hnil] at hi64
      cases hi64

theorem Slots.freeSlot (h : pf.Slots taken) (hactive : pf.active = true) (hmem : offset ∈ taken) :
    (pf.freeSlot offset).Slots (taken.erase offset) ∧ (pf.freeSlot offset).minimumSize = pf.minimumSize := by
  obtain ⟨hlt, hkept⟩ := h.inside offset hmem
  have hwords := h.words
  have hw : offset / 64 < pf.bitmap.length := by omega
  have hnil : pf.bitmap ≠ [] := fun hnil => by
    rw [hnil] at hw
    cases hw
  have hlen := h.lt
  have hcount := h.free
  have hpos := card_pos.2 ⟨offset, hmem⟩
  have hadd : fetchAdd pf.freeSpace 1 = pf.freeSpace + 1 := fetchAdd_of_lt (by omega)
  have hsub : fetchSub pf.usedSpace 1 = pf.usedSpace - 1 := fetchSub_of_le (by rw [h.used]; omega) (by rw [h.used]; omega)
  have hsame := Pagefiles.freeSlot_sizes pf offset
  unfold MmpagingFile.freeSlot at hsame ⊢
  rw [if_neg (by simp [hactive, hnil]), if_neg (Nat.not_le.2 hlt)] at hsame ⊢
  refine ⟨⟨h.sized.congr hsame, h.minimum, ?_, ?_, ?_, ?_, ?_⟩, rfl⟩
  · exact length_setAt.trans hwords
  · intro i hi
    have hi : i < pf.bitmap.length * 64 := by rwa [length_setAt] at hi
    simp only
    rw [bitAt_setAt hw (Nat.mod_lt _ (by decide)), show offset / 64 * 64 + offset % 64 = offset by omega, mem_erase]
    by_cases heq : i = offset
    · rw [if_pos heq, heq]
      exact ⟨fun _ => ⟨fun hne => hne.1 rfl, hkept⟩, fun _ => rfl⟩
    · rw [if_neg heq, h.bits i hi]
      exact ⟨fun hboth => ⟨fun hin => hboth.1 hin.2, hboth.2⟩, fun hboth => ⟨fun hin => hboth.1 ⟨heq, hin⟩, hboth.2⟩⟩
  · exact fun i hi => h.inside i (mem_of_mem_erase hi)
  · rw [card_erase_of_mem hmem, ← h.used]
    exact hsub
  · simp only [hadd, card_erase_of_mem hmem]
    omega

theorem bitAt_freshBitmap {minimumSize : ℕ} (hi : i < (minimumSize + 63) / 64 * 64) :
    bitAt (freshBitmap minimumSize) i = true ↔ i < minimumSize := by
  unfold freshBitmap
  simp only
  split_ifs with hextra
  · have hb : minimumSize % 64 < 64 := Nat.mod_lt _ (by decide)
    unfold bitAt
    by_cases hlast : i / 64 = (minimumSize + 63) / 64 - 1
    · rw [hlast, List.getD_eq_getElem?_getD, List.getElem?_set_self (by rw [List.length_replicate]; omega), Option.getD_some,
        getLsbD_mask hb, decide_eq_true_iff]
      omega
    · rw [List.getD_eq_getElem?_getD, List.getElem?_set_ne (Ne.symm hlast), List.getElem?_replicate_of_lt (by omega), Option.getD_some,
        BitVec.getLsbD_allOnes, decide_eq_true_iff]
      omega
  · rw [bitAt_replicate, decide_eq_true_iff]
    omega

theorem slots_create {minimumSize maximumSize slotIdx : ℕ} {inMemory : Bool} (hpos : 0 < minimumSize) (hle : minimumSize ≤ maximumSize)
    (hmax : maximumSize ≤ mmMaxPagefileSize) : (create minimumSize maximumSize slotIdx inMemory).Slots ∅ := by
  have hlength : (freshBitmap minimumSize).length = (minimumSize + 63) / 64 := by
    unfold freshBitmap
    simp only
    split_ifs <;> simp
  refine ⟨⟨hle, hmax, fun hoff => by cases hoff⟩, ⟨hpos, Nat.le_refl _⟩, hlength, fun i hi => ?_, fun i hi => by simp at hi, rfl, rfl⟩
  have hi : i < (minimumSize + 63) / 64 * 64 := by rwa [create, hlength] at hi
  refine (bitAt_freshBitmap hi).trans ?_
  simp only [notMem_empty, not_false_iff, true_and, Lost, create]
  omega

theorem growBitmap_some {bitmap bitmap' : List (BitVec 64)} {oldSize newSize : ℕ} {pool : Bool} (hlength : bitmap.length = (oldSize + 63) / 64)
    (hle : oldSize ≤ newSize) (hret : growBitmap bitmap newSize pool = some bitmap') : bitmap'.length = (newSize + 63) / 64 ∧
      ∀ i < bitmap'.length * 64, bitAt bitmap' i = if i < bitmap.length * 64 then bitAt bitmap i else true := by
  unfold growBitmap at hret
  simp only at hret
  split_ifs at hret with hshort hpool
  · cases hret
    have hlength' : (bitmap ++ List.replicate ((newSize + 63) / 64 - bitmap.length) (BitVec.allOnes 64)).length = (newSize + 63) / 64 := by
      rw [List.length_append, List.length_replicate]
      omega
    refine ⟨hlength', fun i hi => ?_⟩
    rw [hlength'] at hi
    rw [bitAt_append, bitAt_replicate]
    split_ifs with hold
    · rfl
    · rw [decide_eq_true_iff]
      omega
  · cases hret
    exact ⟨by omega, fun i hi => (if_pos hi).symm⟩

theorem Slots.extend {neededPages : ℕ} {pool : Bool} (h : pf.Slots taken) (hret : pf.extend neededPages pool = some (some (pf', added))) :
    pf'.Slots taken ∧ pf'.minimumSize = pf.minimumSize ∧ pf'.active = pf.active := by
  have hgrow := growable_of_extend hret
  have hcount := h.free
  have hmin := h.minimum
  unfold MmpagingFile.extend at hret
  simp only at hret
  rw [if_neg (by simp [hgrow.1, hgrow.2.1]), if_neg (Nat.not_le.2 hgrow.2.2)] at hret
  split_ifs at hret with hover hsmall
  · cases hret
  cases hbitmap : growBitmap pf.bitmap (min (pf.size + max neededPages (pf.size / 4)) pf.maximumSize) pool with
  | none =>
    rw [hbitmap] at hret
    cases hret
  | some bitmap =>
    rw [hbitmap] at hret
    cases hret
    have hmax := h.sized.maximum
    unfold mmMaxPagefileSize at hmax
    generalize hnew : min (pf.size + max neededPages (pf.size / 4)) pf.maximumSize = newSize at *
    obtain ⟨hlength, hbits⟩ := growBitmap_some h.words (by omega) hbitmap
    have hadd : fetchAdd pf.freeSpace (newSize - pf.size) = pf.freeSpace + (newSize - pf.size) := fetchAdd_of_lt (by omega)
    refine ⟨⟨⟨by simp only; omega, h.sized.maximum, fun hoff => ?_⟩, ⟨hmin.1, by simp only; omega⟩, hlength, fun i hi => ?_, fun i hi => ?_,
      h.used, ?_⟩, rfl, rfl⟩
    · rw [hgrow.1] at hoff
      cases hoff
    · refine Iff.trans (by rw [hbits i hi]) ?_
      split_ifs with hold
      · exact h.bits i hold
      · -- beyond the old words nothing is given away or lost
        have hwords := h.words
        refine iff_of_true rfl ⟨fun hin => ?_, fun hlost => ?_⟩
        · have := (h.inside i hin).1
          omega
        · have := hlost.2
          simp only at this
          omega
    · obtain ⟨hlt, hkept⟩ := h.inside i hi
      exact ⟨by simp only; omega, hkept⟩
    · simp only [hadd]
      omega

end MmpagingFile

end XenOS.Mm
