import Mathlib.Algebra.Order.Group.Int
import XenOS.General.Run

/-! `KSYSTEM_TIME`: a 64-bit value in three words. The writer stores high, low and high again, a
reader loads them the other way round and keeps what it read if the high words agree. The steps of
one writer and any number of readers interleave. -/

namespace XenOS.Ke

open General List BitVec
open Function (update update_self update_of_ne)

structure KsystemTime where
  lowPart : BitVec 32
  high1Time : BitVec 32
  high2Time : BitVec 32
  deriving DecidableEq

/-- The words that `write` stores and the value that `read` makes of two words. -/
def highWord (value : BitVec 64) : BitVec 32 := (value.sshiftRight 32).setWidth 32
def lowWord (value : BitVec 64) : BitVec 32 := value.setWidth 32
def joined (high low : BitVec 32) : BitVec 64 := (high.signExtend 64 <<< 32) ||| low.setWidth 64

theorem joined_words (value : BitVec 64) : joined (highWord value) (lowWord value) = value := by
  apply eq_of_getLsbD_eq
  intro i hi
  simp only [joined, highWord, lowWord, getLsbD_or, getLsbD_shiftLeft, getLsbD_signExtend,
    getLsbD_setWidth, getLsbD_sshiftRight]
  by_cases h : i < 32
  · simp [h, hi]
  · simp [h, hi, show i - 32 < 64 by omega, show i - 32 < 32 by omega, show 32 + (i - 32) = i by omega]

theorem toInt_highWord (value : BitVec 64) : (highWord value).toInt = value.toInt / 2 ^ 32 := by
  have hshift : (value.sshiftRight 32).toInt = value.toInt / 2 ^ 32 := by
    rw [toInt_sshiftRight, Int.shiftRight_eq_div_pow]
    rfl
  have hlow := value.le_toInt
  have hhigh := value.toInt_lt
  rw [highWord, toInt_setWidth, ← Int.bmod_bmod_of_dvd (show 2 ^ 32 ∣ 2 ^ 64 by decide), ← toInt_eq_toNat_bmod, hshift]
  apply Int.bmod_eq_of_le
  all_goals omega

theorem highWord_eq {p v q : BitVec 64} (hpv : p.toInt ≤ v.toInt) (hvq : v.toInt ≤ q.toInt) (heq : highWord p = highWord q) :
    highWord v = highWord p := by
  have hp := toInt_highWord p
  have hv := toInt_highWord v
  have hq := toInt_highWord q
  rw [← heq] at hq
  apply eq_of_toInt_eq
  omega

/-- The store that the writer makes next; `high2_time` is stored by the step that begins the write. -/
inductive TimeWriter where
  | idle
  | low (value : BitVec 64)
  | high1 (value : BitVec 64)
  deriving DecidableEq

inductive TimeReader where
  | idle
  | low (high1 : BitVec 32)
  | high2 (high1 low : BitVec 32)
  deriving DecidableEq

structure TimeRead where
  value : BitVec 64
  seen : List (BitVec 64)

/-- The words, the writer and the readers. For the record, the current value, those current since
each reader's first load, and its reads. A value is current from the store of its low word on. -/
structure SystemTime (R : Type*) where
  time : KsystemTime
  writer : TimeWriter
  reader : R → TimeReader
  current : BitVec 64
  seen : R → List (BitVec 64)
  returned : R → List TimeRead

inductive TimeStep (R : Type*) where
  | storeHigh2 (value : BitVec 64)
  | storeLow
  | storeHigh1
  | loadHigh1 (r : R)
  | loadLow (r : R)
  | loadHigh2 (r : R)

namespace SystemTime

variable {R : Type*}

def init (R : Type*) (value : BitVec 64) : SystemTime R where
  time := ⟨lowWord value, highWord value, highWord value⟩
  writer := .idle
  reader _ := .idle
  current := value
  seen _ := []
  returned _ := []

variable [DecidableEq R]

def step (s : SystemTime R) : TimeStep R → SystemTime R
  | .storeHigh2 value =>
    match s.writer with
    | .idle => { s with time := { s.time with high2Time := highWord value }, writer := .low value }
    | _ => s
  | .storeLow =>
    match s.writer with
    | .low value =>
      { s with
        time := { s.time with lowPart := lowWord value }
        writer := .high1 value
        current := value
        seen := fun r => value :: s.seen r }
    | _ => s
  | .storeHigh1 =>
    match s.writer with
    | .high1 value => { s with time := { s.time with high1Time := highWord value }, writer := .idle }
    | _ => s
  | .loadHigh1 r =>
    match s.reader r with
    | .idle =>
      { s with
        reader := update s.reader r (.low s.time.high1Time)
        seen := update s.seen r [s.current] }
    | _ => s
  | .loadLow r =>
    match s.reader r with
    | .low high1 => { s with reader := update s.reader r (.high2 high1 s.time.lowPart) }
    | _ => s
  | .loadHigh2 r =>
    match s.reader r with
    | .high2 high1 low =>
      if high1 = s.time.high2Time then
        { s with
          reader := update s.reader r .idle
          returned := update s.returned r (⟨joined high1 low, s.seen r⟩ :: s.returned r) }
      -- an update meanwhile: the loop begins anew
      else { s with reader := update s.reader r .idle }
    | _ => s

def Admitted (s : SystemTime R) : TimeStep R → Prop
  | .storeHigh2 value => s.current.toInt ≤ value.toInt
  | _ => True

structure NotTorn (s : SystemTime R) : Prop where
  current : ∀ r, ∀ read ∈ s.returned r, read.value ∈ read.seen
  nonDecreasing : ∀ r, (s.returned r).Pairwise fun later earlier => earlier.value.toInt ≤ later.value.toInt

/-! ### The invariant -/

/-- The words belong to three values in order: the last completed, the current, and the last begun.
-/
structure WrittenInOrder (s : SystemTime R) (done begun : BitVec 64) : Prop where
  high1 : s.time.high1Time = highWord done
  low : s.time.lowPart = lowWord s.current
  high2 : s.time.high2Time = highWord begun
  done_le : done.toInt ≤ s.current.toInt
  le_begun : s.current.toInt ≤ begun.toInt
  writer : (s.writer = .idle ∧ done = begun) ∨ s.writer = .low begun ∨ (s.writer = .high1 begun ∧ s.current = begun)

def LoadedInOrder (s : SystemTime R) (r : R) : Prop :=
  match s.reader r with
  | .idle => True
  | .low high1 => ∃ p : BitVec 64, high1 = highWord p ∧ ∀ v ∈ s.seen r, p.toInt ≤ v.toInt
  | .high2 high1 low =>
    ∃ p : BitVec 64, high1 = highWord p ∧ (∀ v ∈ s.seen r, p.toInt ≤ v.toInt) ∧ ∃ v ∈ s.seen r, low = lowWord v

structure Inv (s : SystemTime R) : Prop where
  words : ∃ done begun, s.WrittenInOrder done begun
  loaded : ∀ r, s.LoadedInOrder r
  seen_current : ∀ r, s.reader r ≠ .idle → s.current ∈ s.seen r
  seen_le : ∀ r, s.reader r ≠ .idle → ∀ v ∈ s.seen r, v.toInt ≤ s.current.toInt
  returned_le : ∀ r, ∀ read ∈ s.returned r, read.value.toInt ≤ s.current.toInt
  returned_seen : ∀ r, s.reader r ≠ .idle → ∀ read ∈ s.returned r, ∀ v ∈ s.seen r, read.value.toInt ≤ v.toInt
  notTorn : s.NotTorn

namespace Inv
variable {s : SystemTime R}

theorem storeHigh2 (h : s.Inv) {value : BitVec 64} (hle : s.current.toInt ≤ value.toInt) : (s.step (.storeHigh2 value)).Inv := by
  obtain ⟨done, begun, hwords⟩ := h.words
  unfold step
  dsimp only
  cases hwriter : s.writer with
  | idle =>
    refine ⟨⟨done, value, hwords.high1, hwords.low, rfl, hwords.done_le, hle, Or.inr (Or.inl rfl)⟩, h.loaded, h.seen_current, h.seen_le,
      h.returned_le, h.returned_seen, ⟨h.notTorn.current, h.notTorn.nonDecreasing⟩⟩
  | low _ => exact h
  | high1 _ => exact h

theorem storeLow (h : s.Inv) : (s.step .storeLow).Inv := by
  obtain ⟨done, begun, hwords⟩ := h.words
  unfold step
  dsimp only
  cases hwriter : s.writer with
  | idle => exact h
  | high1 _ => exact h
  | low value =>
    obtain rfl : value = begun := by
      rcases hwords.writer with ⟨hidle, -⟩ | hlow | ⟨hhigh, -⟩
      · rw [hwriter] at hidle
        cases hidle
      · rw [hwriter] at hlow
        cases hlow
        rfl
      · rw [hwriter] at hhigh
        cases hhigh
    have hle := hwords.le_begun
    dsimp only
    refine ⟨⟨done, value, hwords.high1, rfl, hwords.high2, hwords.done_le.trans hle, le_refl _, Or.inr (Or.inr ⟨rfl, rfl⟩)⟩, fun r => ?_,
      fun r _ => mem_cons_self, fun r hr v hv => ?_, fun r read hread => (h.returned_le r read hread).trans hle,
      fun r hr read hread v hv => ?_, ⟨h.notTorn.current, h.notTorn.nonDecreasing⟩⟩
    · have hloaded := h.loaded r
      have hcurrent := h.seen_current r
      unfold LoadedInOrder at hloaded ⊢
      simp only
      cases hreader : s.reader r with
      | idle => trivial
      | low high1 =>
        rw [hreader] at hloaded
        obtain ⟨p, hp, hseen⟩ := hloaded
        refine ⟨p, hp, forall_mem_cons.2 ⟨?_, hseen⟩⟩
        exact (hseen _ (hcurrent (by simp [hreader]))).trans hle
      | high2 high1 low =>
        rw [hreader] at hloaded
        obtain ⟨p, hp, hseen, v, hv, hlow⟩ := hloaded
        refine ⟨p, hp, forall_mem_cons.2 ⟨?_, hseen⟩, v, mem_cons_of_mem _ hv, hlow⟩
        exact (hseen _ (hcurrent (by simp [hreader]))).trans hle
    · rcases mem_cons.1 hv with rfl | hv
      · exact le_refl _
      · exact (h.seen_le r hr v hv).trans hle
    · rcases mem_cons.1 hv with rfl | hv
      · exact (h.returned_le r read hread).trans hle
      · exact h.returned_seen r hr read hread v hv

theorem storeHigh1 (h : s.Inv) : (s.step .storeHigh1).Inv := by
  obtain ⟨done, begun, hwords⟩ := h.words
  unfold step
  dsimp only
  cases hwriter : s.writer with
  | idle => exact h
  | low _ => exact h
  | high1 value =>
    have hboth : value = begun ∧ s.current = begun := by
      rcases hwords.writer with ⟨hidle, -⟩ | hlow | ⟨hhigh, hcurrent⟩
      · rw [hwriter] at hidle
        cases hidle
      · rw [hwriter] at hlow
        cases hlow
      · rw [hwriter] at hhigh
        cases hhigh
        exact ⟨rfl, hcurrent⟩
    obtain ⟨rfl, hcurrent⟩ := hboth
    have hsame : s.current.toInt = value.toInt := by rw [hcurrent]
    dsimp only
    exact ⟨⟨value, value, rfl, hwords.low, hwords.high2, hsame.ge, hsame.le, Or.inl ⟨rfl, rfl⟩⟩, h.loaded,
      h.seen_current, h.seen_le, h.returned_le, h.returned_seen, ⟨h.notTorn.current, h.notTorn.nonDecreasing⟩⟩

theorem loadHigh1 (h : s.Inv) (r : R) : (s.step (.loadHigh1 r)).Inv := by
  obtain ⟨done, begun, hwords⟩ := h.words
  unfold step
  dsimp only
  cases hreader : s.reader r with
  | low _ => exact h
  | high2 _ _ => exact h
  | idle =>
    dsimp only
    have hone : ∀ v ∈ [s.current], v = s.current := fun v hv => mem_singleton.1 hv
    refine ⟨⟨done, begun, hwords.high1, hwords.low, hwords.high2, hwords.done_le, hwords.le_begun, hwords.writer⟩, fun r' => ?_,
      fun r' hr' => ?_, fun r' hr' v hv => ?_, h.returned_le, fun r' hr' read hread v hv => ?_, ⟨h.notTorn.current, h.notTorn.nonDecreasing⟩⟩
    · rcases eq_or_ne r' r with rfl | heq
      · simp only [LoadedInOrder, update_self]
        exact ⟨done, hwords.high1, fun v hv => hone v hv ▸ hwords.done_le⟩
      · simp only [LoadedInOrder, update_of_ne heq]
        exact h.loaded r'
    · rcases eq_or_ne r' r with rfl | heq
      · simp only [update_self]
        exact mem_singleton.2 rfl
      · simp only [update_of_ne heq] at hr' ⊢
        exact h.seen_current r' hr'
    · rcases eq_or_ne r' r with rfl | heq
      · simp only [update_self] at hv
        exact hone v hv ▸ le_refl _
      · simp only [update_of_ne heq] at hr' hv
        exact h.seen_le r' hr' v hv
    · rcases eq_or_ne r' r with rfl | heq
      · simp only [update_self] at hv
        exact hone v hv ▸ h.returned_le r' read hread
      · simp only [update_of_ne heq] at hr' hv
        exact h.returned_seen r' hr' read hread v hv

theorem loadLow (h : s.Inv) (r : R) : (s.step (.loadLow r)).Inv := by
  obtain ⟨done, begun, hwords⟩ := h.words
  unfold step
  dsimp only
  cases hreader : s.reader r with
  | idle => exact h
  | high2 _ _ => exact h
  | low high1 =>
    dsimp only
    have hbusy : ∀ r', update s.reader r (.high2 high1 s.time.lowPart) r' ≠ .idle → s.reader r' ≠ .idle := by
      intro r' hr'
      by_cases heq : r' = r
      · subst heq
        simp [hreader]
      · rwa [update_of_ne heq] at hr'
    refine ⟨⟨done, begun, hwords.high1, hwords.low, hwords.high2, hwords.done_le, hwords.le_begun, hwords.writer⟩, fun r' => ?_,
      fun r' hr' => h.seen_current r' (hbusy r' hr'), fun r' hr' => h.seen_le r' (hbusy r' hr'), h.returned_le,
      fun r' hr' => h.returned_seen r' (hbusy r' hr'), ⟨h.notTorn.current, h.notTorn.nonDecreasing⟩⟩
    have hloaded := h.loaded r'
    by_cases heq : r' = r
    · subst heq
      simp only [LoadedInOrder, hreader, update_self] at hloaded ⊢
      obtain ⟨p, hp, hseen⟩ := hloaded
      exact ⟨p, hp, hseen, s.current, h.seen_current r' (by simp [hreader]), hwords.low⟩
    · simp only [LoadedInOrder, update_of_ne heq] at hloaded ⊢
      exact hloaded

omit [DecidableEq R] in
theorem joined_seen (h : s.Inv) {r : R} {high1 low : BitVec 32} (hreader : s.reader r = .high2 high1 low)
    (hagree : high1 = s.time.high2Time) : joined high1 low ∈ s.seen r := by
  obtain ⟨done, begun, hwords⟩ := h.words
  have hloaded := h.loaded r
  unfold LoadedInOrder at hloaded
  rw [hreader] at hloaded
  obtain ⟨p, hp, hseen, v, hv, hlow⟩ := hloaded
  have hhigh : highWord v = highWord p := by
    apply highWord_eq (hseen v hv) ((h.seen_le r (by simp [hreader]) v hv).trans hwords.le_begun)
    rw [← hp, hagree, hwords.high2]
  have hjoined : joined high1 low = v := by
    rw [hp, ← hhigh, hlow, joined_words]
  rw [hjoined]
  exact hv

theorem loadHigh2 (h : s.Inv) (r : R) : (s.step (.loadHigh2 r)).Inv := by
  obtain ⟨done, begun, hwords⟩ := h.words
  unfold step
  dsimp only
  cases hreader : s.reader r with
  | idle => exact h
  | low _ => exact h
  | high2 high1 low =>
    have hbusy : ∀ r', update s.reader r .idle r' ≠ .idle → s.reader r' ≠ .idle := by
      intro r' hr'
      by_cases heq : r' = r
      · subst heq
        exact absurd (update_self ..) hr'
      · rwa [update_of_ne heq] at hr'
    have hloaded : ∀ r', LoadedInOrder { s with reader := update s.reader r .idle } r' := by
      intro r'
      have hbefore := h.loaded r'
      unfold LoadedInOrder at hbefore ⊢
      by_cases heq : r' = r
      · subst heq
        simp only [update_self]
      · simp only [update_of_ne heq]
        exact hbefore
    have hwords' : ∃ done begun, WrittenInOrder { s with reader := update s.reader r .idle } done begun :=
      ⟨done, begun, hwords.high1, hwords.low, hwords.high2, hwords.done_le, hwords.le_begun, hwords.writer⟩
    simp only
    split_ifs with hagree
    · have hmem := h.joined_seen hreader hagree
      have hr : s.reader r ≠ .idle := by simp [hreader]
      obtain ⟨done, begun, hwords⟩ := hwords'
      refine ⟨⟨done, begun, hwords.high1, hwords.low, hwords.high2, hwords.done_le, hwords.le_begun, hwords.writer⟩, hloaded,
        fun r' hr' => h.seen_current r' (hbusy r' hr'), fun r' hr' => h.seen_le r' (hbusy r' hr'), fun r' read hread => ?_,
        fun r' hr' read hread => ?_, ⟨fun r' read hread => ?_, fun r' => ?_⟩⟩
      · rcases eq_or_ne r' r with rfl | heq
        · simp only [update_self, mem_cons] at hread
          rcases hread with rfl | hread
          · exact h.seen_le r' hr _ hmem
          · exact h.returned_le r' read hread
        · simp only [update_of_ne heq] at hread
          exact h.returned_le r' read hread
      · rcases eq_or_ne r' r with rfl | heq
        · exact absurd (update_self ..) hr'
        · simp only [update_of_ne heq] at hr' hread
          exact h.returned_seen r' hr' read hread
      · rcases eq_or_ne r' r with rfl | heq
        · simp only [update_self, mem_cons] at hread
          rcases hread with rfl | hread
          · exact hmem
          · exact h.notTorn.current r' read hread
        · simp only [update_of_ne heq] at hread
          exact h.notTorn.current r' read hread
      · rcases eq_or_ne r' r with rfl | heq
        · simp only [update_self]
          exact pairwise_cons.2 ⟨fun read hread => h.returned_seen r' hr read hread _ hmem, h.notTorn.nonDecreasing r'⟩
        · simp only [update_of_ne heq]
          exact h.notTorn.nonDecreasing r'
    · exact ⟨hwords', hloaded, fun r' hr' => h.seen_current r' (hbusy r' hr'), fun r' hr' => h.seen_le r' (hbusy r' hr'), h.returned_le,
        fun r' hr' => h.returned_seen r' (hbusy r' hr'), ⟨h.notTorn.current, h.notTorn.nonDecreasing⟩⟩

theorem step (h : s.Inv) (a : TimeStep R) (ha : s.Admitted a) : (s.step a).Inv := by
  cases a with
  | storeHigh2 value => exact h.storeHigh2 ha
  | storeLow => exact h.storeLow
  | storeHigh1 => exact h.storeHigh1
  | loadHigh1 r => exact h.loadHigh1 r
  | loadLow r => exact h.loadLow r
  | loadHigh2 r => exact h.loadHigh2 r

theorem init (R : Type*) [DecidableEq R] (value : BitVec 64) : (SystemTime.init R value).Inv where
  words := ⟨value, value, rfl, rfl, rfl, le_refl _, le_refl _, Or.inl ⟨rfl, rfl⟩⟩
  loaded _ := trivial
  seen_current _ hr := absurd rfl hr
  seen_le _ hr := absurd rfl hr
  returned_le _ _ hread := (not_mem_nil hread).elim
  returned_seen _ hr := absurd rfl hr
  notTorn := ⟨fun _ _ hread => (not_mem_nil hread).elim, fun _ => Pairwise.nil⟩

end Inv

/-! ### Runs -/

/-- In every interleaving with values that do not decrease, no read is torn. -/
theorem everyState_notTorn (value : BitVec 64) {steps : List (TimeStep R)}
    (hsteps : EveryStep SystemTime.step Admitted (init R value) steps) : EveryState SystemTime.step NotTorn (init R value) steps :=
  (everyState_invariant (fun _ a hs ha => hs.step a ha) (Inv.init R value) hsteps).imp fun _ h => h.notTorn

def carry : List (TimeStep Unit) :=
  [.loadHigh1 (), .storeHigh2 0x100000000, .storeLow, .loadLow (), .loadHigh2 (), .storeHigh1, .loadHigh1 (), .loadLow (), .loadHigh2 ()]

theorem everyState_notTorn_carry : EveryState SystemTime.step NotTorn (init Unit 0xFFFFFFFF) carry :=
  everyState_notTorn 0xFFFFFFFF ⟨trivial, show (0xFFFFFFFF#64).toInt ≤ (0x100000000#64).toInt by decide, trivial, trivial, trivial, trivial, trivial, trivial, trivial, trivial⟩

example : ((run SystemTime.step (init Unit 0xFFFFFFFF) carry).returned ()).map TimeRead.value = [0x100000000] := by decide

end SystemTime

end XenOS.Ke
