import Mathlib.Algebra.BigOperators.Intervals
import Mathlib.Algebra.Order.BigOperators.Group.Finset

/-! The proleptic Gregorian calendar. The number of a day is how many successors lead to it from the
first day of a year. -/

namespace XenOS.General

open Finset

namespace Gregorian

def IsLeap (y : ℕ) : Prop := (y % 4 = 0 ∧ y % 100 ≠ 0) ∨ y % 400 = 0

instance (y : ℕ) : Decidable (IsLeap y) := inferInstanceAs (Decidable (_ ∨ _))

def yearLength (y : ℕ) : ℕ := if IsLeap y then 366 else 365

def monthLength (y m : ℕ) : ℕ :=
  if m = 2 then if IsLeap y then 29 else 28
  else if m = 4 ∨ m = 6 ∨ m = 9 ∨ m = 11 then 30
  else 31

theorem monthLength_pos (y m : ℕ) : 0 < monthLength y m := by
  unfold monthLength
  split_ifs <;> omega

def daysBefore (y m : ℕ) : ℕ := ∑ i ∈ Ico 1 m, monthLength y i

theorem daysBefore_succ (y : ℕ) {m : ℕ} (h : 1 ≤ m) : daysBefore y (m + 1) = daysBefore y m + monthLength y m :=
  sum_Ico_succ_top h _

theorem daysBefore_mono (y : ℕ) {m m' : ℕ} (h : m ≤ m') : daysBefore y m ≤ daysBefore y m' :=
  sum_le_sum_of_subset (Ico_subset_Ico_right h)

theorem daysBefore_thirteen (y : ℕ) : daysBefore y 13 = yearLength y := by
  unfold yearLength
  split_ifs with hleap <;> simp [daysBefore, sum_Ico_eq_sum_range, sum_range_succ, monthLength, hleap]

end Gregorian

open Gregorian

@[ext] structure Date where
  year : ℕ
  month : ℕ
  day : ℕ
  month_pos : 1 ≤ month
  month_le : month ≤ 12
  day_pos : 1 ≤ day
  day_le : day ≤ monthLength year month

namespace Date
variable {d d' : Date} {e : ℕ}

def newYear (y : ℕ) : Date := ⟨y, 1, 1, by decide, by decide, by decide, monthLength_pos y 1⟩

/-- The day after. -/
def next (d : Date) : Date :=
  if hday : d.day + 1 ≤ monthLength d.year d.month then
    ⟨d.year, d.month, d.day + 1, d.month_pos, d.month_le, Nat.le_add_left 1 _, hday⟩
  else if hmonth : d.month + 1 ≤ 12 then
    ⟨d.year, d.month + 1, 1, Nat.le_add_left 1 _, hmonth, Nat.le_refl 1, monthLength_pos _ _⟩
  else newYear (d.year + 1)

def dayOfYear (d : Date) : ℕ := daysBefore d.year d.month + (d.day - 1)

/-- The days from the first day of the year `e` to this one. -/
def dayNumber (e : ℕ) (d : Date) : ℕ := ∑ y ∈ Ico e d.year, yearLength y + d.dayOfYear

theorem dayOfYear_lt (d : Date) : d.dayOfYear < yearLength d.year := by
  have hsucc := daysBefore_succ d.year d.month_pos
  have hmono := daysBefore_mono d.year (show d.month + 1 ≤ 13 by have := d.month_le; omega)
  have hyear := daysBefore_thirteen d.year
  have hpos := d.day_pos
  have hle := d.day_le
  unfold dayOfYear
  omega

@[simp] theorem dayOfYear_newYear (y : ℕ) : (newYear y).dayOfYear = 0 := by
  simp [dayOfYear, newYear, daysBefore]

@[simp] theorem dayNumber_newYear (e : ℕ) : (newYear e).dayNumber e = 0 := by
  have hyear : (newYear e).year = e := rfl
  rw [dayNumber, dayOfYear_newYear, hyear, Ico_self, sum_empty]

theorem year_le_next (d : Date) : d.year ≤ d.next.year := by
  unfold next
  split_ifs
  · exact Nat.le_refl _
  · exact Nat.le_refl _
  · exact Nat.le_succ _

theorem dayNumber_next (h : e ≤ d.year) : d.next.dayNumber e = d.dayNumber e + 1 := by
  have hpos := d.day_pos
  have hmonth := d.month_pos
  have hle := d.day_le
  unfold next
  split_ifs with hday hlast
  · simp only [dayNumber, dayOfYear]
    omega
  · -- the first of the next month
    have hsucc := daysBefore_succ d.year hmonth
    simp only [dayNumber, dayOfYear, hsucc]
    omega
  · -- the first of the next year
    have hdecember : d.month = 12 := by
      have := d.month_le
      omega
    have hlength : d.dayOfYear + 1 = yearLength d.year := by
      rw [← daysBefore_thirteen, daysBefore_succ _ (by decide : 1 ≤ 12)]
      rw [hdecember] at hday hle
      unfold dayOfYear
      rw [hdecember]
      omega
    have hyear : (newYear (d.year + 1)).year = d.year + 1 := rfl
    simp only [dayNumber, dayOfYear_newYear, hyear, sum_Ico_succ_top h]
    omega

/-- A day is before another one. -/
def Before (d d' : Date) : Prop :=
  d.year < d'.year ∨ d.year = d'.year ∧ (d.month < d'.month ∨ d.month = d'.month ∧ d.day < d'.day)

theorem dayNumber_lt (he : e ≤ d.year) (h : d.Before d') : d.dayNumber e < d'.dayNumber e := by
  rcases h with hyear | ⟨hyear, hmonth | ⟨hmonth, hday⟩⟩
  · have hlt := d.dayOfYear_lt
    have hsum : ∑ y ∈ Ico e (d.year + 1), yearLength y ≤ ∑ y ∈ Ico e d'.year, yearLength y :=
      sum_le_sum_of_subset (Ico_subset_Ico_right hyear)
    rw [sum_Ico_succ_top he] at hsum
    unfold dayNumber
    omega
  · have hsucc := daysBefore_succ d.year d.month_pos
    have hmono := daysBefore_mono d.year (show d.month + 1 ≤ d'.month from hmonth)
    have hpos := d.day_pos
    have hle := d.day_le
    simp only [dayNumber, dayOfYear, ← hyear]
    omega
  · have hpos := d.day_pos
    simp only [dayNumber, dayOfYear, ← hyear, ← hmonth]
    omega

theorem eq_or_before (d d' : Date) : d = d' ∨ d.Before d' ∨ d'.Before d := by
  unfold Before
  rcases Nat.lt_trichotomy d.year d'.year with hyear | hyear | hyear
  · omega
  · rcases Nat.lt_trichotomy d.month d'.month with hmonth | hmonth | hmonth
    · omega
    · rcases Nat.lt_trichotomy d.day d'.day with hday | hday | hday
      · omega
      · exact Or.inl (Date.ext hyear hmonth hday)
      · omega
    · omega
  · omega

theorem dayNumber_inj (hd : e ≤ d.year) (hd' : e ≤ d'.year) (h : d.dayNumber e = d'.dayNumber e) : d = d' := by
  rcases eq_or_before d d' with heq | hbefore | hbefore
  · exact heq
  · exact absurd h (dayNumber_lt hd hbefore).ne
  · exact absurd h (dayNumber_lt hd' hbefore).ne'

/-- The day that `n` successors lead to. -/
def after (e n : ℕ) : Date := next^[n] (newYear e)

theorem after_succ (e n : ℕ) : after e (n + 1) = (after e n).next := Function.iterate_succ_apply' _ _ _

theorem year_le_after (e n : ℕ) : e ≤ (after e n).year := by
  induction n with
  | zero => exact Nat.le_refl e
  | succ n ih =>
    rw [after_succ]
    exact ih.trans (year_le_next _)

@[simp] theorem dayNumber_after (e n : ℕ) : (after e n).dayNumber e = n := by
  induction n with
  | zero => exact dayNumber_newYear e
  | succ n ih => rw [after_succ, dayNumber_next (year_le_after e n), ih]

theorem after_dayNumber (h : e ≤ d.year) : after e (d.dayNumber e) = d :=
  dayNumber_inj (year_le_after _ _) h (dayNumber_after e _)

end Date

end XenOS.General
