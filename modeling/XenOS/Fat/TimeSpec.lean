import XenOS.Fat.Time
import Mathlib.Tactic.Linarith

/-! The time stamps are the calendar: the count of a date and a time is that of its day, and back. -/

namespace XenOS.Fat

open General Gregorian Finset Nat Date
open Option (bind_eq_bind bind_some some_ne_none)
open BitVec (ofInt_natCast toNat_ofNat toNat_or toNat_shiftLeft toNat_ushiftRight)

/-! ### Words -/

def yearOf (date : BitVec 16) : ℕ := 1980 + date.toNat / 512
def monthOf (date : BitVec 16) : ℕ := date.toNat / 32 % 16
def dayOf (date : BitVec 16) : ℕ := date.toNat % 32
def hoursOf (time : BitVec 16) : ℕ := time.toNat / 2048
def minutesOf (time : BitVec 16) : ℕ := time.toNat / 32 % 64

/-- The count of two seconds. -/
def halvesOf (time : BitVec 16) : ℕ := time.toNat % 32

def secondsOf (time : BitVec 16) : ℕ := hoursOf time * 3600 + minutesOf time * 60 + halvesOf time * 2

structure ValidDate (date : BitVec 16) : Prop where
  month_pos : 1 ≤ monthOf date
  month_le : monthOf date ≤ 12
  day_pos : 1 ≤ dayOf date
  day_le : dayOf date ≤ monthLength (yearOf date) (monthOf date)

structure ValidTime (time : BitVec 16) : Prop where
  hours : hoursOf time < 24
  minutes : minutesOf time < 60
  halves : halvesOf time < 30

def ValidDate.toDate {date : BitVec 16} (h : ValidDate date) : Date :=
  ⟨yearOf date, monthOf date, dayOf date, h.month_pos, h.month_le, h.day_pos, h.day_le⟩

section Words
variable {date time a b c : BitVec 16}

theorem toNat_and_mask (x : BitVec 16) (n : ℕ) (hn : n ≤ 16) : (x &&& BitVec.ofNat 16 (2 ^ n - 1)).toNat = x.toNat % 2 ^ n := by
  have hlt : 2 ^ n - 1 < 2 ^ 16 := by
    have := Nat.pow_le_pow_right (show 0 < 2 by decide) hn
    omega
  rw [BitVec.toNat_and, toNat_ofNat, Nat.mod_eq_of_lt hlt, Nat.and_two_pow_sub_one_eq_mod]

theorem dayOf_eq : (date &&& 0x1F).toNat = dayOf date := toNat_and_mask date 5 (by decide)

theorem monthOf_eq : ((date >>> 5) &&& 0x0F).toNat = monthOf date := by
  refine (toNat_and_mask (date >>> 5) 4 (by decide)).trans ?_
  rw [toNat_ushiftRight, shiftRight_eq_div_pow]
  rfl

theorem yearOf_eq : (((date >>> 9) &&& 0x7F).toNat : ℤ) + fatEpochYear = yearOf date := by
  have hlt := date.isLt
  have heq : ((date >>> 9) &&& 0x7F).toNat = date.toNat / 512 := by
    refine (toNat_and_mask (date >>> 9) 7 (by decide)).trans ?_
    rw [toNat_ushiftRight, shiftRight_eq_div_pow]
    omega
  rw [heq, yearOf, fatEpochYear]
  omega

theorem hoursOf_eq : ((time >>> 11) &&& 0x1F).toNat = hoursOf time := by
  have hlt := time.isLt
  refine (toNat_and_mask (time >>> 11) 5 (by decide)).trans ?_
  rw [toNat_ushiftRight, shiftRight_eq_div_pow, hoursOf]
  omega

theorem minutesOf_eq : ((time >>> 5) &&& 0x3F).toNat = minutesOf time := by
  refine (toNat_and_mask (time >>> 5) 6 (by decide)).trans ?_
  rw [toNat_ushiftRight, shiftRight_eq_div_pow]
  rfl

theorem halvesOf_eq : (time &&& 0x1F).toNat = halvesOf time := toNat_and_mask time 5 (by decide)

theorem or_fields {i x y z : ℕ} (hy : y < 2 ^ i) (hz : z < 2 ^ 5) : x <<< (i + 5) ||| y <<< 5 ||| z = (x * 2 ^ i + y) * 2 ^ 5 + z := by
  have hhigh : x <<< (i + 5) ||| y <<< 5 = (x * 2 ^ i + y) <<< 5 := by
    rw [shiftLeft_add, ← shiftLeft_or_distrib, ← shiftLeft_add_eq_or_of_lt hy, shiftLeft_eq x]
  rw [hhigh, ← shiftLeft_add_eq_or_of_lt hz, shiftLeft_eq]

theorem toNat_packDate {x y z : ℕ} (ha : a.toNat = x) (hb : b.toNat = y) (hc : c.toNat = z) (hx : x < 128) (hy : y < 16) (hz : z < 32) :
    (packDate a b c).toNat = x * 512 + y * 32 + z := by
  have hyear : (a &&& 0x7F).toNat = x := by
    refine (toNat_and_mask a 7 (by decide)).trans ?_
    omega
  have hmonth : (b &&& 0x0F).toNat = y := by
    refine (toNat_and_mask b 4 (by decide)).trans ?_
    omega
  have hday : (c &&& 0x1F).toNat = z := by
    refine (toNat_and_mask c 5 (by decide)).trans ?_
    omega
  rw [packDate, toNat_or, toNat_or, toNat_shiftLeft, toNat_shiftLeft, hyear, hmonth, hday, shiftLeft_eq x,
    shiftLeft_eq y, mod_eq_of_lt (by omega), mod_eq_of_lt (by omega), ← shiftLeft_eq x, ← shiftLeft_eq y]
  refine (or_fields (i := 4) hy hz).trans ?_
  omega

theorem toNat_packTime {x y z : ℕ} (ha : a.toNat = x) (hb : b.toNat = y) (hc : c.toNat = z) (hx : x < 32) (hy : y < 64) (hz : z < 64) :
    (packTime a b c).toNat = x * 2048 + y * 32 + z / 2 := by
  have hhours : (a &&& 0x1F).toNat = x := by
    refine (toNat_and_mask a 5 (by decide)).trans ?_
    omega
  have hminutes : (b &&& 0x3F).toNat = y := by
    refine (toNat_and_mask b 6 (by decide)).trans ?_
    omega
  have hhalves : (c / 2 &&& 0x1F).toNat = z / 2 := by
    refine (toNat_and_mask (c / 2) 5 (by decide)).trans ?_
    have hdiv : (c / 2).toNat = c.toNat / 2 := BitVec.toNat_udiv
    omega
  rw [packTime, toNat_or, toNat_or, toNat_shiftLeft, toNat_shiftLeft, hhours, hminutes, hhalves,
    shiftLeft_eq x, shiftLeft_eq y, mod_eq_of_lt (by omega), mod_eq_of_lt (by omega), ← shiftLeft_eq x,
    ← shiftLeft_eq y]
  refine (or_fields (i := 6) hy (by omega)).trans ?_
  omega

end Words

/-! ### Days -/

section Days
variable {y m : ℕ}

theorem isLeapYear_eq (y : ℕ) : isLeapYear y = decide (IsLeap y) := by
  have hmod : ∀ n : ℕ, ((y : ℤ).tmod n == 0) = decide (y % n = 0) := by
    intro n
    rw [← Int.ofNat_tmod, beq_eq_decide]
    exact decide_eq_decide.2 Int.natCast_eq_zero
  have hfour := hmod 4
  have hhundred := hmod 100
  have hfourHundred := hmod 400
  simp only [cast_ofNat] at hfour hhundred hfourHundred
  rw [isLeapYear, bne, hfour, hhundred, hfourHundred, Bool.eq_iff_iff, decide_eq_true_iff]
  simp [IsLeap]

theorem daysInMonth_eq (hm : 1 ≤ m) (hle : m ≤ 12) : daysInMonth y m = monthLength y m := by
  unfold daysInMonth monthLength
  rw [isLeapYear_eq]
  interval_cases m <;> simp [apply_ite]

theorem monthLength_le (y m : ℕ) : monthLength y m ≤ 31 := by
  unfold monthLength
  split_ifs <;> omega

theorem yearLength_bounds (y : ℕ) : 365 ≤ yearLength y ∧ yearLength y ≤ 366 := by
  unfold yearLength
  split_ifs <;> omega

theorem sum_yearLength (h : 1601 ≤ y) :
    ∑ i ∈ Ico 1601 y, yearLength i + 388 = (y - 1601) * 365 + ((y - 1) / 4 - (y - 1) / 100 + (y - 1) / 400) := by
  induction y, h using le_induction with
  | base => simp
  | succ y hy ih =>
    have hlength : yearLength y = if IsLeap y then 366 else 365 := rfl
    rw [sum_Ico_succ_top hy, hlength]
    split_ifs with hleap
    · unfold IsLeap at hleap
      omega
    · unfold IsLeap at hleap
      omega

theorem leapsBefore_eq (hy : 1 ≤ y) (hlt : y < 2 ^ 31) : leapsBefore y = some ↑((y - 1) / 4 - (y - 1) / 100 + (y - 1) / 400) := by
  have hlast : (y : ℤ) - 1 = ↑(y - 1) := by omega
  have hdiv : ∀ n : ℕ, ((y - 1 : ℕ) : ℤ).tdiv n = ↑((y - 1) / n) := fun n => (Int.ofNat_tdiv _ _).symm
  have hfour := hdiv 4
  have hhundred := hdiv 100
  have hfourHundred := hdiv 400
  simp only [cast_ofNat] at hfour hhundred hfourHundred
  rw [leapsBefore, hlast, i32_eq (by omega), bind_eq_bind, bind_some, hfour, hhundred, hfourHundred, i32_eq (by omega)]
  refine (i32_eq (by omega)).trans (congrArg some ?_)
  omega

theorem foldl_daysInMonth (y : ℕ) {k : ℕ} (hk : k ≤ 12) :
    (List.range' 1 k).foldlM (fun acc (m : ℕ) => i32 (acc + daysInMonth y m)) 0 = some (daysBefore y (k + 1) : ℤ) := by
  induction k with
  | zero => simp [daysBefore]
  | succ k ih =>
    have hsucc := daysBefore_succ y (le_add_left 1 k)
    have hle : daysBefore y (k + 1) ≤ 366 := by
      have := daysBefore_mono y (show k + 1 ≤ 13 by omega)
      rw [daysBefore_thirteen] at this
      exact this.trans (yearLength_bounds y).2
    have hmonth := monthLength_le y (k + 1)
    have hdays : daysInMonth y ↑(1 + 1 * k) = monthLength y (k + 1) := by
      rw [one_mul, add_comm]
      exact daysInMonth_eq (le_add_left 1 k) hk
    have hstep : i32 (daysBefore y (k + 1) + monthLength y (k + 1)) = some (daysBefore y (k + 1 + 1) : ℤ) := by
      rw [i32_eq (by omega), hsucc]
      rfl
    rw [List.range'_concat, List.foldlM_append, ih (le_of_succ_le hk), bind_eq_bind, bind_some, List.foldlM_cons, hdays,
      hstep]
    rfl

theorem daysSince1601_eq (d : Date) (hlow : 1601 ≤ d.year) (hhigh : d.year < 2 ^ 20) :
    daysSince1601 d.year d.month d.day = some (d.dayNumber 1601 : ℤ) := by
  have hsum := sum_yearLength hlow
  have hmonth := d.month_pos
  have hmonth' := d.month_le
  have hday := d.day_pos
  have hday' := d.day_le.trans (monthLength_le _ _)
  have hbefore : daysBefore d.year d.month ≤ 366 := by
    have := daysBefore_mono d.year (show d.month ≤ 13 by omega)
    rw [daysBefore_thirteen] at this
    exact this.trans (yearLength_bounds d.year).2
  have hfold := foldl_daysInMonth d.year (show d.month - 1 ≤ 12 by omega)
  rw [Nat.sub_add_cancel hmonth] at hfold
  have hcount : ((d.month : ℤ) - 1).toNat = d.month - 1 := by omega
  have hleaps : countLeapYears 1601 d.year = some ↑((d.year - 1) / 4 - (d.year - 1) / 100 + (d.year - 1) / 400 - 388) := by
    unfold countLeapYears
    split_ifs with hle
    · have heq : d.year = 1601 := by omega
      rw [heq]
      rfl
    · have hstart := leapsBefore_eq (show 1 ≤ 1601 by decide) (by decide)
      rw [leapsBefore_eq (by omega) (by omega), show ((1601 : ℤ)) = ((1601 : ℕ) : ℤ) from rfl, hstart]
      simp only [bind_eq_bind, bind_some]
      refine (i32_eq (by omega)).trans (congrArg some ?_)
      omega
  unfold daysSince1601
  simp only [hleaps, hcount, hfold, bind_eq_bind, bind_some]
  rw [i32_eq (by omega), bind_some, i64_eq (by omega), bind_some, i64_eq (by omega), bind_some, i64_eq (by omega),
    bind_some, i64_eq (by omega), bind_some]
  refine (i64_eq (by omega)).trans (congrArg some ?_)
  unfold dayNumber dayOfYear
  omega

theorem findYear_spec (r : ℕ) (hy : 1601 ≤ y) (hlt : y + r < 2147483647) : ∃ y' r' : ℕ, findYear y r = some ((y' : ℤ), (r' : ℤ)) ∧ y ≤ y' ∧
    r' < yearLength y' ∧ ∑ i ∈ Ico 1601 y', yearLength i + r' = ∑ i ∈ Ico 1601 y, yearLength i + r := by
  induction r using Nat.strong_induction_on generalizing y with
  | _ r ih =>
    have hlength : (if isLeapYear y then 366 else 365 : ℤ) = yearLength y := by
      rw [isLeapYear_eq, yearLength]
      simp [apply_ite]
    have hbounds := yearLength_bounds y
    rw [findYear]
    simp only [hlength]
    by_cases hr : r < yearLength y
    · rw [if_pos (by omega)]
      exact ⟨y, r, rfl, Nat.le_refl y, hr, rfl⟩
    · have hnext : (y : ℤ) + 1 = ↑(y + 1) := rfl
      have hrest : (r : ℤ) - yearLength y = ↑(r - yearLength y) := by omega
      rw [if_neg (by omega), i32_eq (by omega), hnext, hrest]
      obtain ⟨y', r', hfind, hle, hlt', hsum⟩ := ih (r - yearLength y) (by omega) (y := y + 1) (by omega) (by omega)
      refine ⟨y', r', hfind, by omega, hlt', hsum.trans ?_⟩
      rw [sum_Ico_succ_top hy]
      omega

theorem findMonth_spec {n : ℕ} (hn : n < yearLength y) {k : ℕ} (hk : m + k = 13) (hm : 1 ≤ m) {rest : ℕ} (hpos : 1 ≤ rest)
    (hrest : daysBefore y m + rest = n + 1) :
    ∃ m' d, findMonth y (List.range' m k) rest m = some (BitVec.ofNat 16 m', BitVec.ofNat 16 d) ∧ 1 ≤ m' ∧ m' ≤ 12 ∧ 1 ≤ d ∧
      d ≤ monthLength y m' ∧ daysBefore y m' + d = n + 1 := by
  induction k generalizing m rest with
  | zero =>
    obtain rfl : m = 13 := hk
    rw [daysBefore_thirteen] at hrest
    omega
  | succ k ih =>
    have hlength := yearLength_bounds y
    have hdays : daysInMonth y m = monthLength y m := daysInMonth_eq hm (by omega)
    rw [List.range'_succ, findMonth]
    simp only [hdays]
    by_cases hfits : rest ≤ monthLength y m
    · rw [if_pos (by omega), ofInt_natCast]
      exact ⟨m, rest, rfl, hm, by omega, hpos, hfits, hrest⟩
    · have hnext : (rest : ℤ) - monthLength y m = ↑(rest - monthLength y m) := by omega
      rw [if_neg (by omega), i32_eq (by omega), bind_eq_bind, bind_some, u16_eq (by omega), bind_eq_bind,
        bind_some, hnext]
      refine ih (by omega) (by omega) (by omega) ?_
      rw [daysBefore_succ y hm]
      omega

theorem dayOfYearToMonthDay_spec {n : ℕ} (hn : n < yearLength y) :
    ∃ m d, dayOfYearToMonthDay n y = some (BitVec.ofNat 16 m, BitVec.ofNat 16 d) ∧ 1 ≤ m ∧ m ≤ 12 ∧ 1 ≤ d ∧ d ≤ monthLength y m ∧
      daysBefore y m + d = n + 1 := by
  have hlength := yearLength_bounds y
  have hfirst : (n : ℤ) + 1 = ↑(n + 1) := rfl
  rw [dayOfYearToMonthDay, i32_eq (by omega), bind_eq_bind, bind_some, hfirst]
  exact findMonth_spec hn rfl (le_refl 1) (le_add_left 1 n) (by simp [daysBefore])

theorem filetimeToDosDatetime_eq {f : ℕ} (hpos : 0 < f) (hlt : f < 2 ^ 63) :
    filetimeToDosDatetime f =
      if (after 1601 (f / 864000000000)).year < 1980 then some (0x0021, 0)
      else if 2107 < (after 1601 (f / 864000000000)).year then some (0xFFFF, 0xFFFF)
      else some
        (packDate (BitVec.ofNat 16 ((after 1601 (f / 864000000000)).year - 1980))
          (BitVec.ofNat 16 (after 1601 (f / 864000000000)).month) (BitVec.ofNat 16 (after 1601 (f / 864000000000)).day),
          packTime (BitVec.ofNat 16 (f % 864000000000 / 10000000 / 3600)) (BitVec.ofNat 16 (f % 864000000000 / 10000000 % 3600 / 60))
            (BitVec.ofNat 16 (f % 864000000000 / 10000000 % 60))) := by
  obtain ⟨y, r, hfind, hyear, hr, hsum⟩ := findYear_spec (y := 1601) (f / 864000000000) (le_refl 1601) (by omega)
  obtain ⟨m, d, hmonth, hm, hm', hd, hd', hday⟩ := dayOfYearToMonthDay_spec hr
  have hafter : after 1601 (f / 864000000000) = ⟨y, m, d, hm, hm', hd, hd'⟩ := by
    have hnumber : dayNumber 1601 ⟨y, m, d, hm, hm', hd, hd'⟩ = f / 864000000000 := by
      rw [Ico_self, sum_empty, zero_add] at hsum
      simp only [dayNumber, dayOfYear]
      omega
    rw [← hnumber]
    exact after_dayNumber hyear
  have hlength := yearLength_bounds y
  have hbound : (y - 1601) * 365 ≤ f / 864000000000 + 388 := by
    have := sum_yearLength hyear
    rw [Ico_self, sum_empty, zero_add] at hsum
    omega
  have hperDay : filetimePerDay = ((864000000000 : ℕ) : ℤ) := rfl
  have hmod : (r : ℤ).bmod (2 ^ 32) = r := Int.bmod_eq_of_le (by omega) (by omega)
  have hseconds : ∀ n : ℕ, ((n : ℤ).tdiv 10000000) = ↑(n / 10000000) := fun n => (Int.ofNat_tdiv n 10000000).symm
  have hhours : ∀ n : ℕ, ((n : ℤ).tdiv 3600) = ↑(n / 3600) := fun n => (Int.ofNat_tdiv n 3600).symm
  have hrest : ∀ n : ℕ, ((n : ℤ).tmod 3600) = ↑(n % 3600) := fun n => (Int.ofNat_tmod n 3600).symm
  have hminutes : ∀ n : ℕ, ((n : ℤ).tdiv 60) = ↑(n / 60) := fun n => (Int.ofNat_tdiv n 60).symm
  have hlast : ∀ n : ℕ, ((n : ℤ).tmod 60) = ↑(n % 60) := fun n => (Int.ofNat_tmod n 60).symm
  rw [hafter, filetimeToDosDatetime, if_neg (by omega), hperDay, ← Int.ofNat_tdiv, ← Int.ofNat_tmod]
  have hfind' : findYear 1601 ↑(f / 864000000000) = some ((y : ℤ), (r : ℤ)) := hfind
  simp only [hfind', bind_eq_bind, bind_some, hmod, hmonth, hseconds, hhours, hrest, hminutes, hlast, ofInt_natCast,
    fatEpochYear, Option.pure_def]
  by_cases hearly : y < 1980
  · rw [if_pos (by omega), if_pos hearly]
  · have hfat : (y : ℤ) - 1980 = ↑(y - 1980) := by omega
    rw [if_neg (by omega), if_neg hearly, i32_eq (by omega), bind_some, hfat, ofInt_natCast, toNat_ofNat,
      mod_eq_of_lt (by omega)]
    by_cases hlate : 2107 < y
    · rw [if_pos (by omega), if_pos hlate]
    · rw [if_neg (by omega), if_neg hlate]

end Days

/-! ### Stamps -/

section Stamps
variable {date time : BitVec 16}

theorem year_bounds (date : BitVec 16) : 1980 ≤ yearOf date ∧ yearOf date ≤ 2107 := by
  have := date.isLt
  unfold yearOf
  omega

theorem date_eq (date : BitVec 16) : date.toNat = (yearOf date - 1980) * 512 + monthOf date * 32 + dayOf date := by
  unfold yearOf monthOf dayOf
  omega

theorem time_eq (time : BitVec 16) : time.toNat = hoursOf time * 2048 + minutesOf time * 32 + halvesOf time := by
  unfold hoursOf minutesOf halvesOf
  omega

theorem ValidTime.secondsOf_lt (h : ValidTime time) : secondsOf time < 86400 := by
  have hhours := h.hours
  have hminutes := h.minutes
  have hhalves := h.halves
  unfold secondsOf
  omega

theorem secondsOf_lt_of_lt {time' : BitVec 16} (h : ValidTime time) (h' : ValidTime time') (hlt : time.toNat < time'.toNat) :
    secondsOf time < secondsOf time' := by
  have hminutes := h.minutes
  have hminutes' := h'.minutes
  have hhalves := h.halves
  have hhalves' := h'.halves
  rw [time_eq, time_eq time'] at hlt
  unfold secondsOf
  rcases lt_trichotomy (hoursOf time) (hoursOf time') with hhours | hhours | hhours
  · linarith
  · rcases lt_trichotomy (minutesOf time) (minutesOf time') with hless | hless | hless
    · linarith
    · linarith
    · linarith
  · linarith

theorem dayNumber_lt_of_valid (hd : ValidDate date) : hd.toDate.dayNumber 1601 < 200000 := by
  have hyear := year_bounds date
  have hsum := sum_yearLength (show 1601 ≤ yearOf date by omega)
  have hlt := hd.toDate.dayOfYear_lt
  have hlength := yearLength_bounds hd.toDate.year
  have hsame : hd.toDate.year = yearOf date := rfl
  unfold dayNumber
  rw [hsame] at *
  omega

theorem dosDatetimeToFiletime_eq (hd : ValidDate date) (ht : ValidTime time) :
    dosDatetimeToFiletime date time = some ↑(hd.toDate.dayNumber 1601 * 864000000000 + secondsOf time * 10000000) := by
  have hyear := year_bounds date
  have hdays := daysSince1601_eq hd.toDate (show 1601 ≤ yearOf date by omega) (show yearOf date < 2 ^ 20 by omega)
  have hnumber := dayNumber_lt_of_valid hd
  have hm := hd.month_pos
  have hm' := hd.month_le
  have hday := hd.day_pos
  have hday' := hd.day_le.trans (monthLength_le _ _)
  have hhours := ht.hours
  have hminutes := ht.minutes
  have hhalves := ht.halves
  have hdays' : daysSince1601 (yearOf date) (monthOf date) (dayOf date) = some (hd.toDate.dayNumber 1601 : ℤ) := hdays
  have hvalid : ¬ ((dayOf date : ℤ) < 1 ∨ (dayOf date : ℤ) > 31 ∨ (monthOf date : ℤ) < 1 ∨ (monthOf date : ℤ) > 12) := by omega
  rw [dosDatetimeToFiletime]
  have hword : (date &&& 0x1F).toNat = dayOf date := dayOf_eq
  have hword' : ((time >>> 11) &&& 0x1F).toNat = hoursOf time := hoursOf_eq
  have hword'' : (time &&& 0x1F).toNat = halvesOf time := halvesOf_eq
  simp only [hword, hword', hword'', monthOf_eq, yearOf_eq, minutesOf_eq, bind_eq_bind]
  rw [i32_eq (by omega), bind_some, u16_eq (by omega), bind_some, if_neg hvalid, hdays', bind_some, filetimePerDay]
  rw [i64_eq (by omega), bind_some, i64_eq (by omega), bind_some, i64_eq (by omega), bind_some, i64_eq (by omega),
    bind_some, i64_eq (by omega), bind_some, i64_eq (by omega), bind_some]
  refine (i64_eq (by omega)).trans (congrArg some ?_)
  unfold secondsOf
  omega

theorem toNat_ofNat16 : ∀ n : ℕ, n < 65536 → (BitVec.ofNat 16 n).toNat = n := fun n hn => (toNat_ofNat n 16).trans (mod_eq_of_lt hn)

theorem pack_eq (hd : ValidDate date) (ht : ValidTime time) {second : ℕ} (hsecond : second / 2 = secondsOf time / 2) :
    packDate (BitVec.ofNat 16 (yearOf date - 1980)) (BitVec.ofNat 16 (monthOf date)) (BitVec.ofNat 16 (dayOf date)) = date ∧
      packTime (BitVec.ofNat 16 (second / 3600)) (BitVec.ofNat 16 (second % 3600 / 60)) (BitVec.ofNat 16 (second % 60)) = time := by
  have hyear := year_bounds date
  have hm' := hd.month_le
  have hday' := hd.day_le.trans (monthLength_le _ _)
  have hhours := ht.hours
  have hminutes := ht.minutes
  have hhalves := ht.halves
  unfold secondsOf at hsecond
  constructor
  · refine BitVec.eq_of_toNat_eq ?_
    rw [toNat_packDate (toNat_ofNat16 _ (by omega)) (toNat_ofNat16 _ (by omega)) (toNat_ofNat16 _ (by omega)) (by omega) (by omega) (by omega), ← date_eq]
  · refine BitVec.eq_of_toNat_eq ?_
    rw [toNat_packTime (toNat_ofNat16 _ (by omega)) (toNat_ofNat16 _ (by omega)) (toNat_ofNat16 _ (by omega)) (by omega) (by omega) (by omega), time_eq time]
    omega

theorem valid_packDate (d : Date) (hlow : 1980 ≤ d.year) (hhigh : d.year ≤ 2107) :
    ∃ hd : ValidDate (packDate (BitVec.ofNat 16 (d.year - 1980)) (BitVec.ofNat 16 d.month) (BitVec.ofNat 16 d.day)), hd.toDate = d := by
  have hm := d.month_pos
  have hm' := d.month_le
  have hday := d.day_pos
  have hday' := d.day_le
  have hlength := monthLength_le d.year d.month
  have hword := toNat_packDate (toNat_ofNat16 (d.year - 1980) (by omega)) (toNat_ofNat16 d.month (by omega)) (toNat_ofNat16 d.day (by omega)) (by omega) (by omega)
    (by omega)
  generalize packDate (BitVec.ofNat 16 (d.year - 1980)) (BitVec.ofNat 16 d.month) (BitVec.ofNat 16 d.day) = date at *
  have hyear : yearOf date = d.year := by
    unfold yearOf
    omega
  have hmonth : monthOf date = d.month := by
    unfold monthOf
    omega
  have hday : dayOf date = d.day := by
    unfold dayOf
    omega
  refine ⟨⟨by omega, by omega, by omega, by rw [hyear, hmonth, hday]; exact hday'⟩, Date.ext hyear hmonth hday⟩

theorem valid_packTime {second : ℕ} (hlt : second < 86400) :
    ValidTime (packTime (BitVec.ofNat 16 (second / 3600)) (BitVec.ofNat 16 (second % 3600 / 60)) (BitVec.ofNat 16 (second % 60))) ∧
      secondsOf (packTime (BitVec.ofNat 16 (second / 3600)) (BitVec.ofNat 16 (second % 3600 / 60)) (BitVec.ofNat 16 (second % 60))) =
        second / 2 * 2 := by
  have hword := toNat_packTime (toNat_ofNat16 (second / 3600) (by omega)) (toNat_ofNat16 (second % 3600 / 60) (by omega)) (toNat_ofNat16 (second % 60) (by omega))
    (by omega) (by omega) (by omega)
  generalize packTime (BitVec.ofNat 16 (second / 3600)) (BitVec.ofNat 16 (second % 3600 / 60)) (BitVec.ofNat 16 (second % 60)) = time at *
  refine ⟨⟨?_, ?_, ?_⟩, ?_⟩
  · unfold hoursOf
    omega
  · unfold minutesOf
    omega
  · unfold halvesOf
    omega
  · unfold secondsOf hoursOf minutesOf halvesOf
    omega

theorem filetimeToDosDatetime_of_range {f : ℕ} (hlow : 1980 ≤ (after 1601 (f / 864000000000)).year)
    (hhigh : (after 1601 (f / 864000000000)).year ≤ 2107) (hlt : f < 2 ^ 63) :
    ∃ date time, filetimeToDosDatetime f = some (date, time) ∧ ValidTime time ∧ secondsOf time = f % 864000000000 / 10000000 / 2 * 2 ∧
      ∃ hd : ValidDate date, hd.toDate = after 1601 (f / 864000000000) := by
  have hpos : 0 < f := by
    rcases Nat.eq_zero_or_pos f with rfl | hpos
    · exact absurd hlow (by decide)
    · exact hpos
  obtain ⟨htime, hseconds⟩ := valid_packTime (show f % 864000000000 / 10000000 < 86400 by omega)
  refine ⟨_, _, ?_, htime, hseconds, valid_packDate _ hlow hhigh⟩
  rw [filetimeToDosDatetime_eq hpos hlt, if_neg (by omega), if_neg (by omega)]

theorem stamp_parts (hd : ValidDate date) (ht : ValidTime time) {f : ℕ}
    (hf : f = hd.toDate.dayNumber 1601 * 864000000000 + secondsOf time * 10000000) :
    after 1601 (f / 864000000000) = hd.toDate ∧ f % 864000000000 / 10000000 = secondsOf time ∧ f < 2 ^ 63 := by
  have hyear := year_bounds date
  have hsecond := ht.secondsOf_lt
  have hnumber := dayNumber_lt_of_valid hd
  have hdays : f / 864000000000 = hd.toDate.dayNumber 1601 := by omega
  rw [hdays]
  refine ⟨after_dayNumber (show 1601 ≤ yearOf date by omega), by omega, by omega⟩

end Stamps

/-- Valid stamps round-trip and grow; the count of a stamp is that of its day; a count in range
gives its day and its time to two seconds; no sum overflows. -/
theorem dosTime_exact :
    (∀ date time, ValidDate date → ValidTime time →
        (dosDatetimeToFiletime date time).bind filetimeToDosDatetime = some (date, time)) ∧
      (∀ date time date' time', ValidDate date → ValidTime time → ValidDate date' → ValidTime time' →
        (date < date' ∨ date = date' ∧ time < time') →
          ∃ f f', dosDatetimeToFiletime date time = some f ∧ dosDatetimeToFiletime date' time' = some f' ∧ f < f') ∧
      (∀ date time (hd : ValidDate date), ValidTime time → ∃ n, after 1601 n = hd.toDate ∧
        dosDatetimeToFiletime date time = some ↑((n * 86400 + secondsOf time) * 10000000)) ∧
      (∀ f : ℕ, f < 2 ^ 63 → 1980 ≤ (after 1601 (f / 10000000 / 86400)).year → (after 1601 (f / 10000000 / 86400)).year ≤ 2107 →
        ∃ date time, filetimeToDosDatetime f = some (date, time) ∧ ValidTime time ∧ secondsOf time = f / 10000000 % 86400 / 2 * 2 ∧
          ∃ hd : ValidDate date, hd.toDate = after 1601 (f / 10000000 / 86400)) ∧
      (∀ f : ℤ, -2 ^ 63 ≤ f → f < 2 ^ 63 → filetimeToDosDatetime f ≠ none) := by
  refine ⟨fun date time hd ht => ?_, fun date time date' time' hd ht hd' ht' hlt => ?_, fun date time hd ht => ?_,
    fun f hlt hlow hhigh => ?_, fun f _ hlt => ?_⟩
  · obtain ⟨hday, hsecond, hbound⟩ := stamp_parts hd ht rfl
    have hyear := year_bounds date
    have hsame : (hd.toDate).year = yearOf date := rfl
    have hpack := pack_eq hd ht (show secondsOf time / 2 = secondsOf time / 2 from rfl)
    rw [dosDatetimeToFiletime_eq hd ht, bind_some]
    generalize hd.toDate.dayNumber 1601 * 864000000000 + secondsOf time * 10000000 = f at *
    have hpos : 0 < f := by
      rcases Nat.eq_zero_or_pos f with rfl | hpos
      · have hfirst : (after 1601 (0 / 864000000000)).year = 1601 := by decide
        rw [hday, hsame] at hfirst
        omega
      · exact hpos
    rw [filetimeToDosDatetime_eq hpos hbound, hday, hsecond, hsame, if_neg (by omega), if_neg (by omega)]
    exact congrArg some (Prod.ext hpack.1 hpack.2)
  · refine ⟨_, _, dosDatetimeToFiletime_eq hd ht, dosDatetimeToFiletime_eq hd' ht', Int.ofNat_lt.2 ?_⟩
    have hsecond := ht.secondsOf_lt
    have hyear := year_bounds date
    rcases hlt with hlt | ⟨rfl, hlt⟩
    · have hbefore : hd.toDate.Before hd'.toDate := by
        have hwords : date.toNat < date'.toNat := hlt
        have hday := hd.day_le.trans (monthLength_le _ _)
        have hday' := hd'.day_le.trans (monthLength_le _ _)
        have hm := hd.month_le
        have hm' := hd'.month_le
        have hyear' := year_bounds date'
        rw [date_eq, date_eq date'] at hwords
        simp only [Before, ValidDate.toDate]
        omega
      have := dayNumber_lt (show 1601 ≤ yearOf date by omega) hbefore
      omega
    · have hseconds := secondsOf_lt_of_lt ht ht' hlt
      exact Nat.add_lt_add_left (Nat.mul_lt_mul_of_pos_right hseconds (by decide)) _
  · have hyear := year_bounds date
    refine ⟨hd.toDate.dayNumber 1601, after_dayNumber (show 1601 ≤ yearOf date by omega), ?_⟩
    rw [dosDatetimeToFiletime_eq hd ht]
    have hsum : hd.toDate.dayNumber 1601 * 864000000000 + secondsOf time * 10000000 =
        (hd.toDate.dayNumber 1601 * 86400 + secondsOf time) * 10000000 := by omega
    rw [hsum]
  · have hdays : f / 10000000 / 86400 = f / 864000000000 := by omega
    have hrest : f / 10000000 % 86400 = f % 864000000000 / 10000000 := by omega
    rw [hdays] at hlow hhigh ⊢
    rw [hrest]
    exact filetimeToDosDatetime_of_range hlow hhigh hlt
  · by_cases hpos : f ≤ 0
    · rw [filetimeToDosDatetime, if_pos hpos]
      exact some_ne_none _
    · obtain ⟨n, rfl⟩ := Int.eq_ofNat_of_zero_le (show 0 ≤ f by omega)
      rw [filetimeToDosDatetime_eq (by omega) (by omega)]
      split_ifs <;> exact some_ne_none _

/-- The last day of February 2000, a leap year. -/
theorem dosTime_leapDay :
    (dosDatetimeToFiletime 0x285D 0xBF7D).bind filetimeToDosDatetime = some (0x285D, 0xBF7D) ∧
      ∃ f f', dosDatetimeToFiletime 0x285D 0xBF7D = some f ∧ dosDatetimeToFiletime 0x2861 0 = some f' ∧ f < f' := by
  have hd : ValidDate 0x285D := ⟨by decide, by decide, by decide, by decide⟩
  have ht : ValidTime 0xBF7D := ⟨by decide, by decide, by decide⟩
  have hd' : ValidDate 0x2861 := ⟨by decide, by decide, by decide, by decide⟩
  have ht' : ValidTime 0 := ⟨by decide, by decide, by decide⟩
  exact ⟨dosTime_exact.1 _ _ hd ht, dosTime_exact.2.1 _ _ _ _ hd ht hd' ht' (Or.inl (by decide))⟩

end XenOS.Fat
