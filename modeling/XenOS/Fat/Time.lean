import XenOS.General.Checked
import XenOS.General.Gregorian
import Mathlib.Tactic.IntervalCases

/-! The time stamps of `fat32/src/time.rs`: DOS dates and times to counts of 100 ns since 1601 and back. The arithmetic is
checked. -/

namespace XenOS.Fat

open General

def fatEpochYear : ℤ := 1980
def filetimePerDay : ℤ := 24 * 60 * 60 * 10000000

def isLeapYear (year : ℤ) : Bool := (year.tmod 4 == 0 && year.tmod 100 != 0) || year.tmod 400 == 0

/-- The leap years before a year, in the count of `count_leap_years`. -/
def leapsBefore (year : ℤ) : Option ℤ := do
  let last ← i32 (year - 1)
  let count ← i32 (last.tdiv 4 - last.tdiv 100)
  i32 (count + last.tdiv 400)

def countLeapYears (start stop : ℤ) : Option ℤ :=
  if stop ≤ start then some 0
  else do
    let countBeforeEnd ← leapsBefore stop
    let countBeforeStart ← leapsBefore start
    i32 (countBeforeEnd - countBeforeStart)

def daysInMonth (year month : ℤ) : ℤ :=
  if month ∈ [1, 3, 5, 7, 8, 10, 12] then 31
  else if month ∈ [4, 6, 9, 11] then 30
  else if month = 2 then if isLeapYear year then 29 else 28
  else 0

def daysSince1601 (year month day : ℤ) : Option ℤ := do
  let yearsSince1601 ← i32 (year - 1601)
  let leapYears ← countLeapYears 1601 year
  let days ← i64 (yearsSince1601 * 365)
  let days ← i64 (days + leapYears)
  let daysInYear ← (List.range' 1 (month - 1).toNat).foldlM (fun acc (m : ℕ) => i32 (acc + daysInMonth year m)) 0
  let days ← i64 (days + daysInYear)
  let days ← i64 (days + day)
  i64 (days - 1)

def dosDatetimeToFiletime (date time : BitVec 16) : Option ℤ := do
  let day : ℤ := (date &&& 0x1F).toNat
  let month : ℤ := ((date >>> 5) &&& 0x0F).toNat
  let year ← i32 (((date >>> 9) &&& 0x7F).toNat + fatEpochYear)
  let seconds ← u16 ((time &&& 0x1F).toNat * 2)
  let minutes : ℤ := ((time >>> 5) &&& 0x3F).toNat
  let hours : ℤ := ((time >>> 11) &&& 0x1F).toNat
  if day < 1 ∨ day > 31 ∨ month < 1 ∨ month > 12 then return 0
  else do
    let daysFrom1601 ← daysSince1601 year month day
    let filetime ← i64 (daysFrom1601 * filetimePerDay)
    let hourSeconds ← i64 (hours * 3600)
    let minuteSeconds ← i64 (minutes * 60)
    let sum ← i64 (hourSeconds + minuteSeconds)
    let sum ← i64 (sum + seconds)
    let ticks ← i64 (sum * 10000000)
    i64 (filetime + ticks)

/-- The loop of `filetime_to_dos_datetime` over the years. -/
def findYear (year remainingDays : ℤ) : Option (ℤ × ℤ) :=
  let daysInYear := if isLeapYear year then 366 else 365
  if remainingDays < daysInYear then some (year, remainingDays)
  else
    match i32 (year + 1) with
    | none => none
    | some year => findYear year (remainingDays - daysInYear)
termination_by remainingDays.toNat
decreasing_by
  simp only [daysInYear] at *
  split_ifs at * <;> omega

/-- The loop of `day_of_year_to_month_day` over the months. -/
def findMonth (year : ℤ) : List ℕ → ℤ → ℕ → Option (BitVec 16 × BitVec 16)
  | [], _, _ => some (12, 31)
  | m :: ms, remaining, month =>
    let days := daysInMonth year m
    if remaining ≤ days then some (BitVec.ofNat 16 month, BitVec.ofInt 16 remaining)
    else do
      let remaining ← i32 (remaining - days)
      let month ← u16 (month + 1)
      findMonth year ms remaining month

def dayOfYearToMonthDay (dayOfYear year : ℤ) : Option (BitVec 16 × BitVec 16) := do
  let remaining ← i32 (dayOfYear + 1)
  findMonth year (List.range' 1 12) remaining 1

def packDate (fatYear month day : BitVec 16) : BitVec 16 := ((fatYear &&& 0x7F) <<< 9) ||| ((month &&& 0x0F) <<< 5) ||| (day &&& 0x1F)

def packTime (hours minutes seconds : BitVec 16) : BitVec 16 :=
  ((hours &&& 0x1F) <<< 11) ||| ((minutes &&& 0x3F) <<< 5) ||| ((seconds / 2) &&& 0x1F)

def filetimeToDosDatetime (filetime : ℤ) : Option (BitVec 16 × BitVec 16) :=
  if filetime ≤ 0 then some (0x0021, 0)
  else do
    let totalDays := filetime.tdiv filetimePerDay
    let dayRemainder := filetime.tmod filetimePerDay
    let totalSeconds := dayRemainder.tdiv 10000000
    let (year, remainingDays) ← findYear 1601 totalDays
    if year < fatEpochYear then return (0x0021, 0)
    else do
      let fatYear ← i32 (year - fatEpochYear)
      let fatYear := BitVec.ofInt 16 fatYear
      if 127 < fatYear.toNat then return (0xFFFF, 0xFFFF)
      else do
        let (month, day) ← dayOfYearToMonthDay (remainingDays.bmod (2 ^ 32)) year
        let hours := BitVec.ofInt 16 (totalSeconds.tdiv 3600)
        let minutes := BitVec.ofInt 16 ((totalSeconds.tmod 3600).tdiv 60)
        let seconds := BitVec.ofInt 16 (totalSeconds.tmod 60)
        return (packDate fatYear month day, packTime hours minutes seconds)

end XenOS.Fat
