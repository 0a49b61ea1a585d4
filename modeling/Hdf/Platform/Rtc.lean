import Hdf.Lib.Gregorian
import Mathlib.Data.Nat.Bitwise

/-!
# Times of the real-time clock

A time of the clock has fields of 8 and 16 bits, a timestamp counts the seconds from 1970 on in
64 bits. Either is computed from the other by going through the months and the years one after
the other.

## Main definitions

* `rtcTimeToTimestamp`, `timestampToRtcTime`: the two conversions
* `rtcGetWeekDay`: the day of the week of a time
* `secondsOf`: the seconds of a time, by the calendar

## Main results

* `toNat_rtcTimeToTimestamp`, `timestampToRtcTime_eq`: what the loops compute
* `times_inverse`: the conversions are inverse to each other and keep the order
-/

namespace Hdf.Platform.Rtc

open Hdf.Gregorian

/-- `struct RtcTime`. -/
structure RtcTime where
  second : UInt8
  minute : UInt8
  hour : UInt8
  day : UInt8
  weekday : UInt8
  month : UInt8
  year : UInt16
  millisecond : UInt16
  deriving DecidableEq, Repr

/-- `IS_LEAP_YEAR`. -/
def isLeapYear (year : UInt16) : UInt8 :=
  if year % 4 = 0 ∧ year % 100 ≠ 0 ∨ year % 400 = 0 then 1 else 0

/-- `RTC_YEAR_DAYS`. -/
def rtcYearDays (year : UInt16) : UInt32 := if isLeapYear year ≠ 0 then 366 else 365

/-- `IS_INVALID_YEAR`. -/
def isInvalidYear (year : UInt16) : Bool := year < 1970

/-- `IS_INVALID_MONTH`. -/
def isInvalidMonth (month : UInt8) : Bool := month < 1 || month > 12

/-- `RtcGetMonthDays`. -/
def rtcGetMonthDays (isLeapYear month : UInt8) : UInt8 :=
  if isInvalidMonth month || isLeapYear > 1 then
    0
  else if month = 2 then
    28 + isLeapYear
  else
    let oddMonth := if month ≥ 8 then month - 1 else month
    if oddMonth &&& 1 ≠ 0 then 31 else 30

/-- `RtcIsInvalidDay`. -/
def rtcIsInvalidDay (day month : UInt8) (year : UInt16) : Bool :=
  day == 0 || day > rtcGetMonthDays (isLeapYear year) month

/-- `RtcIsInvalid`. -/
def rtcIsInvalid (time : RtcTime) : Bool :=
  isInvalidYear time.year || isInvalidMonth time.month ||
    rtcIsInvalidDay time.day time.month time.year || time.hour ≥ 24 || time.minute ≥ 60 ||
    time.second ≥ 60 || time.millisecond ≥ 1000

/-! ### Months and years -/

variable {time : RtcTime} {year : UInt16} {month : UInt8}

theorem isLeapYear_eq : isLeapYear year = if IsLeap year.toNat then 1 else 0 := by
  have zero (k : UInt16) : year % k = 0 ↔ year.toNat % k.toNat = 0 := by
    rw [← UInt16.toNat_inj, UInt16.toNat_mod, UInt16.toNat_zero]
  have leap : (year % 4 = 0 ∧ year % 100 ≠ 0 ∨ year % 400 = 0) ↔ IsLeap year.toNat := by
    rw [ne_eq, zero, zero, zero]
    rfl
  rw [isLeapYear, if_congr leap rfl rfl]

theorem toNat_rtcYearDays : (rtcYearDays year).toNat = daysInYear year.toNat := by
  rw [rtcYearDays, isLeapYear_eq, daysInYear]
  split_ifs with leap <;> simp_all

theorem month_bounds (valid : isInvalidMonth month = false) :
    1 ≤ month.toNat ∧ month.toNat ≤ 12 := by
  simpa [isInvalidMonth, UInt8.lt_iff_toNat_lt, UInt8.le_iff_toNat_le, Nat.one_le_iff_ne_zero]
    using valid

theorem isInvalidMonth_of_bounds (first : 1 ≤ month.toNat) (last : month.toNat ≤ 12) :
    isInvalidMonth month = false := by
  simp only [isInvalidMonth, UInt8.lt_iff_toNat_lt, gt_iff_lt, Bool.or_eq_false_iff,
    decide_eq_false_iff_not, Nat.not_lt]
  exact ⟨first, last⟩

/-- The rule for the months gives their days. -/
theorem toNat_rtcGetMonthDays (valid : isInvalidMonth month = false) :
    (rtcGetMonthDays (isLeapYear year) month).toNat = daysInMonth year.toNat month.toNat := by
  obtain ⟨first, last⟩ := month_bounds valid
  have same : month = UInt8.ofNat month.toNat := UInt8.ofNat_toNat.symm
  rw [isLeapYear_eq]
  generalize month.toNat = n at same first last
  subst same
  by_cases leap : IsLeap year.toNat
  · rw [if_pos leap]
    interval_cases n <;> first | rfl | exact (if_pos leap).symm
  · rw [if_neg leap]
    interval_cases n <;> first | rfl | exact (if_neg leap).symm

theorem toInt_sub_one {month : Int8} (positive : 1 ≤ month) :
    (month - 1).toInt = month.toInt - 1 := by
  have bound := Int8.le_iff_toInt_le.mp positive
  change 1 ≤ _ at bound
  have range := month.toInt_lt
  rw [Int8.toInt_sub]
  change (month.toInt - 1).bmod (2 ^ 8) = month.toInt - 1
  apply Int.bmod_eq_of_le <;> omega

theorem toNat_sub_one {year : UInt16} (late : 1970 ≤ year) : (year - 1).toNat = year.toNat - 1 := by
  have one : (1 : UInt16) ≤ year := UInt16.le_trans (by decide) late
  rw [UInt16.toNat_sub_of_le _ _ one]
  rfl

/-- How far a number is from the next month. -/
def untilMonth (month : UInt8) : ℕ := if isInvalidMonth month then (257 - month.toNat) % 256 else 0

theorem takeMonths_decreases {days : UInt32}
    (more : days ≥ (rtcGetMonthDays (isLeapYear year) month).toUInt32) :
    Prod.Lex (· < ·) (· < ·)
      ((days - (rtcGetMonthDays (isLeapYear year) month).toUInt32).toNat, untilMonth (month + 1))
      (days.toNat, untilMonth month) := by
  cases invalid : isInvalidMonth month with
  | false =>
    have some : 0 < (rtcGetMonthDays (isLeapYear year) month).toNat := by
      rw [toNat_rtcGetMonthDays invalid]
      exact daysInMonth_pos
    have le := UInt32.le_iff_toNat_le.mp more
    rw [UInt8.toNat_toUInt32] at le
    rw [UInt32.toNat_sub_of_le _ _ more, UInt8.toNat_toUInt32]
    exact .left _ _ (by omega)
  | true =>
    have none : rtcGetMonthDays (isLeapYear year) month = 0 := by
      rw [rtcGetMonthDays, invalid, Bool.true_or, if_pos rfl]
    have nearer : untilMonth (month + 1) < untilMonth month := by
      have all : ∀ n < 256, isInvalidMonth (UInt8.ofNat n) = true →
          untilMonth (UInt8.ofNat n + 1) < untilMonth (UInt8.ofNat n) := by
        decide +kernel
      have here := all month.toNat month.toNat_lt
      rw [UInt8.ofNat_toNat] at here
      exact here invalid
    have zero : UInt8.toUInt32 0 = 0 := rfl
    rw [none, zero, UInt32.sub_zero]
    exact .right _ nearer

/-! ### The conversions -/

/-- The loop over the months from the given one down to January. -/
def addMonths (year : UInt16) (month : Int8) (days : UInt32) : UInt32 :=
  if 1 ≤ month then
    addMonths year (month - 1)
      (days + (rtcGetMonthDays (isLeapYear year) month.toUInt8).toUInt32)
  else
    days
  termination_by month.toInt.toNat
  decreasing_by
    rename_i positive
    have less := toInt_sub_one positive
    have bound := Int8.le_iff_toInt_le.mp positive
    rw [less]
    change 1 ≤ _ at bound
    omega

/-- The loop over the years from the given one down to 1970. -/
def addYears (year : UInt16) (days : UInt32) : UInt32 :=
  if 1970 ≤ year then addYears (year - 1) (days + rtcYearDays year) else days
  termination_by year.toNat
  decreasing_by
    rename_i late
    have less := toNat_sub_one late
    have bound := UInt16.le_iff_toNat_le.mp late
    change 1970 ≤ _ at bound
    omega

/-- The loop over the years that are over. -/
def takeYears (year : UInt16) (days : UInt32) : UInt16 × UInt32 :=
  if days ≥ rtcYearDays year then takeYears (year + 1) (days - rtcYearDays year) else (year, days)
  termination_by days.toNat
  decreasing_by
    rename_i more
    have some := @daysInYear_pos year.toNat
    have le := UInt32.le_iff_toNat_le.mp more
    rw [UInt32.toNat_sub_of_le _ _ more]
    rw [toNat_rtcYearDays] at le ⊢
    omega

/-- The loop over the months that are over. -/
def takeMonths (year : UInt16) (month : UInt8) (days : UInt32) : UInt8 × UInt32 :=
  if days ≥ (rtcGetMonthDays (isLeapYear year) month).toUInt32 then
    takeMonths year (month + 1) (days - (rtcGetMonthDays (isLeapYear year) month).toUInt32)
  else
    (month, days)
  termination_by (days.toNat, untilMonth month)
  decreasing_by
    rename_i more
    exact takeMonths_decreases more

/-- `RtcGetWeekDay`. -/
def rtcGetWeekDay (time : RtcTime) : UInt8 :=
  if isInvalidMonth time.month || isInvalidYear time.year ||
      rtcIsInvalidDay time.day time.month time.year then
    0
  else
    let days := addMonths time.year (time.month.toInt8 - 1) (time.day.toUInt32 - 1)
    let days := addYears (time.year - 1) days
    ((4 + days - 1) % 7 + 1).toUInt8

/-- `RtcTimeToTimestamp`. -/
def rtcTimeToTimestamp (time : RtcTime) : UInt64 :=
  if rtcIsInvalid time then
    0
  else
    let seconds := (time.hour.toUInt64 * 60 + time.minute.toUInt64) * 60 + time.second.toUInt64
    let days := addMonths time.year (time.month.toInt8 - 1) (time.day.toUInt32 - 1)
    let days := addYears (time.year - 1) days
    seconds + days.toUInt64 * 86400

/-- `TimestampToRtcTime`: the record is overwritten, except for its milliseconds. -/
def timestampToRtcTime (time : RtcTime) (seconds : UInt64) : RtcTime :=
  let daySeconds := (seconds % 86400).toUInt32
  let days := (seconds / 86400).toUInt32
  let years := takeYears 1970 days
  let months := takeMonths years.1 1 years.2
  let time := { time with
    year := years.1
    month := months.1
    second := (daySeconds % 60).toUInt8
    minute := (daySeconds % 3600 / 60).toUInt8
    hour := (daySeconds / 3600).toUInt8
    day := months.2.toUInt8 + 1 }
  { time with weekday := rtcGetWeekDay time }

/-- The seconds of a time since 1970, by the calendar. -/
def secondsOf (time : RtcTime) : ℕ :=
  (dayNumber time.year.toNat time.month.toNat time.day.toNat - dayNumber 1970 1 1) * 86400 +
    time.hour.toNat * 3600 + time.minute.toNat * 60 + time.second.toNat

/-- The fields of a time, from the year down. -/
def fields (time : RtcTime) : List ℕ :=
  [time.year.toNat, time.month.toNat, time.day.toNat, time.hour.toNat, time.minute.toNat,
    time.second.toNat]

/-! ### From a time to seconds -/

/-- The fields of a time are those of a date. -/
theorem isDate_of_valid (month_valid : isInvalidMonth time.month = false)
    (year_valid : isInvalidYear time.year = false)
    (day_valid : rtcIsInvalidDay time.day time.month time.year = false) :
    IsDate time.year.toNat time.month.toNat time.day.toNat ∧ 1970 ≤ time.year.toNat := by
  obtain ⟨first, last⟩ := month_bounds month_valid
  simp only [isInvalidYear, decide_eq_false_iff_not, UInt16.not_lt, UInt16.le_iff_toNat_le]
    at year_valid
  simp only [rtcIsInvalidDay, Bool.or_eq_false_iff, beq_eq_false_iff_ne, ne_eq, gt_iff_lt,
    decide_eq_false_iff_not, UInt8.not_lt, UInt8.le_iff_toNat_le,
    toNat_rtcGetMonthDays month_valid, ← UInt8.toNat_inj] at day_valid
  change 1970 ≤ _ at year_valid
  obtain ⟨some, le⟩ := day_valid
  exact ⟨⟨by omega, first, last, Nat.one_le_iff_ne_zero.mpr some, le⟩, year_valid⟩

theorem epoch_le (date : IsDate time.year.toNat time.month.toNat time.day.toNat)
    (late : 1970 ≤ time.year.toNat) :
    dayNumber 1970 1 1 ≤ dayNumber time.year.toNat time.month.toNat time.day.toNat := by
  have order := @daysBeforeYear_mono 1970 _ (by decide) late
  have first := date.day_pos
  have january : daysBeforeMonth 1970 1 = 0 := rfl
  rw [dayNumber, dayNumber]
  omega

theorem ofNat_succ_sub_one (n : ℕ) : Int8.ofNat (n + 1) - 1 = Int8.ofNat n := by
  rw [Int8.ofNat_add]
  exact Int8.add_sub_cancel _ _

theorem valid_of_isDate (date : IsDate time.year.toNat time.month.toNat time.day.toNat) :
    isInvalidMonth time.month = false ∧
      rtcIsInvalidDay time.day time.month time.year = false := by
  have month := isInvalidMonth_of_bounds date.month_pos date.month_le
  have first := date.day_pos
  have last := date.day_le
  refine ⟨month, ?_⟩
  rw [← toNat_rtcGetMonthDays month] at last
  simp only [rtcIsInvalidDay, Bool.or_eq_false_iff, beq_eq_false_iff_ne, ne_eq, gt_iff_lt,
    decide_eq_false_iff_not, UInt8.not_lt, UInt8.le_iff_toNat_le, ← UInt8.toNat_inj]
  exact ⟨Nat.one_le_iff_ne_zero.mp first, last⟩

theorem addMonths_eq {days : UInt32} {n : ℕ} (le : n ≤ 12) : addMonths year (Int8.ofNat n) days =
    days + UInt32.ofNat (daysBeforeMonth year.toNat (n + 1)) := by
  have signed (n : ℕ) (le : n ≤ 12) : (Int8.ofNat n).toInt = n :=
    Int8.toInt_ofNat_of_lt (by omega)
  induction n generalizing days with
  | zero =>
    rw [addMonths, if_neg (by decide)]
    exact (UInt32.add_zero days).symm
  | succ n ih =>
    have more : 1 ≤ Int8.ofNat (n + 1) := by
      rw [Int8.le_iff_toInt_le, signed _ le]
      change (1 : ℤ) ≤ _
      omega
    have unsigned : (UInt8.ofNat (n + 1)).toNat = n + 1 :=
      UInt8.toNat_ofNat_of_lt' (show n + 1 < 256 by omega)
    have valid : isInvalidMonth (UInt8.ofNat (n + 1)) = false := by
      apply isInvalidMonth_of_bounds <;> rw [unsigned] <;> omega
    have here : (rtcGetMonthDays (isLeapYear year) (Int8.ofNat (n + 1)).toUInt8).toUInt32 =
        UInt32.ofNat (daysInMonth year.toNat (n + 1)) := by
      rw [← UInt32.toNat_inj, Int8.toUInt8_ofNat', UInt8.toNat_toUInt32,
        toNat_rtcGetMonthDays valid, unsigned, UInt32.toNat_ofNat', Nat.mod_eq_of_lt]
      exact daysInMonth_le.trans_lt (by decide)
    rw [addMonths, if_pos more, ofNat_succ_sub_one, ih (by omega), here, UInt32.add_assoc,
      @daysBeforeMonth_succ _ (n + 1) (by omega), ← UInt32.ofNat_add, Nat.add_comm]

theorem addYears_eq {days : UInt32} (late : 1969 ≤ year.toNat) : addYears year days =
    days + UInt32.ofNat (daysBeforeYear (year.toNat + 1) - daysBeforeYear 1970) := by
  generalize is : year.toNat = n at late
  induction n, late using Nat.le_induction generalizing year days with
  | base =>
    have above : ¬ 1970 ≤ year := by
      rw [UInt16.le_iff_toNat_le, is]
      decide
    rw [addYears, if_neg above]
    exact (UInt32.add_zero days).symm
  | succ n late ih =>
    have more : 1970 ≤ year := by
      rw [UInt16.le_iff_toNat_le, is]
      change 1970 ≤ _
      omega
    have before : (year - 1).toNat = n := by
      rw [toNat_sub_one more, is, Nat.add_sub_cancel]
    have here : rtcYearDays year = UInt32.ofNat (daysInYear (n + 1)) := by
      rw [← is, ← toNat_rtcYearDays, UInt32.ofNat_toNat]
    have order := @daysBeforeYear_mono 1970 (n + 1) (by decide) (by omega)
    rw [addYears, if_pos more, ih before, here, UInt32.add_assoc, ← UInt32.ofNat_add,
      @daysBeforeYear_succ (n + 1) (by omega)]
    have sum : daysInYear (n + 1) + (daysBeforeYear (n + 1) - daysBeforeYear 1970) =
        daysBeforeYear (n + 1) + daysInYear (n + 1) - daysBeforeYear 1970 := by
      omega
    rw [sum]

/-- The days from 1970 on up to a date. -/
theorem toNat_days (date : IsDate time.year.toNat time.month.toNat time.day.toNat)
    (late : 1970 ≤ time.year.toNat) :
    (addYears (time.year - 1)
      (addMonths time.year (time.month.toInt8 - 1) (time.day.toUInt32 - 1))).toNat =
    dayNumber time.year.toNat time.month.toNat time.day.toNat - dayNumber 1970 1 1 := by
  obtain ⟨past, month_is⟩ := Nat.exists_eq_add_of_le' date.month_pos
  have month_eq : time.month.toInt8 - 1 = Int8.ofNat past := by
    rw [← ofNat_succ_sub_one, ← month_is, ← UInt8.toInt8_ofNat', UInt8.ofNat_toNat]
  have before : (time.year - 1).toNat = time.year.toNat - 1 :=
    toNat_sub_one (UInt16.le_iff_toNat_le.mpr late)
  have day_eq : (time.day.toUInt32 - 1).toNat = time.day.toNat - 1 := by
    have one : (1 : UInt32) ≤ time.day.toUInt32 := by
      rw [UInt32.le_iff_toNat_le, UInt8.toNat_toUInt32]
      exact date.day_pos
    rw [UInt32.toNat_sub_of_le _ _ one, UInt8.toNat_toUInt32]
    rfl
  have month_le := date.month_le
  rw [month_eq, addMonths_eq (by omega), addYears_eq (by omega), before,
    Nat.sub_add_cancel date.year_pos, UInt32.add_assoc, ← UInt32.ofNat_add, UInt32.toNat_add,
    day_eq, UInt32.toNat_ofNat', dayNumber, dayNumber]
  have order := @daysBeforeYear_mono 1970 _ (by decide) late
  have small := @daysBeforeYear_le_mul time.year.toNat
  have width := time.year.toNat_lt
  have inside := date.le_daysInYear
  have year_le := @daysInYear_le time.year.toNat
  have first := date.day_pos
  have january : daysBeforeMonth 1970 1 = 0 := rfl
  rw [month_is] at inside ⊢
  omega

/-- What the fields of a valid time are. -/
structure IsTime (time : RtcTime) : Prop where
  date : IsDate time.year.toNat time.month.toNat time.day.toNat
  late : 1970 ≤ time.year.toNat
  hour_lt : time.hour.toNat < 24
  minute_lt : time.minute.toNat < 60
  second_lt : time.second.toNat < 60

theorem rtcIsInvalid_eq_false : rtcIsInvalid time = false ↔
    IsTime time ∧ time.millisecond < 1000 := by
  have year_eq : isInvalidYear time.year = false ↔ 1970 ≤ time.year.toNat := by
    simp only [isInvalidYear, decide_eq_false_iff_not, UInt16.not_lt, UInt16.le_iff_toNat_le]
    rfl
  simp only [rtcIsInvalid, Bool.or_eq_false_iff, decide_eq_false_iff_not, ge_iff_le,
    UInt8.not_le, UInt16.not_le, UInt8.lt_iff_toNat_lt]
  constructor
  · rintro ⟨⟨⟨⟨⟨⟨year, month⟩, day⟩, hour⟩, minute⟩, second⟩, millisecond⟩
    obtain ⟨date, late⟩ := isDate_of_valid month year day
    exact ⟨⟨date, late, hour, minute, second⟩, millisecond⟩
  · rintro ⟨⟨date, late, hour, minute, second⟩, millisecond⟩
    obtain ⟨month, day⟩ := valid_of_isDate date
    exact ⟨⟨⟨⟨⟨⟨year_eq.mpr late, month⟩, day⟩, hour⟩, minute⟩, second⟩, millisecond⟩

theorem secondsOf_eq : secondsOf time =
    (dayNumber time.year.toNat time.month.toNat time.day.toNat - dayNumber 1970 1 1) * 86400 +
      ((time.hour.toNat * 60 + time.minute.toNat) * 60 + time.second.toNat) := by
  rw [secondsOf]
  omega

/-- A time is turned into its seconds by the calendar. -/
theorem toNat_rtcTimeToTimestamp (valid : rtcIsInvalid time = false) :
    (rtcTimeToTimestamp time).toNat = secondsOf time := by
  obtain ⟨⟨date, late, hour_lt, minute_lt, second_lt⟩, -⟩ := rtcIsInvalid_eq_false.mp valid
  have days := toNat_days date late
  rw [rtcTimeToTimestamp, valid, if_neg Bool.false_ne_true]
  simp only [UInt64.toNat_add, UInt64.toNat_mul, UInt8.toNat_toUInt64, UInt32.toNat_toUInt64, days,
    secondsOf_eq, UInt64.toNat_ofNat]
  have small := (addYears (time.year - 1)
    (addMonths time.year (time.month.toInt8 - 1) (time.day.toUInt32 - 1))).toNat_lt
  rw [days] at small
  omega

/-! ### From seconds to a time -/

theorem takeYears_eq {last : UInt16} {days rest : UInt32} (positive : 1 ≤ year.toNat)
    (later : year.toNat ≤ last.toNat)
    (sum : daysBeforeYear year.toNat + days.toNat = daysBeforeYear last.toNat + rest.toNat)
    (inside : rest.toNat < daysInYear last.toNat) : takeYears year days = (last, rest) := by
  obtain ⟨n, between⟩ := Nat.exists_eq_add_of_le later
  induction n generalizing year days with
  | zero =>
    obtain rfl : last = year := UInt16.toNat_inj.mp between
    obtain rfl : days = rest := UInt32.toNat_inj.mp (Nat.add_left_cancel sum)
    have above : ¬ days ≥ rtcYearDays last := by
      rw [ge_iff_le, UInt32.le_iff_toNat_le, toNat_rtcYearDays]
      exact Nat.not_le.mpr inside
    rw [takeYears, if_neg above]
  | succ n ih =>
    have passed := daysBeforeYear_le positive (show year.toNat < last.toNat by omega)
    have more : days ≥ rtcYearDays year := by
      rw [ge_iff_le, UInt32.le_iff_toNat_le, toNat_rtcYearDays]
      omega
    have next : (year + 1).toNat = year.toNat + 1 := by
      have width := last.toNat_lt
      rw [UInt16.toNat_add, UInt16.toNat_one]
      omega
    rw [takeYears, if_pos more]
    apply ih
    · omega
    · omega
    · have le := UInt32.le_iff_toNat_le.mp more
      rw [toNat_rtcYearDays] at le
      rw [next, UInt32.toNat_sub_of_le _ _ more, toNat_rtcYearDays, daysBeforeYear_succ positive]
      omega
    · omega

theorem takeMonths_eq {last : UInt8} {days rest : UInt32} (positive : 1 ≤ month.toNat)
    (later : month.toNat ≤ last.toNat) (le : last.toNat ≤ 12)
    (sum : daysBeforeMonth year.toNat month.toNat + days.toNat =
      daysBeforeMonth year.toNat last.toNat + rest.toNat)
    (inside : rest.toNat < daysInMonth year.toNat last.toNat) :
    takeMonths year month days = (last, rest) := by
  obtain ⟨n, between⟩ := Nat.exists_eq_add_of_le later
  induction n generalizing month days with
  | zero =>
    obtain rfl : last = month := UInt8.toNat_inj.mp between
    obtain rfl : days = rest := UInt32.toNat_inj.mp (Nat.add_left_cancel sum)
    have above : ¬ days ≥ (rtcGetMonthDays (isLeapYear year) last).toUInt32 := by
      rw [ge_iff_le, UInt32.le_iff_toNat_le, UInt8.toNat_toUInt32,
        toNat_rtcGetMonthDays (isInvalidMonth_of_bounds positive le)]
      exact Nat.not_le.mpr inside
    rw [takeMonths, if_neg above]
  | succ n ih =>
    have passed := @daysBeforeMonth_le year.toNat _ _ positive
      (show month.toNat < last.toNat by omega)
    have month_days := @toNat_rtcGetMonthDays year month
      (isInvalidMonth_of_bounds positive (show month.toNat ≤ 12 by omega))
    have more : days ≥ (rtcGetMonthDays (isLeapYear year) month).toUInt32 := by
      rw [ge_iff_le, UInt32.le_iff_toNat_le, UInt8.toNat_toUInt32, month_days]
      omega
    have next : (month + 1).toNat = month.toNat + 1 := by
      rw [UInt8.toNat_add, UInt8.toNat_one]
      omega
    rw [takeMonths, if_pos more]
    apply ih
    · omega
    · omega
    · have le := UInt32.le_iff_toNat_le.mp more
      rw [UInt8.toNat_toUInt32, month_days] at le
      rw [next, UInt32.toNat_sub_of_le _ _ more, UInt8.toNat_toUInt32, month_days,
        daysBeforeMonth_succ positive]
      omega
    · omega

/-- The day of the week is that of the calendar. -/
theorem rtcGetWeekDay_eq (date : IsDate time.year.toNat time.month.toNat time.day.toNat)
    (late : 1970 ≤ time.year.toNat) : (rtcGetWeekDay time).toNat =
      Gregorian.weekday time.year.toNat time.month.toNat time.day.toNat := by
  obtain ⟨month, day⟩ := valid_of_isDate date
  have year : isInvalidYear time.year = false := by
    simp only [isInvalidYear, decide_eq_false_iff_not, UInt16.not_lt, UInt16.le_iff_toNat_le]
    exact late
  have days := toNat_days date late
  rw [rtcGetWeekDay, month, year, day]
  simp only [Bool.or_self, Bool.false_eq_true, if_false]
  generalize addYears (time.year - 1)
    (addMonths time.year (time.month.toInt8 - 1) (time.day.toUInt32 - 1)) = count at days
  rw [Gregorian.weekday]
  have epoch : dayNumber 1970 1 1 = 719163 := by decide
  have small : dayNumber time.year.toNat time.month.toNat time.day.toNat < 2 ^ 25 := by
    have inside := date.le_daysInYear
    have year_le := @daysInYear_le time.year.toNat
    have before := @daysBeforeYear_le_mul time.year.toNat
    have width := time.year.toNat_lt
    rw [dayNumber]
    omega
  have after := epoch_le date late
  have shifted : (4 + count - 1).toNat = 3 + count.toNat := by
    have one : (1 : UInt32) ≤ 4 + count := by
      rw [UInt32.le_iff_toNat_le, UInt32.toNat_add]
      change 1 ≤ (4 + _) % _
      omega
    rw [UInt32.toNat_sub_of_le _ _ one, UInt32.toNat_add]
    change (4 + _) % _ - 1 = _
    omega
  rw [UInt32.toNat_toUInt8, UInt32.toNat_add, UInt32.toNat_mod, shifted, days]
  change ((3 + _) % 7 + 1) % _ % _ = _
  omega

/-- Seconds are turned into the time of which they are the seconds. -/
theorem timestampToRtcTime_eq {t : RtcTime} {seconds : UInt64} (is_time : IsTime t)
    (is : seconds.toNat = secondsOf t) : timestampToRtcTime time seconds =
      { t with
        weekday := rtcGetWeekDay t
        millisecond := time.millisecond } := by
  obtain ⟨date, late, hour_lt, minute_lt, second_lt⟩ := is_time
  rw [secondsOf_eq] at is
  have first := date.day_pos
  have last := date.day_le
  have inside := date.le_daysInYear
  have year_le := @daysInYear_le t.year.toNat
  have before := @daysBeforeYear_le_mul t.year.toNat
  have order := @daysBeforeYear_mono 1970 _ (by decide) late
  have width := t.year.toNat_lt
  have january : daysBeforeMonth 1970 1 = 0 := rfl
  have day_of (n : ℕ) : dayNumber n 1 1 = daysBeforeYear n + 1 := rfl
  rw [dayNumber, day_of] at is
  -- the days and the seconds of the day
  have days : (seconds / 86400).toUInt32.toNat =
      daysBeforeYear t.year.toNat - daysBeforeYear 1970 +
        (daysBeforeMonth t.year.toNat t.month.toNat + (t.day.toNat - 1)) := by
    rw [UInt64.toNat_toUInt32, UInt64.toNat_div]
    change _ / 86400 % _ = _
    omega
  have of_day : (seconds % 86400).toUInt32.toNat =
      (t.hour.toNat * 60 + t.minute.toNat) * 60 + t.second.toNat := by
    rw [UInt64.toNat_toUInt32, UInt64.toNat_mod]
    change _ % 86400 % _ = _
    omega
  have years : takeYears 1970 (seconds / 86400).toUInt32 = (t.year, UInt32.ofNat
      (daysBeforeMonth t.year.toNat t.month.toNat + (t.day.toNat - 1))) := by
    have rest : (UInt32.ofNat
        (daysBeforeMonth t.year.toNat t.month.toNat + (t.day.toNat - 1))).toNat =
        daysBeforeMonth t.year.toNat t.month.toNat + (t.day.toNat - 1) :=
      UInt32.toNat_ofNat_of_lt' (by change _ < 4294967296; omega)
    apply takeYears_eq
    · decide
    · exact late
    · rw [days, rest]
      change daysBeforeYear 1970 + _ = _
      omega
    · omega
  have months : takeMonths t.year 1 (UInt32.ofNat
      (daysBeforeMonth t.year.toNat t.month.toNat + (t.day.toNat - 1))) =
      (t.month, UInt32.ofNat (t.day.toNat - 1)) := by
    have rest : (UInt32.ofNat (t.day.toNat - 1)).toNat = t.day.toNat - 1 :=
      UInt32.toNat_ofNat_of_lt' (by change _ < 4294967296; omega)
    apply takeMonths_eq
    · decide
    · exact date.month_pos
    · exact date.month_le
    · rw [rest, UInt32.toNat_ofNat_of_lt' (by change _ < 4294967296; omega)]
      exact Nat.zero_add _
    · omega
  have second : ((seconds % 86400).toUInt32 % 60).toUInt8 = t.second := by
    rw [← UInt8.toNat_inj, UInt32.toNat_toUInt8, UInt32.toNat_mod, of_day]
    change _ % 60 % _ = _
    omega
  have minute : ((seconds % 86400).toUInt32 % 3600 / 60).toUInt8 = t.minute := by
    rw [← UInt8.toNat_inj, UInt32.toNat_toUInt8, UInt32.toNat_div, UInt32.toNat_mod, of_day]
    change _ % 3600 / 60 % _ = _
    omega
  have hour : ((seconds % 86400).toUInt32 / 3600).toUInt8 = t.hour := by
    rw [← UInt8.toNat_inj, UInt32.toNat_toUInt8, UInt32.toNat_div, of_day]
    change _ / 3600 % _ = _
    omega
  have day : (UInt32.ofNat (t.day.toNat - 1)).toUInt8 + 1 = t.day := by
    have byte := t.day.toNat_lt
    rw [← UInt8.toNat_inj, UInt8.toNat_add, UInt32.toNat_toUInt8, UInt32.toNat_ofNat']
    change (_ % _ % _ + 1) % _ = _
    omega
  rw [timestampToRtcTime, years]
  dsimp only
  rw [months]
  dsimp only
  rw [second, minute, hour, day]
  rfl

/-- The conversions between times and seconds are inverse to each other, and keep the order. The
milliseconds of a record are not part of its seconds and stay as they are. -/
structure TimesInverse : Prop where
  time_of_seconds : ∀ time t, rtcIsInvalid t = false →
    timestampToRtcTime time (rtcTimeToTimestamp t) =
      { t with
        weekday := UInt8.ofNat (Gregorian.weekday t.year.toNat t.month.toNat t.day.toNat)
        millisecond := time.millisecond }
  seconds_of_time : ∀ time seconds, time.millisecond < 1000 →
    seconds.toNat / 86400 + dayNumber 1970 1 1 ≤ dayNumber 65535 12 31 →
      rtcTimeToTimestamp (timestampToRtcTime time seconds) = seconds
  increasing : ∀ t u, rtcIsInvalid t = false → rtcIsInvalid u = false →
    fields t < fields u → rtcTimeToTimestamp t < rtcTimeToTimestamp u

/-- Every number of seconds up to the end of the year 65535 is that of a time. -/
theorem exists_isTime {seconds : ℕ}
    (early : seconds / 86400 + dayNumber 1970 1 1 ≤ dayNumber 65535 12 31) :
    ∃ t, IsTime t ∧ secondsOf t = seconds := by
  have first : dayNumber 1970 1 1 = 719163 := by decide
  obtain ⟨year, month, day, date, is⟩ :=
    exists_isDate (n := seconds / 86400 + dayNumber 1970 1 1) (by omega)
  -- the year is not before 1970 and not after 65535
  have late : 1970 ≤ year := by
    by_contra before
    have epoch : IsDate 1970 1 1 :=
      ⟨by decide, by decide, by decide, by decide, by decide⟩
    have less := dayNumber_lt_dayNumber date epoch (.inl (Nat.not_le.mp before))
    omega
  have width : year ≤ 65535 := by
    by_contra after
    have final : IsDate 65535 12 31 :=
      ⟨by decide, by decide, by decide, by decide, by decide⟩
    have less := dayNumber_lt_dayNumber final date (.inl (Nat.not_le.mp after))
    omega
  have month_le := date.month_le
  have day_le := date.day_le.trans daysInMonth_le
  have year_eq : (UInt16.ofNat year).toNat = year :=
    UInt16.toNat_ofNat_of_lt' (by change _ < 65536; omega)
  have byte (n : ℕ) (lt : n < 256) : (UInt8.ofNat n).toNat = n := UInt8.toNat_ofNat_of_lt' lt
  refine ⟨{
    second := UInt8.ofNat (seconds % 60)
    minute := UInt8.ofNat (seconds / 60 % 60)
    hour := UInt8.ofNat (seconds / 3600 % 24)
    day := UInt8.ofNat day
    weekday := 0
    month := UInt8.ofNat month
    year := UInt16.ofNat year
    millisecond := 0 }, ⟨?_, ?_, ?_, ?_, ?_⟩, ?_⟩
  · dsimp only
    rwa [year_eq, byte month (by omega), byte day (by omega)]
  · dsimp only
    rwa [year_eq]
  · dsimp only
    rw [byte _ (by omega)]
    omega
  · dsimp only
    rw [byte _ (by omega)]
    omega
  · dsimp only
    rw [byte _ (by omega)]
    omega
  · rw [secondsOf]
    dsimp only
    rw [year_eq, byte month (by omega), byte day (by omega), byte _ (by omega),
      byte _ (by omega), byte _ (by omega), is]
    omega

/-- The seconds are in the order of the fields. -/
theorem secondsOf_lt {t u : RtcTime} (t_is : IsTime t) (u_is : IsTime u)
    (earlier : fields t < fields u) : secondsOf t < secondsOf u := by
  have t_day := epoch_le t_is.date t_is.late
  obtain ⟨t_date, -, t_hour, t_minute, t_second⟩ := t_is
  obtain ⟨u_date, -, u_hour, u_minute, u_second⟩ := u_is
  simp only [fields, List.cons_lt_cons_iff, List.not_lt_nil, and_false, or_false] at earlier
  rw [secondsOf, secondsOf]
  -- either the date is an earlier one, or it is the same
  have dates : dayNumber t.year.toNat t.month.toNat t.day.toNat <
        dayNumber u.year.toNat u.month.toNat u.day.toNat ∨
      dayNumber t.year.toNat t.month.toNat t.day.toNat =
          dayNumber u.year.toNat u.month.toNat u.day.toNat ∧
        (t.hour.toNat < u.hour.toNat ∨ t.hour.toNat = u.hour.toNat ∧
          (t.minute.toNat < u.minute.toNat ∨ t.minute.toNat = u.minute.toNat ∧
            t.second.toNat < u.second.toNat)) := by
    obtain year | ⟨year, month | ⟨month, day | ⟨day, time⟩⟩⟩ := earlier
    · exact .inl (dayNumber_lt_dayNumber t_date u_date (.inl year))
    · exact .inl (dayNumber_lt_dayNumber t_date u_date (.inr ⟨year, .inl month⟩))
    · exact .inl (dayNumber_lt_dayNumber t_date u_date (.inr ⟨year, .inr ⟨month, day⟩⟩))
    · exact .inr ⟨by rw [year, month, day], time⟩
  omega

theorem times_inverse : TimesInverse := by
  refine ⟨fun time t valid => ?_, fun time seconds millisecond early => ?_,
    fun t u t_valid u_valid earlier => ?_⟩
  · have is_time := (rtcIsInvalid_eq_false.mp valid).1
    rw [timestampToRtcTime_eq is_time (toNat_rtcTimeToTimestamp valid),
      ← rtcGetWeekDay_eq is_time.date is_time.late, UInt8.ofNat_toNat]
  · obtain ⟨t, is_time, is⟩ := exists_isTime early
    rw [timestampToRtcTime_eq is_time is.symm, ← UInt64.toNat_inj, toNat_rtcTimeToTimestamp]
    · exact is
    · exact rtcIsInvalid_eq_false.mpr ⟨⟨is_time.date, is_time.late, is_time.hour_lt,
        is_time.minute_lt, is_time.second_lt⟩, millisecond⟩
  · rw [UInt64.lt_iff_toNat_lt, toNat_rtcTimeToTimestamp t_valid,
      toNat_rtcTimeToTimestamp u_valid]
    exact secondsOf_lt (rtcIsInvalid_eq_false.mp t_valid).1 (rtcIsInvalid_eq_false.mp u_valid).1
      earlier

/-- A leap day. -/
def leapDay : RtcTime := ⟨56, 34, 12, 29, 0, 2, 2024, 0⟩

theorem times_inverse_leapDay :
    timestampToRtcTime leapDay (rtcTimeToTimestamp leapDay) = { leapDay with
      weekday := UInt8.ofNat (Gregorian.weekday 2024 2 29) } ∧
    rtcTimeToTimestamp (timestampToRtcTime leapDay 951782400) = 951782400 ∧
    rtcTimeToTimestamp { leapDay with day := 28 } < rtcTimeToTimestamp leapDay :=
  ⟨times_inverse.time_of_seconds leapDay leapDay (by decide),
    times_inverse.seconds_of_time leapDay 951782400 (by decide) (by decide),
    times_inverse.increasing _ leapDay (by decide) (by decide) (by decide)⟩

end Hdf.Platform.Rtc
