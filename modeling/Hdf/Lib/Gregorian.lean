import Mathlib.Algebra.Order.Ring.Nat
import Mathlib.Tactic.IntervalCases

/-!
# The Gregorian calendar

The rules of the Gregorian calendar, taken back before it was introduced. Days are numbered from
1 January of the year 1 on, which is day 1 and a Monday.

## Main results

* `daysBeforeYear_succ`, `daysBeforeMonth_thirteen`: the numbers count the days
* `dayNumber_lt_dayNumber`: dates are numbered in order
* `exists_isDate`: every number is that of a date
-/

namespace Hdf.Gregorian

/-- A year with 366 days. -/
def IsLeap (year : ℕ) : Prop := year % 4 = 0 ∧ year % 100 ≠ 0 ∨ year % 400 = 0

instance (year : ℕ) : Decidable (IsLeap year) :=
  inferInstanceAs (Decidable (year % 4 = 0 ∧ year % 100 ≠ 0 ∨ year % 400 = 0))

/-- The number of days of a year. -/
def daysInYear (year : ℕ) : ℕ := if IsLeap year then 366 else 365

/-- The number of days of a month, which is counted from 1. -/
def daysInMonth (year : ℕ) : ℕ → ℕ
  | 2 => if IsLeap year then 29 else 28
  | 4 | 6 | 9 | 11 => 30
  | _ => 31

/-- The days in front of a year. -/
def daysBeforeYear (year : ℕ) : ℕ :=
  365 * (year - 1) + (year - 1) / 4 - (year - 1) / 100 + (year - 1) / 400

/-- The days of a year in front of a month. -/
def daysBeforeMonth (year : ℕ) : ℕ → ℕ
  | 0 | 1 => 0
  | month + 2 => daysBeforeMonth year (month + 1) + daysInMonth year (month + 1)

/-- A date of the calendar. -/
structure IsDate (year month day : ℕ) : Prop where
  year_pos : 1 ≤ year
  month_pos : 1 ≤ month
  month_le : month ≤ 12
  day_pos : 1 ≤ day
  day_le : day ≤ daysInMonth year month

/-- The number of a date. -/
def dayNumber (year month day : ℕ) : ℕ :=
  daysBeforeYear year + daysBeforeMonth year month + day

/-- The day of the week, from 1 for Monday to 7 for Sunday. -/
def weekday (year month day : ℕ) : ℕ := (dayNumber year month day - 1) % 7 + 1

variable {year year' month month' day day' n : ℕ}

/-! ### Years and months -/

theorem daysInYear_pos : 0 < daysInYear year := by
  rw [daysInYear]
  split_ifs <;> decide

theorem daysInMonth_pos : 0 < daysInMonth year month := by
  unfold daysInMonth
  split
  · split_ifs <;> decide
  all_goals decide

theorem daysInYear_le : daysInYear year ≤ 366 := by
  rw [daysInYear]
  split_ifs <;> decide

theorem daysInMonth_le : daysInMonth year month ≤ 31 := by
  unfold daysInMonth
  split
  · split_ifs <;> decide
  all_goals decide

theorem daysBeforeYear_le_mul : daysBeforeYear year ≤ 366 * year := by
  rw [daysBeforeYear]
  omega

theorem daysBeforeYear_succ (positive : 1 ≤ year) :
    daysBeforeYear (year + 1) = daysBeforeYear year + daysInYear year := by
  obtain ⟨past, rfl⟩ := Nat.exists_eq_add_of_le' positive
  rw [daysBeforeYear, daysBeforeYear, daysInYear, Nat.add_sub_cancel, Nat.add_sub_cancel]
  -- the centuries are among the multiples of four
  have fewer : past / 100 ≤ past / 4 := Nat.div_le_div_left (by decide) (by decide)
  have fours : (past + 1) / 4 = past / 4 + if (past + 1) % 4 = 0 then 1 else 0 := by
    split_ifs <;> omega
  have hundreds : (past + 1) / 100 = past / 100 + if (past + 1) % 100 = 0 then 1 else 0 := by
    split_ifs <;> omega
  have cycles : (past + 1) / 400 = past / 400 + if (past + 1) % 400 = 0 then 1 else 0 := by
    split_ifs <;> omega
  rw [fours, hundreds, cycles]
  by_cases four : (past + 1) % 4 = 0
  · by_cases hundred : (past + 1) % 100 = 0
    · by_cases cycle : (past + 1) % 400 = 0
      · rw [if_pos four, if_pos hundred, if_pos cycle, if_pos (.inr cycle)]
        omega
      · have common : ¬ IsLeap (past + 1) := by
          rintro (⟨_, other⟩ | other)
          · exact other hundred
          · exact cycle other
        rw [if_pos four, if_pos hundred, if_neg cycle, if_neg common]
        omega
    · rw [if_pos four, if_neg hundred, if_neg (by omega), if_pos (.inl ⟨four, hundred⟩)]
      omega
  · have common : ¬ IsLeap (past + 1) := by
      rintro (⟨other, _⟩ | other) <;> omega
    rw [if_neg four, if_neg (by omega), if_neg (by omega), if_neg common]
    omega

/-- A later year begins after the end of the year. -/
theorem daysBeforeYear_le (positive : 1 ≤ year) (later : year < year') :
    daysBeforeYear year + daysInYear year ≤ daysBeforeYear year' := by
  induction year', later using Nat.le_induction with
  | base => exact (daysBeforeYear_succ positive).ge
  | succ year' later ih =>
    rw [daysBeforeYear_succ (by omega)]
    exact ih.trans (Nat.le_add_right _ _)

theorem daysBeforeYear_mono (positive : 1 ≤ year) (later : year ≤ year') :
    daysBeforeYear year ≤ daysBeforeYear year' := by
  obtain rfl | later := later.eq_or_lt
  · exact le_rfl
  · exact (Nat.le_add_right _ _).trans (daysBeforeYear_le positive later)

theorem daysBeforeMonth_succ (positive : 1 ≤ month) :
    daysBeforeMonth year (month + 1) = daysBeforeMonth year month + daysInMonth year month := by
  obtain ⟨past, rfl⟩ := Nat.exists_eq_add_of_le' positive
  rfl

/-- The months of a year have the days of the year. -/
theorem daysBeforeMonth_thirteen : daysBeforeMonth year 13 = daysInYear year := by
  simp only [daysBeforeMonth, daysInMonth, daysInYear]
  split_ifs <;> rfl

/-- A later month begins after the end of the month. -/
theorem daysBeforeMonth_le (positive : 1 ≤ month) (later : month < month') :
    daysBeforeMonth year month + daysInMonth year month ≤ daysBeforeMonth year month' := by
  induction month', later using Nat.le_induction with
  | base => exact (daysBeforeMonth_succ positive).ge
  | succ month' later ih =>
    rw [daysBeforeMonth_succ (by omega)]
    exact ih.trans (Nat.le_add_right _ _)

/-! ### Dates -/

/-- A date lies in its year. -/
theorem IsDate.le_daysInYear (date : IsDate year month day) :
    daysBeforeMonth year month + day ≤ daysInYear year := by
  rw [← daysBeforeMonth_thirteen]
  have inside := @daysBeforeMonth_le year _ _ date.month_pos
    (show month < 13 from Nat.lt_succ_iff.mpr date.month_le)
  have last := date.day_le
  omega

/-- Dates are numbered in order. -/
theorem dayNumber_lt_dayNumber (date : IsDate year month day) (date' : IsDate year' month' day')
    (later : year < year' ∨ year = year' ∧ (month < month' ∨ month = month' ∧ day < day')) :
    dayNumber year month day < dayNumber year' month' day' := by
  rw [dayNumber, dayNumber]
  obtain later | ⟨rfl, later | ⟨rfl, later⟩⟩ := later
  · have year_le := daysBeforeYear_le date.year_pos later
    have inside := date.le_daysInYear
    have first := date'.day_pos
    omega
  · have month_le := @daysBeforeMonth_le year _ _ date.month_pos later
    have inside := date.day_le
    have first := date'.day_pos
    omega
  · exact Nat.add_lt_add_left later _

/-- Every number of days falls into a month. -/
theorem exists_month (lt : n < daysInYear year) : ∃ month, 1 ≤ month ∧ month ≤ 12 ∧
    daysBeforeMonth year month ≤ n ∧ n < daysBeforeMonth year month + daysInMonth year month := by
  by_contra none
  push Not at none
  -- no month is the one, so all of them are over
  have below : ∀ month, 1 ≤ month → month ≤ 13 → daysBeforeMonth year month ≤ n := by
    intro month positive
    induction month, positive using Nat.le_induction with
    | base => exact fun _ => Nat.zero_le n
    | succ month positive ih =>
      intro le
      rw [daysBeforeMonth_succ positive]
      exact none month positive (by omega) (ih (by omega))
  have whole := below 13 (by decide) le_rfl
  rw [daysBeforeMonth_thirteen] at whole
  omega

/-- Every number of days falls into a year. -/
theorem exists_year (n : ℕ) : ∃ year, 1 ≤ year ∧ daysBeforeYear year ≤ n ∧
    n < daysBeforeYear year + daysInYear year := by
  induction n with
  | zero => exact ⟨1, le_rfl, le_rfl, by decide⟩
  | succ n ih =>
    obtain ⟨year, positive, before, inside⟩ := ih
    by_cases same : n + 1 < daysBeforeYear year + daysInYear year
    · exact ⟨year, positive, before.trans (Nat.le_succ n), same⟩
    · have next := daysBeforeYear_succ positive
      have some := @daysInYear_pos (year + 1)
      exact ⟨year + 1, by omega, by omega, by omega⟩

/-- Every number is that of a date. -/
theorem exists_isDate (positive : 1 ≤ n) :
    ∃ year month day, IsDate year month day ∧ dayNumber year month day = n := by
  obtain ⟨year, year_pos, before, inside⟩ := exists_year (n - 1)
  have lt : n - 1 - daysBeforeYear year < daysInYear year := by omega
  obtain ⟨month, month_pos, month_le, first, last⟩ := exists_month lt
  refine ⟨year, month, n - daysBeforeYear year - daysBeforeMonth year month,
    ⟨year_pos, month_pos, month_le, by omega, by omega⟩, ?_⟩
  rw [dayNumber]
  omega

end Hdf.Gregorian
