import Mathlib.Data.Nat.Basic
import Mathlib.Tactic.IntervalCases

/-!
# The Gregorian calendar

Dates from the year 0 on, as days counted year by year and month by month.

* `Date` — a day of a month of a year.
* `daysBeforeYear_add` — the days of the years in front of one, **in closed form**.
* `unixEpoch_number` — the days in front of 1970.
-/

set_option autoImplicit false

namespace Calendar

/-- A year of 366 days. -/
def isLeap (year : ℕ) : Bool := year % 4 = 0 && (year % 100 ≠ 0 || year % 400 = 0)

def daysInYear (year : ℕ) : ℕ := if isLeap year then 366 else 365

def daysInMonth (year : ℕ) : ℕ → ℕ
  | 2 => if isLeap year then 29 else 28
  | 4 | 6 | 9 | 11 => 30
  | _ => 31

/-- The days of the years in front of one. -/
def daysBeforeYear : ℕ → ℕ
  | 0 => 0
  | year + 1 => daysBeforeYear year + daysInYear year

/-- The days of the months in front of one, the first of which is 1. -/
def daysBeforeMonth (year : ℕ) : ℕ → ℕ
  | 0 | 1 => 0
  | month + 2 => daysBeforeMonth year (month + 1) + daysInMonth year (month + 1)

structure Date where
  year : ℕ
  month : ℕ
  day : ℕ
  month_pos : 1 ≤ month
  month_le : month ≤ 12
  day_pos : 1 ≤ day
  day_le : day ≤ daysInMonth year month

namespace Date

/-- How many days lie in front of a date. -/
def number (date : Date) : ℕ := daysBeforeYear date.year + daysBeforeMonth date.year date.month + (date.day - 1)

/-- 1970-01-01. -/
def unixEpoch : Date where
  year := 1970
  month := 1
  day := 1
  month_pos := by decide
  month_le := by decide
  day_pos := by decide
  day_le := by decide

/-- Days since 1970-01-01. -/
def unixDays (date : Date) : ℤ := date.number - unixEpoch.number

end Date

theorem isLeap_iff {year : ℕ} : isLeap year = true ↔ year % 4 = 0 ∧ (year % 100 ≠ 0 ∨ year % 400 = 0) := by
  simp [isLeap]

/-- A step of 4, of 100 or of 400 years is full at its multiples. -/
theorem ceil_succ (n k : ℕ) (hk : 0 < k) : (n + k) / k = (n + (k - 1)) / k + if n % k = 0 then 1 else 0 := by
  rw [Nat.add_div_right n hk, Nat.add_div (b := k - 1) hk, Nat.div_eq_of_lt (show k - 1 < k by omega),
    Nat.mod_eq_of_lt (show k - 1 < k by omega)]
  by_cases h : n % k = 0
  · rw [if_pos h, if_neg (by omega)]
  · rw [if_neg h, if_pos (by omega)]

theorem daysBeforeYear_add (year : ℕ) :
    daysBeforeYear year + (year + 99) / 100 = 365 * year + (year + 3) / 4 + (year + 399) / 400 := by
  induction year with
  | zero => rfl
  | succ year ih =>
    have h4 := ceil_succ year 4 (by omega)
    have h100 := ceil_succ year 100 (by omega)
    have h400 := ceil_succ year 400 (by omega)
    have hcentury : year % 100 = 0 → year % 4 = 0 := by omega
    have hcycle : year % 400 = 0 → year % 100 = 0 := by omega
    show daysBeforeYear year + daysInYear year + (year + 100) / 100 = 365 * (year + 1) + (year + 4) / 4 + (year + 400) / 400
    rw [h4, h100, h400]
    unfold daysInYear
    by_cases hleap : isLeap year = true
    · obtain ⟨hm4, hm⟩ := isLeap_iff.1 hleap
      rw [if_pos hleap, if_pos hm4]
      rcases hm with hm | hm
      · rw [if_neg hm, if_neg (mt hcycle hm)]
        omega
      · rw [if_pos (hcycle hm), if_pos hm]
        omega
    · rw [if_neg hleap]
      rw [isLeap_iff, not_and_or, not_or, not_not] at hleap
      rcases hleap with hm | ⟨hm, hm'⟩
      · rw [if_neg hm, if_neg (mt hcentury hm), if_neg (mt hcycle (mt hcentury hm))]
        omega
      · rw [if_pos (hcentury hm), if_pos hm, if_neg hm']
        omega

theorem daysInMonth_le (year month : ℕ) : daysInMonth year month ≤ 31 := by
  unfold daysInMonth
  split
  · split <;> omega
  · omega
  · omega
  · omega
  · omega
  · omega

theorem Date.day_le' (date : Date) : date.day ≤ 31 := date.day_le.trans (daysInMonth_le _ _)

/-- From March on, a month lies where the rule of 30.6001 days puts it in front of the next year. -/
theorem daysBeforeMonth_march (year : ℕ) {month : ℕ} (h3 : 3 ≤ month) (h12 : month ≤ 12) :
    daysBeforeYear year + daysBeforeMonth year month + 428 = daysBeforeYear (year + 1) + 306001 * (month + 1) / 10000 := by
  have hfeb : daysBeforeMonth year 3 + 306 = daysInYear year := by
    simp only [daysBeforeMonth, daysInMonth, daysInYear]
    split <;> rfl
  have hnext : daysBeforeYear (year + 1) = daysBeforeYear year + daysInYear year := rfl
  have hmonth : daysBeforeMonth year month + 122 = daysBeforeMonth year 3 + 306001 * (month + 1) / 10000 := by
    interval_cases month <;> simp [daysBeforeMonth, daysInMonth, Nat.add_assoc]
  omega

/-- January and February are months 13 and 14 of the year before. -/
theorem daysBeforeMonth_winter (year : ℕ) {month : ℕ} (h1 : 1 ≤ month) (h2 : month ≤ 2) :
    daysBeforeMonth year month + 428 = 306001 * (month + 13) / 10000 := by
  interval_cases month <;> simp [daysBeforeMonth, daysInMonth]

theorem daysBeforeMonth_le (year : ℕ) {month : ℕ} (h12 : month ≤ 12) : daysBeforeMonth year month ≤ 366 := by
  rcases Nat.lt_or_ge month 3 with h | h
  · have hfeb := daysInMonth_le year 1
    interval_cases month
    · exact Nat.zero_le _
    · exact Nat.zero_le _
    · exact (Nat.zero_add _).trans_le (hfeb.trans (by decide))
  · have hmarch := daysBeforeMonth_march year h h12
    have hnext : daysBeforeYear (year + 1) = daysBeforeYear year + daysInYear year := rfl
    have hyear : daysInYear year ≤ 366 := by
      unfold daysInYear
      split <;> omega
    omega

/-- The days in front of a year, from the year before. -/
theorem daysBeforeYear_succ (year : ℕ) :
    daysBeforeYear (year + 1) + year / 100 = 365 * year + 366 + year / 4 + year / 400 := by
  have h := daysBeforeYear_add (year + 1)
  omega

theorem unixEpoch_number : Date.unixEpoch.number = 719528 := by
  have h := daysBeforeYear_add 1970
  have hmonth : daysBeforeMonth 1970 1 = 0 := by simp only [daysBeforeMonth]
  unfold Date.number
  dsimp only [Date.unixEpoch]
  omega

end Calendar
