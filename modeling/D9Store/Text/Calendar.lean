import Mathlib

/-!
The Gregorian calendar, extended back to the first of January of the year 1.

Days are counted from that day. A day has one date, and a date is that of one day.
-/

namespace Calendar

def leap (year : Nat) : Bool := year % 4 == 0 && (year % 100 != 0 || year % 400 == 0)

def monthLengths (year : Nat) : List Nat :=
  [31, if leap year then 29 else 28, 31, 30, 31, 30, 31, 31, 30, 31, 30, 31]

/-- The days of the first `n` years. -/
def daysOfYears (n : Nat) : Nat := 365 * n + n / 4 - n / 100 + n / 400

/-- A date of the calendar. -/
structure Date where
  year : Nat
  /-- The number of the month, from 0. -/
  month : Nat
  day : Nat
  year_pos : 0 < year
  month_lt : month < 12
  day_pos : 0 < day
  day_le : day ≤ (monthLengths year).getD month 0
  deriving DecidableEq

/-- The day with a date. -/
def Date.number (x : Date) : Nat :=
  daysOfYears (x.year - 1) + ((monthLengths x.year).take x.month).sum + (x.day - 1)

/-! ### Years -/

theorem sum_monthLengths (year : Nat) :
    (monthLengths year).sum = if leap year then 366 else 365 := by
  cases h : leap year <;> simp [monthLengths, h]

theorem leap_iff (year : Nat) :
    leap year = true ↔ year % 4 = 0 ∧ (year % 100 ≠ 0 ∨ year % 400 = 0) := by
  simp [leap]

theorem div_succ (n m : Nat) : (n + 1) / m = n / m + if (n + 1) % m = 0 then 1 else 0 := by
  simp only [Nat.succ_div, Nat.dvd_iff_mod_eq_zero]

theorem daysOfYears_succ (n : Nat) :
    daysOfYears (n + 1) = daysOfYears n + (monthLengths (n + 1)).sum := by
  have fewer : n / 100 ≤ n / 4 := Nat.div_le_div_left (by decide) (by decide)
  rw [sum_monthLengths, daysOfYears, daysOfYears, div_succ, div_succ, div_succ]
  simp only [leap_iff]
  by_cases four : (n + 1) % 4 = 0
  · by_cases hundred : (n + 1) % 100 = 0
    · by_cases gregorian : (n + 1) % 400 = 0
      · simp only [four, hundred, gregorian, if_true, true_and, or_true]
        omega
      · simp only [four, hundred, gregorian, if_true, if_false, true_and, ne_eq, not_true_eq_false,
          or_false]
        omega
    · have notGregorian : (n + 1) % 400 ≠ 0 := by omega
      simp only [four, hundred, notGregorian, if_true, if_false, true_and, ne_eq, not_false_eq_true,
        or_false]
      omega
  · have notHundred : (n + 1) % 100 ≠ 0 := by omega
    have notGregorian : (n + 1) % 400 ≠ 0 := by omega
    simp only [four, notHundred, notGregorian, if_false, false_and]
    omega

/-- The number of years that are over on a day. -/
def yearsOver (d : Nat) : Nat :=
  let n := d * 400 / 146097
  if d < daysOfYears n then n - 1 else if daysOfYears (n + 1) ≤ d then n + 1 else n

/-- The guess from the mean length of a year is off by one at most. -/
theorem yearsOver_spec (d : Nat) :
    daysOfYears (yearsOver d) ≤ d ∧ d < daysOfYears (yearsOver d + 1) := by
  unfold yearsOver
  generalize guess : d * 400 / 146097 = n
  dsimp only
  have low : n * 146097 ≤ d * 400 := by omega
  have high : d * 400 < (n + 1) * 146097 := by omega
  split
  · rename_i early
    unfold daysOfYears at *
    omega
  · split
    · unfold daysOfYears at *
      omega
    · omega

/-! ### Months -/

/-- The month of a day of the year, and the days of it that are over. -/
def monthOver : List Nat → Nat → Nat × Nat
  | [], d => (0, d)
  | length :: rest, d =>
    if d < length then (0, d)
    else
      let (month, day) := monthOver rest (d - length)
      (month + 1, day)

theorem monthOver_spec (lengths : List Nat) {d : Nat} (inside : d < lengths.sum) :
    (monthOver lengths d).1 < lengths.length ∧
      (monthOver lengths d).2 < lengths.getD (monthOver lengths d).1 0 ∧
      (lengths.take (monthOver lengths d).1).sum + (monthOver lengths d).2 = d := by
  induction lengths generalizing d with
  | nil => exact absurd inside (Nat.not_lt_zero d)
  | cons length rest ih =>
    rw [monthOver]
    by_cases first : d < length
    · rw [if_pos first]
      simpa using first
    · rw [if_neg first]
      rw [List.sum_cons] at inside
      obtain ⟨low, short, total⟩ := ih (d := d - length) (by omega)
      refine ⟨by simpa using low, by simpa using short, ?_⟩
      simp only [List.take_succ_cons, List.sum_cons]
      omega

/-! ### Dates -/

theorem dayOfYear_lt (d : Nat) :
    d - daysOfYears (yearsOver d) < (monthLengths (yearsOver d + 1)).sum := by
  obtain ⟨low, high⟩ := yearsOver_spec d
  rw [daysOfYears_succ] at high
  omega

/-- The date of a day. -/
def dateOf (d : Nat) : Date :=
  let month := monthOver (monthLengths (yearsOver d + 1)) (d - daysOfYears (yearsOver d))
  have spec := monthOver_spec _ (dayOfYear_lt d)
  { year := yearsOver d + 1
    month := month.1
    day := month.2 + 1
    year_pos := Nat.succ_pos _
    month_lt := spec.1
    day_pos := Nat.succ_pos _
    day_le := spec.2.1 }

theorem number_dateOf (d : Nat) : (dateOf d).number = d := by
  obtain ⟨-, -, total⟩ := monthOver_spec _ (dayOfYear_lt d)
  obtain ⟨low, -⟩ := yearsOver_spec d
  simp only [Date.number, dateOf, Nat.add_sub_cancel]
  omega

theorem daysOfYears_mono {n m : Nat} (le : n ≤ m) : daysOfYears n ≤ daysOfYears m := by
  induction le with
  | refl => exact le_rfl
  | step _ ih =>
    rw [daysOfYears_succ]
    omega

theorem year_dateOf_lt {d n : Nat} (before : d < daysOfYears n) : (dateOf d).year ≤ n := by
  by_contra later
  have year : n ≤ yearsOver d := by
    have : (dateOf d).year = yearsOver d + 1 := rfl
    omega
  have := (daysOfYears_mono year).trans (yearsOver_spec d).1
  omega

/-- The first of January 1970. -/
example : (Calendar.dateOf 719162).year = 1970 ∧ (dateOf 719162).month = 0 ∧ (dateOf 719162).day = 1 := by
  decide

end Calendar
