import Mathlib

/-!
# The Gregorian calendar

Days are counted from 1 January of year 0, which is day 1: `dayNumber` is the day of a date, the
calendar's months and years in front of it, and `Dated` are the dates that there are. The day after
a date is the next number (`dayNumber_nextMonth`, `dayNumber_nextYear`), and no two dates are one
day (`Dated.injective`).

A day of the week is a day's number and an offset, modulo seven; day 0 is a Sunday. `lastSunday` is
the last Sunday of a month.
-/

namespace Apollo.Lib

/-- The years with a 29 February. -/
def IsLeapYear (y : Nat) : Prop := y % 4 = 0 ∧ (y % 100 = 0 → y % 400 = 0)

instance (y : Nat) : Decidable (IsLeapYear y) :=
  inferInstanceAs (Decidable (y % 4 = 0 ∧ (y % 100 = 0 → y % 400 = 0)))

/-- The days of a month; month 0 has none. -/
def monthLength (y m : Nat) : Nat :=
  if m = 0 then 0
  else if m = 2 then if IsLeapYear y then 29 else 28
  else if m = 4 ∨ m = 6 ∨ m = 9 ∨ m = 11 then 30
  else 31

/-- The days of a year before a month. -/
def daysBeforeMonth (y m : Nat) : Nat := ∑ k ∈ Finset.range m, monthLength y k

/-- The days before a year. -/
def daysBeforeYear (y : Nat) : Nat := ∑ k ∈ Finset.range y, daysBeforeMonth k 13

/-- The day of a date. -/
def dayNumber (y m d : Nat) : Nat := daysBeforeYear y + daysBeforeMonth y m + d

/-- The dates that there are. -/
structure Dated (y m d : Nat) : Prop where
  january : 1 ≤ m
  december : m ≤ 12
  first : 1 ≤ d
  last : d ≤ monthLength y m

variable {y m d : Nat}

theorem monthLength_pos (y : Nat) (hm : m ≠ 0) : 28 ≤ monthLength y m := by
  unfold monthLength
  rw [if_neg hm]
  split_ifs <;> decide

theorem monthLength_le (y m : Nat) : monthLength y m ≤ 31 := by
  unfold monthLength
  split_ifs <;> decide

theorem daysBeforeMonth_succ (y m : Nat) :
    daysBeforeMonth y (m + 1) = daysBeforeMonth y m + monthLength y m :=
  Finset.sum_range_succ _ _

theorem daysBeforeYear_succ (y : Nat) :
    daysBeforeYear (y + 1) = daysBeforeYear y + daysBeforeMonth y 13 :=
  Finset.sum_range_succ _ _

theorem daysBeforeMonth_one (y : Nat) : daysBeforeMonth y 1 = 0 := by
  simp [daysBeforeMonth, monthLength]

theorem daysBeforeMonth_mono (y : Nat) {m m' : Nat} (h : m ≤ m') :
    daysBeforeMonth y m ≤ daysBeforeMonth y m' :=
  Finset.sum_le_sum_of_subset (Finset.range_subset_range.2 h)

theorem daysBeforeYear_mono {y y' : Nat} (h : y ≤ y') : daysBeforeYear y ≤ daysBeforeYear y' :=
  Finset.sum_le_sum_of_subset (Finset.range_subset_range.2 h)

theorem daysBeforeMonth_thirteen (y : Nat) :
    daysBeforeMonth y 13 = if IsLeapYear y then 366 else 365 := by
  unfold daysBeforeMonth monthLength
  split_ifs <;> rfl

/-- A leap year in four, less one in a hundred, and one in four hundred. -/
theorem daysBeforeYear_eq (y : Nat) :
    daysBeforeYear y + (y + 99) / 100 = 365 * y + (y + 3) / 4 + (y + 399) / 400 := by
  induction y with
  | zero => rfl
  | succ y ih =>
    have hfour : (y + 1 + 3) / 4 = (y + 3) / 4 + if y % 4 = 0 then 1 else 0 := by
      split_ifs <;> omega
    have hhundred : (y + 1 + 99) / 100 = (y + 99) / 100 + if y % 100 = 0 then 1 else 0 := by
      split_ifs <;> omega
    have hcycle : (y + 1 + 399) / 400 = (y + 399) / 400 + if y % 400 = 0 then 1 else 0 := by
      split_ifs <;> omega
    have hlength : (if IsLeapYear y then 366 else 365) + (if y % 100 = 0 then 1 else 0) =
        365 + (if y % 4 = 0 then 1 else 0) + if y % 400 = 0 then 1 else 0 := by
      by_cases hleap : IsLeapYear y
      · rw [if_pos hleap]
        unfold IsLeapYear at hleap
        split_ifs <;> omega
      · rw [if_neg hleap]
        unfold IsLeapYear at hleap
        split_ifs <;> omega
    rw [daysBeforeYear_succ, daysBeforeMonth_thirteen, hfour, hhundred, hcycle]
    omega

theorem daysBeforeYear_of {y days : Nat}
    (h : days + (y + 99) / 100 = 365 * y + (y + 3) / 4 + (y + 399) / 400) :
    daysBeforeYear y = days := by
  have hrule := daysBeforeYear_eq y
  omega

/-! ## The next day -/

theorem dayNumber_nextMonth (y m : Nat) :
    dayNumber y (m + 1) 1 = dayNumber y m (monthLength y m) + 1 := by
  rw [dayNumber, dayNumber, daysBeforeMonth_succ]
  omega

theorem dayNumber_nextYear (y : Nat) :
    dayNumber (y + 1) 1 1 = dayNumber y 12 (monthLength y 12) + 1 := by
  rw [dayNumber, dayNumber, daysBeforeYear_succ, daysBeforeMonth_one, daysBeforeMonth_succ]
  omega

/-! ## A day has one date -/

theorem Dated.in_year (h : Dated y m d) :
    daysBeforeYear y < dayNumber y m d ∧ dayNumber y m d ≤ daysBeforeYear (y + 1) := by
  have hmonth := daysBeforeMonth_mono y (show m + 1 ≤ 13 by have := h.december; omega)
  have hfirst := h.first
  have hlast := h.last
  rw [daysBeforeMonth_succ] at hmonth
  rw [daysBeforeYear_succ, dayNumber]
  omega

theorem Dated.in_month (h : Dated y m d) :
    daysBeforeYear y + daysBeforeMonth y m < dayNumber y m d ∧
      dayNumber y m d ≤ daysBeforeYear y + daysBeforeMonth y (m + 1) := by
  have hfirst := h.first
  have hlast := h.last
  rw [daysBeforeMonth_succ, dayNumber]
  omega

/-- NO TWO DATES ARE ONE DAY. -/
theorem Dated.injective {y' m' d' : Nat} (h : Dated y m d) (h' : Dated y' m' d')
    (heq : dayNumber y m d = dayNumber y' m' d') : y = y' ∧ m = m' ∧ d = d' := by
  obtain ⟨hlow, hhigh⟩ := h.in_year
  obtain ⟨hlow', hhigh'⟩ := h'.in_year
  obtain rfl : y = y' := by
    rcases Nat.lt_trichotomy y y' with hlt | heq' | hlt
    · have := daysBeforeYear_mono (show y + 1 ≤ y' from hlt)
      omega
    · exact heq'
    · have := daysBeforeYear_mono (show y' + 1 ≤ y from hlt)
      omega
  obtain ⟨hlow, hhigh⟩ := h.in_month
  obtain ⟨hlow', hhigh'⟩ := h'.in_month
  obtain rfl : m = m' := by
    rcases Nat.lt_trichotomy m m' with hlt | heq' | hlt
    · have := daysBeforeMonth_mono y (show m + 1 ≤ m' from hlt)
      omega
    · exact heq'
    · have := daysBeforeMonth_mono y (show m' + 1 ≤ m from hlt)
      omega
  exact ⟨rfl, rfl, Nat.add_left_cancel heq⟩

/-! ## Sundays -/

/-- The last Sunday of a month, under an offset of the days of the week. -/
def lastSunday (offset y m : Nat) : Nat :=
  dayNumber y m (monthLength y m) - (dayNumber y m (monthLength y m) + offset) % 7

theorem dayNumber_eq_lastSunday (h : Dated y m d) (offset : Nat) :
    dayNumber y m d = lastSunday offset y m ↔
      (dayNumber y m d + offset) % 7 = 0 ∧ monthLength y m < d + 7 := by
  have hlast := h.last
  have hlong := monthLength_pos y (show m ≠ 0 by have := h.january; omega)
  have hend : dayNumber y m (monthLength y m) = dayNumber y m d + (monthLength y m - d) := by
    rw [dayNumber, dayNumber]
    omega
  have hday : d ≤ dayNumber y m d := Nat.le_add_left _ _
  unfold lastSunday
  rw [hend]
  omega

theorem lastSunday_dated (offset y : Nat) {m : Nat} (hm : 1 ≤ m) (hm' : m ≤ 12) :
    ∃ d, Dated y m d ∧ lastSunday offset y m = dayNumber y m d ∧ 22 ≤ d := by
  have hlong := monthLength_pos y (show m ≠ 0 by omega)
  have hmod := Nat.mod_lt (dayNumber y m (monthLength y m) + offset) (show 0 < 7 by decide)
  refine ⟨monthLength y m - (dayNumber y m (monthLength y m) + offset) % 7,
    ⟨hm, hm', by omega, Nat.sub_le _ _⟩, ?_, by omega⟩
  unfold lastSunday dayNumber at *
  omega

end Apollo.Lib
