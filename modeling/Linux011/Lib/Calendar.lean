import Mathlib.Algebra.BigOperators.Group.Finset.Basic
import Mathlib.Algebra.Order.BigOperators.Group.Finset
import Mathlib.Tactic.IntervalCases

/-!
# The Gregorian calendar

Days counted from an epoch: the lengths of the years before a date, of the months before it in its
year, and its day (`Linux011.Calendar.Date.days`). The count is strictly increasing in the date
(`Linux011.Calendar.Date.days_lt`).

The months are counted from 0, the days of a month from 1.
-/

namespace Linux011.Calendar

/-- **A leap year** -/
def IsLeap (y : ℕ) : Prop := 4 ∣ y ∧ (100 ∣ y → 400 ∣ y)

instance (y : ℕ) : Decidable (IsLeap y) := inferInstanceAs (Decidable (_ ∧ _))

/-- The days of a month in a year that is no leap year. -/
def monthTable : List ℕ := [31, 28, 31, 30, 31, 30, 31, 31, 30, 31, 30, 31]

/-- The days of a month. -/
def monthLength (y m : ℕ) : ℕ := monthTable.getD m 0 + if m = 1 ∧ IsLeap y then 1 else 0

/-- The days of a year before a month. -/
def daysOfMonths (y m : ℕ) : ℕ := ∑ i ∈ Finset.range m, monthLength y i

/-- The days of a year. -/
def yearLength (y : ℕ) : ℕ := daysOfMonths y 12

/-- The days of so many years from an epoch on. -/
def daysOfYears (epoch n : ℕ) : ℕ := ∑ i ∈ Finset.range n, yearLength (epoch + i)

/-- **A date** -/
structure Date where
  year : ℕ
  month : ℕ
  day : ℕ
  deriving DecidableEq

variable {epoch y m n : ℕ}

theorem daysOfMonths_succ (y m : ℕ) :
    daysOfMonths y (m + 1) = daysOfMonths y m + monthLength y m := Finset.sum_range_succ _ _

theorem daysOfYears_succ (epoch n : ℕ) :
    daysOfYears epoch (n + 1) = daysOfYears epoch n + yearLength (epoch + n) :=
  Finset.sum_range_succ _ _

theorem daysOfMonths_mono (y : ℕ) : Monotone (daysOfMonths y) :=
  monotone_nat_of_le_succ fun m => by
    rw [daysOfMonths_succ]
    exact Nat.le_add_right _ _

theorem daysOfYears_mono (epoch : ℕ) : Monotone (daysOfYears epoch) :=
  monotone_nat_of_le_succ fun n => by
    rw [daysOfYears_succ]
    exact Nat.le_add_right _ _

/-- The days before a month, in a leap year and in another one. -/
theorem daysOfMonths_eq (h : m ≤ 12) : daysOfMonths y m =
    [0, 31, 59, 90, 120, 151, 181, 212, 243, 273, 304, 334, 365].getD m 0 +
      if 1 < m ∧ IsLeap y then 1 else 0 := by
  induction m with
  | zero => rfl
  | succ m ih =>
    rw [daysOfMonths_succ, ih (by omega), monthLength]
    have hlt : m < 12 := h
    by_cases hleap : IsLeap y
    · simp only [hleap, and_true]
      interval_cases m <;> rfl
    · simp only [hleap, and_false, if_false]
      interval_cases m <;> rfl

theorem yearLength_eq (y : ℕ) : yearLength y = if IsLeap y then 366 else 365 := by
  rw [yearLength, daysOfMonths_eq le_rfl]
  by_cases hleap : IsLeap y
  · rw [if_pos ⟨by decide, hleap⟩, if_pos hleap]
    rfl
  · rw [if_neg (fun h => hleap h.2), if_neg hleap]
    rfl

namespace Date

variable {d d' : Date}

/-- There is such a date. -/
structure Valid (d : Date) : Prop where
  month : d.month < 12
  pos : 0 < d.day
  le : d.day ≤ monthLength d.year d.month

/-- **The days from the beginning of the epoch to a date** -/
def days (epoch : ℕ) (d : Date) : ℕ :=
  daysOfYears epoch (d.year - epoch) + daysOfMonths d.year d.month + (d.day - 1)

/-- **The order of dates** -/
def Before (d d' : Date) : Prop :=
  d.year < d'.year ∨ d.year = d'.year ∧ (d.month < d'.month ∨ d.month = d'.month ∧ d.day < d'.day)

instance (d d' : Date) : Decidable (d.Before d') := inferInstanceAs (Decidable (_ ∨ _))

/-- The days of the year before a date are fewer than the year has. -/
theorem days_of_year_lt (h : d.Valid) : daysOfMonths d.year d.month + (d.day - 1) <
    yearLength d.year := by
  have hmono := daysOfMonths_mono d.year (show d.month + 1 ≤ 12 from h.month)
  rw [daysOfMonths_succ] at hmono
  have hle := h.le
  have hpos := h.pos
  rw [yearLength]
  omega

/-- **The number is strictly increasing in the date.** -/
theorem days_lt (h : d.Valid) (h' : d'.Valid) (he : epoch ≤ d.year) (hlt : d.Before d') :
    d.days epoch < d'.days epoch := by
  have hpos := h.pos
  have hle := h.le
  have hpos' := h'.pos
  rcases hlt with hyear | ⟨hyear, hmonth | ⟨hmonth, hday⟩⟩
  · have hmono := daysOfYears_mono epoch (show d.year - epoch + 1 ≤ d'.year - epoch by omega)
    rw [daysOfYears_succ, Nat.add_sub_cancel' he] at hmono
    have hrest := days_of_year_lt h
    rw [days, days]
    omega
  · have hmono := daysOfMonths_mono d.year (show d.month + 1 ≤ d'.month from hmonth)
    rw [daysOfMonths_succ] at hmono
    rw [days, days, ← hyear]
    omega
  · rw [days, days, ← hyear, ← hmonth]
    omega

end Date

end Linux011.Calendar
