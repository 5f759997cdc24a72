import Linux011.Lib.Calendar
import Mathlib.Data.Int.Notation
import Mathlib.Tactic.Common

/-!
# `kernel/mktime.c`

`kernel_mktime`, with every addition, subtraction and product checked: one that is no `long` any
more ends the computation with `none`. The table `month` supposes that the year is a leap year, and
`(year+1)/4` counts the leap years before it; that this is the Gregorian calendar of
`Linux011.Lib.Calendar`, for as long as a `long` can count the seconds, is
`Linux011.Mktime.kernelMktime_spec`.
-/

namespace Linux011.Mktime

open Calendar

/-! ### The source -/

/-- `MINUTE` -/
def minute : ℤ := 60

/-- `HOUR` -/
def hour : ℤ := 60 * minute

/-- `DAY` -/
def day : ℤ := 24 * hour

/-- `YEAR` -/
def year : ℤ := 365 * day

/-- The days that `month` has been computed from: "interestingly, we assume leap-years". -/
def monthDays : List ℤ := [0, 31, 31 + 29, 31 + 29 + 31, 31 + 29 + 31 + 30,
  31 + 29 + 31 + 30 + 31, 31 + 29 + 31 + 30 + 31 + 30, 31 + 29 + 31 + 30 + 31 + 30 + 31,
  31 + 29 + 31 + 30 + 31 + 30 + 31 + 31, 31 + 29 + 31 + 30 + 31 + 30 + 31 + 31 + 30,
  31 + 29 + 31 + 30 + 31 + 30 + 31 + 31 + 30 + 31,
  31 + 29 + 31 + 30 + 31 + 30 + 31 + 31 + 30 + 31 + 30]

/-- `month` -/
def month : List ℤ := monthDays.map fun d => day * d

/-- **`struct tm`**, as far as it is read. -/
structure Tm where
  sec : ℤ
  min : ℤ
  hour : ℤ
  mday : ℤ
  mon : ℤ
  year : ℤ
  deriving DecidableEq

/-- A value of 32 bits, or none. -/
def long (x : ℤ) : Option ℤ := if -2 ^ 31 ≤ x ∧ x < 2 ^ 31 then some x else none

/-- The place of `month` that is read. -/
def monthAt (mon : ℤ) : Option ℤ := if 0 ≤ mon then month[mon.toNat]? else none

/-- If it wasn't a leap-year, we have to adjust. -/
def adjust (mon y res : ℤ) : Option ℤ :=
  if 1 < mon then do
    let next ← long (y + 2)
    if next.tmod 4 ≠ 0 then long (res - day) else some res
  else some res

/-- **`kernel_mktime`** -/
def kernelMktime (tm : Tm) : Option ℤ := do
  let y ← long (tm.year - 70)
  -- magic offsets (y+1) needed to get leapyears right
  let years ← long (year * y)
  let next ← long (y + 1)
  let leaps ← long (day * next.tdiv 4)
  let res ← long (years + leaps)
  let months ← monthAt tm.mon
  let res ← long (res + months)
  let res ← adjust tm.mon y res
  let before ← long (tm.mday - 1)
  let days ← long (day * before)
  let res ← long (res + days)
  let hours ← long (hour * tm.hour)
  let res ← long (res + hours)
  let minutes ← long (minute * tm.min)
  let res ← long (res + minutes)
  long (res + tm.sec)

/-! ### Dates and times -/

namespace Tm

/-- The date. -/
def date (tm : Tm) : Date := ⟨(tm.year + 1900).toNat, tm.mon.toNat, tm.mday.toNat⟩

/-- **The fields are those of a date and a time.** -/
structure Valid (tm : Tm) : Prop where
  sec : 0 ≤ tm.sec ∧ tm.sec < 60
  min : 0 ≤ tm.min ∧ tm.min < 60
  hour : 0 ≤ tm.hour ∧ tm.hour < 24
  mon : 0 ≤ tm.mon
  mday : 0 ≤ tm.mday
  date : tm.date.Valid

/-- The seconds of the day. -/
def seconds (tm : Tm) : ℤ := 3600 * tm.hour + 60 * tm.min + tm.sec

/-- A day has 86400 seconds. -/
theorem Valid.seconds_lt {tm : Tm} (h : tm.Valid) : 0 ≤ tm.seconds ∧ tm.seconds < 86400 := by
  have hsec := h.sec
  have hmin := h.min
  have hhour := h.hour
  rw [seconds]
  omega

/-- **The order of times** -/
def Before (tm tm' : Tm) : Prop :=
  tm.date.Before tm'.date ∨ tm.date = tm'.date ∧ tm.seconds < tm'.seconds

instance (tm tm' : Tm) : Decidable (tm.Before tm') := inferInstanceAs (Decidable (_ ∨ _))

/-- The last second that a `long` can count: 2038-01-19 03:14:07. -/
def last : Tm := ⟨7, 14, 3, 19, 0, 138⟩

/-- **The times that are promised**: valid, from 1970-01-01 00:00:00 to `last`. -/
structure InRange (tm : Tm) : Prop where
  valid : tm.Valid
  first : 70 ≤ tm.year
  last : ¬last.Before tm

end Tm

/-! ### Years and months -/

theorem long_bind {x : ℤ} {f : ℤ → Option ℤ} (h0 : -2 ^ 31 ≤ x) (h : x < 2 ^ 31) :
    (long x >>= f) = f x := by
  rw [long, if_pos ⟨h0, h⟩]
  rfl

theorem some_bind {x : ℤ} {f : ℤ → Option ℤ} : (some x >>= f) = f x := rfl

/-- Till 2100 every fourth year is a leap year. -/
theorem isLeap_iff {k : ℕ} (h : k < 130) : IsLeap (1970 + k) ↔ (k + 2) % 4 = 0 := by
  rw [IsLeap]
  omega

/-- **The leap years before a year** are counted by `(year+1)/4`. -/
theorem daysOfYears_eq {k : ℕ} (h : k ≤ 130) : daysOfYears 1970 k = 365 * k + (k + 1) / 4 := by
  induction k with
  | zero => rfl
  | succ k ih =>
    have hleap := isLeap_iff (show k < 130 by omega)
    rw [daysOfYears_succ, ih (by omega), yearLength_eq]
    split_ifs with hif
    · have hmod := hleap.mp hif
      omega
    · have hmod := mt hleap.mpr hif
      omega

/-- **The days before a month** are those of the table, but for the day that a year lacks. -/
theorem monthDays_eq {y m : ℕ} (h : m < 12) : (daysOfMonths y m : ℤ) =
    monthDays.getD m 0 - if 1 < m ∧ ¬IsLeap y then 1 else 0 := by
  rw [daysOfMonths_eq (by omega)]
  by_cases hleap : IsLeap y
  · simp only [hleap, and_true, not_true, and_false, if_false]
    interval_cases m <;> rfl
  · simp only [hleap, and_false, not_false_iff, and_true, if_false]
    interval_cases m <;> rfl

theorem monthDays_le {m : ℕ} (h : m < 12) : 0 ≤ monthDays.getD m 0 ∧ monthDays.getD m 0 ≤ 335 := by
  interval_cases m <;> decide

theorem monthAt_eq {m : ℕ} (h : m < 12) : monthAt m = some (day * monthDays.getD m 0) := by
  rw [monthAt, if_pos (by omega)]
  interval_cases m <;> rfl

/-- **The day that the table has too much** is taken off. -/
theorem adjust_eq {m y : ℕ} {res : ℤ} (hy : y < 130) (h0 : 0 ≤ res) (h : res < 2 ^ 31) :
    adjust m y res = some (res - 86400 * if 1 < m ∧ ¬IsLeap (1970 + y) then 1 else 0) := by
  have hleap := isLeap_iff hy
  have hmod : ((y : ℤ) + 2).tmod 4 = (((y + 2) % 4 : ℕ) : ℤ) := by
    rw [Int.tmod_eq_emod_of_nonneg (by omega)]
    omega
  rw [adjust]
  by_cases hm : 1 < m
  · rw [if_pos (by omega), long_bind (by omega) (by omega), hmod]
    by_cases hl : IsLeap (1970 + y)
    · have hzero := hleap.mp hl
      rw [if_neg (by omega), if_neg fun h => h.2 hl, mul_zero, sub_zero]
    · have hzero := mt hleap.mpr hl
      rw [if_pos (by omega), if_pos ⟨hm, hl⟩, long, if_pos (by rw [day, hour, minute]; omega)]
      rfl
  · rw [if_neg (by omega), if_neg fun h => hm h.1, mul_zero, sub_zero]

/-! ### The count -/

/-- The seconds from 1970-01-01 00:00:00 on. -/
def Tm.count (tm : Tm) : ℤ := 86400 * (tm.date.days 1970 : ℤ) + tm.seconds

theorem kernelMktime_eq {tm : Tm} (h : tm.InRange) : kernelMktime tm = some tm.count := by
  obtain ⟨⟨hsec, hmin, hhour, hmon, hmday, hdate⟩, hfirst, hlast⟩ := h
  obtain ⟨y, hy⟩ := Int.eq_ofNat_of_zero_le (show 0 ≤ tm.year - 70 by omega)
  obtain ⟨m, hm⟩ := Int.eq_ofNat_of_zero_le hmon
  obtain ⟨d, hd⟩ := Int.eq_ofNat_of_zero_le hmday
  have hyear : (tm.year + 1900).toNat = 1970 + y := by omega
  have hlt : m < 12 := by
    have hmonth : tm.mon.toNat < 12 := hdate.month
    omega
  have hpos : 0 < d := by
    have hpos : 0 < tm.mday.toNat := hdate.pos
    omega
  have hle : d ≤ monthLength (1970 + y) m := by
    have hle : tm.mday.toNat ≤ monthLength (tm.year + 1900).toNat tm.mon.toNat := hdate.le
    rw [hyear, hm, hd] at hle
    exact hle
  have hle31 : monthLength (1970 + y) m ≤ 31 := by
    rw [monthLength]
    interval_cases m <;> simp [monthTable]
    split_ifs <;> omega
  have hdate' : tm.date = ⟨1970 + y, m, d⟩ := by
    rw [Tm.date, hyear, hm, hd]
    rfl
  -- not after the last second
  have hend : y < 68 ∨ y = 68 ∧ m = 0 ∧ (d < 19 ∨ d = 19 ∧ tm.seconds ≤ 11647) := by
    rw [Tm.Before, hdate', show Tm.last.date = ⟨2038, 0, 19⟩ from rfl,
      show Tm.last.seconds = 11647 from rfl, Date.Before, Date.mk.injEq] at hlast
    dsimp only at hlast
    omega
  have hday : day = 86400 := rfl
  have hyears : year = 31536000 := rfl
  have hhours : hour = 3600 := rfl
  have hminute : minute = 60 := rfl
  have hdiv : ((y : ℤ) + 1).tdiv 4 = (((y + 1) / 4 : ℕ) : ℤ) := by
    rw [Int.tdiv_eq_ediv_of_nonneg (by omega)]
    omega
  have hdays := daysOfYears_eq (show y ≤ 130 by omega)
  have hmonths := monthDays_eq (y := 1970 + y) hlt
  obtain ⟨hM0, hM⟩ := monthDays_le hlt
  have hM0' : m = 0 → monthDays.getD m 0 = 0 := by
    rintro rfl
    rfl
  have hcount : tm.count = 86400 * ((365 * y + (y + 1) / 4 : ℕ) + daysOfMonths (1970 + y) m +
      (d - 1)) + tm.seconds := by
    rw [Tm.count, hdate', Date.days]
    dsimp only
    rw [Nat.add_sub_cancel_left, hdays]
    omega
  have hat := monthAt_eq hlt
  rw [hcount, hmonths]
  rw [Tm.seconds] at hend ⊢
  rw [hday] at hat
  generalize monthDays.getD m 0 = M at *
  rw [kernelMktime, hy, hm, hd, hyears, hday, hhours, hminute, hat, long_bind (by omega) (by omega),
    long_bind (by omega) (by omega), long_bind (by omega) (by omega), hdiv,
    long_bind (by omega) (by omega), long_bind (by omega) (by omega), some_bind,
    long_bind (by omega) (by omega), adjust_eq (by omega) (by omega) (by omega), some_bind]
  have hlack : 0 ≤ (if 1 < m ∧ ¬IsLeap (1970 + y) then 1 else 0 : ℤ) ∧
      (if 1 < m ∧ ¬IsLeap (1970 + y) then 1 else 0 : ℤ) ≤ 1 := by
    split_ifs <;> decide
  generalize (if 1 < m ∧ ¬IsLeap (1970 + y) then 1 else 0 : ℤ) = lack at *
  rw [long_bind (by omega) (by omega), long_bind (by omega) (by omega),
    long_bind (by omega) (by omega), long_bind (by omega) (by omega),
    long_bind (by omega) (by omega), long_bind (by omega) (by omega),
    long_bind (by omega) (by omega), long, if_pos (by omega)]
  congr 1
  omega

/-- **`kernel_mktime` is the Gregorian calendar.** It counts the seconds since 1970-01-01 00:00:00,
and no number on the way is too large for a `long`; of two times the later one has the larger
count. -/
theorem kernelMktime_spec {tm : Tm} (h : tm.InRange) :
    kernelMktime tm = some (86400 * (tm.date.days 1970 : ℤ) + tm.seconds) ∧
      ∀ tm' : Tm, tm'.InRange → tm.Before tm' →
        ∃ r r', kernelMktime tm = some r ∧ kernelMktime tm' = some r' ∧ r < r' := by
  refine ⟨kernelMktime_eq h, fun tm' h' hlt => ⟨_, _, kernelMktime_eq h, kernelMktime_eq h', ?_⟩⟩
  have hyear : 1970 ≤ tm.date.year := by
    have hfirst := h.first
    rw [Tm.date]
    dsimp only
    omega
  have hday := h.valid.seconds_lt
  have hday' := h'.valid.seconds_lt
  rw [Tm.count, Tm.count]
  rcases hlt with hdate | ⟨hsame, hsec⟩
  · have hdays := Date.days_lt h.valid.date h'.valid.date hyear hdate
    omega
  · rw [hsame]
    omega

/-- The last second of a leap year, and the first of the next year. -/
theorem kernelMktime_newYear :
    kernelMktime ⟨59, 59, 23, 31, 11, 100⟩ = some (86400 * 11322 + 86399) ∧
      ∃ r r', kernelMktime ⟨59, 59, 23, 31, 11, 100⟩ = some r ∧
        kernelMktime ⟨0, 0, 0, 1, 0, 101⟩ = some r' ∧ r < r' := by
  have h : Tm.InRange ⟨59, 59, 23, 31, 11, 100⟩ :=
    ⟨⟨by decide, by decide, by decide, by decide, by decide, ⟨by decide, by decide, by decide⟩⟩,
      by decide, by decide⟩
  have h' : Tm.InRange ⟨0, 0, 0, 1, 0, 101⟩ :=
    ⟨⟨by decide, by decide, by decide, by decide, by decide, ⟨by decide, by decide, by decide⟩⟩,
      by decide, by decide⟩
  have hspec := kernelMktime_spec h
  exact ⟨hspec.1.trans (by decide +kernel), hspec.2 _ h' (by decide)⟩

end Linux011.Mktime
