import Mathlib.Data.Int.Basic

/-!
# Days and dates

The proleptic Gregorian calendar. Days are counted from 1970-01-01.

* `exists_dateOf` and `days_dateOf` — each day has a date, and this is the day of it.

The years that are reckoned with begin on the first of March, so that a leap day is the last of its year.
-/

namespace Calendar

structure Date where
  year : ℤ
  month : ℤ
  day : ℤ
deriving DecidableEq, Repr

/-- A leap year. -/
def IsLeap (year : ℤ) : Prop := year % 4 = 0 ∧ (year % 100 ≠ 0 ∨ year % 400 = 0)

instance (year : ℤ) : Decidable (IsLeap year) := inferInstanceAs (Decidable (_ ∧ _))

/-- The number of days of a month. -/
def monthLength (year month : ℤ) : ℤ :=
  if month = 2 then if IsLeap year then 29 else 28
  else if month = 4 ∨ month = 6 ∨ month = 9 ∨ month = 11 then 30
  else 31

/-- A date that there is. -/
structure Date.Exists (d : Date) : Prop where
  month_pos : 1 ≤ d.month
  month_le : d.month ≤ 12
  day_pos : 1 ≤ d.day
  day_le : d.day ≤ monthLength d.year d.month

instance (d : Date) : Decidable d.Exists :=
  decidable_of_iff (1 ≤ d.month ∧ d.month ≤ 12 ∧ 1 ≤ d.day ∧ d.day ≤ monthLength d.year d.month)
    ⟨fun ⟨h₁, h₂, h₃, h₄⟩ => ⟨h₁, h₂, h₃, h₄⟩, fun h => ⟨h.month_pos, h.month_le, h.day_pos, h.day_le⟩⟩

/-- The days before a year that begins in March. -/
def daysBefore (year : ℤ) : ℤ := 365 * year + year / 4 - year / 100 + year / 400

/-- The days before a month, of a year that begins in March. -/
def daysBeforeMonth (month : ℤ) : ℤ := (153 * month + 2) / 5

/-- The day of a date. -/
def Date.days (d : Date) : ℤ :=
  if d.month ≤ 2 then daysBefore (d.year - 1) + daysBeforeMonth (d.month + 9) + d.day - 719469
  else daysBefore d.year + daysBeforeMonth (d.month - 3) + d.day - 719469

/-- A day of a year that begins in March. -/
structure YearDay where
  year : ℤ
  day : ℤ

/-- The years of a day, taken out in cycles of 400, 100, 4 and 1. -/
def yearDay (days : ℤ) : YearDay :=
  let z := days + 719468
  let r := z % 146097
  let c := min (r / 36524) 3
  let r := r - c * 36524
  let q := min (r / 1461) 24
  let r := r - q * 1461
  let y := min (r / 365) 3
  ⟨400 * (z / 146097) + 100 * c + 4 * q + y, r - y * 365⟩

/-- The date of a day. -/
def dateOf (days : ℤ) : Date :=
  let y := yearDay days
  let month := (5 * y.day + 2) / 153
  let day := y.day - daysBeforeMonth month + 1
  if month < 10 then ⟨y.year, month + 3, day⟩ else ⟨y.year + 1, month - 9, day⟩

/-- The day of a year, and the leap day. -/
theorem yearDay_spec (days : ℤ) : 0 ≤ (yearDay days).day ∧ (yearDay days).day ≤ 365 ∧
    ((yearDay days).day = 365 → IsLeap ((yearDay days).year + 1)) ∧
    daysBefore (yearDay days).year + (yearDay days).day = days + 719468 := by
  unfold yearDay daysBefore IsLeap
  dsimp only
  generalize hz : days + 719468 = z
  generalize hr : z % 146097 = r
  generalize he : z / 146097 = e
  have hze : z = 146097 * e + r := by omega
  have hr0 : 0 ≤ r ∧ r < 146097 := by omega
  generalize hc : min (r / 36524) 3 = c
  have hc0 : 0 ≤ c ∧ c ≤ 3 ∧ 0 ≤ r - c * 36524 ∧ (c < 3 → r - c * 36524 < 36524) ∧ r - c * 36524 ≤ 36524 := by omega
  generalize hr1 : r - c * 36524 = r1 at *
  generalize hq : min (r1 / 1461) 24 = q
  have hq0 : 0 ≤ q ∧ q ≤ 24 ∧ 0 ≤ r1 - q * 1461 ∧ r1 - q * 1461 ≤ 1460 ∧ (q = 24 → c < 3 → r1 - q * 1461 ≤ 1459) := by omega
  generalize hr2 : r1 - q * 1461 = r2 at *
  generalize hy : min (r2 / 365) 3 = y
  have hy0 : 0 ≤ y ∧ y ≤ 3 ∧ 0 ≤ r2 - y * 365 ∧ r2 - y * 365 ≤ 365 ∧ (r2 - y * 365 = 365 → y = 3 ∧ r2 = 1460) := by omega
  refine ⟨by omega, by omega, fun hleap => ?_, ?_⟩
  · obtain ⟨hy3, hlast⟩ := hy0.2.2.2.2 hleap
    subst hy3
    rcases Int.lt_or_eq_of_le hq0.2.1 with hq24 | hq24
    · have hyear : 400 * e + 100 * c + 4 * q + 3 + 1 = 100 * (4 * e + c) + 4 * (q + 1) := by omega
      rw [hyear]
      omega
    · -- the last four years of a century end with a leap day if it is the fourth
      have hc3 : c = 3 := by omega
      subst hq24 hc3
      have hyear : 400 * e + 100 * 3 + 4 * 24 + 3 + 1 = 400 * (e + 1) := by omega
      rw [hyear]
      omega
  · have h4 : (400 * e + 100 * c + 4 * q + y) / 4 = 100 * e + 25 * c + q := by omega
    have h100 : (400 * e + 100 * c + 4 * q + y) / 100 = 4 * e + c := by omega
    have h400 : (400 * e + 100 * c + 4 * q + y) / 400 = e := by omega
    rw [h4, h100, h400]
    omega

/-- The month of a day of the year, and what is left of it. -/
theorem month_spec {day : ℤ} (h0 : 0 ≤ day) (h365 : day ≤ 365) : 0 ≤ (5 * day + 2) / 153 ∧ (5 * day + 2) / 153 ≤ 11 ∧
    1 ≤ day - daysBeforeMonth ((5 * day + 2) / 153) + 1 := by
  unfold daysBeforeMonth
  omega

/-- This is the day of the date of a day. -/
theorem days_dateOf (days : ℤ) : (dateOf days).days = days := by
  obtain ⟨h0, h365, -, hdays⟩ := yearDay_spec days
  obtain ⟨hmonth0, hmonth11, -⟩ := month_spec h0 h365
  unfold dateOf
  dsimp only
  split_ifs with hmonth
  · rw [Date.days, if_neg (by dsimp only; omega)]
    dsimp only
    rw [Int.add_sub_cancel]
    omega
  · rw [Date.days, if_pos (by dsimp only; omega)]
    dsimp only
    rw [Int.add_sub_cancel, Int.sub_add_cancel]
    omega

/-- Each day has a date. -/
theorem exists_dateOf (days : ℤ) : (dateOf days).Exists := by
  obtain ⟨h0, h365, hleap, -⟩ := yearDay_spec days
  obtain ⟨hmonth0, hmonth11, hday⟩ := month_spec h0 h365
  unfold dateOf
  dsimp only
  generalize yearDay days = y at *
  unfold daysBeforeMonth at hday ⊢
  split_ifs with hmonth
  · refine ⟨?_, ?_, hday, ?_⟩
    · dsimp only; omega
    · dsimp only; omega
    · unfold monthLength
      dsimp only
      split_ifs <;> omega
  · refine ⟨?_, ?_, hday, ?_⟩
    · dsimp only; omega
    · dsimp only; omega
    · unfold monthLength
      dsimp only
      split_ifs with hfebruary hleapYear h30
      · omega
      · -- the last day of a year is there in leap years only
        have hne : y.day ≠ 365 := fun hlast => hleapYear (hleap hlast)
        omega
      · omega
      · omega

example : dateOf 0 = ⟨1970, 1, 1⟩ ∧ dateOf 11016 = ⟨2000, 2, 29⟩ ∧ dateOf (-719529) = ⟨-1, 12, 31⟩ := by decide

end Calendar
