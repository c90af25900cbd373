import Mathlib.Algebra.Ring.Int.Defs
import Mathlib.Logic.Function.Iterate
import Mathlib.Tactic.IntervalCases

/-!
# Machinery/Gregorian — the dates of the Gregorian calendar, one after the other

    ⋯ ─▸ 28 February ─▸ 29 February ─▸ 1 March ─▸ ⋯ ─▸ 31 December ─▸ 1 January ─▸ ⋯
                        in leap years

`next` is all the calendar says.  `dayNumber` counts the days before a date in closed form: it goes up
by one from a date to the next (`dayNumber_next`) and no two dates have the same (`dayNumber_injective`),
so the days that elapse between two dates are the difference of their numbers (`iterate_next_iff`).
-/

namespace Gregorian

/-- Every fourth year, but of the centuries every fourth only. -/
def IsLeap (year : ℤ) : Prop := year % 4 = 0 ∧ (year % 100 ≠ 0 ∨ year % 400 = 0)

instance : DecidablePred IsLeap := fun _ => inferInstanceAs (Decidable (_ ∧ _))

/-- The length of a month. -/
def daysInMonth (year month : ℤ) : ℤ :=
  if month = 2 then if IsLeap year then 29 else 28
  else if month = 4 ∨ month = 6 ∨ month = 9 ∨ month = 11 then 30
  else 31

/-- A date of the calendar. -/
@[ext]
structure Date where
  year : ℤ
  month : ℤ
  day : ℤ
  month_range : 1 ≤ month ∧ month ≤ 12
  day_range : 1 ≤ day ∧ day ≤ daysInMonth year month

theorem daysInMonth_pos (year month : ℤ) : 1 ≤ daysInMonth year month := by
  rw [daysInMonth]
  split_ifs <;> decide

theorem daysInMonth_le (year month : ℤ) : daysInMonth year month ≤ 31 := by
  rw [daysInMonth]
  split_ifs <;> decide

namespace Date

variable (d e : Date)

/-- The date after this one. -/
def next : Date :=
  if hday : d.day < daysInMonth d.year d.month then
    { d with
      day := d.day + 1
      day_range := ⟨by have := d.day_range; omega, hday⟩ }
  else if hmonth : d.month < 12 then
    { year := d.year
      month := d.month + 1
      day := 1
      month_range := ⟨by have := d.month_range; omega, hmonth⟩
      day_range := ⟨le_refl 1, daysInMonth_pos _ _⟩ }
  else
    { year := d.year + 1
      month := 1
      day := 1
      month_range := by decide
      day_range := ⟨le_refl 1, daysInMonth_pos _ _⟩ }

/-- Not after the other. -/
instance : LE Date where
  le d e := d.year < e.year ∨ d.year = e.year ∧
    (d.month < e.month ∨ d.month = e.month ∧ d.day ≤ e.day)

end Date

/-! ## Day numbers -/

/-- The days before a year, those before the year 1 counting down. -/
def daysBeforeYear (year : ℤ) : ℤ :=
  365 * (year - 1) + (year - 1) / 4 - (year - 1) / 100 + (year - 1) / 400

/-- The days of a year before a month; all of them, before a thirteenth one. -/
def daysBeforeMonth (year month : ℤ) : ℤ :=
  (367 * month - 362) / 12 + if month ≤ 2 then 0 else if IsLeap year then -1 else -2

/-- The next month begins behind this one. -/
theorem daysBeforeMonth_succ (year : ℤ) {month : ℤ} (h : 1 ≤ month ∧ month ≤ 12) :
    daysBeforeMonth year (month + 1) = daysBeforeMonth year month + daysInMonth year month := by
  obtain ⟨hlow, hhigh⟩ := h
  rw [daysBeforeMonth, daysBeforeMonth, daysInMonth]
  interval_cases month <;> split_ifs <;> omega

theorem daysBeforeMonth_mono (year : ℤ) {month month' : ℤ} (h : month ≤ month') :
    daysBeforeMonth year month ≤ daysBeforeMonth year month' := by
  rw [daysBeforeMonth, daysBeforeMonth]
  split_ifs <;> omega

theorem daysBeforeYear_mono {year year' : ℤ} (h : year ≤ year') :
    daysBeforeYear year ≤ daysBeforeYear year' := by
  rw [daysBeforeYear, daysBeforeYear]
  omega

/-- The next year begins behind this one. -/
theorem daysBeforeYear_succ (year : ℤ) :
    daysBeforeYear (year + 1) = daysBeforeYear year + daysBeforeMonth year 13 := by
  rw [daysBeforeYear, daysBeforeYear, daysBeforeMonth]
  simp only [IsLeap]
  split_ifs <;> omega

namespace Date

variable (d e : Date)

/-- The days up to a date, itself included. -/
def dayNumber : ℤ := daysBeforeYear d.year + daysBeforeMonth d.year d.month + d.day

/-- **The next date has the next number.** -/
theorem dayNumber_next : d.next.dayNumber = d.dayNumber + 1 := by
  have hmonth := d.month_range
  have hday := d.day_range
  have hsucc := daysBeforeMonth_succ d.year hmonth
  rw [next]
  split_ifs with h₁ h₂
  · rw [dayNumber, dayNumber]
    simp only
    omega
  · rw [dayNumber, dayNumber]
    simp only
    omega
  · have hlast : d.month + 1 = 13 := by omega
    have hyear := daysBeforeYear_succ d.year
    have hfirst : daysBeforeMonth (d.year + 1) 1 = 0 := rfl
    rw [hlast] at hsucc
    rw [dayNumber, dayNumber]
    simp only
    omega

theorem daysBeforeMonth_add_day_pos : 0 < daysBeforeMonth d.year d.month + d.day := by
  have hfirst : daysBeforeMonth d.year 1 = 0 := rfl
  have hmonth := daysBeforeMonth_mono d.year d.month_range.1
  have hday := d.day_range
  omega

theorem daysBeforeMonth_add_day_le {month : ℤ} (h : d.month < month) :
    daysBeforeMonth d.year d.month + d.day ≤ daysBeforeMonth d.year month := by
  have hsucc := daysBeforeMonth_succ d.year d.month_range
  have hmonth := daysBeforeMonth_mono d.year (Int.add_one_le_of_lt h)
  have hday := d.day_range
  omega

/-- A year ends before the next one begins. -/
theorem dayNumber_le_year : d.dayNumber ≤ daysBeforeYear (d.year + 1) := by
  have hmonth := d.month_range
  have hall : daysBeforeMonth d.year d.month + d.day ≤ daysBeforeMonth d.year 13 :=
    d.daysBeforeMonth_add_day_le (by omega)
  rw [dayNumber, daysBeforeYear_succ]
  omega

variable {d e}

/-- An earlier year is earlier. -/
theorem dayNumber_lt_of_year (h : d.year < e.year) : d.dayNumber < e.dayNumber := by
  have hyear := daysBeforeYear_mono (Int.add_one_le_of_lt h)
  have hend := d.dayNumber_le_year
  have hpos := e.daysBeforeMonth_add_day_pos
  rw [dayNumber] at hend
  rw [dayNumber, dayNumber]
  omega

/-- In one year, an earlier month is earlier. -/
theorem dayNumber_lt_of_month (hyear : d.year = e.year) (h : d.month < e.month) :
    d.dayNumber < e.dayNumber := by
  have hle := d.daysBeforeMonth_add_day_le h
  have hday := e.day_range
  rw [dayNumber, dayNumber, ← hyear]
  omega

/-- **The numbers are in the order of the dates.** -/
theorem le_iff_dayNumber_le : d ≤ e ↔ d.dayNumber ≤ e.dayNumber := by
  constructor
  · rintro (hyear | ⟨hyear, hmonth | ⟨hmonth, hday⟩⟩)
    · exact (dayNumber_lt_of_year hyear).le
    · exact (dayNumber_lt_of_month hyear hmonth).le
    · rw [dayNumber, dayNumber, hyear, hmonth]
      exact Int.add_le_add_left hday _
  · intro h
    obtain hyear | hyear | hyear := Int.lt_trichotomy d.year e.year
    · exact .inl hyear
    · obtain hmonth | hmonth | hmonth := Int.lt_trichotomy d.month e.month
      · exact .inr ⟨hyear, .inl hmonth⟩
      · rw [dayNumber, dayNumber, hyear, hmonth] at h
        exact .inr ⟨hyear, .inr ⟨hmonth, Int.le_of_add_le_add_left h⟩⟩
      · exact absurd h (dayNumber_lt_of_month hyear.symm hmonth).not_ge
    · exact absurd h (dayNumber_lt_of_year hyear).not_ge

/-- **No two dates have one number.** -/
theorem dayNumber_injective : Function.Injective dayNumber := by
  intro d e h
  obtain hyear | ⟨hyear, hmonth | ⟨hmonth, -⟩⟩ := le_iff_dayNumber_le.mpr h.le
  · exact absurd h (dayNumber_lt_of_year hyear).ne
  · exact absurd h (dayNumber_lt_of_month hyear hmonth).ne
  · rw [dayNumber, dayNumber, hyear, hmonth] at h
    exact Date.ext hyear hmonth (Int.add_left_cancel h)

variable (d e)

/-- **Days that elapse are counted by the numbers.** -/
theorem iterate_next_iff {n : ℕ} : next^[n] d = e ↔ e.dayNumber = d.dayNumber + n := by
  have hcount : (next^[n] d).dayNumber = d.dayNumber + n := by
    induction n with
    | zero => rw [Function.iterate_zero_apply, Nat.cast_zero, add_zero]
    | succ n ih => rw [Function.iterate_succ_apply', dayNumber_next, ih, Nat.cast_succ, add_assoc]
  rw [← hcount]
  exact ⟨fun h => h ▸ rfl, fun h => dayNumber_injective h.symm⟩

end Date

end Gregorian
