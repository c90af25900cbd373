import MuxMPE.Machinery.Gregorian

/-!
# Utils/Mjd — the modified Julian date

    year, month, day ──▸ March-based year ──▸ JD ──▸ − 2400000.5 ──▸ truncated

`gregorian2mjd` computes in `int`, where an overflow is undefined, goes over to `uint32_t` and leaves
it through a `double`.  On the dates from the epoch on it is the number of days since then
(`gregorian2mjd_counts_days`).
-/

open Gregorian

namespace Utils

/-- The result of an operation on `int`; `none` is an overflow. -/
def int (n : ℤ) : Option ℤ := if -2 ^ 31 ≤ n ∧ n < 2 ^ 31 then some n else none

/-- `uint32_t` from a `double` that lies `halves` halves above zero: the fraction is cut off, and what
does not fit then is undefined. -/
def uint32OfHalves (halves : ℤ) : Option (BitVec 32) :=
  let truncated := halves.tdiv 2
  if 0 ≤ truncated ∧ truncated < 2 ^ 32 then some (BitVec.ofInt 32 truncated) else none

/-- January and February count as months of the year before. -/
def marchBased (year month : ℤ) : Option (ℤ × ℤ) := do
  if month < 3 then
    let year ← int (year - 1)
    let month ← int (month + 12)
    pure (year, month)
  else pure (year, month)

/-- The sum, from the left, assigned to a `uint32_t`. -/
def julianDay (year month day : ℤ) : Option (BitVec 32) := do
  let days ← int (year * 365)
  let days ← int (days + year.tdiv 4)
  let days ← int (days - year.tdiv 100)
  let days ← int (days + year.tdiv 400)
  let days ← int (days - 1200820)
  let months ← int (month * 153)
  let months ← int (months + 3)
  let days ← int (days + months.tdiv 5)
  let days ← int (days - 92)
  let rest ← int (day - 1)
  let days ← int (days + rest)
  pure (BitVec.ofInt 32 days)

/-- `none` is undefined: an `int` that overflows, or a `double` out of range. -/
def gregorian2mjd (year month day : ℤ) : Option (BitVec 32) := do
  let year ← int (year + 8000)
  let (year, month) ← marchBased year month
  let JD ← julianDay year month day
  -- halves below 2^53, so the difference is exact
  uint32OfHalves (2 * JD.toNat - 4800001)

/-- 17 November 1858. -/
def epoch : Date where
  year := 1858
  month := 11
  day := 17
  month_range := by decide
  day_range := by decide

/-! ## No overflow -/

theorem int_of_range {n : ℤ} (h : -2 ^ 31 ≤ n ∧ n < 2 ^ 31) : int n = some n := if_pos h

theorem uint32OfHalves_of_range {n : ℤ} (h : 0 ≤ n ∧ n < 2 ^ 32) :
    uint32OfHalves (2 * n + 1) = some (BitVec.ofInt 32 n) := by
  have htrunc : (2 * n + 1).tdiv 2 = n := by
    rw [Int.tdiv_eq_ediv_of_nonneg (by omega)]
    omega
  rw [uint32OfHalves, htrunc]
  exact if_pos h

/-- The sum of `julianDay`, in the integers. -/
def daysOf (year month day : ℤ) : ℤ :=
  year * 365 + year / 4 - year / 100 + year / 400 - 1200820 + (month * 153 + 3) / 5 - 92 + (day - 1)

/-- No `int` overflows on these years, which `gregorian2mjd` has moved by 8000. -/
theorem julianDay_eq {year month day : ℤ} (hyear : 9000 ≤ year ∧ year ≤ 5008000)
    (hmonth : 3 ≤ month ∧ month ≤ 14) (hday : 1 ≤ day ∧ day ≤ 31) :
    julianDay year month day = some (BitVec.ofInt 32 (daysOf year month day)) := by
  simp (disch := omega) only [julianDay, int_of_range, Int.tdiv_eq_ediv_of_nonneg,
    Option.bind_eq_bind, Option.bind_some]
  rfl

/-! ## Days since the epoch -/

theorem dayNumber_epoch : epoch.dayNumber = 678576 := rfl

/-- The months from March on, by fifths and by twelfths. -/
theorem months_eq {month : ℤ} (h : 3 ≤ month ∧ month ≤ 12) :
    (month * 153 + 3) / 5 - 92 = (367 * month - 362) / 12 - 61 := by
  obtain ⟨hlow, hhigh⟩ := h
  interval_cases month <;> rfl

/-- **The sum is the number of the date**: in a year that begins in March the leap day comes last. -/
theorem daysOf_eq (d : Date) :
    daysOf (if d.month < 3 then d.year + 8000 - 1 else d.year + 8000)
      (if d.month < 3 then d.month + 12 else d.month) d.day
        = d.dayNumber - epoch.dayNumber + 2400001 := by
  have hmonth := d.month_range
  rw [dayNumber_epoch, daysOf, Date.dayNumber, daysBeforeYear, daysBeforeMonth]
  by_cases hmarch : d.month < 3
  · obtain hone | htwo : d.month = 1 ∨ d.month = 2 := by omega
    · simp only [hone]
      omega
    · simp only [htwo]
      omega
  · have hmonths := months_eq ⟨Int.not_lt.mp hmarch, hmonth.2⟩
    have htwo : ¬ d.month ≤ 2 := by omega
    simp only [if_neg hmarch, if_neg htwo, IsLeap]
    split_ifs <;> omega

theorem marchBased_eq {year month : ℤ} (hyear : 9000 ≤ year ∧ year ≤ 5008000)
    (hmonth : 1 ≤ month ∧ month ≤ 12) :
    marchBased year month
      = some (if month < 3 then year - 1 else year, if month < 3 then month + 12 else month) := by
  rw [marchBased]
  split_ifs with h
  · rw [int_of_range (by omega), int_of_range (by omega)]
    rfl
  · rfl

/-- The count of days fits into 32 bits. -/
theorem dayNumber_lt {d : Date} (hlast : d.year ≤ 5000000) :
    d.dayNumber - epoch.dayNumber < 2 ^ 32 := by
  have hyear : d.dayNumber ≤ daysBeforeYear (d.year + 1) := d.dayNumber_le_year
  rw [daysBeforeYear] at hyear
  rw [dayNumber_epoch]
  omega

/-- **What is computed for a date** is the difference of its number and the epoch's. -/
theorem gregorian2mjd_eq (d : Date) (hepoch : epoch ≤ d) (hlast : d.year ≤ 5000000) :
    gregorian2mjd d.year d.month d.day
      = some (BitVec.ofInt 32 (d.dayNumber - epoch.dayNumber)) := by
  have hmonth := d.month_range
  have hday : 1 ≤ d.day ∧ d.day ≤ 31 :=
    ⟨d.day_range.1, d.day_range.2.trans (daysInMonth_le _ _)⟩
  have hyear : 1858 ≤ d.year := by
    obtain hlt | ⟨heq, -⟩ := hepoch
    · exact hlt.le
    · exact heq.le
  have hpos := Date.le_iff_dayNumber_le.mp hepoch
  have hdays := daysOf_eq d
  rw [gregorian2mjd, int_of_range (by omega), Option.bind_eq_bind, Option.bind_some,
    marchBased_eq (by omega) hmonth, Option.bind_eq_bind, Option.bind_some]
  simp only
  set year := if d.month < 3 then d.year + 8000 - 1 else d.year + 8000 with hyear'
  set month := if d.month < 3 then d.month + 12 else d.month with hmonth'
  have hyears : 9000 ≤ year ∧ year ≤ 5008000 := by
    rw [hyear']
    split_ifs <;> omega
  have hmonths : 3 ≤ month ∧ month ≤ 14 := by
    rw [hmonth']
    split_ifs <;> omega
  have hbound : daysOf year month d.day < 2 ^ 32 := by
    rw [daysOf]
    omega
  have hJD : ((BitVec.ofInt 32 (daysOf year month d.day)).toNat : ℤ) = daysOf year month d.day := by
    rw [BitVec.toNat_ofInt]
    omega
  have hhalves : 2 * daysOf year month d.day - 4800001
      = 2 * (d.dayNumber - epoch.dayNumber) + 1 := by
    omega
  rw [julianDay_eq hyears hmonths hday, Option.bind_eq_bind, Option.bind_some, hJD, hhalves,
    uint32OfHalves_of_range (by omega)]

/-- **The modified Julian date counts the days** since the epoch, and the next date has the next. -/
theorem gregorian2mjd_counts_days (d : Date) (hepoch : epoch ≤ d) (hlast : d.year ≤ 5000000) :
    ∃ mjd, gregorian2mjd d.year d.month d.day = some mjd ∧ Date.next^[mjd.toNat] epoch = d ∧
      (d.next.year ≤ 5000000 →
        gregorian2mjd d.next.year d.next.month d.next.day = some (mjd + 1)) := by
  have hpos := Date.le_iff_dayNumber_le.mp hepoch
  have hlater : epoch ≤ d.next := by
    rw [Date.le_iff_dayNumber_le, Date.dayNumber_next]
    omega
  refine ⟨_, gregorian2mjd_eq d hepoch hlast, ?_, fun hnext => ?_⟩
  · have hlt := dayNumber_lt hlast
    rw [Date.iterate_next_iff, BitVec.toNat_ofInt]
    omega
  · have hsum : d.dayNumber + 1 - epoch.dayNumber = d.dayNumber - epoch.dayNumber + 1 := by omega
    rw [gregorian2mjd_eq d.next hlater hnext, Date.dayNumber_next, hsum, BitVec.ofInt_add]
    rfl

/-- A leap day of a century. -/
def leapDay2000 : Date where
  year := 2000
  month := 2
  day := 29
  month_range := by decide
  day_range := by decide

theorem gregorian2mjd_counts_days_leapDay :
    ∃ mjd, gregorian2mjd 2000 2 29 = some mjd ∧ Date.next^[mjd.toNat] epoch = leapDay2000 ∧
      (leapDay2000.next.year ≤ 5000000 →
        gregorian2mjd leapDay2000.next.year leapDay2000.next.month leapDay2000.next.day
          = some (mjd + 1)) :=
  gregorian2mjd_counts_days leapDay2000 (.inl (by decide)) (by decide)

end Utils
