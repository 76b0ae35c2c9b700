import Structlog.GmtOffset
import Structlog.Lib.SignedInts

/-!
# The seconds between two broken-down times

`calculate_gmt_offset` counts the days between two dates by the years before them, with a leap
day for every fourth year, but for every hundredth, and again for every four hundredth.  For all
dates from the year 1 on that is the difference of their days (`calculateGmtOffset_of_valid`).
The years before a date are `tm_year + 1899`, though, a sum of `int`s, which overflows in the last
years that `tm_year` has; the cast to `long int`, in which the days are counted, comes after it
(`calculateGmtOffsetInts_eq_some_iff`).
-/

namespace Structlog

open Lib

/-- A broken-down time of a date that there is in the calendar, from the year 1 on. -/
structure Tm.Valid (tm : Tm) : Prop where
  year : 1 ≤ tm.date.year
  tm_year : InSigned 32 tm.year
  date : tm.date.Valid
  yday : tm.yday = Calendar.dayOfYear tm.date
  hour : 0 ≤ tm.hour ∧ tm.hour ≤ 23
  min : 0 ≤ tm.min ∧ tm.min ≤ 59
  sec : 0 ≤ tm.sec ∧ tm.sec ≤ 60

theorem Tm.Valid.yday_bounds {tm : Tm} (h : tm.Valid) : 0 ≤ tm.yday ∧ tm.yday ≤ 365 := by
  rw [h.yday]
  exact h.date.dayOfYear_bounds

/-- What a constant zone finds, from the year 1 to the last that `tm_year` has. -/
theorem Zone.constant_valid {offset seconds : ℤ}
    (hlow : Calendar.newYear 1 ≤ (seconds + offset) / 86400)
    (hhigh : (seconds + offset) / 86400 < Calendar.newYear (2 ^ 31 + 1900)) :
    ((constant offset).localtime seconds).Valid := by
  have hdate := constant_date offset seconds
  have hfirst := Calendar.le_year_civil_iff.mpr hlow
  have hlast := mt Calendar.le_year_civil_iff.mp (not_le.mpr hhigh)
  have hvalid := Calendar.civil_valid ((seconds + offset) / 86400)
  exact {
    year := by
      rw [hdate]
      exact hfirst
    tm_year := by
      show -2 ^ 31 ≤ (Calendar.civil ((seconds + offset) / 86400)).year - 1900 ∧
        (Calendar.civil ((seconds + offset) / 86400)).year - 1900 < 2 ^ 31
      omega
    date := by
      rw [hdate]
      exact hvalid
    yday := by
      have hday := Calendar.dayNumber_eq hvalid.month
      rw [Calendar.dayNumber_civil] at hday
      rw [hdate]
      show (seconds + offset) / 86400 -
        Calendar.newYear (Calendar.civil ((seconds + offset) / 86400)).year = _
      omega
    hour := by
      show 0 ≤ (seconds + offset) % 86400 / 3600 ∧ (seconds + offset) % 86400 / 3600 ≤ 23
      omega
    min := by
      show 0 ≤ (seconds + offset) % 86400 / 60 % 60 ∧ (seconds + offset) % 86400 / 60 % 60 ≤ 59
      omega
    sec := by
      show 0 ≤ (seconds + offset) % 86400 % 60 ∧ (seconds + offset) % 86400 % 60 ≤ 60
      omega }

namespace WithoutGmtoff

/-- `calculate_gmt_offset` with `int` of 32 bits and `long int` of 64: the operations in their
order, each in its type.  There is no answer if one of them overflows. -/
def calculateGmtOffsetInts (localtm gmtm : Tm) : Option ℤ := do
  let localYear ← signed 32 (localtm.year + (1900 - 1))
  let gmtYear ← signed 32 (gmtm.year + (1900 - 1))
  -- difference in day of year
  let ydays ← signed 32 (localtm.yday - gmtm.yday)
  -- + intervening leap days
  let fours ← signed 32 ((localYear >>> (2 : ℕ)) - (gmtYear >>> (2 : ℕ)))
  let leapDays ← signed 32 (ydays + fours)
  let hundreds ← signed 32 (localYear.tdiv 100 - gmtYear.tdiv 100)
  let leapDays ← signed 32 (leapDays - hundreds)
  let fourHundreds ← signed 32
    ((localYear.tdiv 100 >>> (2 : ℕ)) - (gmtYear.tdiv 100 >>> (2 : ℕ)))
  let leapDays ← signed 32 (leapDays + fourHundreds)
  -- + difference in years * 365
  let years ← signed 32 (localYear - gmtYear)
  let yearDays ← signed 64 (years * 365)
  let days ← signed 64 (leapDays + yearDays)
  let dayHours ← signed 64 (24 * days)
  let hour ← signed 32 (localtm.hour - gmtm.hour)
  let hours ← signed 64 (dayHours + hour)
  let hourMins ← signed 64 (60 * hours)
  let min ← signed 32 (localtm.min - gmtm.min)
  let mins ← signed 64 (hourMins + min)
  let minSecs ← signed 64 (60 * mins)
  let sec ← signed 32 (localtm.sec - gmtm.sec)
  signed 64 (minSecs + sec)

theorem calculateGmtOffset_of_valid {localtm gmtm : Tm} (hlocal : localtm.Valid)
    (hgmt : gmtm.Valid) :
    calculateGmtOffset localtm gmtm =
      86400 * (Calendar.dayNumber localtm.date - Calendar.dayNumber gmtm.date) +
        (localtm.timeOfDay - gmtm.timeOfDay) := by
  have hyday {tm : Tm} (h : tm.Valid) :
      tm.yday = Calendar.dayNumber tm.date - Calendar.newYear tm.date.year := by
    rw [Calendar.dayNumber_eq h.date.month, h.yday]
    omega
  exact calculateGmtOffset_eq_sub (Int.lt_of_lt_of_le Int.zero_lt_one hlocal.year)
    (Int.lt_of_lt_of_le Int.zero_lt_one hgmt.year) (hyday hlocal) (hyday hgmt)

/-- There is an answer, and it is that of the integers without bounds, if the years fit. -/
theorem calculateGmtOffsetInts_eq_some_iff {localtm gmtm : Tm} (hlocal : localtm.Valid)
    (hgmt : gmtm.Valid) {seconds : ℤ} :
    calculateGmtOffsetInts localtm gmtm = some seconds ↔
      (localtm.year + 1899 < 2 ^ 31 ∧ gmtm.year + 1899 < 2 ^ 31) ∧
        calculateGmtOffset localtm gmtm = seconds := by
  have hyday := hlocal.yday_bounds
  have hyday' := hgmt.yday_bounds
  obtain ⟨hyear, -, -, -, hhour, hmin, hsec⟩ := hlocal
  obtain ⟨hyear', -, -, -, hhour', hmin', hsec'⟩ := hgmt
  dsimp only [Tm.date] at hyear hyear'
  simp only [calculateGmtOffsetInts, signed_bind_eq_some_iff, signed_eq_some_iff]
  constructor
  · rintro ⟨⟨-, hlow⟩, ⟨-, hlow'⟩, -, -, -, -, -, -, -, -, -, -, -, -, -, -, -, -, -, -, -, hanswer⟩
    exact ⟨⟨hlow, hlow'⟩, hanswer⟩
  · rintro ⟨⟨hlow, hlow'⟩, hanswer⟩
    have hquotient : (localtm.year + (1900 - 1)).tdiv 100 = (localtm.year + (1900 - 1)) / 100 :=
      Int.tdiv_eq_ediv_of_nonneg (by omega)
    have hquotient' : (gmtm.year + (1900 - 1)).tdiv 100 = (gmtm.year + (1900 - 1)) / 100 :=
      Int.tdiv_eq_ediv_of_nonneg (by omega)
    refine ⟨?_, ?_, ?_, ?_, ?_, ?_, ?_, ?_, ?_, ?_, ?_, ?_, ?_, ?_, ?_, ?_, ?_, ?_, ?_, ?_, ?_,
      hanswer⟩
    -- each result is within its type
    all_goals
      simp only [InSigned, Int.shiftRight_eq_div_pow, hquotient, hquotient']
      omega

/-- The seconds between two valid broken-down times are computed exactly if the years before
both of them fit in an `int`. -/
theorem calculate_gmt_offset_exact_iff {localtm gmtm : Tm} (hlocal : localtm.Valid)
    (hgmt : gmtm.Valid) :
    calculateGmtOffsetInts localtm gmtm =
        some (86400 * (Calendar.dayNumber localtm.date - Calendar.dayNumber gmtm.date) +
          (localtm.timeOfDay - gmtm.timeOfDay)) ↔
      localtm.year + 1899 < 2 ^ 31 ∧ gmtm.year + 1899 < 2 ^ 31 := by
  rw [calculateGmtOffsetInts_eq_some_iff hlocal hgmt, calculateGmtOffset_of_valid hlocal hgmt]
  exact and_iff_left rfl

/-- 1 January of a year, at midnight. -/
def firstOf (year : ℤ) : Tm where
  sec := 0
  min := 0
  hour := 0
  mday := 1
  mon := 0
  year := year - 1900
  wday := (Calendar.newYear year + 4) % 7
  yday := 0
  gmtoff := 0

theorem firstOf_valid {year : ℤ} (hlow : 1 ≤ year) (hhigh : year - 1900 < 2 ^ 31) :
    (firstOf year).Valid where
  year := by
    show 1 ≤ year - 1900 + 1900
    omega
  tm_year := by
    show -2 ^ 31 ≤ year - 1900 ∧ year - 1900 < 2 ^ 31
    omega
  date := {
    month := show (1 : ℤ) ≤ 0 + 1 ∧ (0 : ℤ) + 1 ≤ 12 by decide
    day := show (1 : ℤ) ≤ 1 ∧ (1 : ℤ) ≤ 31 by decide }
  yday := rfl
  hour := show (0 : ℤ) ≤ 0 ∧ (0 : ℤ) ≤ 23 by decide
  min := show (0 : ℤ) ≤ 0 ∧ (0 : ℤ) ≤ 59 by decide
  sec := show (0 : ℤ) ≤ 0 ∧ (0 : ℤ) ≤ 60 by decide

/-- Over a century, with the year 2100, which has no leap day. -/
theorem calculate_gmt_offset_exact_century :
    calculateGmtOffsetInts (firstOf 2101) (firstOf 1970) =
      some (86400 * (Calendar.dayNumber (firstOf 2101).date -
        Calendar.dayNumber (firstOf 1970).date) +
          ((firstOf 2101).timeOfDay - (firstOf 1970).timeOfDay)) :=
  (calculate_gmt_offset_exact_iff (firstOf_valid (by decide) (by decide))
    (firstOf_valid (by decide) (by decide))).mpr (by decide)

/-- The year before 2147483649 does not fit in an `int`. -/
theorem calculate_gmt_offset_overflows :
    calculateGmtOffsetInts (firstOf 2147483649) (firstOf 1970) = none ∧
      ¬ ∀ localtm gmtm : Tm, localtm.Valid → gmtm.Valid →
        calculateGmtOffsetInts localtm gmtm =
          some (86400 * (Calendar.dayNumber localtm.date - Calendar.dayNumber gmtm.date) +
            (localtm.timeOfDay - gmtm.timeOfDay)) := by
  have hnone : calculateGmtOffsetInts (firstOf 2147483649) (firstOf 1970) = none := rfl
  refine ⟨hnone, fun h => ?_⟩
  have hsome := h (firstOf 2147483649) (firstOf 1970) (firstOf_valid (by decide) (by decide))
    (firstOf_valid (by decide) (by decide))
  rw [hnone] at hsome
  cases hsome

end WithoutGmtoff

end Structlog
