import Mathlib.Data.Int.Notation
import Mathlib.Order.Monotone.Basic
import Mathlib.Order.Basic
import Mathlib.Tactic.IntervalCases
import Mathlib.Tactic.SplitIfs

/-!
# The Gregorian calendar

Days are counted from 1 January 1970.  The calendar repeats after 400 years, and
its years are taken to begin in March, so that a leap day is the last day of a
year; a day is then found by taking out whole centuries, whole spans of four
years, whole years and whole months.  `dayNumber` counts the other way, and
counting back gives the day one started with (`dayNumber_civil`), so that the
date determines the day.
-/

namespace Structlog.Lib.Calendar

structure Date where
  year : ℤ
  month : ℤ
  day : ℤ
  deriving DecidableEq, Repr

/-! ## Counting -/

/-- Days in 400 years. -/
def eraDays : ℤ := 146097

/-- Days from 1 March of year `0` to 1 January 1970. -/
def epochDays : ℤ := 719468

/-- A day of an era: its year in the era, and its day in that year. -/
def yearDay (doe : ℤ) : ℤ × ℤ :=
  let century := min (doe / 36524) 3
  let inCentury := doe - 36524 * century
  let span := inCentury / 1461
  let inSpan := inCentury - 1461 * span
  let year := min (inSpan / 365) 3
  (100 * century + 4 * span + year, inSpan - 365 * year)

/-- The date of day `doy` of the year `yoe` of an era, the years beginning in March. -/
def ofYearDay (era yoe doy : ℤ) : Date :=
  let mp := (5 * doy + 2) / 153
  let month := if mp < 10 then mp + 3 else mp - 9
  { year := yoe + 400 * era + if month ≤ 2 then 1 else 0
    month
    day := doy - (153 * mp + 2) / 5 + 1 }

/-- The date of a day. -/
def civil (days : ℤ) : Date :=
  let z := days + epochDays
  ofYearDay (z / eraDays) (yearDay (z % eraDays)).1 (yearDay (z % eraDays)).2

/-- The day of a date. -/
def dayNumber (date : Date) : ℤ :=
  let y := if date.month ≤ 2 then date.year - 1 else date.year
  let yoe := y % 400
  let mp := if date.month ≤ 2 then date.month + 9 else date.month - 3
  let doy := (153 * mp + 2) / 5 + date.day - 1
  eraDays * (y / 400) + (365 * yoe + yoe / 4 - yoe / 100 + doy) - epochDays

example : civil 0 = ⟨1970, 1, 1⟩ ∧ civil 19782 = ⟨2024, 2, 29⟩ ∧ civil 11016 = ⟨2000, 2, 29⟩ ∧
    civil (-1) = ⟨1969, 12, 31⟩ ∧ civil 47541 = ⟨2100, 3, 1⟩ := by decide

/-! ## The parts of an era -/

/-- The year and its day are found by taking out whole cycles. -/
theorem yearDay_spec {doe : ℤ} (hlow : 0 ≤ doe) (hhigh : doe < 146097) :
    ∃ century span year doy, yearDay doe = (100 * century + 4 * span + year, doy) ∧
      doe = 36524 * century + 1461 * span + 365 * year + doy ∧
      0 ≤ century ∧ century ≤ 3 ∧ 0 ≤ span ∧ span ≤ 24 ∧ 0 ≤ year ∧ year ≤ 3 ∧
      0 ≤ doy ∧ doy ≤ 365 := by
  refine ⟨_, _, _, _, rfl, ?_, ?_, ?_, ?_, ?_, ?_, ?_, ?_, ?_⟩ <;> omega

theorem yearDay_bounds {doe : ℤ} (hlow : 0 ≤ doe) (hhigh : doe < 146097) :
    0 ≤ (yearDay doe).1 ∧ (yearDay doe).1 < 400 ∧ 0 ≤ (yearDay doe).2 ∧ (yearDay doe).2 ≤ 365 := by
  obtain ⟨century, span, year, doy, heq, -, h₁, h₂, h₃, h₄, h₅, h₆, h₇, h₈⟩ :=
    yearDay_spec hlow hhigh
  rw [heq]
  dsimp only
  omega

/-- Counting the days of the years before gives the day back. -/
theorem yearDay_sum {doe : ℤ} (hlow : 0 ≤ doe) (hhigh : doe < 146097) :
    365 * (yearDay doe).1 + (yearDay doe).1 / 4 - (yearDay doe).1 / 100 + (yearDay doe).2 =
      doe := by
  obtain ⟨century, span, year, doy, heq, hsum, h₁, h₂, h₃, h₄, h₅, h₆, h₇, h₈⟩ :=
    yearDay_spec hlow hhigh
  rw [heq]
  dsimp only
  have hfour : (100 * century + 4 * span + year) / 4 = 25 * century + span := by omega
  have hhundred : (100 * century + 4 * span + year) / 100 = century := by omega
  rw [hfour, hhundred, hsum]
  omega

/-- A year of an era with a day more ends a span of four years, and the last span only of the
last century. -/
theorem yearDay_last {doe : ℤ} (hlow : 0 ≤ doe) (hhigh : doe < 146097)
    (h : (yearDay doe).2 = 365) :
    ∃ century span, (yearDay doe).1 = 100 * century + 4 * span + 3 ∧ 0 ≤ span ∧ span ≤ 24 ∧
      (span = 24 → century = 3) := by
  refine ⟨min (doe / 36524) 3, (doe - 36524 * min (doe / 36524) 3) / 1461, ?_⟩
  unfold yearDay at h ⊢
  dsimp only at h ⊢
  refine ⟨?_, ?_, ?_, ?_⟩ <;> omega

/-! ## Dates and days -/

theorem ofYearDay_bounds (era yoe : ℤ) {doy : ℤ} (hlow : 0 ≤ doy) (hhigh : doy ≤ 365) :
    1 ≤ (ofYearDay era yoe doy).month ∧ (ofYearDay era yoe doy).month ≤ 12 ∧
      1 ≤ (ofYearDay era yoe doy).day ∧ (ofYearDay era yoe doy).day ≤ 31 := by
  unfold ofYearDay
  dsimp only
  refine ⟨?_, ?_, ?_, ?_⟩
  · split_ifs <;> omega
  · split_ifs <;> omega
  · omega
  · omega

theorem dayNumber_ofYearDay (era : ℤ) {yoe doy : ℤ} (hyoe : 0 ≤ yoe) (hyoe' : yoe < 400)
    (hdoy : 0 ≤ doy) (hdoy' : doy ≤ 365) :
    dayNumber (ofYearDay era yoe doy) =
      eraDays * era + (365 * yoe + yoe / 4 - yoe / 100 + doy) - epochDays := by
  have hera : (yoe + 400 * era) / 400 = era := by omega
  have hmod : (yoe + 400 * era) % 400 = yoe := by omega
  unfold ofYearDay dayNumber
  dsimp only
  -- In either half of the year the month counted from March is the one taken out.
  by_cases hmp : (5 * doy + 2) / 153 < 10
  · simp only [if_pos hmp, if_neg (show ¬ (5 * doy + 2) / 153 + 3 ≤ 2 by omega), Int.add_zero,
      hera, hmod]
    omega
  · simp only [if_neg hmp, if_pos (show (5 * doy + 2) / 153 - 9 ≤ 2 by omega),
      Int.add_sub_cancel, hera, hmod]
    omega

theorem dayOfEra_bounds (days : ℤ) :
    0 ≤ (days + epochDays) % eraDays ∧ (days + epochDays) % eraDays < 146097 :=
  ⟨Int.emod_nonneg _ (by decide), Int.emod_lt_of_pos _ (by decide)⟩

theorem civil_bounds (days : ℤ) :
    1 ≤ (civil days).month ∧ (civil days).month ≤ 12 ∧ 1 ≤ (civil days).day ∧
      (civil days).day ≤ 31 := by
  obtain ⟨hlow, hhigh⟩ := dayOfEra_bounds days
  obtain ⟨-, -, hdoy, hdoy'⟩ := yearDay_bounds hlow hhigh
  exact ofYearDay_bounds _ _ hdoy hdoy'

theorem dayNumber_civil (days : ℤ) : dayNumber (civil days) = days := by
  obtain ⟨hlow, hhigh⟩ := dayOfEra_bounds days
  obtain ⟨hyoe, hyoe', hdoy, hdoy'⟩ := yearDay_bounds hlow hhigh
  calc dayNumber (civil days)
      = eraDays * ((days + epochDays) / eraDays) + (days + epochDays) % eraDays - epochDays := by
        rw [civil, dayNumber_ofYearDay _ hyoe hyoe' hdoy hdoy', yearDay_sum hlow hhigh]
    _ = days := by
        rw [Int.mul_ediv_add_emod, Int.add_sub_cancel]

/-- Different days have different dates. -/
theorem civil_injective : Function.Injective civil :=
  Function.LeftInverse.injective dayNumber_civil

/-! ## Years -/

/-- 1 January of a year. -/
def newYear (year : ℤ) : ℤ := dayNumber ⟨year, 1, 1⟩

/-- Days before the March of a year. -/
def marchDays (year : ℤ) : ℤ := 365 * year + year / 4 - year / 100 + year / 400

/-- The days of a year, from March to March. -/
theorem marchDays_succ (year : ℤ) :
    marchDays year + 365 ≤ marchDays (year + 1) ∧ marchDays (year + 1) ≤ marchDays year + 366 := by
  unfold marchDays
  omega

theorem dayNumber_of_le {date : Date} (h : date.month ≤ 2) :
    dayNumber date = marchDays (date.year - 1) + (153 * (date.month + 9) + 2) / 5 + date.day - 1 -
      epochDays := by
  simp only [dayNumber, if_pos h, marchDays, eraDays]
  omega

theorem dayNumber_of_lt {date : Date} (h : 2 < date.month) :
    dayNumber date = marchDays date.year + (153 * (date.month - 3) + 2) / 5 + date.day - 1 -
      epochDays := by
  simp only [dayNumber, if_neg (not_le.mpr h), marchDays, eraDays]
  omega

/-- 1 January comes 306 days after the March of the year before. -/
theorem newYear_eq (year : ℤ) : newYear year = marchDays (year - 1) + 306 - epochDays := by
  have hjanuary := @dayNumber_of_le ⟨year, 1, 1⟩ (show (1 : ℤ) ≤ 2 by decide)
  rw [newYear, hjanuary]
  dsimp only
  omega

/-- The years follow each other. -/
theorem newYear_lt_succ (year : ℤ) : newYear year < newYear (year + 1) := by
  have hdays := marchDays_succ (year - 1)
  rw [newYear_eq, newYear_eq, Int.add_sub_cancel]
  rw [Int.sub_add_cancel] at hdays
  omega

/-- A date is in its year. -/
theorem dayNumber_mem_year {date : Date} (hmonth : 1 ≤ date.month) (hmonth' : date.month ≤ 12)
    (hday : 1 ≤ date.day) (hday' : date.day ≤ 31) :
    newYear date.year ≤ dayNumber date ∧ dayNumber date < newYear (date.year + 1) := by
  have hdays := marchDays_succ (date.year - 1)
  rw [Int.sub_add_cancel] at hdays
  rw [newYear_eq, newYear_eq, Int.add_sub_cancel]
  by_cases h : date.month ≤ 2
  · -- January and February belong to the March year before.
    rw [dayNumber_of_le h]
    omega
  · rw [dayNumber_of_lt (not_le.mp h)]
    omega

/-- The year of a day is at least `year` from 1 January on. -/
theorem le_year_civil_iff {year days : ℤ} : year ≤ (civil days).year ↔ newYear year ≤ days := by
  obtain ⟨hmonth, hmonth', hday, hday'⟩ := civil_bounds days
  obtain ⟨hlow, hhigh⟩ := dayNumber_mem_year hmonth hmonth' hday hday'
  rw [dayNumber_civil] at hlow hhigh
  have hmono : StrictMono newYear := strictMono_int_of_lt_succ newYear_lt_succ
  constructor
  · intro hyear
    exact (hmono.monotone hyear).trans hlow
  · intro hdays
    have hlt : year < (civil days).year + 1 := hmono.lt_iff_lt.mp (hdays.trans_lt hhigh)
    omega

/-! ## Days of a year -/

/-- The years with a leap day. -/
def IsLeap (year : ℤ) : Prop := year % 4 = 0 ∧ (year % 100 ≠ 0 ∨ year % 400 = 0)

instance : DecidablePred IsLeap := fun _ => inferInstanceAs (Decidable (_ ∧ _))

/-- The lengths of the months, from January on. -/
def monthLengths (year : ℤ) : List ℤ :=
  [31, if IsLeap year then 29 else 28, 31, 30, 31, 30, 31, 31, 30, 31, 30, 31]

/-- Days of the year before the first of the month. -/
def daysBefore (year month : ℤ) : ℤ := ((monthLengths year).take (month - 1).toNat).sum

/-- Days since 1 January of the year. -/
def dayOfYear (date : Date) : ℤ := daysBefore date.year date.month + (date.day - 1)

/-- A date that there is in the calendar. -/
structure Date.Valid (date : Date) : Prop where
  month : 1 ≤ date.month ∧ date.month ≤ 12
  day : 1 ≤ date.day ∧ date.day ≤ (monthLengths date.year).getD (date.month - 1).toNat 0

theorem marchDays_eq (year : ℤ) :
    marchDays year = marchDays (year - 1) + if IsLeap year then 366 else 365 := by
  unfold marchDays IsLeap
  split_ifs <;> omega

/-- The next 1 January is 365 or 366 days later. -/
theorem newYear_succ (year : ℤ) :
    newYear (year + 1) = newYear year + if IsLeap year then 366 else 365 := by
  rw [newYear_eq, newYear_eq, Int.add_sub_cancel, marchDays_eq]
  omega

/-- The months from March on begin where the count of the days from March has them. -/
theorem daysBefore_eq {year month : ℤ} (hlow : 1 ≤ month) (hhigh : month ≤ 12) :
    daysBefore year month =
      if month ≤ 2 then (153 * (month + 9) + 2) / 5 - 306
      else (153 * (month - 3) + 2) / 5 + 59 + if IsLeap year then 1 else 0 := by
  unfold daysBefore monthLengths
  by_cases hleap : IsLeap year
  · rw [if_pos hleap, if_pos hleap]
    interval_cases month <;> rfl
  · rw [if_neg hleap, if_neg hleap]
    interval_cases month <;> rfl

/-- The day of a date is that of 1 January and the day of the year. -/
theorem dayNumber_eq {date : Date} (hmonth : 1 ≤ date.month ∧ date.month ≤ 12) :
    dayNumber date = newYear date.year + dayOfYear date := by
  have hmarch := marchDays_eq date.year
  rw [newYear_eq, dayOfYear, daysBefore_eq hmonth.1 hmonth.2]
  by_cases h : date.month ≤ 2
  · rw [dayNumber_of_le h, if_pos h]
    omega
  · rw [dayNumber_of_lt (not_le.mp h), if_neg h]
    split_ifs at hmarch ⊢ <;> omega

/-- The months are as long as the count of the days from March has them, but February. -/
theorem monthLengths_eq {year month : ℤ} (hlow : 1 ≤ month) (hhigh : month ≤ 12) :
    (monthLengths year).getD (month - 1).toNat 0 =
      if month = 2 then if IsLeap year then 29 else 28
      else if month ≤ 2 then 31
      else (153 * (month - 2) + 2) / 5 - (153 * (month - 3) + 2) / 5 := by
  unfold monthLengths
  by_cases hleap : IsLeap year
  · rw [if_pos hleap]
    interval_cases month <;> rfl
  · rw [if_neg hleap]
    interval_cases month <;> rfl

/-- A year has at most 366 days. -/
theorem Date.Valid.dayOfYear_bounds {date : Date} (h : date.Valid) :
    0 ≤ dayOfYear date ∧ dayOfYear date ≤ 365 := by
  have hday := h.day.2
  rw [monthLengths_eq h.month.1 h.month.2] at hday
  have hday' : date.day ≤ 31 := by split_ifs at hday <;> omega
  obtain ⟨hlow, hhigh⟩ := dayNumber_mem_year h.month.1 h.month.2 h.day.1 hday'
  rw [dayNumber_eq h.month] at hlow hhigh
  rw [newYear_succ] at hhigh
  split_ifs at hhigh <;> omega

theorem isLeap_of_yearDay {doe : ℤ} (hlow : 0 ≤ doe) (hhigh : doe < 146097)
    (h : (yearDay doe).2 = 365) (era : ℤ) : IsLeap ((yearDay doe).1 + 400 * era + 1) := by
  obtain ⟨century, span, hyear, hspan, hspan', hlast⟩ := yearDay_last hlow hhigh h
  rw [hyear]
  by_cases h24 : span = 24
  · obtain rfl := hlast h24
    exact ⟨by omega, .inr (by omega)⟩
  · exact ⟨by omega, .inl (by omega)⟩

/-- A day of a year that begins in March is in its month. -/
theorem ofYearDay_valid {yoe doy : ℤ} (era : ℤ) (hlow : 0 ≤ doy) (hhigh : doy ≤ 365)
    (hleap : doy = 365 → IsLeap (yoe + 400 * era + 1)) : (ofYearDay era yoe doy).Valid := by
  obtain ⟨hmonth, hmonth', hday, -⟩ := ofYearDay_bounds era yoe hlow hhigh
  refine ⟨⟨hmonth, hmonth'⟩, hday, ?_⟩
  rw [monthLengths_eq hmonth hmonth']
  unfold ofYearDay
  dsimp only
  by_cases hmp : (5 * doy + 2) / 153 < 10
  · simp only [if_pos hmp, if_neg (show ¬ (5 * doy + 2) / 153 + 3 = 2 by omega),
      if_neg (show ¬ (5 * doy + 2) / 153 + 3 ≤ 2 by omega), Int.add_sub_cancel,
      show (5 * doy + 2) / 153 + 3 - 2 = (5 * doy + 2) / 153 + 1 by omega]
    omega
  · -- January, or February up to its last day
    simp only [if_neg hmp, if_pos (show (5 * doy + 2) / 153 - 9 ≤ 2 by omega)]
    split_ifs with hfebruary hyear
    · omega
    · have hlast := mt hleap hyear
      omega
    · omega

/-- Every day has a date of the calendar. -/
theorem civil_valid (days : ℤ) : (civil days).Valid := by
  obtain ⟨hlow, hhigh⟩ := dayOfEra_bounds days
  obtain ⟨-, -, hdoy, hdoy'⟩ := yearDay_bounds hlow hhigh
  exact ofYearDay_valid _ hdoy hdoy' fun h => isLeap_of_yearDay hlow hhigh h _

end Structlog.Lib.Calendar
