import Structlog.Lib.Calendar

/-!
# Broken-down time

`tm` and what the C library makes of it.  A `Zone` is `localtime` and `mktime`;
`Zone.constant` is the one with a fixed offset from UTC.  Time points of
`log_clock` are nanoseconds since the epoch, and `to_time_t` drops the fraction,
towards the epoch.
-/

namespace Structlog

open Lib

/-- `struct tm`. -/
structure Tm where
  sec : ℤ
  min : ℤ
  hour : ℤ
  mday : ℤ
  mon : ℤ
  year : ℤ
  wday : ℤ
  yday : ℤ
  gmtoff : ℤ
  deriving DecidableEq, Repr

/-- Nanoseconds in a second, and in a day. -/
def nanos : ℤ := 1000000000

def dayNanos : ℤ := 86400 * nanos

/-- `log_clock::to_time_t`. -/
def toTimeT (time : ℤ) : ℤ := time.tdiv nanos

/-- `log_clock::from_time_t`. -/
def fromTimeT (seconds : ℤ) : ℤ := seconds * nanos

structure Zone where
  localtime : ℤ → Tm
  mktime : Tm → ℤ

/-- A zone that is always `offset` seconds ahead of UTC. -/
def Zone.constant (offset : ℤ) : Zone where
  localtime seconds :=
    let days := (seconds + offset) / 86400
    let ofDay := (seconds + offset) % 86400
    let date := Calendar.civil days
    { sec := ofDay % 60
      min := ofDay / 60 % 60
      hour := ofDay / 3600
      mday := date.day
      mon := date.month - 1
      year := date.year - 1900
      wday := (days + 4) % 7
      yday := days - Calendar.dayNumber ⟨date.year, 1, 1⟩
      gmtoff := offset }
  mktime tm :=
    86400 * Calendar.dayNumber ⟨tm.year + 1900, tm.mon + 1, tm.mday⟩ + 3600 * tm.hour +
      60 * tm.min + tm.sec - offset

example : (Zone.constant 3600).localtime 1709251199 =
    ⟨59, 59, 0, 1, 2, 124, 5, 60, 3600⟩ := by decide

/-- Another time on the same local day. -/
theorem Zone.mktime_setTime (offset seconds hour min sec : ℤ) :
    (constant offset).mktime { (constant offset).localtime seconds with hour, min, sec } =
      86400 * ((seconds + offset) / 86400) + 3600 * hour + 60 * min + sec - offset := by
  have hdate := Calendar.dayNumber_civil ((seconds + offset) / 86400)
  simp only [constant, Int.sub_add_cancel]
  rw [hdate]

/-- A broken-down time with its fields in their ranges and a year up to 9999; the
all-zero one, which a formatter starts with, is one. -/
structure Tm.InRange (tm : Tm) : Prop where
  sec : 0 ≤ tm.sec ∧ tm.sec ≤ 60
  min : 0 ≤ tm.min ∧ tm.min ≤ 59
  hour : 0 ≤ tm.hour ∧ tm.hour ≤ 23
  mday : 0 ≤ tm.mday ∧ tm.mday ≤ 31
  mon : 0 ≤ tm.mon ∧ tm.mon ≤ 11
  year : 0 ≤ tm.year ∧ tm.year ≤ 8099
  wday : 0 ≤ tm.wday ∧ tm.wday ≤ 6

theorem Tm.zero_inRange : (⟨0, 0, 0, 0, 0, 0, 0, 0, 0⟩ : Tm).InRange := by
  constructor <;> decide

/-- What a zone with a constant offset finds is in these ranges from 1970 to 9999. -/
theorem Zone.constant_inRange {offset seconds : ℤ} (hlow : 0 ≤ seconds + offset)
    (hhigh : seconds + offset < 253402300800) :
    ((constant offset).localtime seconds).InRange := by
  obtain ⟨hmonth, hmonth', hday, hday'⟩ := Calendar.civil_bounds ((seconds + offset) / 86400)
  have hfirst : 1970 ≤ (Calendar.civil ((seconds + offset) / 86400)).year := by
    apply Calendar.le_year_civil_iff.mpr
    rw [show Calendar.newYear 1970 = 0 by decide]
    omega
  have hlast : ¬ 10000 ≤ (Calendar.civil ((seconds + offset) / 86400)).year := by
    intro hyear
    have hdays := Calendar.le_year_civil_iff.mp hyear
    rw [show Calendar.newYear 10000 = 2932897 by decide] at hdays
    omega
  unfold constant
  constructor <;> dsimp only <;> omega

/-- The day that `localtime` finds for a time point. -/
def localDay (offset time : ℤ) : ℤ := (toTimeT time + offset) / 86400

/-- The dropped fraction is less than a second. -/
theorem lt_toTimeT (time : ℤ) : time < (toTimeT time + 1) * nanos := by
  have hsum := Int.mul_tdiv_add_tmod time nanos
  have hrest := Int.tmod_lt_of_pos time (show 0 < nanos by decide)
  unfold toTimeT nanos at *
  omega

theorem toTimeT_mono {t t' : ℤ} (h : t ≤ t') : toTimeT t ≤ toTimeT t' :=
  Int.tdiv_le_tdiv (by decide) h

theorem localDay_mono (offset : ℤ) {t t' : ℤ} (h : t ≤ t') :
    localDay offset t ≤ localDay offset t' := by
  have hseconds := toTimeT_mono h
  unfold localDay
  omega

/-- A day earlier is the day before, as long as that is not before the epoch. -/
theorem localDay_sub_dayNanos (offset : ℤ) {time : ℤ} (h : dayNanos ≤ time) :
    localDay offset (time - dayNanos) = localDay offset time - 1 := by
  have hday : 0 ≤ dayNanos := by decide
  unfold localDay toTimeT
  rw [Int.tdiv_eq_ediv_of_nonneg (by omega), Int.tdiv_eq_ediv_of_nonneg (by omega)]
  unfold dayNanos nanos at *
  omega

end Structlog
