import Mathlib.Data.Int.ModEq
import Mathlib.Order.Bounds.Defs
import Structlog.HourlyFileSink

/-!
# Rotation points

`next_rotation_tp_` takes the broken-down time of a reading of the clock, sets the fields to
those of a rotation, and adds a period if the clock is there already.  The instants at which
the fields are those of a rotation are a period apart (`shows_iff`, `onTheHour_iff`), so what
it finds is the next one.
-/

namespace Structlog

open Lib

/-! ## A clock on the wall -/

/-- A full second at which the local time is `hour:min:00`. -/
def Zone.Shows (zone : Zone) (hour min time : ℤ) : Prop :=
  time % nanos = 0 ∧ (zone.localtime (toTimeT time)).hour = hour ∧
    (zone.localtime (toTimeT time)).min = min ∧ (zone.localtime (toTimeT time)).sec = 0

/-- A full second at which the local minute and second are zero. -/
def Zone.OnTheHour (zone : Zone) (time : ℤ) : Prop :=
  time % nanos = 0 ∧ (zone.localtime (toTimeT time)).min = 0 ∧
    (zone.localtime (toTimeT time)).sec = 0

/-- From the epoch on, the seconds of a time are those that have passed. -/
theorem toTimeT_of_nonneg {time : ℤ} (h : 0 ≤ time) : toTimeT time = time / nanos :=
  Int.tdiv_eq_ediv_of_nonneg h

theorem shows_iff {hour min : ℤ} (hmin : 0 ≤ min) (hmin' : min ≤ 59) (offset : ℤ) {time : ℤ}
    (htime : 0 ≤ time) :
    (Zone.constant offset).Shows hour min time ↔
      (time + fromTimeT offset) % dayNanos = fromTimeT (3600 * hour + 60 * min) := by
  rw [Zone.Shows, toTimeT_of_nonneg htime]
  simp only [Zone.constant]
  unfold fromTimeT dayNanos nanos
  omega

theorem onTheHour_iff (offset : ℤ) {time : ℤ} (htime : 0 ≤ time) :
    (Zone.constant offset).OnTheHour time ↔ (time + fromTimeT offset) % hourNanos = 0 := by
  rw [Zone.OnTheHour, toTimeT_of_nonneg htime]
  simp only [Zone.constant]
  unfold fromTimeT hourNanos nanos
  omega

/-- Of the instants that are a period apart, one that is no more than a period away is the
next. -/
theorem isLeast_next (phase : ℤ) {period now next : ℤ} {On : ℤ → Prop}
    (hon : ∀ time, now < time → (On time ↔ (time + phase) % period = (next + phase) % period))
    (hafter : now < next) (hsoon : next ≤ now + period) :
    IsLeast {time | now < time ∧ On time} next := by
  refine ⟨⟨hafter, (hon next hafter).mpr rfl⟩, ?_⟩
  rintro time ⟨hlater, htime⟩
  have hsame := (hon time hlater).mp htime
  by_contra hless
  have hdiff : period ∣ next + phase - (time + phase) := Int.ModEq.dvd hsame
  have hperiods := Int.le_of_dvd (by omega) hdiff
  omega

/-! ## The sinks -/

/-- What the sinks find is less than a period away. -/
theorem DailyFileSink.nextRotationTp_bounds {s : DailyFileSink} {offset : ℤ}
    (hzone : s.zone = .constant offset) (hhour : 0 ≤ s.rotationH) (hhour' : s.rotationH ≤ 23)
    (hminute : 0 ≤ s.rotationM) (hminute' : s.rotationM ≤ 59) {now : ℤ} (hnow : 0 ≤ now) :
    now < s.nextRotationTp now ∧ s.nextRotationTp now ≤ now + dayNanos ∧
      (s.nextRotationTp now + fromTimeT offset) % dayNanos =
        fromTimeT (3600 * s.rotationH + 60 * s.rotationM) := by
  have hlater := lt_nextRotationTp hzone hhour hminute now
  refine ⟨hlater, ?_⟩
  revert hlater
  rw [nextRotationTp, hzone, Zone.mktime_setTime, toTimeT_of_nonneg hnow]
  unfold fromTimeT dayNanos nanos
  split_ifs with hrotation <;> omega

theorem HourlyFileSink.nextRotationTp_bounds {s : HourlyFileSink} {offset : ℤ}
    (hzone : s.zone = .constant offset) {now : ℤ} (hnow : 0 ≤ now) :
    now < s.nextRotationTp now ∧ s.nextRotationTp now ≤ now + hourNanos ∧
      (s.nextRotationTp now + fromTimeT offset) % hourNanos = 0 := by
  have hhour : (Zone.constant offset).mktime
      { (Zone.constant offset).localtime (now / nanos) with min := 0, sec := 0 } =
        3600 * ((now / nanos + offset) / 3600) - offset := by
    rw [Zone.mktime_setTime offset (now / nanos) ((Zone.constant offset).localtime _).hour 0 0]
    dsimp only [Zone.constant]
    omega
  rw [nextRotationTp, hzone, toTimeT_of_nonneg hnow, hhour]
  unfold fromTimeT hourNanos nanos
  split_ifs with hrotation <;> omega

/-- From the epoch on, both sinks find the next instant for a rotation. -/
theorem next_rotation_points (offset : ℤ) {daily : DailyFileSink} {hourly : HourlyFileSink}
    (hdaily : daily.zone = .constant offset) (hhourly : hourly.zone = .constant offset)
    (hhour : 0 ≤ daily.rotationH) (hhour' : daily.rotationH ≤ 23) (hminute : 0 ≤ daily.rotationM)
    (hminute' : daily.rotationM ≤ 59) {now : ℤ} (hnow : 0 ≤ now) :
    IsLeast {time | now < time ∧
        (Zone.constant offset).Shows daily.rotationH daily.rotationM time}
      (daily.nextRotationTp now) ∧
    IsLeast {time | now < time ∧ (Zone.constant offset).OnTheHour time}
      (hourly.nextRotationTp now) := by
  constructor
  · obtain ⟨hafter, hsoon, hphase⟩ :=
      daily.nextRotationTp_bounds hdaily hhour hhour' hminute hminute' hnow
    refine isLeast_next (fromTimeT offset) (fun time hlater => ?_) hafter hsoon
    rw [hphase]
    exact shows_iff hminute hminute' offset (hnow.trans hlater.le)
  · obtain ⟨hafter, hsoon, hphase⟩ := hourly.nextRotationTp_bounds hhourly hnow
    refine isLeast_next (fromTimeT offset) (fun time hlater => ?_) hafter hsoon
    rw [hphase]
    exact onTheHour_iff offset (hnow.trans hlater.le)

/-- At 17:43:20.5 in a zone four and a half hours behind, with the rotation at 17:43. -/
theorem next_rotation_points_behind :
    let daily : DailyFileSink := ⟨DailyFilenameCalculator.calcFilename, .constant (-16200),
      ascii "d.txt", 17, 43, 0, .initial .blank, false, 0, .disabled, [], []⟩
    let hourly : HourlyFileSink := ⟨HourlyFilenameCalculator.calcFilename, .constant (-16200),
      ascii "h.txt", 0, .initial .blank, false, 0, .disabled, [], []⟩
    let now := 1700000000500000000
    daily.nextRotationTp now = fromTimeT 1700086380 ∧
      hourly.nextRotationTp now = fromTimeT 1700001000 ∧
      IsLeast {time | now < time ∧ (Zone.constant (-16200)).Shows 17 43 time}
        (daily.nextRotationTp now) ∧
      IsLeast {time | now < time ∧ (Zone.constant (-16200)).OnTheHour time}
        (hourly.nextRotationTp now) := by
  intro daily hourly now
  have hdaily : daily.zone = .constant (-16200) := rfl
  have hhourly : hourly.zone = .constant (-16200) := rfl
  exact ⟨by decide, by decide, next_rotation_points (-16200) hdaily hhourly
    (by decide) (by decide) (by decide) (by decide) (by decide)⟩

end Structlog
