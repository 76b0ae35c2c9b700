import Structlog.LocalTimestamps

/-!
# The offset from UTC without `tm_gmtoff`

Where `tm` has no field for the offset, `utc_minutes_offset` takes the difference between the
broken-down time it is given and that of the clock in UTC.  The calendar arithmetic is right
(`calculateGmtOffset_eq`), but the clock has gone on since the message, and the seconds that
have passed are taken from the offset before it is divided by sixty.
-/

namespace Structlog

open Lib

/-- The date of a broken-down time. -/
def Tm.date (tm : Tm) : Calendar.Date := ⟨tm.year + 1900, tm.mon + 1, tm.mday⟩

/-- Seconds since midnight. -/
def Tm.timeOfDay (tm : Tm) : ℤ := 3600 * tm.hour + 60 * tm.min + tm.sec

theorem Zone.constant_date (offset seconds : ℤ) :
    ((constant offset).localtime seconds).date =
      Calendar.civil ((seconds + offset) / 86400) := by
  rw [Tm.date, constant]
  dsimp only
  rw [Int.sub_add_cancel, Int.sub_add_cancel]

namespace WithoutGmtoff

/-- `calculate_gmt_offset`. -/
def calculateGmtOffset (localtm gmtm : Tm) : ℤ :=
  let localYear := localtm.year + (1900 - 1)
  let gmtYear := gmtm.year + (1900 - 1)
  let days :=
    -- difference in day of year
    localtm.yday - gmtm.yday
    -- + intervening leap days
      + ((localYear >>> (2 : ℕ)) - (gmtYear >>> (2 : ℕ)))
      - (localYear.tdiv 100 - gmtYear.tdiv 100)
      + ((localYear.tdiv 100 >>> (2 : ℕ)) - (gmtYear.tdiv 100 >>> (2 : ℕ)))
    -- + difference in years * 365
      + (localYear - gmtYear) * 365
  let hours := 24 * days + (localtm.hour - gmtm.hour)
  let mins := 60 * hours + (localtm.min - gmtm.min)
  60 * mins + (localtm.sec - gmtm.sec)

/-- `utc_minutes_offset`; `now` is the clock, which the default for `gmtm` reads. -/
def utcMinutesOffset (now : ℤ) (tm : Tm) : ℤ := (calculateGmtOffset tm (gmtime now)).tdiv 60

/-- The days from the first of January of a year to that of another, as they are counted. -/
theorem newYear_sub_newYear {year year' : ℤ} (h : 0 < year) (h' : 0 < year') :
    Calendar.newYear year - Calendar.newYear year' =
      ((year - 1) >>> (2 : ℕ)) - ((year' - 1) >>> (2 : ℕ)) -
        ((year - 1).tdiv 100 - (year' - 1).tdiv 100) +
        ((year - 1).tdiv 100 >>> (2 : ℕ) - (year' - 1).tdiv 100 >>> (2 : ℕ)) +
        (year - year') * 365 := by
  rw [Calendar.newYear_eq, Calendar.newYear_eq, Int.tdiv_eq_ediv_of_nonneg (by omega),
    Int.tdiv_eq_ediv_of_nonneg (by omega)]
  simp only [Int.shiftRight_eq_div_pow, Calendar.marchDays]
  omega

/-- From the first year on, with the day of the year that of the date, the difference is that of
the days and of the times of day. -/
theorem calculateGmtOffset_eq_sub {localtm gmtm : Tm} (hlocal : 0 < localtm.date.year)
    (hgmt : 0 < gmtm.date.year)
    (hlocalday : localtm.yday =
      Calendar.dayNumber localtm.date - Calendar.newYear localtm.date.year)
    (hgmtday : gmtm.yday = Calendar.dayNumber gmtm.date - Calendar.newYear gmtm.date.year) :
    calculateGmtOffset localtm gmtm =
      86400 * (Calendar.dayNumber localtm.date - Calendar.dayNumber gmtm.date) +
        (localtm.timeOfDay - gmtm.timeOfDay) := by
  have hdays := newYear_sub_newYear hlocal hgmt
  have hyear (tm : Tm) : tm.year + (1900 - 1) = tm.date.year - 1 := by
    show tm.year + (1900 - 1) = tm.year + 1900 - 1
    omega
  unfold calculateGmtOffset Tm.timeOfDay
  dsimp only
  rw [hyear, hyear]
  omega

/-- After the first year, the difference is that of the seconds. -/
theorem calculateGmtOffset_eq {offset seconds now : ℤ} (hlocal : 0 ≤ seconds + offset + 86400)
    (hnow : 0 ≤ now) :
    calculateGmtOffset ((Zone.constant offset).localtime seconds) (gmtime now) =
      seconds + offset - now := by
  have hyear (offset seconds : ℤ) (h : -1 ≤ (seconds + offset) / 86400) :
      0 < ((Zone.constant offset).localtime seconds).date.year := by
    have hfirst : Calendar.newYear 1 ≤ (seconds + offset) / 86400 := by
      rw [show Calendar.newYear 1 = -719162 by decide]
      omega
    rw [Zone.constant_date]
    exact Calendar.le_year_civil_iff.mpr hfirst
  have hyday (offset seconds : ℤ) : ((Zone.constant offset).localtime seconds).yday =
      Calendar.dayNumber ((Zone.constant offset).localtime seconds).date -
        Calendar.newYear ((Zone.constant offset).localtime seconds).date.year := by
    rw [Zone.constant_date, Calendar.dayNumber_civil]
    rfl
  rw [gmtime, calculateGmtOffset_eq_sub (hyear offset seconds (by omega)) (hyear 0 now (by omega))
    (hyday offset seconds) (hyday 0 now), Zone.constant_date, Zone.constant_date,
    Calendar.dayNumber_civil, Calendar.dayNumber_civil, Tm.timeOfDay, Tm.timeOfDay,
    Zone.constant, Zone.constant]
  dsimp only
  omega

/-- Minutes are left as they are by seconds that do not take them towards zero. -/
theorem tdiv_minutes_iff (minutes seconds : ℤ) :
    (60 * minutes + seconds).tdiv 60 = minutes ↔
      -60 < seconds ∧ seconds < 60 ∧ (0 < minutes → 0 ≤ seconds) ∧
        (minutes < 0 → seconds ≤ 0) := by
  rcases Int.le_total 0 (60 * minutes + seconds) with hsum | hsum
  · rw [Int.tdiv_eq_ediv_of_nonneg hsum]
    omega
  · obtain ⟨sum, hneg⟩ : ∃ sum, 60 * minutes + seconds = -sum := ⟨_, (Int.neg_neg _).symm⟩
    rw [hneg, Int.neg_tdiv, Int.tdiv_eq_ediv_of_nonneg (by omega)]
    omega

/-- The offset in a zone of whole minutes, and that of UTC, are found exactly if the clock is
less than a minute away from the message, and has not gone on from it in a zone ahead of UTC
nor back in a zone behind. -/
theorem utc_minutes_offset_exact_iff {zone : Zone} {rule : ℤ → ℤ} (hzone : zone.Follows rule)
    {time : ℤ} (htime : 0 ≤ time) (hsmall : (rule (toTimeT time)).natAbs < 24 * 60) {now : ℤ}
    (hnow : 0 ≤ now) :
    utcMinutesOffset now (zone.localtime (toTimeT time)) = rule (toTimeT time) ∧
        utcMinutesOffset now (gmtime (toTimeT time)) = 0 ↔
      (now - toTimeT time).natAbs < 60 ∧ (0 < rule (toTimeT time) → now ≤ toTimeT time) ∧
        (rule (toTimeT time) < 0 → toTimeT time ≤ now) := by
  have hseconds : 0 ≤ toTimeT time := Int.tdiv_nonneg htime (by decide)
  have hlocal : utcMinutesOffset now (zone.localtime (toTimeT time)) =
      (60 * rule (toTimeT time) + (toTimeT time - now)).tdiv 60 := by
    rw [utcMinutesOffset, hzone, calculateGmtOffset_eq (by omega) hnow]
    congr 1
    omega
  have hutc : utcMinutesOffset now (gmtime (toTimeT time)) =
      (60 * 0 + (toTimeT time - now)).tdiv 60 := by
    rw [utcMinutesOffset, gmtime, calculateGmtOffset_eq (by omega) hnow]
    congr 1
    omega
  rw [hlocal, hutc, tdiv_minutes_iff, tdiv_minutes_iff]
  omega

/-- Half a minute later in a zone five hours behind. -/
theorem utc_minutes_offset_exact_behind :
    utcMinutesOffset 1700000030 ((Zone.constant (60 * -300)).localtime 1700000000) = -300 ∧
      utcMinutesOffset 1700000030 (gmtime 1700000000) = 0 := by
  have hbehind : (Zone.constant (60 * -300)).Follows fun _ => -300 := fun _ => rfl
  have htime : 0 ≤ fromTimeT 1700000000 := by decide
  exact (utc_minutes_offset_exact_iff hbehind htime (by decide) (by decide)).mpr (by decide)

/-- One second later in a zone an hour ahead, and a minute later in UTC. -/
theorem utc_minutes_offset_goes_on :
    utcMinutesOffset 1700000001 ((Zone.constant 3600).localtime 1700000000) = 59 ∧
      utcMinutesOffset 1700000060 (gmtime 1700000000) = -1 ∧
      ¬ ∀ (zone : Zone) (rule : ℤ → ℤ), zone.Follows rule → ∀ time now : ℤ, 0 ≤ time →
        toTimeT time ≤ now → (rule (toTimeT time)).natAbs < 24 * 60 →
        utcMinutesOffset now (zone.localtime (toTimeT time)) = rule (toTimeT time) ∧
          utcMinutesOffset now (gmtime (toTimeT time)) = 0 := by
  refine ⟨by decide, by decide, fun h => ?_⟩
  have hexact := (h (.constant 3600) (fun _ => 60) (fun _ => rfl) (fromTimeT 1700000000) 1700000001
    (by decide) (by decide) (by decide)).1
  revert hexact
  decide

end WithoutGmtoff

end Structlog
