import Structlog.PatternRuns

/-!
# Local times with their offset

The text that `pattern_formatter` prints with `%Y-%m-%d %H:%M:%S%z` in local mode is read
back: it says a civil time and an offset from UTC, and so an instant.  The civil time is
that of the message, since the broken-down time is cached by the second.  The offset is
that of the message for which `z_formatter` has refreshed it (`refreshedAt`): the first
one, and then each that comes at least ten seconds after the one refreshed for before.
That message is less than ten seconds older than the one printed, or, when the messages
are not in order, younger: `last_update_` only moves forward.

`Caches` is the invariant of the two caches.  `Caches.print` is the step, and
`Caches.printAll_eq` the run: the text of each message is `timestampAfter` the ones before.
`Timestamp.Says` is what a reader learns from it, among that when the instant it names is
the message's: exactly if the zone had the same offset at both messages (`says_ofTm`).
-/

namespace Structlog

open Lib FmtHelper

/-! ## Reading a time -/

/-- A civil time and an offset from UTC. -/
structure Timestamp where
  date : Calendar.Date
  hour : ℤ
  minute : ℤ
  second : ℤ
  offsetMinutes : ℤ
  deriving DecidableEq, Repr

namespace Timestamp

/-- The civil time, as seconds. -/
def civilSeconds (stamp : Timestamp) : ℤ :=
  86400 * Calendar.dayNumber stamp.date + 3600 * stamp.hour + 60 * stamp.minute + stamp.second

/-- The UTC second. -/
def instant (stamp : Timestamp) : ℤ := stamp.civilSeconds - 60 * stamp.offsetMinutes

/-- Digits up to the first byte that is none. -/
def readYear (text : Bytes) : ℕ × Bytes :=
  (readDecimal (text.takeWhile isDigit), text.dropWhile isDigit)

def readTwo : Bytes → Option (ℕ × Bytes)
  | a :: b :: rest => if isDigit a ∧ isDigit b then some (readDecimal [a, b], rest) else none
  | _ => none

def readChar (c : Char) : Bytes → Option Bytes
  | b :: rest => if b = charByte c then some rest else none
  | [] => none

/-- Two digits after a character. -/
def readField (c : Char) (text : Bytes) : Option (ℕ × Bytes) := do readTwo (← readChar c text)

def readDate (text : Bytes) : Option (Calendar.Date × Bytes) := do
  let (year, text) := readYear text
  let (month, text) ← readField '-' text
  let (day, text) ← readField '-' text
  return (⟨year, month, day⟩, text)

/-- Hour, minute and second. -/
def readClock (text : Bytes) : Option ((ℕ × ℕ × ℕ) × Bytes) := do
  let (hour, text) ← readField ' ' text
  let (minute, text) ← readField ':' text
  let (second, text) ← readField ':' text
  return ((hour, minute, second), text)

/-- The offset, in minutes. -/
def readOffset : Bytes → Option (ℤ × Bytes)
  | [] => none
  | sign :: text => do
      let (hour, text) ← readTwo text
      let (minute, text) ← readField ':' text
      let total : ℤ := 60 * hour + minute
      if sign = charByte '-' then some (-total, text)
      else if sign = charByte '+' then some (total, text)
      else none

/-- A time like `2024-03-01 00:59:59+01:00`, and what comes after it. -/
def read (text : Bytes) : Option (Timestamp × Bytes) := do
  let (date, text) ← readDate text
  let ((hour, minute, second), text) ← readClock text
  let (offsetMinutes, text) ← readOffset text
  return (⟨date, hour, minute, second, offsetMinutes⟩, text)

theorem isDigit_iff {b : UInt8} : isDigit b = true ↔ 48 ≤ b.toNat ∧ b.toNat ≤ 57 := by
  rw [isDigit, decide_eq_true_eq, UInt8.le_iff_toNat_le, UInt8.le_iff_toNat_le]
  rfl

theorem isDigit_decimal {n : ℕ} {b : UInt8} (h : b ∈ decimal n) : isDigit b = true :=
  isDigit_iff.mpr (mem_decimal_bounds h)

theorem readYear_decimal (n : ℕ) {b : UInt8} (hb : isDigit b = false) (rest : Bytes) :
    readYear (decimal n ++ b :: rest) = (n, b :: rest) := by
  have hdigits : ∀ c ∈ decimal n, isDigit c = true := fun c => isDigit_decimal
  have htake : (decimal n ++ b :: rest).takeWhile isDigit = decimal n := by
    rw [List.takeWhile_append_of_pos hdigits, List.takeWhile_cons_of_neg (by simp [hb]),
      List.append_nil]
  have hdrop : (decimal n ++ b :: rest).dropWhile isDigit = b :: rest := by
    rw [List.dropWhile_append_of_pos hdigits, List.dropWhile_cons_of_neg (by simp [hb])]
  rw [readYear, htake, hdrop, readDecimal_decimal]

theorem readTwo_pad2 {n : ℤ} (hlow : 0 ≤ n) (hhigh : n < 100) (rest : Bytes) :
    readTwo (pad2 n ++ rest) = some (n.toNat, rest) := by
  have hdigits : ∀ x < 10, ∀ y < 10, isDigit (digit x) = true ∧ isDigit (digit y) = true ∧
      readDecimal [digit x, digit y] = 10 * x + y := by decide
  obtain ⟨htens, hones, hvalue⟩ :=
    hdigits (n / 10).toNat (by omega) (n % 10).toNat (by omega)
  have hsum : 10 * (n / 10).toNat + (n % 10).toNat = n.toNat := by omega
  rw [pad2, if_pos ⟨hlow, hhigh⟩, List.cons_append, List.cons_append, List.nil_append, readTwo,
    if_pos ⟨htens, hones⟩, hvalue, hsum]

theorem readField_pad2 (c : Char) {n : ℤ} (hlow : 0 ≤ n) (hhigh : n < 100) (rest : Bytes) :
    readField c (charByte c :: (pad2 n ++ rest)) = some (n.toNat, rest) := by
  have hchar : readChar c (charByte c :: (pad2 n ++ rest)) = some (pad2 n ++ rest) := if_pos rfl
  rw [readField, hchar]
  exact readTwo_pad2 hlow hhigh rest

/-! ### What the flags write -/

/-- The text of the flags between them, for a broken-down time and an offset. -/
def text (tm : Tm) (offsetMinutes : ℤ) : Bytes :=
  decimalInt (tm.year + 1900) ++ charByte '-' :: (pad2 (tm.mon + 1) ++ charByte '-' ::
    (pad2 tm.mday ++ charByte ' ' :: (pad2 tm.hour ++ charByte ':' :: (pad2 tm.min ++
      charByte ':' :: (pad2 tm.sec ++ (zField offsetMinutes).text)))))

/-- What the text says. -/
def ofTm (tm : Tm) (offsetMinutes : ℤ) : Timestamp where
  date := ⟨tm.year + 1900, tm.mon + 1, tm.mday⟩
  hour := tm.hour
  minute := tm.min
  second := tm.sec
  offsetMinutes

/-- The fields have two digits, and the year is one of our era. -/
structure Writable (tm : Tm) : Prop where
  year : 0 ≤ tm.year + 1900
  mon : 0 ≤ tm.mon + 1 ∧ tm.mon + 1 < 100
  mday : 0 ≤ tm.mday ∧ tm.mday < 100
  hour : 0 ≤ tm.hour ∧ tm.hour < 100
  min : 0 ≤ tm.min ∧ tm.min < 100
  sec : 0 ≤ tm.sec ∧ tm.sec < 100

theorem readDate_text {tm : Tm} (htm : Writable tm) (rest : Bytes) :
    readDate (decimalInt (tm.year + 1900) ++ charByte '-' :: (pad2 (tm.mon + 1) ++
      charByte '-' :: (pad2 tm.mday ++ rest))) =
      some (⟨tm.year + 1900, tm.mon + 1, tm.mday⟩, rest) := by
  obtain ⟨year, hyear⟩ := Int.eq_ofNat_of_zero_le htm.year
  have hdecimal : decimalInt (year : ℤ) = decimal year := by
    rw [decimalInt, if_neg (by omega), Int.natAbs_natCast]
  have hdash : isDigit (charByte '-') = false := by decide
  rw [hyear, hdecimal, readDate, readYear_decimal year hdash]
  simp [readField_pad2 '-' htm.mon.1 htm.mon.2, readField_pad2 '-' htm.mday.1 htm.mday.2,
    Int.toNat_of_nonneg htm.mon.1, Int.toNat_of_nonneg htm.mday.1]

theorem readClock_text {tm : Tm} (htm : Writable tm) (rest : Bytes) :
    readClock (charByte ' ' :: (pad2 tm.hour ++ charByte ':' :: (pad2 tm.min ++
      charByte ':' :: (pad2 tm.sec ++ rest)))) =
      some ((tm.hour.toNat, tm.min.toNat, tm.sec.toNat), rest) := by
  simp [readClock, readField_pad2 ' ' htm.hour.1 htm.hour.2,
    readField_pad2 ':' htm.min.1 htm.min.2, readField_pad2 ':' htm.sec.1 htm.sec.2]

theorem readOffset_text {offsetMinutes : ℤ} (h : offsetMinutes.natAbs < 100 * 60)
    (rest : Bytes) :
    readOffset ((zField offsetMinutes).text ++ rest) = some (offsetMinutes, rest) := by
  have hsigned (sign : UInt8) :
      readOffset (sign :: (pad2 (offsetMinutes.natAbs / 60 : ℕ) ++
        charByte ':' :: (pad2 (offsetMinutes.natAbs % 60 : ℕ) ++ rest))) =
        if sign = charByte '-' then some (-(offsetMinutes.natAbs : ℤ), rest)
        else if sign = charByte '+' then some ((offsetMinutes.natAbs : ℤ), rest)
        else none := by
    have htotal : 60 * ((offsetMinutes.natAbs / 60 : ℕ) : ℤ) +
        ((offsetMinutes.natAbs % 60 : ℕ) : ℤ) = offsetMinutes.natAbs := by omega
    rw [readOffset, readTwo_pad2 (by omega) (by omega)]
    dsimp only [bind, Option.bind]
    rw [readField_pad2 ':' (by omega) (by omega)]
    dsimp only
    rw [Int.toNat_natCast, Int.toNat_natCast, htotal]
  have htext : (zField offsetMinutes).text ++ rest =
      charByte (if offsetMinutes < 0 then '-' else '+') ::
        (pad2 (offsetMinutes.natAbs / 60 : ℕ) ++
          charByte ':' :: (pad2 (offsetMinutes.natAbs % 60 : ℕ) ++ rest)) := by
    rw [zField]
    simp only [List.append_assoc]
    split_ifs <;> rfl
  rw [htext, hsigned]
  by_cases hnegative : offsetMinutes < 0
  · rw [if_pos hnegative, if_pos rfl, show -(offsetMinutes.natAbs : ℤ) = offsetMinutes by omega]
  · rw [if_neg hnegative, if_neg (by decide), if_pos rfl,
      show (offsetMinutes.natAbs : ℤ) = offsetMinutes by omega]

theorem read_text {tm : Tm} (htm : Writable tm) {offsetMinutes : ℤ}
    (h : offsetMinutes.natAbs < 100 * 60) (rest : Bytes) :
    read (text tm offsetMinutes ++ rest) = some (ofTm tm offsetMinutes, rest) := by
  have hdate := readDate_text htm
  have hclock := readClock_text htm
  rw [text]
  simp only [List.append_assoc, List.cons_append]
  rw [read, hdate]
  dsimp only [bind, Option.bind]
  rw [hclock]
  dsimp only
  rw [readOffset_text h, ofTm]
  dsimp only
  rw [Int.toNat_of_nonneg htm.hour.1, Int.toNat_of_nonneg htm.min.1,
    Int.toNat_of_nonneg htm.sec.1]
  rfl

/-! ### What `localtime` finds -/

theorem civilSeconds_localtime (offset seconds offsetMinutes : ℤ) :
    (ofTm ((Zone.constant offset).localtime seconds) offsetMinutes).civilSeconds =
      seconds + offset := by
  have hdate := Calendar.dayNumber_civil ((seconds + offset) / 86400)
  unfold ofTm civilSeconds Zone.constant
  simp only [Int.sub_add_cancel]
  rw [hdate]
  omega

/-- From 1 January of the year `0` on, which is long before the epoch. -/
theorem writable_localtime {offset seconds : ℤ} (h : -86400 * 366 ≤ seconds + offset) :
    Writable ((Zone.constant offset).localtime seconds) := by
  obtain ⟨hmonth, hmonth', hday, hday'⟩ := Calendar.civil_bounds ((seconds + offset) / 86400)
  have hyear : 0 ≤ (Calendar.civil ((seconds + offset) / 86400)).year := by
    apply Calendar.le_year_civil_iff.mpr
    rw [show Calendar.newYear 0 = -719528 by decide]
    omega
  unfold Zone.constant
  constructor <;> dsimp only <;> omega

end Timestamp

/-! ## Refreshing the offset -/

/-- "refresh every 10 seconds": the time at which the offset was refreshed last. -/
def refreshedAt (times : List ℤ) : ℤ :=
  times.foldl (fun last time => if time - last ≥ 10 * nanos then time else last) 0

theorem refreshedAt_concat (times : List ℤ) (time : ℤ) :
    refreshedAt (times ++ [time]) =
      if time - refreshedAt times ≥ 10 * nanos then time else refreshedAt times := by
  rw [refreshedAt, List.foldl_concat]
  rfl

theorem refreshedAt_eq_zero_or_mem (times : List ℤ) :
    refreshedAt times = 0 ∨ refreshedAt times ∈ times := by
  induction times using List.reverseRecOn with
  | nil => exact Or.inl rfl
  | append_singleton times time ih =>
      rw [refreshedAt_concat]
      split_ifs
      · exact Or.inr (List.mem_append_right _ (List.mem_singleton_self time))
      · exact ih.imp_right (List.mem_append_left _)

/-- Once there is a message, it was refreshed, and that less than ten seconds before. -/
theorem refreshedAt_mem (times : List ℤ) {time : ℤ} (htime : dayNanos ≤ time) :
    refreshedAt (times ++ [time]) ∈ times ++ [time] ∧
      time - refreshedAt (times ++ [time]) < 10 * nanos := by
  have hpos : 0 < nanos := by decide
  have hday : 10 * nanos ≤ dayNanos := by decide
  have hrecent : time - refreshedAt (times ++ [time]) < 10 * nanos := by
    rw [refreshedAt_concat]
    split_ifs with hdue
    · omega
    · exact not_le.mp hdue
  refine ⟨(refreshedAt_eq_zero_or_mem _).resolve_left ?_, hrecent⟩
  intro hzero
  omega

theorem refreshedAt_concat_le {times : List ℤ} {time : ℤ} (h : refreshedAt times ≤ time) :
    refreshedAt (times ++ [time]) ≤ time := by
  rw [refreshedAt_concat]
  split_ifs
  · exact le_rfl
  · exact h

/-- The zone that follows a rule, which says the offset from UTC in minutes at each
second. -/
def Zone.Follows (zone : Zone) (rule : ℤ → ℤ) : Prop :=
  ∀ seconds, zone.localtime seconds = (Zone.constant (60 * rule seconds)).localtime seconds

namespace PatternFormatter

/-- The formatter prints each message into a buffer of its own. -/
def printAll (env : Environment) : List Record → PatternFormatter → Except Failure (List Bytes)
  | [], _ => .ok []
  | msg :: rest, pf => do
      let (pf, t) ← pf.format env msg ⟨[], 0, 0⟩
      return t.dest :: (← printAll env rest pf)

/-- `%Y-%m-%d %H:%M:%S%z`. -/
def timestampPattern : Bytes := ascii "%Y-%m-%d %H:%M:%S%z"

/-- Its formatters, with the state of the last one. -/
def timestampFormatters (lastUpdate offsetMinutes : ℤ) : List FlagFormatter :=
  [.field .Y .none, .aggregate (ascii "-"), .field .m .none, .aggregate (ascii "-"),
    .field .d .none, .aggregate (ascii " "), .field .H .none, .aggregate (ascii ":"),
    .field .M .none, .aggregate (ascii ":"), .field .S .none, .z .none lastUpdate offsetMinutes]

theorem compilePattern_timestamp (now : ℤ) :
    compilePattern now timestampPattern = timestampFormatters 0 0 := by
  rfl

/-- What they write for a broken-down time. -/
theorem formatAll_timestamp (pid : ℤ) (msg : Record) (tm : Tm) (lastUpdate offsetMinutes : ℤ) :
    formatAll pid msg tm (timestampFormatters lastUpdate offsetMinutes) ⟨[], 0, 0⟩ =
      .ok (timestampFormatters
          (if msg.time - lastUpdate ≥ 10 * nanos then msg.time else lastUpdate)
          (FlagFormatter.currentOffset msg tm lastUpdate offsetMinutes),
        ⟨Timestamp.text tm (FlagFormatter.currentOffset msg tm lastUpdate offsetMinutes), 0,
          0⟩) := by
  have hwrite : ∀ f ∈ timestampFormatters lastUpdate offsetMinutes, ∀ t,
      f.write pid msg tm t = .ok (t.append (f.unpadded pid msg tm)) := by
    intro f hf t
    simp only [timestampFormatters, List.mem_cons, List.not_mem_nil, or_false] at hf
    rcases hf with rfl | rfl | rfl | rfl | rfl | rfl | rfl | rfl | rfl | rfl | rfl | rfl <;> rfl
  have htext : (timestampFormatters lastUpdate offsetMinutes).flatMap (·.unpadded pid msg tm) =
      Timestamp.text tm (FlagFormatter.currentOffset msg tm lastUpdate offsetMinutes) ++ [] := by
    rw [Timestamp.text]
    simp only [List.append_assoc, List.cons_append]
    rfl
  rw [formatAll_appends hwrite, htext, List.append_nil]
  rfl

/-! ## The two caches -/

/-- The formatter after some messages: the broken-down time is that of its second, and the
offset is that of the message at which it was refreshed. -/
structure Caches (env : Environment) (rule : ℤ → ℤ) (eol : Bytes) (seen : List Record)
    (pf : PatternFormatter) : Prop where
  formatters : ∃ offsetMinutes,
    pf.formatters = timestampFormatters (refreshedAt (seen.map (·.time))) offsetMinutes ∧
      (refreshedAt (seen.map (·.time)) = 0 ∨
        offsetMinutes = rule (toTimeT (refreshedAt (seen.map (·.time)))))
  patternTimeType : pf.patternTimeType = .local
  eol : pf.eol = eol
  cachedTm : pf.lastLogSecs = 0 ∨ pf.cachedTm = env.zone.localtime pf.lastLogSecs

variable {env : Environment} {rule : ℤ → ℤ} {eol : Bytes} {seen : List Record}
  {pf : PatternFormatter}

theorem caches_new (now : ℤ) : Caches env rule eol [] (new now timestampPattern .local eol) where
  formatters := ⟨0, compilePattern_timestamp now, Or.inl rfl⟩
  patternTimeType := rfl
  eol := rfl
  cachedTm := Or.inl rfl

theorem le_toTimeT {time : ℤ} (h : dayNanos ≤ time) : 86400 ≤ toTimeT time := by
  have hday : toTimeT dayNanos = 86400 := by decide
  rw [← hday]
  exact toTimeT_mono h

theorem Caches.refresh (h : Caches env rule eol seen pf) {msg : Record}
    (hday : dayNanos ≤ msg.time) :
    pf.refresh env msg = { pf with
      cachedTm := env.zone.localtime (toTimeT msg.time), lastLogSecs := toTimeT msg.time } := by
  have hsecs := le_toTimeT hday
  unfold PatternFormatter.refresh
  dsimp only
  split_ifs with hchanged
  · rw [getTime, h.patternTimeType]
    rfl
  · -- the cached time is of this second, which is not the one a formatter starts with
    have hsame : toTimeT msg.time = pf.lastLogSecs := not_not.mp hchanged
    have hcached := h.cachedTm.resolve_left (by omega)
    rw [hsame, ← hcached]

/-- What is printed for a message, after some others. -/
def timestampAfter (env : Environment) (rule : ℤ → ℤ) (seen : List Record) (msg : Record) : Bytes :=
  Timestamp.text (env.zone.localtime (toTimeT msg.time))
    (rule (toTimeT (refreshedAt ((seen ++ [msg]).map (·.time)))))

theorem Caches.print (h : Caches env rule eol seen pf) (hzone : env.zone.Follows rule)
    {msg : Record} (hday : dayNanos ≤ msg.time) :
    ∃ pf', pf.format env msg ⟨[], 0, 0⟩ =
        .ok (pf', ⟨timestampAfter env rule seen msg ++ eol, 0, 0⟩) ∧
      Caches env rule eol (seen ++ [msg]) pf' := by
  obtain ⟨offsetMinutes, hformatters, hoffset⟩ := h.formatters
  have htimes : (seen ++ [msg]).map (·.time) = seen.map (·.time) ++ [msg.time] :=
    List.map_append
  have hrefreshed := refreshedAt_concat (seen.map (·.time)) msg.time
  have hcurrent : FlagFormatter.currentOffset msg (env.zone.localtime (toTimeT msg.time))
      (refreshedAt (seen.map (·.time))) offsetMinutes =
        rule (toTimeT (refreshedAt ((seen ++ [msg]).map (·.time)))) := by
    rw [FlagFormatter.currentOffset, htimes, hrefreshed]
    split_ifs with hdue
    · rw [hzone, utcMinutesOffset]
      exact Int.mul_tdiv_cancel_left _ (by decide)
    · have hten : 10 * nanos ≤ dayNanos := by decide
      exact hoffset.resolve_left (by omega)
  refine ⟨{ pf with
    cachedTm := env.zone.localtime (toTimeT msg.time)
    lastLogSecs := toTimeT msg.time
    formatters := timestampFormatters (refreshedAt ((seen ++ [msg]).map (·.time)))
      (rule (toTimeT (refreshedAt ((seen ++ [msg]).map (·.time))))) }, ?_, ?_⟩
  · rw [format_eq, h.refresh hday, hformatters]
    dsimp only
    rw [formatAll_timestamp, hcurrent, h.eol, ← hrefreshed, ← htimes]
    rfl
  · exact ⟨⟨_, rfl, Or.inr rfl⟩, h.patternTimeType, h.eol, Or.inr rfl⟩

/-- What is printed for all messages after some others. -/
theorem Caches.printAll_eq (h : Caches env rule eol seen pf) (hzone : env.zone.Follows rule)
    {msgs : List Record} (hday : ∀ msg ∈ msgs, dayNanos ≤ msg.time) :
    ∃ texts, pf.printAll env msgs = .ok texts ∧ texts.length = msgs.length ∧
      ∀ before msg after, msgs = before ++ msg :: after →
        texts[before.length]? = some (timestampAfter env rule (seen ++ before) msg ++ eol) := by
  induction msgs generalizing seen pf with
  | nil =>
      refine ⟨[], rfl, rfl, ?_⟩
      intro before msg after hsplit
      cases before <;> cases hsplit
  | cons first rest ih =>
      obtain ⟨hfirst, hrest⟩ := List.forall_mem_cons.mp hday
      obtain ⟨pf', hformat, hnext⟩ := h.print hzone hfirst
      obtain ⟨texts, hprint, hlength, htexts⟩ := ih hnext hrest
      refine ⟨(timestampAfter env rule seen first ++ eol) :: texts, ?_,
        congrArg (· + 1) hlength, ?_⟩
      · rw [printAll, hformat]
        dsimp only [bind, Except.bind]
        rw [hprint]
        rfl
      · intro before msg after hsplit
        cases before with
        | nil =>
            obtain ⟨rfl, -⟩ := List.cons.inj hsplit
            rw [List.append_nil]
            rfl
        | cons _ before =>
            obtain ⟨rfl, hafter⟩ := List.cons.inj hsplit
            have htext := htexts before msg after hafter
            rw [List.append_assoc seen, List.singleton_append] at htext
            exact htext

end PatternFormatter

/-- What is said about a message that is printed after some others. -/
structure Timestamp.Says (rule : ℤ → ℤ) (before : List Record) (msg : Record)
    (stamp : Timestamp) : Prop where
  /-- The civil time is that of its second. -/
  civil : stamp.civilSeconds = toTimeT msg.time + 60 * rule (toTimeT msg.time)
  /-- The offset is that at the time for which it was refreshed last. -/
  offset : stamp.offsetMinutes = rule (toTimeT (refreshedAt ((before ++ [msg]).map (·.time))))
  /-- That is the time of a message, which is not ten seconds older; and it is not younger
  either, if the offset was not refreshed for a younger one before. -/
  origin : ∃ origin ∈ before ++ [msg],
    origin.time = refreshedAt ((before ++ [msg]).map (·.time)) ∧
      msg.time - origin.time < 10 * nanos ∧
      (refreshedAt (before.map (·.time)) ≤ msg.time → origin.time ≤ msg.time)
  /-- So the instant is that of the message exactly if the offset is the same there. -/
  exact : stamp.instant = toTimeT msg.time ↔
    rule (toTimeT (refreshedAt ((before ++ [msg]).map (·.time)))) = rule (toTimeT msg.time)
  /-- It is if the offset has not changed in the last ten seconds, and the message is not
  older than the one refreshed for. -/
  recent : refreshedAt (before.map (·.time)) ≤ msg.time →
    (∀ origin ∈ before, origin.time ≤ msg.time → msg.time - origin.time < 10 * nanos →
      rule (toTimeT origin.time) = rule (toTimeT msg.time)) → stamp.instant = toTimeT msg.time
  /-- The order does not matter if the offset was the same for all messages. -/
  unchanged : (∀ origin ∈ before, rule (toTimeT origin.time) = rule (toTimeT msg.time)) →
    stamp.instant = toTimeT msg.time

/-- The message for which the offset was refreshed. -/
theorem exists_origin (before : List Record) {msg : Record} (hday : dayNanos ≤ msg.time) :
    ∃ origin, (origin ∈ before ∨ origin = msg) ∧
      origin.time = refreshedAt ((before ++ [msg]).map (·.time)) ∧
      msg.time - origin.time < 10 * nanos ∧
      (refreshedAt (before.map (·.time)) ≤ msg.time → origin.time ≤ msg.time) := by
  have htimes : (before ++ [msg]).map (·.time) = before.map (·.time) ++ [msg.time] :=
    List.map_append
  obtain ⟨hmem, hrecent⟩ := refreshedAt_mem (before.map (·.time)) hday
  rw [← htimes] at hmem hrecent
  obtain ⟨origin, horigin, htime⟩ := List.mem_map.mp hmem
  refine ⟨origin, (List.mem_append.mp horigin).imp_right List.mem_singleton.mp, htime, ?_, ?_⟩
  · rw [htime]
    exact hrecent
  · intro hlast
    rw [htime, htimes]
    exact refreshedAt_concat_le hlast

/-- The text of one message. -/
theorem read_timestampAfter {env : Environment} {rule : ℤ → ℤ} (hzone : env.zone.Follows rule)
    (hrule : ∀ seconds, (rule seconds).natAbs < 100 * 60) (eol : Bytes) (before : List Record)
    {msg : Record} (hday : dayNanos ≤ msg.time) :
    Timestamp.read (PatternFormatter.timestampAfter env rule before msg ++ eol) =
      some (.ofTm (env.zone.localtime (toTimeT msg.time))
        (rule (toTimeT (refreshedAt ((before ++ [msg]).map (·.time))))), eol) := by
  have hsecs := PatternFormatter.le_toTimeT hday
  have hsize := hrule (toTimeT msg.time)
  rw [PatternFormatter.timestampAfter]
  apply Timestamp.read_text _ (hrule _)
  rw [hzone]
  exact Timestamp.writable_localtime (by omega)

theorem says_ofTm {zone : Zone} {rule : ℤ → ℤ} (hzone : zone.Follows rule)
    (before : List Record) {msg : Record} (hday : dayNanos ≤ msg.time) :
    (Timestamp.ofTm (zone.localtime (toTimeT msg.time))
      (rule (toTimeT (refreshedAt ((before ++ [msg]).map (·.time)))))).Says rule before msg := by
  obtain ⟨origin, horigin, htime, hrecent, hle⟩ := exists_origin before hday
  rw [← htime]
  have hcivil : (Timestamp.ofTm (zone.localtime (toTimeT msg.time))
      (rule (toTimeT origin.time))).civilSeconds =
        toTimeT msg.time + 60 * rule (toTimeT msg.time) := by
    rw [hzone]
    exact Timestamp.civilSeconds_localtime _ _ _
  have hinstant : (Timestamp.ofTm (zone.localtime (toTimeT msg.time))
        (rule (toTimeT origin.time))).instant =
      toTimeT msg.time + 60 * rule (toTimeT msg.time) - 60 * rule (toTimeT origin.time) :=
    congrArg (· - 60 * rule (toTimeT origin.time)) hcivil
  have hexact : (Timestamp.ofTm (zone.localtime (toTimeT msg.time))
        (rule (toTimeT origin.time))).instant = toTimeT msg.time ↔
      rule (toTimeT origin.time) = rule (toTimeT msg.time) := by
    rw [hinstant]
    omega
  have hmem : origin ∈ before ++ [msg] :=
    List.mem_append.mpr (horigin.imp_right List.mem_singleton.mpr)
  constructor
  case civil => exact hcivil
  case offset => rw [← htime]; rfl
  case origin => exact ⟨origin, hmem, htime, hrecent, hle⟩
  case exact =>
    rw [← htime]
    exact hexact
  case recent =>
    intro hlast hsame
    apply hexact.mpr
    rcases horigin with hbefore | rfl
    · exact hsame origin hbefore (hle hlast) hrecent
    · rfl
  case unchanged =>
    intro hsame
    apply hexact.mpr
    rcases horigin with hbefore | rfl
    · exact hsame origin hbefore
    · rfl

/-- The formatter prints a time for each message of a sequence, in any order, that says what
`Says` says. -/
theorem local_timestamps (env : Environment) (rule : ℤ → ℤ) (hzone : env.zone.Follows rule)
    (hrule : ∀ seconds, (rule seconds).natAbs < 100 * 60) (now : ℤ) (eol : Bytes)
    (msgs : List Record) (hday : ∀ msg ∈ msgs, dayNanos ≤ msg.time) :
    ∃ texts, (PatternFormatter.new now PatternFormatter.timestampPattern .local eol).printAll env
        msgs = .ok texts ∧ texts.length = msgs.length ∧
      ∀ before msg after, msgs = before ++ msg :: after → ∃ text stamp,
        texts[before.length]? = some text ∧ Timestamp.read text = some (stamp, eol) ∧
          stamp.Says rule before msg := by
  have hstart : PatternFormatter.Caches env rule eol []
      (.new now PatternFormatter.timestampPattern .local eol) := PatternFormatter.caches_new now
  obtain ⟨texts, hprint, hlength, htexts⟩ := hstart.printAll_eq hzone hday
  refine ⟨texts, hprint, hlength, ?_⟩
  intro before msg after hsplit
  have hmsg : dayNanos ≤ msg.time := by
    apply hday
    rw [hsplit]
    exact List.mem_append_right _ List.mem_cons_self
  have hread := read_timestampAfter hzone hrule eol before hmsg
  exact ⟨_, _, htexts before msg after hsplit, hread, says_ofTm hzone before hmsg⟩

/-- An hour is left out at second `1000000`. -/
def springRule (seconds : ℤ) : ℤ := if seconds < 1000000 then 0 else 60

def springZone : Zone :=
  { Zone.constant 0 with
    localtime := fun seconds => (Zone.constant (60 * springRule seconds)).localtime seconds }

theorem springZone_follows : springZone.Follows springRule := fun _ => rfl

theorem natAbs_springRule_lt (seconds : ℤ) : (springRule seconds).natAbs < 100 * 60 := by
  unfold springRule
  split_ifs <;> decide

def messageAt (seconds : ℤ) : Record := LogMsg.new (seconds * nanos) 7 {} [] .info []

/-- Twenty seconds after the hour the offset is the new one, and a message from before the
hour that comes then is printed with it, too. -/
theorem local_timestamps_refreshed :
    ∃ texts text stamp late lateStamp,
      (PatternFormatter.new 0 PatternFormatter.timestampPattern .local (ascii "\n")).printAll
        ⟨1, springZone⟩ [messageAt 999999, messageAt 1000020, messageAt 999998] = .ok texts ∧
      texts[1]? = some text ∧ Timestamp.read text = some (stamp, ascii "\n") ∧
        stamp.instant = 1000020 ∧
      texts[2]? = some late ∧ Timestamp.read late = some (lateStamp, ascii "\n") ∧
        lateStamp.offsetMinutes = 60 ∧ lateStamp.instant ≠ 999998 := by
  obtain ⟨texts, hprint, -, htexts⟩ := local_timestamps ⟨1, springZone⟩ springRule
    springZone_follows natAbs_springRule_lt 0 (ascii "\n")
    [messageAt 999999, messageAt 1000020, messageAt 999998] (by decide)
  obtain ⟨text, stamp, htext, hread, hsays⟩ :=
    htexts [messageAt 999999] (messageAt 1000020) [messageAt 999998] rfl
  obtain ⟨late, lateStamp, hlate, hlateRead, hlateSays⟩ :=
    htexts [messageAt 999999, messageAt 1000020] (messageAt 999998) [] rfl
  refine ⟨texts, text, stamp, late, lateStamp, hprint, htext, hread, ?_, hlate, hlateRead,
    hlateSays.offset, ?_⟩
  · exact hsays.exact.mpr (by decide)
  · exact fun hinstant => absurd (hlateSays.exact.mp hinstant) (by decide)

/-- One second after the last message before the hour the civil time is the new one and the
offset is not. -/
theorem local_timestamps_stale :
    springZone.Follows springRule ∧ (∀ seconds, (springRule seconds).natAbs < 100 * 60) ∧
      (∀ msg ∈ [messageAt 999999, messageAt 1000000], dayNanos ≤ msg.time) ∧
      ((PatternFormatter.new 0 PatternFormatter.timestampPattern .local []).printAll
          ⟨1, springZone⟩ [messageAt 999999, messageAt 1000000]).toOption.map
        (·.map fun text => (Timestamp.read text).map (·.1.instant)) =
        some [some 999999, some 1003600] :=
  ⟨springZone_follows, natAbs_springRule_lt, by decide, by decide +kernel⟩

end Structlog
