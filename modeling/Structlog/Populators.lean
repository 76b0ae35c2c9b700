import Structlog.PatternOutput

/-!
# Populators

A populator writes members into the JSON object of a message.  Most of them are
`pattern_populator`s, which write the text that a pattern formatter makes in a
buffer of their own.  The colour range is not theirs: it stays in the message,
with positions in that buffer.

What a populator writes does not depend on what is in the object, so it is the
list of its entries, its `contribution` (`populate_ok`).
-/

namespace Structlog

open Lib

def Target.colorRange (t : Target) : ColorRange := ⟨t.colorRangeStart, t.colorRangeEnd⟩

/-- `entry[key] = value`. -/
def Json.assign (key : Bytes) (value entry : Json) : Except Failure Json :=
  (entry.setMember key value).mapError .threw

/-- The classes of populators; `pattern` is `pattern_populator` and those that only
give it a key and a pattern. -/
inductive Populator
  | pattern (key : Bytes) (pf : PatternFormatter)
  | loggerName (key : Bytes) (pf : PatternFormatter)
  | pid
  | threadId
  | timestamp

namespace Populator

/-- `pattern_populator(key, pattern)`. -/
def patternPopulator (now : ℤ) (key pattern : Bytes) : Populator :=
  .pattern key (.new now pattern .local [])

def dateTimePopulator (now : ℤ) : Populator :=
  patternPopulator now (ascii "date_time") (ascii "%Y-%m-%d %H:%M:%S.%e%z")

def levelPopulator (now : ℤ) : Populator := patternPopulator now (ascii "level") (ascii "%l")

def loggerNamePopulator (now : ℤ) : Populator :=
  .loggerName (ascii "logger_name") (.new now (ascii "%n") .local [])

def messagePopulator (now : ℤ) : Populator := patternPopulator now (ascii "message") (ascii "%v")

/-- `populate`.  The populator comes back with the state of its formatter, and the
colour range as the message has it then. -/
def populate (env : Environment) (msg : Record) (entry : Json) (range : ColorRange) :
    Populator → Except Failure (Populator × Json × ColorRange)
  | pattern key pf => do
      let (pf, tmp) ← pf.format env msg (range.over [])
      let entry ← entry.assign key (.string tmp.dest)
      return (pattern key pf, entry, tmp.colorRange)
  | loggerName key pf => do
      let (pf, tmp) ← pf.format env msg (range.over [])
      let entry ← if 0 < tmp.dest.length then entry.assign key (.string tmp.dest) else .ok entry
      return (loggerName key pf, entry, tmp.colorRange)
  | pid => do return (pid, ← entry.assign (ascii "pid") (.integer env.pid), range)
  | threadId => do
      return (threadId, ← entry.assign (ascii "thread_id") (.integer msg.threadId), range)
  | timestamp => do
      return (timestamp, ← entry.assign (ascii "timestamp") (.integer (msg.time.tdiv nanos)), range)

end Populator

/-! ## What a populator writes -/

namespace PatternFormatter

/-- The formatter can write into an empty buffer. -/
def Renders (env : Environment) (msg : Record) (pf : PatternFormatter) : Prop :=
  Formats env.pid msg (pf.refresh env msg).cachedTm 0 pf.formatters

/-- The text it makes there. -/
def rendered (env : Environment) (msg : Record) (pf : PatternFormatter) : Bytes :=
  afterAll env.pid msg (pf.refresh env msg).cachedTm pf.formatters [] ++ pf.eol

/-- The colour range it leaves, for the one it finds. -/
def rangeAfter (env : Environment) (msg : Record) (range : ColorRange) (pf : PatternFormatter) :
    ColorRange :=
  marks env.pid msg (pf.refresh env msg).cachedTm 0 range pf.formatters

/-- The formatter after the message. -/
def next (env : Environment) (msg : Record) (pf : PatternFormatter) : PatternFormatter :=
  { pf.refresh env msg with
    formatters := pf.formatters.map (·.next msg (pf.refresh env msg).cachedTm) }

theorem format_ok {env : Environment} {msg : Record} {pf : PatternFormatter}
    (h : pf.Renders env msg) (range : ColorRange) :
    pf.format env msg (range.over []) =
      .ok (pf.next env msg, (pf.rangeAfter env msg range).over (pf.rendered env msg)) := by
  have hloop : Formats env.pid msg (pf.refresh env msg).cachedTm ([] : Bytes).length
    pf.formatters := h
  rw [format_eq, formatAll_ok range hloop]
  rfl

theorem format_failed {env : Environment} {msg : Record} {pf : PatternFormatter}
    (h : ¬ pf.Renders env msg) (range : ColorRange) :
    ∃ failure, pf.format env msg (range.over []) = .error failure := by
  have hloop : ¬ Formats env.pid msg (pf.refresh env msg).cachedTm ([] : Bytes).length
    pf.formatters := h
  obtain ⟨failure, hformat⟩ := formatAll_failed range hloop
  exact ⟨failure, by rw [format_eq, hformat]; rfl⟩

end PatternFormatter

/-- Assignment to a member of an object always succeeds. -/
theorem Json.assign_object (key : Bytes) (value : Json) (members : OrdMap Bytes Json) :
    (object members.entries).assign key value = .ok (object (members.insert key value).entries) :=
  rfl

namespace Populator

/-- The populator returns. -/
def Renders (env : Environment) (msg : Record) : Populator → Prop
  | pattern _ pf => pf.Renders env msg
  | loggerName _ pf => pf.Renders env msg
  | _ => True

/-- The entries it writes. -/
def contribution (env : Environment) (msg : Record) : Populator → List (Bytes × Json)
  | pattern key pf => [(key, .string (pf.rendered env msg))]
  | loggerName key pf =>
      if 0 < (pf.rendered env msg).length then [(key, .string (pf.rendered env msg))] else []
  | pid => [(ascii "pid", .integer env.pid)]
  | threadId => [(ascii "thread_id", .integer msg.threadId)]
  | timestamp => [(ascii "timestamp", .integer (msg.time.tdiv nanos))]

/-- The colour range it leaves. -/
def rangeAfter (env : Environment) (msg : Record) (range : ColorRange) : Populator → ColorRange
  | pattern _ pf => pf.rangeAfter env msg range
  | loggerName _ pf => pf.rangeAfter env msg range
  | _ => range

/-- The populator after the message. -/
def next (env : Environment) (msg : Record) : Populator → Populator
  | pattern key pf => pattern key (pf.next env msg)
  | loggerName key pf => loggerName key (pf.next env msg)
  | p => p

theorem populate_ok {env : Environment} {msg : Record} {p : Populator} (h : p.Renders env msg)
    (members : OrdMap Bytes Json) (range : ColorRange) :
    p.populate env msg (.object members.entries) range =
      .ok (p.next env msg, .object (members.insertAll (p.contribution env msg)).entries,
        p.rangeAfter env msg range) := by
  cases p with
  | pattern key pf =>
      rw [populate, PatternFormatter.format_ok h range]
      rfl
  | loggerName key pf =>
      rw [populate, PatternFormatter.format_ok h range, contribution]
      by_cases hempty : 0 < (pf.rendered env msg).length
      · dsimp only [bind, Except.bind, ColorRange.over]
        rw [if_pos hempty, if_pos hempty]
        rfl
      · dsimp only [bind, Except.bind, ColorRange.over]
        rw [if_neg hempty, if_neg hempty]
        rfl
  | pid => rfl
  | threadId => rfl
  | timestamp => rfl

theorem populate_failed {env : Environment} {msg : Record} {p : Populator}
    (h : ¬ p.Renders env msg) (entry : Json) (range : ColorRange) :
    ∃ failure, p.populate env msg entry range = .error failure := by
  cases p with
  | pattern key pf =>
      obtain ⟨failure, hformat⟩ := PatternFormatter.format_failed h range
      exact ⟨failure, by rw [populate, hformat]; rfl⟩
  | loggerName key pf =>
      obtain ⟨failure, hformat⟩ := PatternFormatter.format_failed h range
      exact ⟨failure, by rw [populate, hformat]; rfl⟩
  | pid => exact absurd trivial h
  | threadId => exact absurd trivial h
  | timestamp => exact absurd trivial h

end Populator

end Structlog
