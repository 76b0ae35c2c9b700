import Structlog.LocalTimestamps
import Structlog.PaddedFlags

/-!
# The time of a message, as it is printed

`%E` prints the seconds since the epoch, and `%e`, `%f` and `%F` the fraction of the second, in
three, six and nine digits.  Each fraction is a difference of two durations that are cut to their
unit; since the epoch it is the remainder of the nanoseconds, cut to that unit
(`timeFraction_eq`).  The three texts are then one text of nine digits, cut to three and to six,
and together with the seconds they give the time back (`losesNothing_text`).
-/

namespace Structlog

open Lib FmtHelper

/-! ## Texts of the digits -/

/-- Three digits are written as zeros and a number are. -/
theorem pad3_eq {n : ℕ} (h : n < 1000) : pad3 n = zeroPadded 3 n := by
  have hdigit : ∀ d < 10, digit d = charByte d.digitChar := by decide
  have htens : n % 100 / 10 = n / 10 % 10 := by omega
  have hones : n % 100 % 10 = n % 10 := by omega
  rw [pad3, if_pos h, zeroPadded_succ (by decide), zeroPadded_succ (by decide), zeroPadded_one
    (by omega), Nat.div_div_eq_div_mul, htens, hones, hdigit _ (by omega), hdigit _ (by omega),
    hdigit _ (by omega)]
  rfl

/-- Since the epoch the unsigned value of the fraction is the remainder. -/
theorem toNat_timeFraction (n duration count modulus : ℕ) (hduration : 0 < duration)
    (hcount : nanos = (duration * count : ℕ)) (hmodulus : count ≤ modulus) :
    (timeFraction duration n % modulus).toNat = n / duration % count := by
  have hpos : 0 < count := by
    refine Nat.pos_of_ne_zero fun hzero => ?_
    rw [hzero, Nat.mul_zero] at hcount
    exact absurd hcount (by decide)
  have hlow := Nat.mod_lt (n / duration) hpos
  have hfraction : timeFraction duration n = (n / duration % count : ℕ) := by
    rw [timeFraction_eq (Int.natCast_nonneg n) (Int.natCast_pos.mpr hduration)
      (hcount.trans (Int.natCast_mul duration count))]
    rfl
  rw [hfraction]
  exact congrArg Int.toNat (Int.emod_eq_of_lt (Int.natCast_nonneg _) (by omega))

section Texts

variable {msg : Record} {n : ℕ}

theorem EFormatter_text (htime : msg.time = n) :
    (EFormatter msg).text = decimal (n / 1000000000) := by
  have hseconds : (n : ℤ).tdiv nanos = (n / 1000000000 : ℕ) :=
    Int.tdiv_eq_ediv_of_nonneg (Int.natCast_nonneg n)
  rw [EFormatter, htime, hseconds, decimalInt, if_neg (by omega)]
  rfl

theorem eFormatter_text (htime : msg.time = n) :
    (eFormatter msg).text = zeroPadded 3 (n / 1000000 % 1000) := by
  have hfraction := toNat_timeFraction n 1000000 1000 (2 ^ 32) (by decide) rfl (by decide)
  rw [← pad3_eq (Nat.mod_lt _ (by decide)), ← hfraction, ← htime]
  rfl

theorem fFormatter_text (htime : msg.time = n) :
    (fFormatter msg).text = zeroPadded 6 (n / 1000 % 1000000) := by
  have hfraction := toNat_timeFraction n 1000 1000000 (2 ^ 64) (by decide) rfl (by decide)
  rw [← hfraction, ← htime]
  rfl

theorem FFormatter_text (htime : msg.time = n) :
    (FFormatter msg).text = zeroPadded 9 (n % 1000000000) := by
  have hfraction := toNat_timeFraction n 1 1000000000 (2 ^ 64) (by decide) rfl (by decide)
  rw [Nat.div_one] at hfraction
  rw [← hfraction, ← htime]
  rfl

end Texts

/-! ## Nothing is lost -/

/-- The text of the seconds of a time, and texts of its fraction in three units, that give the
time back. -/
structure LosesNothing (time : ℤ) (seconds millis micros nanoseconds : Bytes) : Prop where
  seconds_eq : seconds = decimal (time / nanos).toNat
  digits : ∀ text ∈ [millis, micros, nanoseconds], ∀ b ∈ text, isDigit b = true
  length_millis : millis.length = 3
  length_micros : micros.length = 6
  length_nanoseconds : nanoseconds.length = 9
  millis_prefix : millis <+: nanoseconds
  micros_prefix : micros <+: nanoseconds
  inverse : (readDecimal seconds * 1000000000 + readDecimal nanoseconds : ℕ) = time

/-- The fraction with fewer digits. -/
theorem prefix_zeroPadded {width k n : ℕ} (hwidth : 0 < width) (h : n < 10 ^ (width + k)) :
    zeroPadded width (n / 10 ^ k) <+: zeroPadded (width + k) n := by
  rw [← take_zeroPadded hwidth h]
  exact List.take_prefix _ _

theorem losesNothing_text (msg : Record) (htime : 0 ≤ msg.time) :
    LosesNothing msg.time (EFormatter msg).text (eFormatter msg).text (fFormatter msg).text
      (FFormatter msg).text := by
  obtain ⟨n, hn⟩ := Int.eq_ofNat_of_zero_le htime
  have hlow : n % 1000000000 < 10 ^ 9 := Nat.mod_lt _ (by decide)
  -- the shorter fractions, as those of the remainder of the second
  have hmillis : n / 1000000 % 1000 = n % 1000000000 / 10 ^ 6 := by omega
  have hmicros : n / 1000 % 1000000 = n % 1000000000 / 10 ^ 3 := by omega
  have hdigits (width m : ℕ) : ∀ b ∈ zeroPadded width m, isDigit b = true := fun b hb =>
    Timestamp.isDigit_iff.mpr (mem_zeroPadded_bounds hb)
  have hlength {width m : ℕ} (hwidth : 0 < width) (hm : m < 10 ^ width) :
      (zeroPadded width m).length = width := length_padUint width hwidth hm
  rw [EFormatter_text hn, eFormatter_text hn, fFormatter_text hn, FFormatter_text hn, hn]
  exact {
    seconds_eq := rfl
    digits := by
      simp only [List.forall_mem_cons]
      exact ⟨hdigits _ _, hdigits _ _, hdigits _ _, fun _ h => absurd h List.not_mem_nil⟩
    length_millis := hlength (by decide) (Nat.mod_lt _ (by decide))
    length_micros := hlength (by decide) (Nat.mod_lt _ (by decide))
    length_nanoseconds := hlength (by decide) hlow
    millis_prefix := hmillis ▸ prefix_zeroPadded (by decide) hlow
    micros_prefix := hmicros ▸ prefix_zeroPadded (by decide) hlow
    inverse := by
      rw [readDecimal_decimal, readDecimal_zeroPadded, Nat.div_add_mod'] }

/-! ## What a flag prints -/

/-- A formatter of the flag alone appends a text of the message and the end of the line, to each
buffer, in every sequence of messages. -/
def Writes (env : Environment) (flag : Char) (text : Record → Bytes) : Prop :=
  ∀ now timeType eol calls,
    Runs.answers (PatternFormatter.step env)
        (.new now (plainPattern flag) timeType eol) calls =
      calls.map fun call => .ok (call.2.append (text call.1 ++ eol))

/-- A flag of the time alone, which keeps no state. -/
theorem writes_of_field (env : Environment) {flag : Char} {kind : Flag} (hflag : flag ∈ timeFlags)
    (hkind : timeFlag flag = some kind) {made : Record → Field}
    (hmade : ∀ pid msg tm, kind.field pid msg tm = .ok (some (made msg))) :
    Writes env flag fun msg => (made msg).text := by
  intro now timeType eol calls
  obtain ⟨f, hf, hcompiled, -⟩ := compilePattern_time hflag now
  rw [TimeFormatter, hkind] at hf
  subst hf
  refine Runs.answers_eq_map (motive := fun pf : PatternFormatter =>
    pf.formatters = [.field kind .none] ∧ pf.eol = eol) ?_ ⟨hcompiled, rfl⟩ calls
  rintro pf call ⟨hformatters, heol⟩
  have hnow : (FlagFormatter.field kind .none).made env.pid call.1
      (pf.refresh env call.1).cachedTm = some (made call.1) := by
    rw [FlagFormatter.made, FlagFormatter.padded, hmade]
    rfl
  refine ⟨{ pf.refresh env call.1 with formatters := [.field kind .none] }, ?_, rfl,
    (PatternFormatter.refresh_same env call.1 pf).2.trans heol⟩
  rw [PatternFormatter.step_of_made env hformatters hnow, FlagFormatter.writeField_none, heol]
  simp only [Except.map, Target.append, List.append_assoc]
  rfl

/-- The printed seconds and fractions of every time since the epoch give the time back. -/
theorem printed_timestamps_exact (env : Environment) :
    ∃ E e f F : Record → Bytes,
      Writes env 'E' E ∧ Writes env 'e' e ∧ Writes env 'f' f ∧ Writes env 'F' F ∧
        ∀ msg, 0 ≤ msg.time → LosesNothing msg.time (E msg) (e msg) (f msg) (F msg) := by
  refine ⟨fun msg => (EFormatter msg).text, fun msg => (eFormatter msg).text,
    fun msg => (fFormatter msg).text, fun msg => (FFormatter msg).text, ?_, ?_, ?_, ?_,
    losesNothing_text⟩
  · exact writes_of_field env (by decide) rfl fun _ _ _ => rfl
  · exact writes_of_field env (by decide) rfl fun _ _ _ => rfl
  · exact writes_of_field env (by decide) rfl fun _ _ _ => rfl
  · exact writes_of_field env (by decide) rfl fun _ _ _ => rfl

end Structlog
