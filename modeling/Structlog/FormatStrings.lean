import Structlog.FmtIntegers
import Structlog.PatternFormatter

/-!
# Format strings

How `fmt` reads the format string of a log call.  `parse_format_string` has two loops: one
that looks at each character, for strings of less than 32 of them, and one that searches
for the braces with `memchr`; and `vformat_to` does not read the string `{}` at all.

`scan` is what the three are for: it takes one character after the other.  They all do
what it does, whatever the handler is as long as it treats a text given in two parts as one
text, and so either loop would do for every string (`vformat_paths_agree`).  A handler
carries that as a field, and that the format specifiers which it has read are at the start
of what it was given.
-/

namespace Structlog.Fmt

open Lib

/-- What stands at the start of a replacement field. -/
inductive ArgId
  | auto
  | index (id : ℕ)
  | name (id : Bytes)
  deriving DecidableEq, Repr

/-- What `parse_format_string` calls.  An error is the message of the `format_error`. -/
structure FormatHandler (σ : Type) where
  onText : σ → Bytes → σ
  onArgId : σ → ArgId → Except Bytes (σ × ℕ)
  onReplacementField : σ → ℕ → Except Bytes σ
  /-- The specifiers of a field, with what follows them. -/
  onFormatSpecs : σ → ℕ → Bytes → Except Bytes (σ × Bytes)
  text_nil : ∀ s, onText s [] = s
  text_append : ∀ s first second, onText (onText s first) second = onText s (first ++ second)
  specs_suffix : ∀ s id rest s' rest', onFormatSpecs s id rest = .ok (s', rest') → rest' <:+ rest

def invalidFormat : Bytes := ascii "invalid format string"

def missingBrace : Bytes := ascii "missing '\x7d' in format string"

def unmatchedBrace : Bytes := ascii "unmatched '\x7d' in format string"

def unknownSpecifier : Bytes := ascii "unknown format specifier"

/-- `is_name_start`. -/
def isNameStart (c : UInt8) : Bool := (0x61 ≤ c && c ≤ 0x7A) || (0x41 ≤ c && c ≤ 0x5A) || c = 0x5F

def isNameChar (c : UInt8) : Bool := isNameStart c || isDigit c

/-- `find`, which is `memchr`: what stands before the first `c` and what stands after it. -/
def find (c : UInt8) : Bytes → Option (Bytes × Bytes)
  | [] => none
  | b :: rest =>
      if b = c then some ([], rest) else (find c rest).map fun found => (b :: found.1, found.2)

theorem find_eq_none {c : UInt8} {text : Bytes} (hfind : find c text = none) : c ∉ text := by
  induction text with
  | nil => exact List.not_mem_nil
  | cons b rest ih =>
      rw [find] at hfind
      split_ifs at hfind with hb
      rw [Option.map_eq_none_iff] at hfind
      rw [List.mem_cons, not_or]
      exact ⟨Ne.symm hb, ih hfind⟩

theorem find_eq_some {c : UInt8} {text before after : Bytes}
    (hfind : find c text = some (before, after)) : text = before ++ c :: after ∧ c ∉ before := by
  induction text generalizing before with
  | nil => cases hfind
  | cons b rest ih =>
      rw [find] at hfind
      split_ifs at hfind with hb
      · obtain ⟨rfl, rfl⟩ := Prod.mk.inj (Option.some.inj hfind)
        exact ⟨by rw [hb]; rfl, List.not_mem_nil⟩
      · obtain ⟨⟨before', after'⟩, hrest, heq⟩ := Option.map_eq_some_iff.mp hfind
        obtain ⟨rfl, rfl⟩ := Prod.mk.inj heq
        obtain ⟨rfl, hbefore⟩ := ih hrest
        refine ⟨rfl, ?_⟩
        rw [List.mem_cons, not_or]
        exact ⟨Ne.symm hb, hbefore⟩

theorem find_length {c : UInt8} {text before after : Bytes}
    (hfind : find c text = some (before, after)) : after.length < text.length := by
  rw [(find_eq_some hfind).1, List.length_append, List.length_cons]
  omega

/-! ## Argument ids -/

/-- The loop of `parse_nonnegative_int`: `value` and `prev` are unsigned ints. -/
def accumulate : UInt32 → UInt32 → Bytes → UInt32 × UInt32
  | value, prev, [] => (value, prev)
  | value, _, d :: digits => accumulate (value * 10 + (d - 0x30).toUInt32) value digits

def intMax : ℕ := 2147483647

/-- `parse_nonnegative_int`, which is called at a digit; `none` is the error value. -/
def parseNonnegativeInt (rest : Bytes) : Option ℕ × Bytes :=
  let digits := rest.takeWhile isDigit
  let (value, prev) := accumulate 0 0 digits
  let last := (digits.getLast?.getD 0x30 - 0x30).toNat
  let parsed :=
    if digits.length ≤ 9 then some value.toNat
    else if digits.length = 10 ∧ prev.toNat * 10 + last ≤ intMax then some value.toNat
    else none
  (parsed, rest.dropWhile isDigit)

/-- An index that is no longer than one digit if it starts with a zero. -/
def parseIndex (rest : Bytes) : ℕ × Bytes :=
  if rest.head? = some 0x30 then (0, rest.tail)
  else
    let parsed := parseNonnegativeInt rest
    (parsed.1.getD intMax, parsed.2)

/-- `parse_arg_id` with `do_parse_arg_id`. -/
def parseArgId : Bytes → Except Bytes (ArgId × Bytes)
  | [] => .error invalidFormat
  | c :: after =>
      if c = 0x7D ∨ c = 0x3A then .ok (.auto, c :: after)
      else if isDigit c then
        let parsed := parseIndex (c :: after)
        if parsed.2.head? = some 0x7D ∨ parsed.2.head? = some 0x3A then
          .ok (.index parsed.1, parsed.2)
        else .error invalidFormat
      else if isNameStart c then
        .ok (.name (c :: after.takeWhile isNameChar), after.dropWhile isNameChar)
      else .error invalidFormat

theorem accumulate_concat (value prev : UInt32) (digits : Bytes) (d : UInt8) :
    accumulate value prev (digits ++ [d]) =
      ((accumulate value prev digits).1 * 10 + (d - 0x30).toUInt32,
        (accumulate value prev digits).1) := by
  induction digits generalizing value prev with
  | nil => rfl
  | cons c digits ih => exact ih _ _

theorem toUInt32_digit {i : ℕ} (h : i < 10) :
    (charByte i.digitChar - 0x30).toUInt32 = UInt32.ofNat i := by
  have htable : ∀ i < 10, (charByte i.digitChar - 0x30).toUInt32 = UInt32.ofNat i := by decide
  exact htable i h

theorem toNat_digit {i : ℕ} (h : i < 10) : (charByte i.digitChar - 0x30).toNat = i := by
  have htable : ∀ i < 10, (charByte i.digitChar - 0x30).toNat = i := by decide
  exact htable i h

/-- Both wrap. -/
theorem accumulate_decimal (n : ℕ) :
    accumulate 0 0 (decimal n) = (UInt32.ofNat n, UInt32.ofNat (n / 10)) := by
  induction n using Nat.strong_induction_on with
  | _ n ih =>
      rcases Nat.lt_or_ge n 10 with hlt | hle
      · rw [decimal_of_lt hlt, accumulate, accumulate, toUInt32_digit hlt, Nat.div_eq_of_lt hlt,
          UInt32.zero_mul, UInt32.zero_add]
        rfl
      · have hvalue : UInt32.ofNat (n / 10) * 10 + UInt32.ofNat (n % 10) = UInt32.ofNat n := by
          rw [show (10 : UInt32) = UInt32.ofNat 10 from rfl, ← UInt32.ofNat_mul,
            ← UInt32.ofNat_add, Nat.div_add_mod']
        rw [decimal_of_le hle, accumulate_concat, ih (n / 10) (by omega),
          toUInt32_digit (Nat.mod_lt n (by decide)), hvalue]

theorem getLast?_decimal (n : ℕ) :
    (decimal n).getLast? = some (charByte (n % 10).digitChar) := by
  rcases Nat.lt_or_ge n 10 with hlt | hle
  · rw [decimal_of_lt hlt, Nat.mod_eq_of_lt hlt]
    rfl
  · rw [decimal_of_le hle, List.getLast?_concat]

theorem isDigit_of_mem_decimal {n : ℕ} {c : UInt8} (hc : c ∈ decimal n) : isDigit c := by
  obtain ⟨hlow, hhigh⟩ := mem_decimal_bounds hc
  simpa [isDigit, UInt8.le_iff_toNat_le] using ⟨hlow, hhigh⟩

/-- What overflows is found by the number of digits and what stands before the last. -/
theorem parseNonnegativeInt_decimal (n : ℕ) {c : UInt8} (hc : ¬ isDigit c) (rest : Bytes) :
    parseNonnegativeInt (decimal n ++ c :: rest) =
      (if n ≤ intMax then some n else none, c :: rest) := by
  have htake : (decimal n ++ c :: rest).takeWhile isDigit = decimal n := by
    rw [List.takeWhile_append_of_pos fun _ => isDigit_of_mem_decimal,
      List.takeWhile_cons_of_neg hc, List.append_nil]
  have hdrop : (decimal n ++ c :: rest).dropWhile isDigit = c :: rest := by
    rw [List.dropWhile_append_of_pos fun _ => isDigit_of_mem_decimal,
      List.dropWhile_cons_of_neg hc]
  have hnine := @decimalLength_le_iff n 9 (by decide)
  have hten := @decimalLength_le_iff n 10 (by decide)
  rw [parseNonnegativeInt, htake, hdrop]
  simp only [accumulate_decimal, getLast?_decimal, Option.getD_some, length_decimal,
    toNat_digit (Nat.mod_lt n (show 10 > 0 by decide)), UInt32.toNat_ofNat']
  rw [Prod.mk.injEq]
  refine ⟨?_, rfl⟩
  -- with ten digits the number before the last has not wrapped, with more it is not looked at
  unfold intMax
  split_ifs <;> first | omega | exact congrArg some (by omega) | rfl

theorem decimal_cons (n : ℕ) : ∃ c after, decimal n = c :: after ∧ isDigit c := by
  have hpos := decimalLength_pos n
  cases hdecimal : decimal n with
  | nil => simp [← length_decimal, hdecimal] at hpos
  | cons c after => exact ⟨c, after, rfl, isDigit_of_mem_decimal (hdecimal ▸ List.mem_cons_self)⟩

theorem ne_of_isDigit {c d : UInt8} (hc : isDigit c) (hd : isDigit d = false) : c ≠ d := by
  rintro rfl
  rw [hc] at hd
  cases hd

/-- The index of a field, which stops at the largest `int`. -/
theorem parseIndex_decimal (n : ℕ) {c : UInt8} (hc : ¬ isDigit c) (rest : Bytes) :
    parseIndex (decimal n ++ c :: rest) = (min n intMax, c :: rest) := by
  rcases Nat.eq_zero_or_pos n with rfl | hpos
  · rfl
  · obtain ⟨d, ds, hdecimal, hd⟩ := decimal_of_pos hpos
    have hhead : (decimal n ++ c :: rest).head? ≠ some 0x30 := by
      rw [hdecimal]
      exact fun heq => hd (Option.some.inj heq)
    rw [parseIndex, if_neg hhead, parseNonnegativeInt_decimal n hc rest, min_def]
    dsimp only
    split_ifs <;> rfl

theorem map_eq_ok {ε α β : Type} {x : Except ε α} {f : α → β} {b : β} (hx : x.map f = .ok b) :
    ∃ a, x = .ok a ∧ f a = b := by
  cases x with
  | error e => cases hx
  | ok a => exact ⟨a, rfl, Except.ok.inj hx⟩

theorem bind_eq_ok {ε α β : Type} {x : Except ε α} {f : α → Except ε β} {b : β}
    (hx : x.bind f = .ok b) : ∃ a, x = .ok a ∧ f a = .ok b := by
  cases x with
  | error e => cases hx
  | ok a => exact ⟨a, rfl, hx⟩

theorem parseArgId_suffix {rest next : Bytes} {argId : ArgId}
    (hok : parseArgId rest = .ok (argId, next)) : next <:+ rest := by
  cases rest with
  | nil => cases hok
  | cons c after =>
      rw [parseArgId] at hok
      dsimp only at hok
      split_ifs at hok
      · obtain ⟨-, rfl⟩ := Prod.mk.inj (Except.ok.inj hok)
        exact List.suffix_rfl
      · obtain ⟨-, rfl⟩ := Prod.mk.inj (Except.ok.inj hok)
        rw [parseIndex]
        split_ifs
        · exact List.tail_suffix (c :: after)
        · exact List.dropWhile_suffix _
      · obtain ⟨-, rfl⟩ := Prod.mk.inj (Except.ok.inj hok)
        exact (List.dropWhile_suffix _).trans (List.suffix_cons c after)

namespace FormatHandler

variable {σ : Type} (h : FormatHandler σ)

/-! ## Replacement fields -/

/-- After the specifiers. -/
def closeField (s : σ) : Bytes → Except Bytes (σ × Bytes)
  | [] => .error unknownSpecifier
  | c :: after => if c = 0x7D then .ok (s, after) else .error unknownSpecifier

/-- After the argument id. -/
def afterArgId (s : σ) (id : ℕ) : Bytes → Except Bytes (σ × Bytes)
  | [] => .error missingBrace
  | c :: after =>
      if c = 0x7D then (h.onReplacementField s id).map fun s => (s, after)
      else if c = 0x3A then (h.onFormatSpecs s id after).bind fun p => closeField p.1 p.2
      else .error missingBrace

/-- `parse_replacement_field`, from the character after the brace. -/
def parseReplacementField (s : σ) : Bytes → Except Bytes (σ × Bytes)
  | [] => .error invalidFormat
  | c :: after =>
      if c = 0x7D then
        (h.onArgId s .auto).bind fun p =>
          (h.onReplacementField p.1 p.2).map fun s => (s, after)
      else if c = 0x7B then .ok (h.onText s [c], after)
      else
        (parseArgId (c :: after)).bind fun q =>
          (h.onArgId s q.1).bind fun p => h.afterArgId p.1 p.2 q.2

theorem closeField_eq_ok {s s' : σ} {next after : Bytes}
    (hok : closeField s next = .ok (s', after)) : s' = s ∧ next = 0x7D :: after := by
  cases next with
  | nil => cases hok
  | cons c next =>
      rw [closeField] at hok
      split_ifs at hok with hc
      obtain ⟨rfl, rfl⟩ := Prod.mk.inj (Except.ok.inj hok)
      exact ⟨rfl, by rw [hc]⟩

theorem afterArgId_suffix {s s' : σ} {id : ℕ} {next after : Bytes}
    (hok : h.afterArgId s id next = .ok (s', after)) : ∃ c, c :: after <:+ next := by
  cases next with
  | nil => cases hok
  | cons c next =>
      rw [afterArgId] at hok
      split_ifs at hok
      · obtain ⟨t, -, heq⟩ := map_eq_ok hok
        obtain ⟨-, rfl⟩ := Prod.mk.inj heq
        exact ⟨c, List.suffix_rfl⟩
      · obtain ⟨⟨t, rest⟩, hspecs, hend⟩ := bind_eq_ok hok
        obtain ⟨-, rfl⟩ := closeField_eq_ok hend
        exact ⟨0x7D, (h.specs_suffix _ _ _ _ _ hspecs).trans (List.suffix_cons c next)⟩

/-- What is left stands behind a character of the field. -/
theorem parseReplacementField_suffix {s s' : σ} {rest after : Bytes}
    (hok : h.parseReplacementField s rest = .ok (s', after)) : ∃ c, c :: after <:+ rest := by
  cases rest with
  | nil => cases hok
  | cons c rest =>
      rw [parseReplacementField] at hok
      split_ifs at hok
      · obtain ⟨p, -, hfield⟩ := bind_eq_ok hok
        obtain ⟨t, -, heq⟩ := map_eq_ok hfield
        obtain ⟨-, rfl⟩ := Prod.mk.inj heq
        exact ⟨c, List.suffix_rfl⟩
      · obtain ⟨-, rfl⟩ := Prod.mk.inj (Except.ok.inj hok)
        exact ⟨c, List.suffix_rfl⟩
      · obtain ⟨⟨argId, next⟩, hid, hfield⟩ := bind_eq_ok hok
        obtain ⟨p, -, hfield⟩ := bind_eq_ok hfield
        obtain ⟨d, hsuffix⟩ := h.afterArgId_suffix hfield
        exact ⟨d, hsuffix.trans (parseArgId_suffix hid)⟩

theorem parseReplacementField_length {s s' : σ} {rest after : Bytes}
    (hok : h.parseReplacementField s rest = .ok (s', after)) : after.length < rest.length := by
  obtain ⟨c, hsuffix⟩ := h.parseReplacementField_suffix hok
  exact hsuffix.length_le

/-! ## The loops -/

/-- One character after the other. -/
def scan (s : σ) : Bytes → Except Bytes σ
  | [] => .ok s
  | c :: after =>
      if c = 0x7B then
        match hfield : h.parseReplacementField s after with
        | .error message => .error message
        | .ok (s', next) =>
            have : next.length < after.length := h.parseReplacementField_length hfield
            scan s' next
      else if c = 0x7D then
        match after with
        | [] => .error unmatchedBrace
        | d :: next => if d = 0x7D then scan (h.onText s [c]) next else .error unmatchedBrace
      else scan (h.onText s [c]) after
termination_by rest => rest.length

/-- The loop for short strings.  `text` is what stands between `begin` and `p`. -/
def shortLoop (s : σ) (text : Bytes) : Bytes → Except Bytes σ
  | [] => .ok (h.onText s text)
  | c :: after =>
      if c = 0x7B then
        match hfield : h.parseReplacementField (h.onText s text) after with
        | .error message => .error message
        | .ok (s', next) =>
            have : next.length < after.length := h.parseReplacementField_length hfield
            shortLoop s' [] next
      else if c = 0x7D then
        match after with
        | [] => .error unmatchedBrace
        | d :: next =>
            if d = 0x7D then shortLoop (h.onText s (text ++ [c])) [] next
            else .error unmatchedBrace
      else shortLoop s (text ++ [c]) after
termination_by rest => rest.length

/-- The loop of `writer`, which searches for a closing brace. -/
def writeLoop (s : σ) (text : Bytes) : Except Bytes σ :=
  match hfind : find 0x7D text with
  | none => .ok (h.onText s text)
  | some (_, []) => .error unmatchedBrace
  | some (before, d :: next) =>
      have : next.length < text.length := by
        have hlt := find_length hfind
        rw [List.length_cons] at hlt
        omega
      if d = 0x7D then writeLoop (h.onText s (before ++ [0x7D])) next else .error unmatchedBrace
termination_by text.length

/-- `writer`. -/
def write (s : σ) (text : Bytes) : Except Bytes σ :=
  if text = [] then .ok s else h.writeLoop s text

/-- The loop for long strings, which searches for an opening brace. -/
def longLoop (s : σ) (rest : Bytes) : Except Bytes σ :=
  if rest = [] then .ok s
  else
    match hfind : find 0x7B rest with
    | none => h.write s rest
    | some (before, after) =>
        match h.write s before with
        | .error message => .error message
        | .ok s =>
            match hfield : h.parseReplacementField s after with
            | .error message => .error message
            | .ok (s', next) =>
                have : next.length < rest.length :=
                  (h.parseReplacementField_length hfield).trans (find_length hfind)
                longLoop s' next
termination_by rest.length

/-- `parse_format_string`. -/
def parseFormatString (s : σ) (formatStr : Bytes) : Except Bytes σ :=
  if formatStr.length < 32 then h.shortLoop s [] formatStr else h.longLoop s formatStr

/-! ## What `scan` does -/

theorem scan_nil (s : σ) : h.scan s [] = .ok s := by rw [scan]

theorem scan_field (s : σ) (after : Bytes) :
    h.scan s (0x7B :: after) =
      (h.parseReplacementField s after).bind fun p => h.scan p.1 p.2 := by
  rw [scan.eq_def]
  dsimp only
  rw [if_pos rfl]
  split
  · next message hfield => rw [hfield]; rfl
  · next s' next hfield => rw [hfield]; rfl

theorem scan_brace (s : σ) (next : Bytes) :
    h.scan s (0x7D :: 0x7D :: next) = h.scan (h.onText s [0x7D]) next := by
  rw [scan.eq_def]
  dsimp only
  rw [if_neg (by decide), if_pos rfl, if_pos rfl]

theorem scan_unmatched (s : σ) {after : Bytes} (hafter : after.head? ≠ some 0x7D) :
    h.scan s (0x7D :: after) = .error unmatchedBrace := by
  rw [scan.eq_def]
  dsimp only
  rw [if_neg (by decide), if_pos rfl]
  cases after with
  | nil => rfl
  | cons d next => exact if_neg fun hd => hafter (by rw [hd]; rfl)

theorem scan_char (s : σ) {c : UInt8} (hopen : c ≠ 0x7B) (hclose : c ≠ 0x7D) (after : Bytes) :
    h.scan s (c :: after) = h.scan (h.onText s [c]) after := by
  rw [scan.eq_def]
  dsimp only
  rw [if_neg hopen, if_neg hclose]

/-- A text without braces. -/
theorem scan_text (s : σ) {text : Bytes} (hopen : (0x7B : UInt8) ∉ text)
    (hclose : (0x7D : UInt8) ∉ text) (after : Bytes) :
    h.scan s (text ++ after) = h.scan (h.onText s text) after := by
  induction text generalizing s with
  | nil => rw [h.text_nil, List.nil_append]
  | cons c text ih =>
      rw [List.mem_cons, not_or] at hopen hclose
      rw [List.cons_append, h.scan_char s (Ne.symm hopen.1) (Ne.symm hclose.1),
        ih (h.onText s [c]) hopen.2 hclose.2, h.text_append]
      rfl

/-! ## The loops do what `scan` does -/

theorem shortLoop_eq_scan (s : σ) (text rest : Bytes) :
    h.shortLoop s text rest = h.scan (h.onText s text) rest := by
  fun_induction shortLoop h s text rest with
  | case1 s text => exact (h.scan_nil _).symm
  | case2 s text after message hfield =>
      rw [scan_field, hfield]
      rfl
  | case3 s text after s' next hfield hlt ih =>
      rw [ih, h.text_nil, scan_field, hfield]
      rfl
  | case4 s text hopen => exact (h.scan_unmatched _ (by simp)).symm
  | case5 s text next hopen ih =>
      rw [ih, h.text_nil, scan_brace, h.text_append]
  | case6 s text d next hd => exact (h.scan_unmatched _ (by simpa using hd)).symm
  | case7 s text c after hopen hclose ih =>
      -- the character goes to the text that is still to be told
      rw [ih, h.scan_char _ hopen hclose, h.text_append]

/-- `writer` takes a text without opening braces. -/
theorem scan_writeLoop (s : σ) {text : Bytes} (hopen : (0x7B : UInt8) ∉ text) {rest : Bytes}
    (hrest : rest.head? ≠ some 0x7D) :
    h.scan s (text ++ rest) = (h.writeLoop s text).bind fun s => h.scan s rest := by
  fun_induction writeLoop h s text with
  | case1 s text hfind =>
      exact h.scan_text s hopen (find_eq_none hfind) rest
  | case2 s text before hfind =>
      obtain ⟨rfl, hclose⟩ := find_eq_some hfind
      rw [List.mem_append, not_or] at hopen
      rw [List.append_assoc, h.scan_text s hopen.1 hclose]
      exact h.scan_unmatched _ hrest
  | case3 s text before next hfind hlt ih =>
      -- two closing braces: the text with the first of them is told, and the search goes on
      obtain ⟨rfl, hclose⟩ := find_eq_some hfind
      simp only [List.mem_append, List.mem_cons, not_or] at hopen
      rw [List.append_assoc, h.scan_text s hopen.1 hclose, ← ih hopen.2.2.2, ← h.text_append]
      exact h.scan_brace _ _
  | case4 s text before d next hfind hlt hd =>
      obtain ⟨rfl, hclose⟩ := find_eq_some hfind
      rw [List.mem_append, not_or] at hopen
      rw [List.append_assoc, h.scan_text s hopen.1 hclose]
      exact h.scan_unmatched _ (by simpa using hd)

theorem scan_write (s : σ) {text : Bytes} (hopen : (0x7B : UInt8) ∉ text) {rest : Bytes}
    (hrest : rest.head? ≠ some 0x7D) :
    h.scan s (text ++ rest) = (h.write s text).bind fun s => h.scan s rest := by
  rw [write]
  split_ifs with htext
  · rw [htext]
    rfl
  · exact h.scan_writeLoop s hopen hrest

theorem longLoop_eq_scan (s : σ) (rest : Bytes) : h.longLoop s rest = h.scan s rest := by
  fun_induction longLoop h s rest with
  | case1 s => exact (h.scan_nil s).symm
  | case2 s rest hne hfind =>
      -- no field any more, so that `writer` gets all that is left
      have hscan : h.scan s (rest ++ []) = (h.write s rest).bind fun s => h.scan s [] :=
        h.scan_write s (find_eq_none hfind) (by simp)
      rw [List.append_nil] at hscan
      rw [hscan]
      cases h.write s rest with
      | error message => rfl
      | ok s => exact (h.scan_nil s).symm
  | case3 s rest hne before after hfind message hwrite =>
      obtain ⟨rfl, hopen⟩ := find_eq_some hfind
      rw [h.scan_write s hopen (by simp), hwrite]
      rfl
  | case4 s rest hne before after hfind s' hwrite message hfield =>
      obtain ⟨rfl, hopen⟩ := find_eq_some hfind
      rw [h.scan_write s hopen (by simp), hwrite]
      refine ((h.scan_field s' after).trans ?_).symm
      rw [hfield]
      rfl
  | case5 s rest hne before after hfind s' hwrite s'' next hfield hlt ih =>
      obtain ⟨rfl, hopen⟩ := find_eq_some hfind
      rw [ih, h.scan_write s hopen (by simp), hwrite]
      calc h.scan s'' next
          = (h.parseReplacementField s' after).bind fun p => h.scan p.1 p.2 := by
            rw [hfield]
            rfl
        _ = h.scan s' (0x7B :: after) := (h.scan_field s' after).symm

theorem parseFormatString_eq_scan (s : σ) (formatStr : Bytes) :
    h.parseFormatString s formatStr = h.scan s formatStr := by
  rw [parseFormatString]
  split_ifs
  · rw [shortLoop_eq_scan, h.text_nil]
  · exact h.longLoop_eq_scan s formatStr

end FormatHandler

/-! ## Arguments -/

/-- The arguments of a call, each as `default_arg_formatter` writes it, and the ids of those
that have names. -/
structure FormatArgs where
  values : List Bytes
  namedArgs : List (Bytes × ℕ)

/-- The `parse_context` and the `context` of `format_handler`. -/
structure FormatContext where
  nextArgId : ℤ
  out : Bytes

/-- `parse_format_specs` with what writes the argument, which is not the place of this
module: it goes on where it has read to. -/
structure SpecsFormatter where
  format : FormatContext → ℕ → Bytes → Except Bytes (FormatContext × Bytes)
  suffix : ∀ ctx id rest ctx' rest', format ctx id rest = .ok (ctx', rest') → rest' <:+ rest

def argumentNotFound : Bytes := ascii "argument not found"

def manualToAutomatic : Bytes :=
  ascii "cannot switch from manual to automatic argument indexing"

def automaticToManual : Bytes :=
  ascii "cannot switch from automatic to manual argument indexing"

/-- `get_arg`. -/
def FormatArgs.getArg (args : FormatArgs) (id : ℕ) : Except Bytes Bytes :=
  match args.values[id]? with
  | none => .error argumentNotFound
  | some value => .ok value

/-- `get_id`. -/
def FormatArgs.getId (args : FormatArgs) (name : Bytes) : Except Bytes ℕ :=
  match args.namedArgs.find? fun arg => arg.1 = name with
  | none => .error argumentNotFound
  | some arg => .ok arg.2

namespace FormatContext

/-- `on_text`. -/
def onText (ctx : FormatContext) (text : Bytes) : FormatContext :=
  { ctx with out := ctx.out ++ text }

/-- `next_arg_id`. -/
def nextId (ctx : FormatContext) : Except Bytes (FormatContext × ℕ) :=
  if 0 ≤ ctx.nextArgId then
    .ok ({ ctx with nextArgId := ctx.nextArgId + 1 }, ctx.nextArgId.toNat)
  else .error manualToAutomatic

/-- `check_arg_id`. -/
def checkArgId (ctx : FormatContext) : Except Bytes FormatContext :=
  if 0 < ctx.nextArgId then .error automaticToManual else .ok { ctx with nextArgId := -1 }

/-- `on_arg_id`. -/
def onArgId (args : FormatArgs) (ctx : FormatContext) : ArgId → Except Bytes (FormatContext × ℕ)
  | .auto => ctx.nextId
  | .index id => ctx.checkArgId.map fun ctx => (ctx, id)
  | .name name => (args.getId name).map fun id => (ctx, id)

/-- `on_replacement_field`. -/
def onReplacementField (args : FormatArgs) (ctx : FormatContext) (id : ℕ) :
    Except Bytes FormatContext :=
  (args.getArg id).map ctx.onText

end FormatContext

/-- `format_handler`. -/
def formatHandler (args : FormatArgs) (specs : SpecsFormatter) : FormatHandler FormatContext where
  onText := FormatContext.onText
  onArgId := FormatContext.onArgId args
  onReplacementField := FormatContext.onReplacementField args
  onFormatSpecs ctx id rest := (args.getArg id).bind fun _ => specs.format ctx id rest
  text_nil ctx := by rw [FormatContext.onText, List.append_nil]
  text_append ctx first second := by
    rw [FormatContext.onText, FormatContext.onText, FormatContext.onText, List.append_assoc]
  specs_suffix ctx id rest ctx' rest' hok := by
    obtain ⟨_, -, hok⟩ := bind_eq_ok hok
    exact specs.suffix _ _ _ _ _ hok

/-- `vformat_to`, which does not parse an empty field that stands alone. -/
def vformatTo (args : FormatArgs) (specs : SpecsFormatter) (out fmt : Bytes) :
    Except Bytes Bytes :=
  if fmt = [0x7B, 0x7D] then (args.getArg 0).map fun value => out ++ value
  else ((formatHandler args specs).parseFormatString ⟨0, out⟩ fmt).map FormatContext.out

/-! ## The ways agree -/

section Agree

variable (args : FormatArgs) (specs : SpecsFormatter)

theorem vformatTo_eq_scan (out fmt : Bytes) :
    vformatTo args specs out fmt =
      ((formatHandler args specs).scan ⟨0, out⟩ fmt).map FormatContext.out := by
  rw [vformatTo]
  split_ifs with hfmt
  · -- what the loop would do with the field that is not parsed
    have hscan : (formatHandler args specs).scan ⟨0, out⟩ [0x7B, 0x7D] =
        (args.getArg 0).bind fun value =>
          (formatHandler args specs).scan ⟨1, out ++ value⟩ [] := by
      rw [FormatHandler.scan_field]
      change (((args.getArg 0).map (FormatContext.onText ⟨1, out⟩)).map _).bind _ = _
      cases args.getArg 0 <;> rfl
    rw [hfmt, hscan]
    cases args.getArg 0 with
    | error message => rfl
    | ok value =>
        have hend := FormatHandler.scan_nil (formatHandler args specs) ⟨1, out ++ value⟩
        exact (congrArg (Except.map FormatContext.out) hend).symm
  · rw [FormatHandler.parseFormatString_eq_scan]

/-- Each of the two loops alone would do for every string, the one that is not parsed and
those that the other one reads included. -/
theorem vformat_paths_agree (out fmt : Bytes) :
    vformatTo args specs out fmt =
        ((formatHandler args specs).shortLoop ⟨0, out⟩ [] fmt).map FormatContext.out ∧
      vformatTo args specs out fmt =
        ((formatHandler args specs).longLoop ⟨0, out⟩ fmt).map FormatContext.out := by
  rw [vformatTo_eq_scan, FormatHandler.shortLoop_eq_scan, FormatHandler.longLoop_eq_scan,
    FormatHandler.text_nil]
  exact ⟨rfl, rfl⟩

end Agree

end Structlog.Fmt
