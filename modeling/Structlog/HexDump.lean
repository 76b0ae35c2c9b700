import Mathlib.Data.List.GetD
import Mathlib.Data.Nat.Digits.Defs
import Structlog.Lib.Bytes

/-!
# Hex dumps

The formatter for what `to_hex` returns.  One loop writes all of the bytes; it breaks the line
before a byte that is a line's size behind the first one of the line, and on that occasion it
adds the characters of the line that ends.  Those of the last line are added after the loop.

The size comes as a `size_t` and is made an `int` before it is compared with the difference of
two iterators.  There is a second line exactly if that `int` is less than the number of bytes
(`formatLoop_breaks`).
-/

namespace Structlog

open Lib

def newline : UInt8 := charByte '\n'

/-- `static_cast<int>` of a `size_t`. -/
def staticCastInt (n : ℕ) : ℤ :=
  if n % 2 ^ 32 < 2 ^ 31 then n % 2 ^ 32 else n % 2 ^ 32 - 2 ^ 32

/-- `formatter<dump_info>`. -/
structure HexFormatter where
  putNewlines : Bool
  putDelimiters : Bool
  useUppercase : Bool
  /-- Position on start of each line. -/
  putPositions : Bool
  showAscii : Bool
  deriving DecidableEq

namespace HexFormatter

def initial : HexFormatter := ⟨true, true, false, true, false⟩

/-- The `switch` of `parse`. -/
def parseFlag (f : HexFormatter) (flag : UInt8) : HexFormatter :=
  if flag = charByte 'X' then { f with useUppercase := true }
  else if flag = charByte 's' then { f with putDelimiters := false }
  else if flag = charByte 'p' then { f with putPositions := false }
  else if flag = charByte 'n' then { f with putNewlines := false, showAscii := false }
  else if flag = charByte 'a' then if f.putNewlines then { f with showAscii := true } else f
  else f

/-- `parse`, up to the end of the context or a closing brace. -/
def parse : Bytes → HexFormatter → HexFormatter
  | [], f => f
  | flag :: rest, f => if flag = charByte '}' then f else parse rest (f.parseFlag flag)

def delimiter : UInt8 := charByte ' '

def hexUpper : Bytes := ascii "0123456789ABCDEF"

def hexLower : Bytes := ascii "0123456789abcdef"

def hexChars (f : HexFormatter) : Bytes := if f.useUppercase then hexUpper else hexLower

/-- `hex_chars[(ch >> 4) & 0x0f]` and `hex_chars[ch & 0x0f]`. -/
def hex (f : HexFormatter) (ch : UInt8) : Bytes :=
  [f.hexChars.getD (ch >>> 4 &&& 0x0f).toNat 0, f.hexChars.getD (ch &&& 0x0f).toNat 0]

/-- `std::isprint`. -/
def isPrint (pc : UInt8) : Bool := 0x20 ≤ pc && pc ≤ 0x7e

/-- A byte as it is shown in the ASCII column. -/
def shown (ch : UInt8) : UInt8 := if isPrint ch then ch else charByte '.'

/-- `{:04X}`. -/
def position (pos : ℕ) : Bytes :=
  ((Nat.digits 16 pos).reverse.map fun d => hexUpper.getD d 0).leftpad 4 (charByte '0')

/-- What `put_newline` writes behind the newline. -/
def header (f : HexFormatter) (pos : ℕ) : Bytes :=
  if f.putPositions then position pos ++ ascii ": " else []

/-- `put_newline`. -/
def putNewline (f : HexFormatter) (pos : ℕ) (out : Bytes) : Bytes :=
  out ++ newline :: f.header pos

/-- What is put before a byte that is not the first of its line. -/
def separator (f : HexFormatter) : Bytes := if f.putDelimiters then [delimiter] else []

/-- The characters from `startOfLine` to `i`, with what is put before them. -/
def asciiColumn (data : Bytes) (startOfLine i : ℕ) : Bytes :=
  [delimiter, delimiter] ++ ((data.take i).drop startOfLine).map shown

/-- The end of a line, if there is one, and the start of the next. -/
def breakLine (f : HexFormatter) (data : Bytes) (startOfLine i : ℕ) (out : Bytes) : Bytes :=
  f.putNewline i
    (if f.showAscii ∧ i ≠ 0 then out ++ asciiColumn data startOfLine i else out)

/-- The loop of `format`, with the bytes from `i` on. -/
def formatLoop (f : HexFormatter) (sizePerLine : ℤ) (data : Bytes) :
    Bytes → ℕ → ℕ → Bytes → Bytes × ℕ
  | [], _, startOfLine, out => (out, startOfLine)
  | ch :: rest, i, startOfLine, out =>
      if f.putNewlines ∧ (i = 0 ∨ sizePerLine ≤ (i : ℤ) - startOfLine) then
        -- The first byte of a line has no delimiter in front of it.
        formatLoop f sizePerLine data rest (i + 1) i
          (f.breakLine data startOfLine i out ++ f.hex ch)
      else
        formatLoop f sizePerLine data rest (i + 1) startOfLine (out ++ f.separator ++ f.hex ch)

/-- The blanks in place of the bytes that the last line does not have. -/
def blanks (f : HexFormatter) (sizePerLine : ℤ) (length startOfLine : ℕ) : Bytes :=
  if sizePerLine < length then
    (List.replicate (sizePerLine - (length - startOfLine)).toNat
      ([delimiter, delimiter] ++ f.separator)).flatten
  else []

/-- `format`. -/
def format (f : HexFormatter) (sizePerLine : ℕ) (data : Bytes) : Bytes :=
  let size := staticCastInt sizePerLine
  let (out, startOfLine) := f.formatLoop size data data 0 0 []
  if f.showAscii then -- add ascii to last line
    out ++ f.blanks size data.length startOfLine ++ asciiColumn data startOfLine data.length
  else out

/-! ## Flags -/

theorem parse_cons {flag : UInt8} {spec : Bytes} (h : charByte '}' ∉ flag :: spec)
    (f : HexFormatter) : parse (flag :: spec) f = parse spec (f.parseFlag flag) := by
  rw [parse, if_neg]
  rintro rfl
  exact h List.mem_cons_self

theorem parseFlag_putNewlines (f : HexFormatter) (flag : UInt8) :
    (f.parseFlag flag).putNewlines = true ↔ f.putNewlines = true ∧ flag ≠ charByte 'n' := by
  unfold parseFlag
  split_ifs with hX hs hp hn ha hput
  · exact (and_iff_left (hX ▸ by decide)).symm
  · exact (and_iff_left (hs ▸ by decide)).symm
  · exact (and_iff_left (hp ▸ by decide)).symm
  · exact iff_of_false not_false fun h => h.2 hn
  all_goals exact (and_iff_left hn).symm

theorem parseFlag_putPositions (f : HexFormatter) (flag : UInt8) :
    (f.parseFlag flag).putPositions = true ↔ f.putPositions = true ∧ flag ≠ charByte 'p' := by
  unfold parseFlag
  split_ifs with hX hs hp hn ha hput
  · exact (and_iff_left (hX ▸ by decide)).symm
  · exact (and_iff_left (hs ▸ by decide)).symm
  · exact iff_of_false not_false fun h => h.2 hp
  all_goals exact (and_iff_left hp).symm

/-- ASCII is shown after an `a`, unless there is an `n` before or behind it. -/
theorem parseFlag_showAscii (f : HexFormatter) (flag : UInt8) :
    (f.parseFlag flag).showAscii = true ↔
      (f.showAscii = true ∨ f.putNewlines = true ∧ flag = charByte 'a') ∧
        flag ≠ charByte 'n' := by
  have hkept {flag : UInt8} (ha : flag ≠ charByte 'a') (hn : flag ≠ charByte 'n') :
      f.showAscii = true ↔
        (f.showAscii = true ∨ f.putNewlines = true ∧ flag = charByte 'a') ∧
          flag ≠ charByte 'n' := by
    rw [and_iff_left hn, or_iff_left fun h => ha h.2]
  unfold parseFlag
  split_ifs with hX hs hp hn ha hput
  · exact hX ▸ hkept (by decide) (by decide)
  · exact hs ▸ hkept (by decide) (by decide)
  · exact hp ▸ hkept (by decide) (by decide)
  · exact iff_of_false not_false fun h => h.2 hn
  · exact iff_of_true rfl ⟨.inr ⟨hput, ha⟩, hn⟩
  · rw [and_iff_left hn, or_iff_left fun h => hput h.1]
  · exact hkept ha hn

theorem parse_putNewlines {spec : Bytes} (h : charByte '}' ∉ spec) (f : HexFormatter) :
    (parse spec f).putNewlines = true ↔ f.putNewlines = true ∧ charByte 'n' ∉ spec := by
  induction spec generalizing f with
  | nil => exact (and_iff_left List.not_mem_nil).symm
  | cons flag rest ih =>
      rw [parse_cons h, ih (List.not_mem_of_not_mem_cons h), parseFlag_putNewlines, List.mem_cons,
        not_or, and_assoc, ne_comm]

theorem parse_putPositions {spec : Bytes} (h : charByte '}' ∉ spec) (f : HexFormatter) :
    (parse spec f).putPositions = true ↔ f.putPositions = true ∧ charByte 'p' ∉ spec := by
  induction spec generalizing f with
  | nil => exact (and_iff_left List.not_mem_nil).symm
  | cons flag rest ih =>
      rw [parse_cons h, ih (List.not_mem_of_not_mem_cons h), parseFlag_putPositions, List.mem_cons,
        not_or, and_assoc, ne_comm]

theorem parse_showAscii {spec : Bytes} (h : charByte '}' ∉ spec) (f : HexFormatter) :
    (parse spec f).showAscii = true ↔
      (f.showAscii = true ∨ f.putNewlines = true ∧ charByte 'a' ∈ spec) ∧ charByte 'n' ∉ spec := by
  induction spec generalizing f with
  | nil =>
      rw [and_iff_left List.not_mem_nil, or_iff_left fun h => List.not_mem_nil h.2]
      rfl
  | cons flag rest ih =>
      rw [parse_cons h, ih (List.not_mem_of_not_mem_cons h), parseFlag_showAscii,
        parseFlag_putNewlines, List.mem_cons, List.mem_cons, not_or, eq_comm (a := flag),
        ne_comm (a := flag), ne_eq]
      tauto

/-! ## Newlines -/

/-- A digit, or zero for what is none. -/
theorem hexUpper_getD_ne {c : UInt8} (hc : c ∉ hexUpper) (hzero : c ≠ 0) (d : ℕ) :
    hexUpper.getD d 0 ≠ c := by
  rw [List.getD_eq_getElem?_getD]
  cases hd : hexUpper[d]? with
  | none => exact hzero.symm
  | some digit =>
      rintro rfl
      exact hc (List.mem_of_getElem? hd)

theorem hexChars_ne (f : HexFormatter) {c : UInt8} (hc : c ∉ hexUpper) (hc' : c ∉ hexLower)
    (hzero : c ≠ 0) (d : ℕ) : f.hexChars.getD d 0 ≠ c := by
  unfold hexChars
  split_ifs
  · exact hexUpper_getD_ne hc hzero d
  · rw [List.getD_eq_getElem?_getD]
    cases hd : hexLower[d]? with
    | none => exact hzero.symm
    | some digit =>
        rintro rfl
        exact hc' (List.mem_of_getElem? hd)

theorem newline_not_mem_hex (f : HexFormatter) (ch : UInt8) : newline ∉ f.hex ch := by
  have hdigit := f.hexChars_ne (c := newline) (by decide) (by decide) (by decide)
  rw [hex, List.mem_cons, List.mem_singleton, not_or]
  exact ⟨(hdigit _).symm, (hdigit _).symm⟩

theorem newline_not_mem_separator (f : HexFormatter) : newline ∉ f.separator := by
  unfold separator
  split_ifs <;> decide

theorem mem_hexUpper_of_mem_position {pos : ℕ} {c : UInt8} (hc : c ∈ position pos) :
    c ∈ hexUpper := by
  rw [position, List.leftpad, List.mem_append] at hc
  rcases hc with hpad | hdigit
  · rw [List.eq_of_mem_replicate hpad]
    decide
  · obtain ⟨d, hd, rfl⟩ := List.mem_map.mp hdigit
    have hlt : d < hexUpper.length := Nat.digits_lt_base (by decide) (List.mem_reverse.mp hd)
    rw [List.getD_eq_getElem _ _ hlt]
    exact List.getElem_mem hlt

theorem newline_not_mem_header (f : HexFormatter) (pos : ℕ) : newline ∉ f.header pos := by
  unfold header
  split_ifs
  · exact List.not_mem_append (fun hmem => absurd (mem_hexUpper_of_mem_position hmem) (by decide))
      (by decide)
  · exact List.not_mem_nil

theorem shown_ne_newline (ch : UInt8) : shown ch ≠ newline := by
  unfold shown
  split_ifs with hprint
  · rintro rfl
    exact absurd hprint (by decide)
  · decide

theorem newline_not_mem_asciiColumn (data : Bytes) (startOfLine i : ℕ) :
    newline ∉ asciiColumn data startOfLine i := by
  refine List.not_mem_append (by decide) fun hmem => ?_
  obtain ⟨ch, -, hch⟩ := List.mem_map.mp hmem
  exact shown_ne_newline ch hch

theorem newline_not_mem_blanks (f : HexFormatter) (sizePerLine : ℤ) (length startOfLine : ℕ) :
    newline ∉ f.blanks sizePerLine length startOfLine := by
  unfold blanks
  split_ifs
  · intro hmem
    obtain ⟨blank, hblank, hmem⟩ := List.mem_flatten.mp hmem
    rw [List.eq_of_mem_replicate hblank] at hmem
    exact List.not_mem_append (by decide) (newline_not_mem_separator f) hmem
  · exact List.not_mem_nil

/-- A byte in the line that has been started. -/
theorem count_newline_byte (f : HexFormatter) (ch : UInt8) (out : Bytes) :
    (out ++ f.separator ++ f.hex ch).count newline = out.count newline := by
  rw [List.count_append, List.count_append,
    List.count_eq_zero_of_not_mem (newline_not_mem_separator f),
    List.count_eq_zero_of_not_mem (newline_not_mem_hex f ch), Nat.add_zero]

/-- A byte in a new line. -/
theorem count_newline_break (f : HexFormatter) (ch : UInt8) (data out : Bytes) (startOfLine i : ℕ) :
    (f.breakLine data startOfLine i out ++ f.hex ch).count newline = out.count newline + 1 := by
  have hcolumn : (if f.showAscii ∧ i ≠ 0 then out ++ asciiColumn data startOfLine i
      else out).count newline = out.count newline := by
    split_ifs
    · rw [List.count_append, List.count_eq_zero_of_not_mem (newline_not_mem_asciiColumn _ _ _),
        Nat.add_zero]
    · rfl
  rw [breakLine, putNewline, List.count_append, List.count_append, hcolumn, List.count_cons_self,
    List.count_eq_zero_of_not_mem (newline_not_mem_header f i),
    List.count_eq_zero_of_not_mem (newline_not_mem_hex f ch)]

section

variable (f : HexFormatter) (sizePerLine : ℤ) (data : Bytes)

theorem count_le_formatLoop (rest : Bytes) (i startOfLine : ℕ) (out : Bytes) :
    out.count newline ≤ (f.formatLoop sizePerLine data rest i startOfLine out).1.count newline := by
  induction rest generalizing i startOfLine out with
  | nil => exact le_rfl
  | cons ch rest ih =>
      rw [formatLoop]
      split_ifs with hbreak
      · exact (Nat.le_succ _).trans ((count_newline_break f ch data out startOfLine i).ge.trans
          (ih _ _ _))
      · exact (count_newline_byte f ch out).ge.trans (ih _ _ _)

variable {f}

/-- Behind the first byte, the loop breaks the line exactly if there are more bytes to come than
the size allows. -/
theorem formatLoop_breaks (hput : f.putNewlines = true) {rest : Bytes} (hrest : rest ≠ []) {i : ℕ}
    (hi : i ≠ 0) (startOfLine : ℕ) (out : Bytes) :
    (f.formatLoop sizePerLine data rest i startOfLine out).1.count newline = out.count newline ↔
      (i : ℤ) + rest.length - startOfLine ≤ sizePerLine := by
  induction rest generalizing i out with
  | nil => exact absurd rfl hrest
  | cons ch rest ih =>
      rw [formatLoop, List.length_cons]
      push_cast
      split_ifs with hbreak
      · have hmore := count_le_formatLoop f sizePerLine data rest (i + 1) i
          (f.breakLine data startOfLine i out ++ f.hex ch)
        rw [count_newline_break] at hmore
        have hsize := hbreak.2.resolve_left hi
        exact iff_of_false (by omega) (by omega)
      · have hsize : (i : ℤ) - startOfLine < sizePerLine := by
          by_contra hsize
          exact hbreak ⟨hput, .inr (by omega)⟩
        have hbyte := count_newline_byte f ch out
        rcases eq_or_ne rest [] with rfl | hrest
        · refine iff_of_true hbyte ?_
          rw [List.length_nil]
          omega
        · rw [← hbyte, ih hrest (Nat.succ_ne_zero i)]
          omega

end

theorem staticCastInt_ge_iff {n : ℕ} (hn : 0 < n) (size : ℕ) :
    (n : ℤ) ≤ staticCastInt size ↔ size % 2 ^ 32 < 2 ^ 31 ∧ n ≤ size % 2 ^ 32 := by
  unfold staticCastInt
  split_ifs <;> omega

/-- Without `n`, the bytes are on one line exactly if there is one byte only, or the size of a line
is as large as their number when it has been made an `int`. -/
theorem one_dump_line_iff {spec : Bytes} (hspec : charByte '}' ∉ spec)
    (hn : charByte 'n' ∉ spec) {data : Bytes} (hdata : data ≠ []) (sizePerLine : ℕ) :
    ((parse spec initial).format sizePerLine data).count newline = 1 ↔
      data.length = 1 ∨ sizePerLine % 2 ^ 32 < 2 ^ 31 ∧ data.length ≤ sizePerLine % 2 ^ 32 := by
  have hput : (parse spec initial).putNewlines = true :=
    (parse_putNewlines hspec initial).mpr ⟨rfl, hn⟩
  generalize parse spec initial = f at hput ⊢
  have hcount : (f.format sizePerLine data).count newline =
      (f.formatLoop (staticCastInt sizePerLine) data data 0 0 []).1.count newline := by
    rw [format]
    dsimp only
    split_ifs
    · rw [List.count_append, List.count_append,
        List.count_eq_zero_of_not_mem (newline_not_mem_blanks _ _ _ _),
        List.count_eq_zero_of_not_mem (newline_not_mem_asciiColumn _ _ _), Nat.add_zero]
    · rfl
  have hpos := List.length_pos_iff.mpr hdata
  rw [hcount, ← staticCastInt_ge_iff hpos]
  obtain ⟨ch, rest, rfl⟩ := List.exists_cons_of_ne_nil hdata
  have hfirst := count_newline_break f ch (ch :: rest) [] 0 0
  rw [List.count_nil, Nat.zero_add] at hfirst
  rw [formatLoop, if_pos ⟨hput, .inl rfl⟩]
  rcases eq_or_ne rest [] with rfl | hrest
  · exact iff_of_true hfirst (.inl rfl)
  · have hmore := List.length_pos_iff.mpr hrest
    have hbreaks := formatLoop_breaks (staticCastInt sizePerLine) (ch :: rest) hput hrest
      Nat.one_ne_zero 0 (f.breakLine (ch :: rest) 0 0 [] ++ f.hex ch)
    rw [hfirst] at hbreaks
    rw [hbreaks, List.length_cons]
    push_cast
    omega

theorem one_dump_line_three :
    ((parse (ascii "Xsa") initial).format 8 (ascii "abc")).count newline = 1 :=
  (one_dump_line_iff (by decide) (by decide) (by decide) 8).mpr (by decide)

/-- The largest size there is makes a line of each byte, and so do sizes that are zero or
negative as an `int`. -/
theorem two_dump_lines :
    (parse [] initial).format (2 ^ 64 - 1) (ascii "ab") = ascii "\n0000: 61\n0001: 62" ∧
      ((parse [] initial).format (2 ^ 64 - 1) (ascii "ab")).count newline = 2 ∧
      ((parse [] initial).format (2 ^ 32) (ascii "ab")).count newline = 2 ∧
      ((parse [] initial).format (2 ^ 31) (ascii "ab")).count newline = 2 := by
  decide

end HexFormatter

end Structlog
