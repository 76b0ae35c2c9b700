import Mathlib.Data.Nat.Digits.Lemmas
import Structlog.HexDump

/-!
# The lines of a hex dump

`line` is a line as it should be, with its header, its bytes and its characters, and the dump is
these lines one after the other (`format_eq_lines`).  The loop adds the characters of a line when
it starts the next one, and the code behind the loop those of the last line, with blanks in front
of them; with all of its bytes, a line needs no blanks, so that both are one case here
(`formatLoop_lines`).

A reader of dumps knows whether there are headers, and nothing of sizes and flags.  Two delimiters
lead it to what is not hex in a line.
-/

namespace Structlog

open Lib

namespace HexFormatter

/-! ## Lines -/

/-- The hex digits of the bytes of a line. -/
def lineHex (f : HexFormatter) : Bytes → Bytes
  | [] => []
  | ch :: rest => f.hex ch ++ rest.flatMap fun ch => f.separator ++ f.hex ch

/-- What a line has behind the digits. -/
def lineEnd (f : HexFormatter) (size length : ℕ) (chunk : Bytes) : Bytes :=
  if f.showAscii then
    (if size < length then
      (List.replicate (size - chunk.length) ([delimiter, delimiter] ++ f.separator)).flatten
    else []) ++ ([delimiter, delimiter] ++ chunk.map shown)
  else []

def line (f : HexFormatter) (size length pos : ℕ) (chunk : Bytes) : Bytes :=
  f.header pos ++ f.lineHex chunk ++ f.lineEnd size length chunk

/-- The bytes of a line. -/
def chunk (size : ℕ) (data : Bytes) (k : ℕ) : Bytes := (data.drop (k * size)).take size

/-- The lines of a dump from `first` on. -/
def linesFrom (f : HexFormatter) (size : ℕ) (data : Bytes) (first count : ℕ) : List Bytes :=
  (List.range' first count).map fun k => f.line size data.length (k * size) (chunk size data k)

/-! ## The loop -/

/-- The code behind the loop. -/
def finish (f : HexFormatter) (size : ℤ) (data : Bytes) (r : Bytes × ℕ) : Bytes :=
  if f.showAscii then r.1 ++ f.blanks size data.length r.2 ++ asciiColumn data r.2 data.length
  else r.1

/-- Bytes for which the line is not broken. -/
theorem formatLoop_append (f : HexFormatter) (size : ℤ) (data bytes rest : Bytes)
    (i startOfLine : ℕ) (out : Bytes)
    (h : f.putNewlines = true → i ≠ 0 ∧ (i : ℤ) + bytes.length - startOfLine ≤ size) :
    f.formatLoop size data (bytes ++ rest) i startOfLine out =
      f.formatLoop size data rest (i + bytes.length) startOfLine
        (out ++ bytes.flatMap fun ch => f.separator ++ f.hex ch) := by
  induction bytes generalizing i out with
  | nil => rw [List.flatMap_nil, List.append_nil, List.nil_append, List.length_nil, Nat.add_zero]
  | cons ch bytes ih =>
      rw [List.length_cons] at h ⊢
      push_cast at h
      rw [List.cons_append, formatLoop, if_neg, ih]
      · rw [List.flatMap_cons, List.append_assoc, List.append_assoc, List.append_assoc,
          Nat.add_assoc, Nat.add_comm 1]
      · intro hput
        have hline := (h hput).2
        refine ⟨Nat.succ_ne_zero i, ?_⟩
        push_cast
        omega
      · rintro ⟨hput, hbreak⟩
        obtain ⟨hi, hline⟩ := h hput
        have hsize := hbreak.resolve_left hi
        omega

/-- A line that is started. -/
theorem formatLoop_break {f : HexFormatter} (hput : f.putNewlines = true) {size : ℕ}
    (hsize : 0 < size) (data : Bytes) {rest : Bytes} (hrest : rest ≠ []) {i startOfLine : ℕ}
    (hbreak : i = 0 ∨ (size : ℤ) ≤ (i : ℤ) - startOfLine) (out : Bytes) :
    f.formatLoop size data rest i startOfLine out =
      f.formatLoop size data (rest.drop size) (i + (rest.take size).length) i
        (f.breakLine data startOfLine i out ++ f.lineHex (rest.take size)) := by
  obtain ⟨ch, rest, rfl⟩ := List.exists_cons_of_ne_nil hrest
  obtain ⟨size, rfl⟩ := Nat.exists_eq_add_one.mpr hsize
  rw [formatLoop, if_pos ⟨hput, hbreak⟩, List.drop_succ_cons, List.take_succ_cons, lineHex,
    List.length_cons]
  have happend := formatLoop_append f (size + 1 : ℕ) data (rest.take size) (rest.drop size)
    (i + 1) i (f.breakLine data startOfLine i out ++ f.hex ch)
  rw [List.take_append_drop] at happend
  rw [happend, Nat.add_assoc, Nat.add_comm 1, List.append_assoc]
  intro _
  refine ⟨Nat.succ_ne_zero i, ?_⟩
  have hle := List.length_take_le size rest
  push_cast
  omega

theorem linesFrom_succ (f : HexFormatter) (size : ℕ) (data : Bytes) (first count : ℕ) :
    f.linesFrom size data first (count + 1) =
      f.line size data.length (first * size) (chunk size data first) ::
        f.linesFrom size data (first + 1) count := rfl

theorem length_chunk (size : ℕ) (data : Bytes) (k : ℕ) :
    (chunk size data k).length = min size (data.length - k * size) := by
  rw [chunk, List.length_take, List.length_drop]

/-- The characters of a line with all of its bytes. -/
theorem lineEnd_full {f : HexFormatter} {size : ℕ} {data : Bytes} {k : ℕ}
    (h : (k + 1) * size ≤ data.length) :
    f.lineEnd size data.length (chunk size data k) =
      if f.showAscii then asciiColumn data (k * size) ((k + 1) * size) else [] := by
  have hlength : size - (chunk size data k).length = 0 := by
    rw [length_chunk]
    rw [Nat.succ_mul] at h
    omega
  have hcolumn : (data.take ((k + 1) * size)).drop (k * size) = chunk size data k := by
    rw [List.drop_take, Nat.succ_mul, Nat.add_sub_cancel_left, chunk]
  rw [lineEnd, hlength, asciiColumn, hcolumn]
  congr 1
  split_ifs <;> rfl

/-- The characters of the last line. -/
theorem lineEnd_last {f : HexFormatter} {size : ℕ} {data : Bytes} {k : ℕ}
    (hk : k * size ≤ data.length) (h : data.length ≤ (k + 1) * size) (out : Bytes) :
    f.finish size data (out, k * size) =
      out ++ f.lineEnd size data.length (chunk size data k) := by
  have hchunk : data.drop (k * size) = chunk size data k := by
    rw [chunk, List.take_of_length_le]
    rw [List.length_drop]
    rw [Nat.succ_mul] at h
    omega
  have hblanks : ((size : ℤ) - ((data.length : ℤ) - (k * size : ℕ))).toNat =
      size - (chunk size data k).length := by
    rw [← hchunk, List.length_drop]
    omega
  rw [finish, lineEnd, blanks, asciiColumn, List.take_length, hchunk, hblanks]
  split_ifs <;> simp_all

/-- Behind the bytes of a line, its characters and the lines behind it are to come. -/
theorem formatLoop_lines {f : HexFormatter} (hput : f.putNewlines = true) {size : ℕ}
    (hsize : 0 < size) {data : Bytes} {k count : ℕ} (hk : k * size < data.length)
    (hlow : (k + count) * size < data.length) (hhigh : data.length ≤ (k + count + 1) * size)
    (out : Bytes) :
    f.finish size data (f.formatLoop size data (data.drop ((k + 1) * size))
        (k * size + (chunk size data k).length) (k * size) out) =
      out ++ f.lineEnd size data.length (chunk size data k) ++
        (f.linesFrom size data (k + 1) count).flatMap (newline :: ·) := by
  induction count generalizing k out with
  | zero =>
      rw [List.drop_of_length_le hhigh, formatLoop, lineEnd_last hk.le hhigh]
      exact (List.append_nil _).symm
  | succ count ih =>
      have hmore : (k + 1) * size < data.length := by
        have := Nat.mul_le_mul_right size (show k + 1 ≤ k + (count + 1) by omega)
        omega
      have hrest : data.drop ((k + 1) * size) ≠ [] := by
        rw [ne_eq, List.drop_eq_nil_iff]
        omega
      have hpos : k * size + (chunk size data k).length = (k + 1) * size := by
        rw [length_chunk]
        rw [Nat.succ_mul] at hmore ⊢
        omega
      -- so the next byte starts a line
      have hbreak : (size : ℤ) ≤ ((k + 1) * size : ℕ) - (k * size : ℕ) := by
        rw [Nat.succ_mul]
        push_cast
        omega
      have hfirst : (k + 1) * size ≠ 0 := Nat.mul_ne_zero (Nat.succ_ne_zero k) hsize.ne'
      have hnext : (data.drop ((k + 1) * size)).drop size = data.drop ((k + 1 + 1) * size) := by
        rw [List.drop_drop, Nat.succ_mul (k + 1)]
      have hchunk : (data.drop ((k + 1) * size)).take size = chunk size data (k + 1) := rfl
      have hstart : f.breakLine data (k * size) ((k + 1) * size) out =
          out ++ f.lineEnd size data.length (chunk size data k) ++
            newline :: f.header ((k + 1) * size) := by
        rw [breakLine, lineEnd_full hmore.le, putNewline]
        congr 1
        by_cases hshow : f.showAscii = true
        · rw [if_pos ⟨hshow, hfirst⟩, if_pos hshow]
        · rw [if_neg fun h => hshow h.1, if_neg hshow, List.append_nil]
      have hlow' : (k + 1 + count) * size < data.length := by
        rwa [Nat.add_assoc, Nat.add_comm 1]
      have hhigh' : data.length ≤ (k + 1 + count + 1) * size := by
        rwa [Nat.add_assoc k, Nat.add_comm 1]
      rw [hpos, formatLoop_break hput hsize data hrest (.inr hbreak), hnext, hchunk,
        ih hmore hlow' hhigh', hstart, linesFrom_succ, List.flatMap_cons, line]
      simp only [List.append_assoc, List.cons_append]

theorem staticCastInt_of_lt {size : ℕ} (h : size < 2 ^ 31) : staticCastInt size = size := by
  unfold staticCastInt
  rw [Nat.mod_eq_of_lt (by omega), if_pos h]
  omega

/-- The number of lines. -/
def lineCount (size : ℕ) (data : Bytes) : ℕ := (data.length + size - 1) / size

theorem lineCount_spec {size : ℕ} (hsize : 0 < size) {data : Bytes} (hdata : data ≠ []) :
    ∃ more, lineCount size data = more + 1 ∧ more * size < data.length ∧
      data.length ≤ (more + 1) * size := by
  have hpos := List.length_pos_iff.mpr hdata
  have hcount : lineCount size data = (data.length - 1) / size + 1 := by
    rw [lineCount, show data.length + size - 1 = data.length - 1 + size by omega,
      Nat.add_div_right _ hsize]
  refine ⟨_, hcount, ?_, ?_⟩
  · have := Nat.div_mul_le_self (data.length - 1) size
    omega
  · have := Nat.lt_mul_div_succ (data.length - 1) hsize
    rw [Nat.mul_comm] at this
    omega

/-- A dump that is broken into lines is these lines. -/
theorem format_eq_lines {f : HexFormatter} (hput : f.putNewlines = true) {size : ℕ}
    (hsize : 0 < size) (hint : size < 2 ^ 31) {data : Bytes} (hdata : data ≠ []) :
    f.format size data =
      (f.linesFrom size data 0 (lineCount size data)).flatMap (newline :: ·) := by
  obtain ⟨more, hcount, hlow, hhigh⟩ := lineCount_spec hsize hdata
  have hfirst : f.breakLine data 0 0 [] = newline :: f.header 0 := by
    rw [breakLine, if_neg fun h => h.2 rfl]
    rfl
  have hchunk : data.take size = chunk size data 0 := by
    rw [chunk, Nat.zero_mul, List.drop_zero]
  have hpos : 0 * size < data.length := by
    rw [Nat.zero_mul]
    exact List.length_pos_iff.mpr hdata
  have hlines := formatLoop_lines hput hsize hpos ((Nat.zero_add more).symm ▸ hlow)
    ((Nat.zero_add more).symm ▸ hhigh) (f.breakLine data 0 0 [] ++ f.lineHex (chunk size data 0))
  rw [Nat.zero_add, Nat.zero_mul, Nat.one_mul, Nat.zero_add] at hlines
  rw [format, staticCastInt_of_lt hint]
  change f.finish size data (f.formatLoop size data data 0 0 []) = _
  rw [formatLoop_break hput hsize data hdata (.inl rfl), Nat.zero_add, hchunk, hlines, hfirst,
    hcount, linesFrom_succ, List.flatMap_cons, line, Nat.zero_mul, Nat.zero_add]
  simp only [List.append_assoc, List.cons_append]

/-! ## Lines as what is between newlines -/

theorem newline_not_mem_lineHex (f : HexFormatter) (bytes : Bytes) :
    newline ∉ f.lineHex bytes := by
  cases bytes with
  | nil => exact List.not_mem_nil
  | cons ch rest =>
      refine List.not_mem_append (newline_not_mem_hex f ch) fun hmem => ?_
      obtain ⟨other, -, hother⟩ := List.mem_flatMap.mp hmem
      exact List.not_mem_append (newline_not_mem_separator f) (newline_not_mem_hex f other) hother

/-- Behind the digits there is nothing, or two delimiters and the rest of the line. -/
theorem lineEnd_cases (f : HexFormatter) (size length : ℕ) (bytes : Bytes) :
    f.lineEnd size length bytes = [] ∨
      ∃ text, newline ∉ text ∧ f.lineEnd size length bytes = delimiter :: delimiter :: text := by
  have hshown : newline ∉ bytes.map shown := by
    intro hmem
    obtain ⟨ch, -, hch⟩ := List.mem_map.mp hmem
    exact shown_ne_newline ch hch
  have hcolumn : newline ∉ [delimiter, delimiter] ++ bytes.map shown :=
    List.not_mem_append (by decide) hshown
  unfold lineEnd
  split_ifs with hshow hshort
  · right
    cases size - bytes.length with
    | zero => exact ⟨_, hshown, rfl⟩
    | succ missing =>
        refine ⟨f.separator ++ (List.replicate missing
          ([delimiter, delimiter] ++ f.separator)).flatten ++
            ([delimiter, delimiter] ++ bytes.map shown), ?_, ?_⟩
        · refine List.not_mem_append (List.not_mem_append (newline_not_mem_separator f) ?_) hcolumn
          intro hmem
          obtain ⟨blank, hblank, hmem⟩ := List.mem_flatten.mp hmem
          rw [List.eq_of_mem_replicate hblank] at hmem
          exact List.not_mem_append (by decide) (newline_not_mem_separator f) hmem
        · rw [List.replicate_succ, List.flatten_cons]
          simp only [List.append_assoc, List.cons_append, List.nil_append]
  · exact .inr ⟨_, hshown, rfl⟩
  · exact .inl rfl

theorem newline_not_mem_line (f : HexFormatter) (size length pos : ℕ) (bytes : Bytes) :
    newline ∉ f.line size length pos bytes := by
  have hend : newline ∉ f.lineEnd size length bytes := by
    rcases f.lineEnd_cases size length bytes with hnil | ⟨text, htext, hend⟩
    · rw [hnil]
      exact List.not_mem_nil
    · rw [hend]
      exact List.not_mem_cons_of_ne_of_not_mem (by decide)
        (List.not_mem_cons_of_ne_of_not_mem (by decide) htext)
  exact List.not_mem_append (List.not_mem_append (newline_not_mem_header f pos)
    (newline_not_mem_lineHex f bytes)) hend

/-- The lines of a text that has a newline before each of them. -/
theorem splitOn_lines {lines : List Bytes} (h : ∀ l ∈ lines, newline ∉ l) :
    (lines.flatMap (newline :: ·)).splitOn newline = [] :: lines := by
  have hintercalate (first : Bytes) (lines : List Bytes) :
      [newline].intercalate (first :: lines) = first ++ lines.flatMap (newline :: ·) := by
    induction lines generalizing first with
    | nil => rw [List.intercalate_singleton, List.flatMap_nil, List.append_nil]
    | cons second lines ih =>
        rw [List.intercalate_cons_cons, ih, List.flatMap_cons]
        simp only [List.append_assoc, List.cons_append, List.nil_append]
  have hall : ∀ l ∈ [] :: lines, newline ∉ l := by
    intro l hl
    rcases List.mem_cons.mp hl with rfl | hl
    · exact List.not_mem_nil
    · exact h l hl
  have hsplit := List.splitOn_intercalate newline hall (List.cons_ne_nil _ _)
  rwa [hintercalate, List.nil_append] at hsplit

theorem newline_not_mem_linesFrom (f : HexFormatter) (size : ℕ) (data : Bytes)
    (first count : ℕ) : ∀ l ∈ f.linesFrom size data first count, newline ∉ l := by
  intro l hl
  obtain ⟨k, -, rfl⟩ := List.mem_map.mp hl
  exact newline_not_mem_line f size data.length (k * size) (chunk size data k)

/-! ## A reader -/

/-- The value of a hex digit. -/
def hexValue (c : UInt8) : UInt8 := if c ≤ 57 then c - 48 else if c ≤ 70 then c - 55 else c - 87

/-- The number that hex digits stand for. -/
def readHex (digits : Bytes) : ℕ := digits.foldl (fun n c => 16 * n + (hexValue c).toNat) 0

/-- Where a reader is in a line. -/
inductive DumpPlace
  | header
  | hex
  /-- Behind one delimiter. -/
  | delimiter
  /-- Behind the first digit of a byte. -/
  | low (high : UInt8)
  /-- Behind two delimiters. -/
  | ascii

/-- Where a line starts. -/
def lineStart (positions : Bool) : DumpPlace := if positions then .header else .hex

namespace DumpPlace

def next (c : UInt8) : DumpPlace → DumpPlace
  | header => if c = charByte ':' then hex else header
  | hex => if c = HexFormatter.delimiter then delimiter else low c
  | delimiter => if c = HexFormatter.delimiter then ascii else low c
  | low _ => hex
  | ascii => ascii

/-- The byte that is complete. -/
def byte (c : UInt8) : DumpPlace → Option UInt8
  | low high => some (hexValue high * 16 + hexValue c)
  | _ => none

end DumpPlace

/-- The bytes in a dump, with or without positions. -/
def readDump (positions : Bool) : DumpPlace → Bytes → Bytes
  | _, [] => []
  | place, c :: rest =>
      if c = newline then readDump positions (lineStart positions) rest
      else (place.byte c).toList ++ readDump positions (place.next c) rest

theorem hexValue_hexUpper : ∀ d < 16, hexValue (hexUpper.getD d 0) = UInt8.ofNat d := by decide

theorem hexValue_hexLower : ∀ d < 16, hexValue (hexLower.getD d 0) = UInt8.ofNat d := by decide

theorem hexValue_hexChars (f : HexFormatter) {d : ℕ} (hd : d < 16) :
    hexValue (f.hexChars.getD d 0) = UInt8.ofNat d := by
  unfold hexChars
  split_ifs
  · exact hexValue_hexUpper d hd
  · exact hexValue_hexLower d hd

/-- The digits of a byte stand for it. -/
theorem hexValue_nibbles (f : HexFormatter) (ch : UInt8) :
    hexValue (f.hexChars.getD (ch >>> 4 &&& 0x0f).toNat 0) * 16 +
      hexValue (f.hexChars.getD (ch &&& 0x0f).toNat 0) = ch := by
  have hlt : ch.toNat < 256 := ch.toNat_lt
  have hlow : (ch &&& 0x0f).toNat = ch.toNat % 16 := by
    rw [UInt8.toNat_and]
    exact Nat.and_two_pow_sub_one_eq_mod ch.toNat 4
  have hhigh : (ch >>> 4 &&& 0x0f).toNat = ch.toNat / 16 := by
    rw [UInt8.toNat_and, UInt8.toNat_shiftRight, Nat.shiftRight_eq_div_pow]
    have hmod := Nat.and_two_pow_sub_one_eq_mod (ch.toNat / 16) 4
    exact hmod.trans (Nat.mod_eq_of_lt (by omega))
  rw [hlow, hhigh, hexValue_hexChars f (by omega), hexValue_hexChars f (by omega),
    ← UInt8.toNat_inj, UInt8.toNat_add, UInt8.toNat_mul, UInt8.toNat_ofNat', UInt8.toNat_ofNat',
    show UInt8.toNat 16 = 16 from rfl]
  omega

theorem readHex_position (pos : ℕ) : readHex (position pos) = pos := by
  have hdigits (ds : List ℕ) (h : ∀ d ∈ ds, d < 16) :
      readHex (ds.reverse.map fun d => hexUpper.getD d 0) = Nat.ofDigits 16 ds := by
    induction ds with
    | nil => rfl
    | cons d ds ih =>
        obtain ⟨hd, hds⟩ := List.forall_mem_cons.mp h
        have hvalue : (UInt8.ofNat d).toNat = d := UInt8.toNat_ofNat_of_lt' (show d < 256 by omega)
        rw [List.reverse_cons, List.map_append, readHex, List.foldl_append, ← readHex, ih hds,
          List.map_singleton, List.foldl_cons, List.foldl_nil, hexValue_hexUpper d hd, hvalue,
          Nat.ofDigits_cons, Nat.add_comm]
  have hzeros (count : ℕ) (digits : Bytes) :
      readHex (List.replicate count (charByte '0') ++ digits) = readHex digits := by
    induction count with
    | zero => rfl
    | succ count ih => exact ih
  rw [position, List.leftpad, hzeros, hdigits _ fun d hd => Nat.digits_lt_base (by decide) hd,
    Nat.ofDigits_digits]

/-! ## Reading a line -/

section

variable (positions : Bool)

theorem readDump_newline (place : DumpPlace) (rest : Bytes) :
    readDump positions place (newline :: rest) =
      readDump positions (lineStart positions) rest := by
  rw [readDump, if_pos rfl]

/-- What is behind two delimiters is skipped. -/
theorem readDump_ascii {text : Bytes} (h : newline ∉ text) (rest : Bytes) :
    readDump positions .ascii (text ++ rest) = readDump positions .ascii rest := by
  induction text with
  | nil => rfl
  | cons c text ih =>
      have hne : c ≠ newline := fun hc => h (hc ▸ List.mem_cons_self)
      rw [List.cons_append, readDump, if_neg hne]
      exact ih (List.not_mem_of_not_mem_cons h)

/-- A byte, with at most one delimiter before it. -/
theorem readDump_hex (f : HexFormatter) {place : DumpPlace}
    (hplace : place = .hex ∨ place = .delimiter) (ch : UInt8) (rest : Bytes) :
    readDump positions place (f.hex ch ++ rest) = ch :: readDump positions .hex rest := by
  have hnewline := f.hexChars_ne (c := newline) (by decide) (by decide) (by decide)
  have hdelimiter := f.hexChars_ne (c := HexFormatter.delimiter) (by decide) (by decide) (by decide)
  have hpair : readDump positions (.low (f.hexChars.getD (ch >>> 4 &&& 0x0f).toNat 0))
      (f.hexChars.getD (ch &&& 0x0f).toNat 0 :: rest) = ch :: readDump positions .hex rest := by
    rw [readDump, if_neg (hnewline _), DumpPlace.byte, hexValue_nibbles]
    rfl
  rw [hex, List.cons_append, List.singleton_append, readDump, if_neg (hnewline _)]
  rcases hplace with rfl | rfl
  · rw [DumpPlace.next, if_neg (hdelimiter _), hpair]
    rfl
  · rw [DumpPlace.next, if_neg (hdelimiter _), hpair]
    rfl

theorem readDump_separator_hex (f : HexFormatter) (ch : UInt8) (rest : Bytes) :
    readDump positions .hex (f.separator ++ f.hex ch ++ rest) =
      ch :: readDump positions .hex rest := by
  rw [List.append_assoc]
  unfold separator
  split_ifs
  · exact readDump_hex positions f (.inr rfl) ch rest
  · exact readDump_hex positions f (.inl rfl) ch rest

theorem readDump_bytes (f : HexFormatter) (bytes rest : Bytes) :
    readDump positions .hex ((bytes.flatMap fun ch => f.separator ++ f.hex ch) ++ rest) =
      bytes ++ readDump positions .hex rest := by
  induction bytes with
  | nil => rfl
  | cons ch bytes ih =>
      rw [List.flatMap_cons, List.append_assoc, readDump_separator_hex, ih, List.cons_append]

theorem readDump_lineHex (f : HexFormatter) {place : DumpPlace}
    (hplace : place = .hex ∨ place = .delimiter) {bytes : Bytes} (hbytes : bytes ≠ [])
    (rest : Bytes) :
    readDump positions place (f.lineHex bytes ++ rest) =
      bytes ++ readDump positions .hex rest := by
  obtain ⟨ch, bytes, rfl⟩ := List.exists_cons_of_ne_nil hbytes
  rw [lineHex, List.append_assoc, readDump_hex positions f hplace, readDump_bytes,
    List.cons_append]

end

/-- The header of a line is skipped. -/
theorem readDump_header (f : HexFormatter) (pos : ℕ) (rest : Bytes) :
    ∃ place, (place = .hex ∨ place = .delimiter) ∧
      readDump f.putPositions (lineStart f.putPositions) (f.header pos ++ rest) =
        readDump f.putPositions place rest := by
  have hskip (digits rest : Bytes) (hnewline : newline ∉ digits) (hcolon : charByte ':' ∉ digits) :
      readDump true .header (digits ++ rest) = readDump true .header rest := by
    induction digits with
    | nil => rfl
    | cons c digits ih =>
        have hc : c ≠ newline := fun h => hnewline (h ▸ List.mem_cons_self)
        have hc' : c ≠ charByte ':' := fun h => hcolon (h ▸ List.mem_cons_self)
        rw [List.cons_append, readDump, if_neg hc, DumpPlace.next, if_neg hc']
        exact ih (List.not_mem_of_not_mem_cons hnewline) (List.not_mem_of_not_mem_cons hcolon)
  unfold header
  cases f.putPositions with
  | false => exact ⟨.hex, .inl rfl, rfl⟩
  | true =>
      refine ⟨.delimiter, .inr rfl, ?_⟩
      rw [if_pos rfl, List.append_assoc]
      refine hskip (position pos) _ (fun hmem => ?_) fun hmem => ?_
      · exact absurd (mem_hexUpper_of_mem_position hmem) (by decide)
      · exact absurd (mem_hexUpper_of_mem_position hmem) (by decide)

/-- The end of a dump, or of a line. -/
def AtEnd (rest : Bytes) : Prop := rest = [] ∨ ∃ more, rest = newline :: more

theorem AtEnd.readDump_congr {rest : Bytes} (h : AtEnd rest) (positions : Bool)
    (place place' : DumpPlace) :
    readDump positions place rest = readDump positions place' rest := by
  rcases h with rfl | ⟨more, rfl⟩
  · rw [readDump, readDump]
  · rw [readDump_newline, readDump_newline]

theorem readDump_lineEnd (f : HexFormatter) (positions : Bool) (size length : ℕ) (bytes : Bytes)
    {rest : Bytes} (hrest : AtEnd rest) :
    readDump positions .hex (f.lineEnd size length bytes ++ rest) =
      readDump positions .hex rest := by
  rcases f.lineEnd_cases size length bytes with hnil | ⟨text, htext, hend⟩
  · rw [hnil, List.nil_append]
  · -- two delimiters: the rest of the line is not read
    rw [hend]
    exact (readDump_ascii positions htext rest).trans (hrest.readDump_congr positions _ _)

theorem readDump_line (f : HexFormatter) (size length pos : ℕ) {bytes : Bytes}
    (hbytes : bytes ≠ []) {rest : Bytes} (hrest : AtEnd rest) :
    readDump f.putPositions (lineStart f.putPositions) (f.line size length pos bytes ++ rest) =
      bytes ++ readDump f.putPositions .hex rest := by
  obtain ⟨place, hplace, hheader⟩ :=
    f.readDump_header pos (f.lineHex bytes ++ (f.lineEnd size length bytes ++ rest))
  rw [line, List.append_assoc, List.append_assoc, hheader,
    readDump_lineHex f.putPositions f hplace hbytes, readDump_lineEnd f _ size length bytes hrest]

theorem readDump_lines (f : HexFormatter) (size : ℕ) (data : Bytes) (ks : List ℕ)
    (h : ∀ k ∈ ks, chunk size data k ≠ []) :
    readDump f.putPositions .hex
        ((ks.map fun k => f.line size data.length (k * size) (chunk size data k)).flatMap
          (newline :: ·)) =
      ks.flatMap (chunk size data) := by
  induction ks with
  | nil => rfl
  | cons k ks ih =>
      obtain ⟨hk, hks⟩ := List.forall_mem_cons.mp h
      have hrest : AtEnd ((ks.map fun k =>
          f.line size data.length (k * size) (chunk size data k)).flatMap (newline :: ·)) := by
        cases ks with
        | nil => exact .inl rfl
        | cons second ks => exact .inr ⟨_, rfl⟩
      rw [List.map_cons, List.flatMap_cons, List.cons_append, readDump_newline,
        f.readDump_line size data.length (k * size) hk hrest, ih hks, List.flatMap_cons]

/-- The lines together have the bytes up to the last one. -/
theorem flatMap_chunk (size : ℕ) (data : Bytes) (count : ℕ) :
    (List.range' 0 count).flatMap (chunk size data) = data.take (count * size) := by
  induction count with
  | zero => rw [Nat.zero_mul]; rfl
  | succ count ih =>
      rw [List.range'_1_concat, List.flatMap_append, ih, List.flatMap_singleton, Nat.zero_add,
        chunk, Nat.succ_mul, List.take_add]

theorem chunk_ne_nil {size : ℕ} (hsize : 0 < size) {data : Bytes} (hdata : data ≠ []) {k : ℕ}
    (hk : k < lineCount size data) : chunk size data k ≠ [] := by
  obtain ⟨more, hcount, hlow, -⟩ := lineCount_spec hsize hdata
  have hle := Nat.mul_le_mul_right size (show k ≤ more by omega)
  rw [← List.length_pos_iff, length_chunk]
  omega

/-! ## Columns -/

theorem length_lineHex (f : HexFormatter) {bytes : Bytes} (hbytes : bytes ≠ []) :
    (f.lineHex bytes).length + f.separator.length = bytes.length * (f.separator.length + 2) := by
  obtain ⟨ch, bytes, rfl⟩ := List.exists_cons_of_ne_nil hbytes
  have hrest : (bytes.flatMap fun ch => f.separator ++ f.hex ch).length =
      bytes.length * (f.separator.length + 2) := by
    rw [List.length_flatMap, List.map_congr_left (g := fun _ => f.separator.length + 2)]
    · rw [List.map_const', List.sum_replicate_nat]
    · intro ch _
      exact List.length_append
  have hfirst : (f.hex ch).length = 2 := rfl
  rw [lineHex, List.length_append, hrest, hfirst, List.length_cons, Nat.succ_mul]
  omega

/-- Where the characters start, counted from the end of the header. -/
def asciiStart (f : HexFormatter) (size length : ℕ) : ℕ :=
  min size length * (f.separator.length + 2) - f.separator.length + 2

/-- The blanks make up for the bytes that are missing. -/
theorem line_ascii {f : HexFormatter} (hshow : f.showAscii = true) {size : ℕ} (data : Bytes)
    {k : ℕ} (hchunk : chunk size data k ≠ []) :
    ∃ left, f.line size data.length (k * size) (chunk size data k) =
        left ++ (chunk size data k).map shown ∧
      left.length = (f.header (k * size)).length + f.asciiStart size data.length := by
  have hhex := f.length_lineHex hchunk
  have hpos := List.length_pos_iff.mpr hchunk
  have hlength := length_chunk size data k
  generalize chunk size data k = bytes at hhex hpos hlength ⊢
  rw [line, lineEnd, if_pos hshow]
  by_cases hmore : size < data.length
  · rw [if_pos hmore]
    refine ⟨f.header (k * size) ++ f.lineHex bytes ++
      (List.replicate (size - bytes.length) ([delimiter, delimiter] ++ f.separator)).flatten ++
        [delimiter, delimiter], by simp only [List.append_assoc], ?_⟩
    have hblanks : (List.replicate (size - bytes.length)
        ([delimiter, delimiter] ++ f.separator)).flatten.length + bytes.length *
          (f.separator.length + 2) = size * (f.separator.length + 2) := by
      rw [List.length_flatten, List.map_replicate, List.sum_replicate_nat, List.length_append,
        List.length_cons, List.length_singleton, Nat.add_comm _ f.separator.length,
        ← Nat.add_mul, Nat.sub_add_cancel (by omega)]
    rw [List.length_append, List.length_append, List.length_append, List.length_cons,
      List.length_singleton, asciiStart, Nat.min_eq_left hmore.le]
    omega
  · have hfirst : k = 0 := by
      by_contra hk
      have := Nat.le_mul_of_pos_left size (Nat.pos_of_ne_zero hk)
      omega
    rw [if_neg hmore, List.nil_append]
    refine ⟨f.header (k * size) ++ f.lineHex bytes ++ [delimiter, delimiter],
      by simp only [List.append_assoc], ?_⟩
    rw [hfirst, Nat.zero_mul, Nat.sub_zero] at hlength
    rw [List.length_append, List.length_append, List.length_cons, List.length_singleton,
      asciiStart, ← hlength]
    omega

/-! ## The dump -/

/-- A dump line with these bytes, from this position on. -/
structure IsDumpLine (spec : Bytes) (column pos : ℕ) (bytes dumpLine : Bytes) : Prop where
  reads : readDump (decide (charByte 'p' ∉ spec)) (lineStart (decide (charByte 'p' ∉ spec)))
    dumpLine = bytes
  starts : charByte 'p' ∉ spec → ∃ digits rest, dumpLine = digits ++ ascii ": " ++ rest ∧
    readHex digits = pos ∧ ∀ c ∈ digits, c ∈ hexUpper
  shows : charByte 'a' ∈ spec → ∃ left, dumpLine = left ++ bytes.map shown ∧
    left.length = ((parse spec initial).header pos).length + column

theorem putPositions_parse {spec : Bytes} (hspec : charByte '}' ∉ spec) :
    (parse spec initial).putPositions = decide (charByte 'p' ∉ spec) := by
  rw [Bool.eq_iff_iff, parse_putPositions hspec, decide_eq_true_iff]
  exact and_iff_right rfl

theorem isDumpLine_line {spec : Bytes} (hspec : charByte '}' ∉ spec)
    (hn : charByte 'n' ∉ spec) {size : ℕ} {data : Bytes} {k : ℕ}
    (hchunk : chunk size data k ≠ []) :
    IsDumpLine spec ((parse spec initial).asciiStart size data.length) (k * size)
      (chunk size data k)
      ((parse spec initial).line size data.length (k * size) (chunk size data k)) := by
  have hput := (parse_putNewlines hspec initial).mpr ⟨rfl, hn⟩
  have hpositions := putPositions_parse hspec
  constructor
  case reads =>
    have hline := (parse spec initial).readDump_line size data.length (k * size) hchunk (.inl rfl)
    rw [List.append_nil, readDump, List.append_nil, hpositions] at hline
    exact hline
  case starts =>
    intro hp
    rw [line, header, hpositions, if_pos (decide_eq_true hp), List.append_assoc, List.append_assoc]
    exact ⟨position (k * size), _, (List.append_assoc ..).symm, readHex_position _,
      fun c hc => mem_hexUpper_of_mem_position hc⟩
  case shows =>
    intro ha
    have hshow := (parse_showAscii hspec initial).mpr ⟨.inr ⟨rfl, ha⟩, hn⟩
    exact line_ascii hshow data hchunk

/-- Without line breaks there is nothing but the bytes and the delimiters. -/
theorem format_eq_bytes {f : HexFormatter} (hput : f.putNewlines = false)
    (hshow : f.showAscii = false) (size : ℕ) (data : Bytes) :
    f.format size data = data.flatMap fun ch => f.separator ++ f.hex ch := by
  have hloop := formatLoop_append f (staticCastInt size) data data [] 0 0 []
    fun h => absurd (hput.symm.trans h) Bool.false_ne_true
  rw [List.append_nil, List.nil_append, formatLoop] at hloop
  rw [format, hloop]
  exact if_neg (hshow ▸ Bool.false_ne_true)

/-- What is written for no bytes. -/
theorem format_nil (f : HexFormatter) (size : ℕ) :
    f.format size [] = [] ∨ f.format size [] = [delimiter, delimiter] := by
  have hblanks : f.blanks (staticCastInt size) 0 0 = [] := by
    unfold blanks
    split_ifs with hnegative
    · rw [show (staticCastInt size - ((0 : ℕ) - (0 : ℕ))).toNat = 0 by omega]
      rfl
    · rfl
  rw [format, formatLoop]
  dsimp only
  split_ifs
  · rw [List.length_nil, hblanks]
    exact .inr rfl
  · exact .inl rfl

theorem getElem?_linesFrom {f : HexFormatter} {size : ℕ} {data : Bytes} {count k : ℕ}
    {dumpLine : Bytes} (h : (f.linesFrom size data 0 count)[k]? = some dumpLine) :
    k < count ∧ dumpLine = f.line size data.length (k * size) (chunk size data k) := by
  obtain ⟨hlt, hget⟩ := List.getElem?_eq_some_iff.mp h
  have hcount : k < count := by
    rwa [linesFrom, List.length_map, List.length_range'] at hlt
  refine ⟨hcount, hget.symm.trans ?_⟩
  simp only [linesFrom, List.getElem_map, List.getElem_range', Nat.zero_add, Nat.one_mul]

/-- A dump is read back; and its lines have the bytes that they should have, start with their
position and show their bytes at the same column, counted from the end of the header. -/
theorem hex_dump_faithful {spec : Bytes} (hspec : charByte '}' ∉ spec) (data : Bytes) {size : ℕ}
    (hsize : 1 ≤ size) (hint : size ≤ 2 ^ 31 - 1) :
    let dump := (parse spec initial).format size data
    readDump (decide (charByte 'p' ∉ spec)) .hex dump = data ∧
      (charByte 'n' ∉ spec →
        (dump.splitOn newline).tail.length = lineCount size data ∧
        ∃ column, ∀ k dumpLine, (dump.splitOn newline).tail[k]? = some dumpLine →
          IsDumpLine spec column (k * size) (chunk size data k) dumpLine) := by
  have hpositions := putPositions_parse hspec
  by_cases hn : charByte 'n' ∈ spec
  · have hput : (parse spec initial).putNewlines = false := by
      rw [← Bool.not_eq_true, parse_putNewlines hspec]
      exact fun h => h.2 hn
    have hshow : (parse spec initial).showAscii = false := by
      rw [← Bool.not_eq_true, parse_showAscii hspec]
      exact fun h => h.2 hn
    refine ⟨?_, fun h => absurd hn h⟩
    rw [format_eq_bytes hput hshow]
    -- Without line breaks the dump is the bytes alone.
    have hbytes := readDump_bytes (decide (charByte 'p' ∉ spec)) (parse spec initial) data []
    rw [List.append_nil, readDump, List.append_nil] at hbytes
    exact hbytes
  · have hput := (parse_putNewlines hspec initial).mpr ⟨rfl, hn⟩
    rcases eq_or_ne data [] with rfl | hdata
    · have hcount : lineCount size [] = 0 := Nat.div_eq_of_lt (by simp; omega)
      -- Nothing is dumped, with or without the break in front of it.
      obtain ⟨hread, htail⟩ : readDump (decide (charByte 'p' ∉ spec)) .hex
          ((parse spec initial).format size []) = [] ∧
            (((parse spec initial).format size []).splitOn newline).tail = [] := by
        rcases (parse spec initial).format_nil size with hnil | hdelimiters
        · rw [hnil]
          exact ⟨rfl, rfl⟩
        · rw [hdelimiters]
          exact ⟨rfl, rfl⟩
      dsimp only
      rw [hcount, htail]
      refine ⟨hread, fun _ => ⟨rfl, 0, fun k dumpLine h => ?_⟩⟩
      cases h
    · obtain ⟨more, hcount, -, hhigh⟩ := lineCount_spec hsize hdata
      dsimp only
      rw [format_eq_lines hput hsize (by omega) hdata]
      constructor
      -- The chunks of the lines make up the data.
      · have hread := (parse spec initial).readDump_lines size data
          (List.range' 0 (lineCount size data)) fun k hk => by
            have hlt := (List.mem_range'_1.mp hk).2
            rw [Nat.zero_add] at hlt
            exact chunk_ne_nil hsize hdata hlt
        rw [flatMap_chunk, hcount, List.take_of_length_le hhigh, hpositions] at hread
        rw [linesFrom, hcount]
        exact hread
      · intro _
        rw [splitOn_lines (newline_not_mem_linesFrom _ size data 0 _), List.tail_cons]
        refine ⟨?_, (parse spec initial).asciiStart size data.length, fun k dumpLine h => ?_⟩
        · rw [linesFrom, List.length_map, List.length_range']
        · obtain ⟨hk, rfl⟩ := getElem?_linesFrom h
          exact isDumpLine_line hspec hn (chunk_ne_nil hsize hdata hk)

/-- Eight bytes, six on a line. -/
theorem hex_dump_faithful_short_line :
    let dump := ascii "\n0000: 090A0B410C4B  ...A.K\n0006: FFFF          .."
    (parse (ascii "Xsa") initial).format 6 [9, 10, 11, 65, 12, 75, 255, 255] = dump ∧
      readDump true .hex dump = [9, 10, 11, 65, 12, 75, 255, 255] ∧
      (dump.splitOn newline).tail.length = 2 ∧
      ∃ column, IsDumpLine (ascii "Xsa") column 6 [255, 255] (ascii "0006: FFFF          ..") := by
  intro dump
  have hdump : (parse (ascii "Xsa") initial).format 6 [9, 10, 11, 65, 12, 75, 255, 255] = dump := by
    decide
  obtain ⟨hread, hlines⟩ := hex_dump_faithful (show charByte '}' ∉ ascii "Xsa" by decide)
    [9, 10, 11, 65, 12, 75, 255, 255] (show 1 ≤ 6 by decide) (by decide)
  rw [hdump] at hread hlines
  obtain ⟨hcount, column, hcolumn⟩ := hlines (by decide)
  exact ⟨hdump, hread, hcount, column, hcolumn 1 _ rfl⟩

end HexFormatter

end Structlog
