import Structlog.FormatStrings

/-!
# Messages

A format string without specifiers consists of texts, whose braces are doubled, and fields.
What is written for it is each text, and in the place of each field its argument
(`vformat_fills`); and what is accepted without specifiers is such a string
(`vformat_accepts`).
-/

namespace Structlog.Fmt

open Lib

namespace ArgId

def print : ArgId → Bytes
  | auto => []
  | index id => decimal id
  | name id => id

/-- A name is an identifier. -/
def Identifier : ArgId → Prop
  | auto => True
  | index _ => True
  | name id => ∃ c rest, id = c :: rest ∧ isNameStart c ∧ ∀ d ∈ rest, isNameChar d

/-- The largest `int` stands for the indices above it. -/
def read : ArgId → ArgId
  | auto => auto
  | index id => index (min id intMax)
  | name id => name id

end ArgId

/-- What a format string without specifiers consists of. -/
inductive FormatPiece
  | text (chars : Bytes)
  | field (argId : ArgId) (identifier : argId.Identifier)

/-- A brace of the text is doubled. -/
def FormatPiece.print : FormatPiece → Bytes
  | text chars => chars.flatMap fun c => if c = 0x7B ∨ c = 0x7D then [c, c] else [c]
  | field argId _ => 0x7B :: (argId.print ++ [0x7D])

/-- How the fields have been numbered so far. -/
inductive Numbering
  | undecided
  | automatic (last : ℕ)
  | manual

namespace Numbering

def nextArgId : Numbering → ℤ
  | undecided => 0
  | automatic last => last + 1
  | manual => -1

/-- The argument of a field.  A message does not number its fields in both ways, and a name
is no number. -/
def next (args : FormatArgs) : Numbering → ArgId → Except Bytes (Numbering × ℕ)
  | undecided, .auto => .ok (automatic 0, 0)
  | automatic last, .auto => .ok (automatic (last + 1), last + 1)
  | manual, .auto => .error manualToAutomatic
  | automatic _, .index _ => .error automaticToManual
  | _, .index id => .ok (manual, min id intMax)
  | numbering, .name name => (args.getId name).map fun id => (numbering, id)

end Numbering

/-- The text of a message: each field is replaced by its argument. -/
def fill (args : FormatArgs) : Numbering → List FormatPiece → Except Bytes Bytes
  | _, [] => .ok []
  | numbering, .text chars :: pieces => (fill args numbering pieces).map (chars ++ ·)
  | numbering, .field argId _ :: pieces =>
      (numbering.next args argId).bind fun field =>
        (args.getArg field.2).bind fun value => (fill args field.1 pieces).map (value ++ ·)

/-- How the fields have been numbered after the pieces. -/
def numbered (args : FormatArgs) : Numbering → List FormatPiece → Except Bytes Numbering
  | numbering, [] => .ok numbering
  | numbering, .text _ :: pieces => numbered args numbering pieces
  | numbering, .field argId _ :: pieces =>
      (numbering.next args argId).bind fun field => numbered args field.1 pieces

theorem isNameStart_bounds {c : UInt8} (hc : isNameStart c) :
    isDigit c = false ∧ c ≠ 0x7B ∧ c ≠ 0x7D ∧ c ≠ 0x3A := by
  simp [isNameStart, isDigit, UInt8.le_iff_toNat_le, ← UInt8.toNat_inj] at hc ⊢
  omega

theorem parseArgId_print {argId : ArgId} (hargId : argId.Identifier) {c : UInt8}
    (hc : c = 0x7D ∨ c = 0x3A) (rest : Bytes) :
    parseArgId (argId.print ++ c :: rest) = .ok (argId.read, c :: rest) := by
  have hnoDigit : ¬ isDigit c := by rcases hc with rfl | rfl <;> decide
  have hnoName : ¬ isNameChar c := by rcases hc with rfl | rfl <;> decide
  cases argId with
  | auto => exact if_pos hc
  | index id =>
      obtain ⟨d, after, hdecimal, hd⟩ := decimal_cons id
      have hother : ¬ (d = 0x7D ∨ d = 0x3A) :=
        not_or.mpr ⟨ne_of_isDigit hd rfl, ne_of_isDigit hd rfl⟩
      rw [ArgId.print, hdecimal, List.cons_append, parseArgId, if_neg hother, if_pos hd,
        ← List.cons_append, ← hdecimal, parseIndex_decimal id hnoDigit]
      exact if_pos (hc.imp (congrArg some) (congrArg some))
  | name id =>
      obtain ⟨d, after, rfl, hd, hafter⟩ := hargId
      obtain ⟨hdigit, -, hbrace, hcolon⟩ := isNameStart_bounds hd
      rw [ArgId.print, List.cons_append, parseArgId, if_neg (not_or.mpr ⟨hbrace, hcolon⟩),
        if_neg (by rw [hdigit]; decide), if_pos hd, List.takeWhile_append_of_pos hafter,
        List.dropWhile_append_of_pos hafter, List.takeWhile_cons_of_neg hnoName,
        List.dropWhile_cons_of_neg hnoName, List.append_nil]
      rfl

namespace FormatHandler

variable {σ : Type} (h : FormatHandler σ)

theorem parseReplacementField_print (s : σ) {argId : ArgId} (hargId : argId.Identifier)
    (rest : Bytes) :
    h.parseReplacementField s (argId.print ++ 0x7D :: rest) =
      (h.onArgId s argId.read).bind fun p =>
        (h.onReplacementField p.1 p.2).map fun s => (s, rest) := by
  have hfield (c : UInt8) (after : Bytes) (hprint : argId.print = c :: after)
      (hopen : c ≠ 0x7B) (hclose : c ≠ 0x7D) :
      h.parseReplacementField s (argId.print ++ 0x7D :: rest) =
        (parseArgId (argId.print ++ 0x7D :: rest)).bind fun q =>
          (h.onArgId s q.1).bind fun p => h.afterArgId p.1 p.2 q.2 := by
    rw [hprint, List.cons_append, parseReplacementField, if_neg hclose, if_neg hopen]
  cases argId with
  | auto => rfl
  | index id =>
      obtain ⟨c, after, hdecimal, hc⟩ := decimal_cons id
      rw [hfield c after hdecimal (ne_of_isDigit hc rfl) (ne_of_isDigit hc rfl),
        parseArgId_print hargId (.inl rfl)]
      rfl
  | name id =>
      have hparse := parseArgId_print hargId (.inl rfl) rest
      obtain ⟨c, after, rfl, hc, -⟩ := hargId
      obtain ⟨-, hopen, hclose, -⟩ := isNameStart_bounds hc
      rw [hfield c after rfl hopen hclose, hparse]
      rfl

theorem scan_doubled (s : σ) (chars rest : Bytes) :
    h.scan s ((FormatPiece.text chars).print ++ rest) = h.scan (h.onText s chars) rest := by
  induction chars generalizing s with
  | nil => rw [h.text_nil, FormatPiece.print, List.flatMap_nil, List.nil_append]
  | cons c chars ih =>
      have hchar : h.scan s ((FormatPiece.text [c]).print ++
          ((FormatPiece.text chars).print ++ rest)) =
          h.scan (h.onText s [c]) ((FormatPiece.text chars).print ++ rest) := by
        rcases eq_or_ne c 0x7B with rfl | hopen
        · -- read as a field that begins with a brace
          exact h.scan_field s _
        · rcases eq_or_ne c 0x7D with rfl | hclose
          · exact h.scan_brace s _
          · have hprint : (FormatPiece.text [c]).print = [c] := by
              simp [FormatPiece.print, hopen, hclose]
            rw [hprint]
            exact h.scan_char s hopen hclose _
      calc h.scan s ((FormatPiece.text (c :: chars)).print ++ rest)
          = h.scan s ((FormatPiece.text [c]).print ++
              ((FormatPiece.text chars).print ++ rest)) := by
            simp [FormatPiece.print]
        _ = h.scan (h.onText s [c]) ((FormatPiece.text chars).print ++ rest) := hchar
        _ = h.scan (h.onText (h.onText s [c]) chars) rest := ih (h.onText s [c])
        _ = h.scan (h.onText s (c :: chars)) rest := by rw [h.text_append, List.singleton_append]

end FormatHandler

theorem onArgId_read (args : FormatArgs) (numbering : Numbering) (out : Bytes) (argId : ArgId) :
    FormatContext.onArgId args ⟨numbering.nextArgId, out⟩ argId.read =
      (numbering.next args argId).map fun field => (⟨field.1.nextArgId, out⟩, field.2) := by
  cases argId with
  | auto =>
      cases numbering with
      | undecided => rfl
      | automatic last =>
          have hle : (0 : ℤ) ≤ (last : ℤ) + 1 := by omega
          rw [ArgId.read, FormatContext.onArgId, FormatContext.nextId, Numbering.nextArgId,
            if_pos hle]
          rfl
      | manual => rfl
  | index id =>
      cases numbering with
      | undecided => rfl
      | automatic last =>
          have hpos : (0 : ℤ) < (last : ℤ) + 1 := by omega
          rw [ArgId.read, FormatContext.onArgId, FormatContext.checkArgId,
            Numbering.nextArgId, if_pos hpos]
          rfl
      | manual => rfl
  | name id =>
      rw [ArgId.read, FormatContext.onArgId, Numbering.next]
      cases args.getId id <;> rfl

section Pieces

variable (args : FormatArgs) (specs : SpecsFormatter)

theorem scan_field_print (numbering : Numbering) (out : Bytes) {argId : ArgId}
    (hargId : argId.Identifier) (rest : Bytes) :
    (formatHandler args specs).scan ⟨numbering.nextArgId, out⟩
        ((FormatPiece.field argId hargId).print ++ rest) =
      (numbering.next args argId).bind fun field => (args.getArg field.2).bind fun value =>
        (formatHandler args specs).scan ⟨field.1.nextArgId, out ++ value⟩ rest := by
  rw [FormatPiece.print, List.cons_append, List.append_assoc, FormatHandler.scan_field]
  rw [List.singleton_append, FormatHandler.parseReplacementField_print _ _ hargId]
  change ((FormatContext.onArgId args ⟨numbering.nextArgId, out⟩ argId.read).bind _).bind _ = _
  rw [onArgId_read]
  cases numbering.next args argId with
  | error message => rfl
  | ok field =>
      change (((args.getArg field.2).map _).map _).bind _ = (args.getArg field.2).bind _
      cases args.getArg field.2 <;> rfl

theorem scan_pieces (pieces : List FormatPiece) (numbering : Numbering) (out : Bytes) :
    ((formatHandler args specs).scan ⟨numbering.nextArgId, out⟩
        (pieces.flatMap FormatPiece.print)).map FormatContext.out =
      (fill args numbering pieces).map (out ++ ·) := by
  induction pieces generalizing numbering out with
  | nil =>
      rw [List.flatMap_nil, FormatHandler.scan_nil, fill]
      exact congrArg Except.ok (List.append_nil out).symm
  | cons piece pieces ih =>
      rw [List.flatMap_cons]
      cases piece with
      | text chars =>
          rw [FormatHandler.scan_doubled]
          refine (ih numbering (out ++ chars)).trans ?_
          rw [fill]
          cases fill args numbering pieces with
          | error message => rfl
          | ok text => exact congrArg Except.ok (List.append_assoc out chars text)
      | field argId hargId =>
          rw [scan_field_print args specs numbering out hargId, fill]
          cases numbering.next args argId with
          | error message => rfl
          | ok field =>
              change ((args.getArg field.2).bind _).map _ = ((args.getArg field.2).bind _).map _
              cases args.getArg field.2 with
              | error message => rfl
              | ok value =>
                  refine (ih field.1 (out ++ value)).trans ?_
                  change _ = ((fill args field.1 pieces).map _).map _
                  cases fill args field.1 pieces with
                  | error message => rfl
                  | ok text => exact congrArg Except.ok (List.append_assoc out value text)

/-- A message is its texts with the arguments in the places of the fields. -/
theorem vformat_fills (out : Bytes) (pieces : List FormatPiece) :
    vformatTo args specs out (pieces.flatMap FormatPiece.print) =
      (fill args .undecided pieces).map (out ++ ·) :=
  (vformatTo_eq_scan args specs out _).trans (scan_pieces args specs pieces .undecided out)

end Pieces

/-! ## What is accepted -/

theorem exists_digit {c : UInt8} (hc : isDigit c) : ∃ i < 10, c = charByte i.digitChar := by
  have hbounds : 48 ≤ c.toNat ∧ c.toNat ≤ 57 := by
    simpa [isDigit, UInt8.le_iff_toNat_le] using hc
  refine ⟨c.toNat - 48, by omega, ?_⟩
  rw [← digit_eq (by omega), Nat.add_sub_cancel' hbounds.1, UInt8.ofNat_toNat]

/-- Digits that do not begin with a zero are what is printed for a number. -/
theorem exists_decimal {d : UInt8} (hd : isDigit d) (hzero : d ≠ 0x30) {ds : Bytes}
    (hds : ∀ c ∈ ds, isDigit c) : ∃ n, 0 < n ∧ d :: ds = decimal n := by
  induction ds using List.reverseRecOn with
  | nil =>
      obtain ⟨i, hi, rfl⟩ := exists_digit hd
      refine ⟨i, Nat.pos_of_ne_zero ?_, (decimal_of_lt hi).symm⟩
      rintro rfl
      exact hzero rfl
  | append_singleton ds e ih =>
      obtain ⟨m, hm, hdecimal⟩ := ih fun c hc => hds c (List.mem_append_left _ hc)
      obtain ⟨i, hi, rfl⟩ := exists_digit (hds e (List.mem_append_right _ List.mem_cons_self))
      refine ⟨10 * m + i, by omega, ?_⟩
      rw [decimal_of_le (by omega), show (10 * m + i) / 10 = m by omega,
        show (10 * m + i) % 10 = i by omega, ← hdecimal]
      rfl

theorem exists_index {c : UInt8} (hc : isDigit c) (after : Bytes) :
    ∃ id, c :: after = decimal id ++ (parseIndex (c :: after)).2 := by
  rw [parseIndex]
  split_ifs with hzero
  · obtain rfl : c = 0x30 := Option.some.inj hzero
    exact ⟨0, rfl⟩
  · have hdigits : (c :: after).takeWhile isDigit = c :: after.takeWhile isDigit :=
      List.takeWhile_cons_of_pos hc
    obtain ⟨id, -, hdecimal⟩ := exists_decimal hc (fun heq => hzero (by rw [heq]; rfl))
      fun b hb => List.mem_takeWhile_imp hb
    refine ⟨id, ?_⟩
    rw [← hdecimal, ← hdigits]
    exact (List.takeWhile_append_dropWhile).symm

/-- An id that is read has been printed. -/
theorem print_of_parseArgId {rest next : Bytes} {argId : ArgId}
    (hok : parseArgId rest = .ok (argId, next)) :
    ∃ argId' : ArgId, argId'.Identifier ∧ rest = argId'.print ++ next := by
  cases rest with
  | nil => cases hok
  | cons c after =>
      rw [parseArgId] at hok
      dsimp only at hok
      split_ifs at hok with hother hdigit hfollows hname
      · obtain ⟨-, rfl⟩ := Prod.mk.inj (Except.ok.inj hok)
        exact ⟨.auto, trivial, rfl⟩
      · obtain ⟨-, rfl⟩ := Prod.mk.inj (Except.ok.inj hok)
        obtain ⟨id, hid⟩ := exists_index hdigit after
        exact ⟨.index id, trivial, hid⟩
      · obtain ⟨-, rfl⟩ := Prod.mk.inj (Except.ok.inj hok)
        refine ⟨.name (c :: after.takeWhile isNameChar),
          ⟨c, _, rfl, hname, fun d hd => List.mem_takeWhile_imp hd⟩, ?_⟩
        rw [ArgId.print, List.cons_append, List.takeWhile_append_dropWhile]

namespace FormatHandler

variable {σ : Type} (h : FormatHandler σ)

/-- What a piece is read as. -/
def readPiece (s : σ) : FormatPiece → Except Bytes σ
  | .text chars => .ok (h.onText s chars)
  | .field argId _ =>
      (h.onArgId s argId.read).bind fun p => h.onReplacementField p.1 p.2

def readPieces : σ → List FormatPiece → Except Bytes σ
  | s, [] => .ok s
  | s, piece :: pieces => (h.readPiece s piece).bind fun s => readPieces s pieces

/-- Specifiers are read: the field they belong to is the first one that has any. -/
def ReadsSpecs (s : σ) (fmt : Bytes) : Prop :=
  ∃ (pieces : List FormatPiece) (argId : ArgId) (rest : Bytes) (t : σ) (p : σ × ℕ)
    (result : σ × Bytes), argId.Identifier ∧
      fmt = pieces.flatMap FormatPiece.print ++ 0x7B :: (argId.print ++ 0x3A :: rest) ∧
      h.readPieces s pieces = .ok t ∧ h.onArgId t argId.read = .ok p ∧
      h.onFormatSpecs p.1 p.2 rest = .ok result

variable {h} in
theorem ReadsSpecs.cons {s s' : σ} {piece : FormatPiece} {fmt : Bytes}
    (hpiece : h.readPiece s piece = .ok s') (hreads : h.ReadsSpecs s' fmt) :
    h.ReadsSpecs s (piece.print ++ fmt) := by
  obtain ⟨pieces, argId, rest, t, p, result, hargId, rfl, hpieces, hid, hspecs⟩ := hreads
  refine ⟨piece :: pieces, argId, rest, t, p, result, hargId, ?_, ?_, hid, hspecs⟩
  · rw [List.flatMap_cons, List.append_assoc]
  · rw [readPieces, hpiece]
    exact hpieces

/-- A field that is read is a piece, if it has no specifiers. -/
theorem piece_of_field {s s' : σ} {rest next : Bytes}
    (hok : h.parseReplacementField s rest = .ok (s', next)) :
    (∃ piece : FormatPiece, 0x7B :: rest = piece.print ++ next ∧ h.readPiece s piece = .ok s') ∨
      h.ReadsSpecs s (0x7B :: rest) := by
  cases rest with
  | nil => cases hok
  | cons c after =>
      rw [parseReplacementField] at hok
      split_ifs at hok with hclose hopen
      · obtain ⟨p, hid, hfield⟩ := bind_eq_ok hok
        obtain ⟨t, hreplaced, heq⟩ := map_eq_ok hfield
        obtain ⟨rfl, rfl⟩ := Prod.mk.inj heq
        refine .inl ⟨.field .auto trivial, by rw [hclose]; rfl, ?_⟩
        change (h.onArgId s .auto).bind _ = _
        rw [hid]
        exact hreplaced
      · obtain ⟨rfl, rfl⟩ := Prod.mk.inj (Except.ok.inj hok)
        exact .inl ⟨.text [0x7B], by rw [hopen]; rfl, by rw [hopen]; rfl⟩
      · obtain ⟨⟨argId, last⟩, hparse, hfield⟩ := bind_eq_ok hok
        obtain ⟨p, hid, hfield⟩ := bind_eq_ok hfield
        obtain ⟨argId', hargId', hprint⟩ := print_of_parseArgId hparse
        cases last with
        | nil => cases hfield
        | cons d last =>
            -- what is read of an id that has been printed
            have hread (hd : d = 0x7D ∨ d = 0x3A) : argId = argId'.read := by
              have hsame := hparse.symm.trans
                ((congrArg parseArgId hprint).trans (parseArgId_print hargId' hd last))
              exact (Prod.mk.inj (Except.ok.inj hsame)).1
            rw [afterArgId] at hfield
            split_ifs at hfield with hbrace hcolon
            · obtain ⟨t, hreplaced, heq⟩ := map_eq_ok hfield
              obtain ⟨rfl, rfl⟩ := Prod.mk.inj heq
              refine .inl ⟨.field argId' hargId', ?_, ?_⟩
              · rw [hprint, hbrace, FormatPiece.print, List.cons_append, List.append_assoc]
                rfl
              · change (h.onArgId s argId'.read).bind _ = _
                rw [← hread (.inl hbrace), hid]
                exact hreplaced
            · obtain ⟨result, hspecs, -⟩ := bind_eq_ok hfield
              refine .inr ⟨[], argId', last, s, p, result, hargId', ?_, rfl, ?_, hspecs⟩
              · rw [hprint, hcolon]
                rfl
              · rw [← hread (.inr hcolon)]
                exact hid

/-- A string that is accepted consists of pieces, if it has no specifiers. -/
theorem pieces_of_scan {s s' : σ} {fmt : Bytes} (hok : h.scan s fmt = .ok s') :
    (∃ pieces : List FormatPiece, fmt = pieces.flatMap FormatPiece.print) ∨
      h.ReadsSpecs s fmt := by
  fun_induction scan h s fmt with
  | case1 s => exact .inl ⟨[], rfl⟩
  | case2 s after message hfield => cases hok
  | case3 s after s'' next hfield hlt ih =>
      rcases h.piece_of_field hfield with ⟨piece, hpiece, hread⟩ | hreads
      · rw [hpiece]
        rcases ih hok with ⟨pieces, rfl⟩ | hreads
        · exact .inl ⟨piece :: pieces, rfl⟩
        · exact .inr (hreads.cons hread)
      · exact .inr hreads
  | case4 s hopen => cases hok
  | case5 s next hopen ih =>
      rcases ih hok with ⟨pieces, rfl⟩ | hreads
      · exact .inl ⟨.text [0x7D] :: pieces, rfl⟩
      · have hbrace : h.readPiece s (.text [0x7D]) = .ok (h.onText s [0x7D]) := rfl
        exact .inr (hreads.cons hbrace)
  | case6 s d next hd => cases hok
  | case7 s c after hopen hclose ih =>
      have hprint : (FormatPiece.text [c]).print = [c] := by
        simp [FormatPiece.print, hopen, hclose]
      rcases ih hok with ⟨pieces, rfl⟩ | hreads
      · refine .inl ⟨.text [c] :: pieces, ?_⟩
        rw [List.flatMap_cons, hprint]
        rfl
      · have hcons : h.ReadsSpecs s ((FormatPiece.text [c]).print ++ after) := hreads.cons rfl
        rw [hprint] at hcons
        exact .inr hcons

end FormatHandler

/-- What the pieces have been read to is what they give. -/
theorem eq_of_readPieces {args : FormatArgs} {specs : SpecsFormatter} {pieces : List FormatPiece}
    {numbering : Numbering} {out : Bytes} {ctx : FormatContext}
    (hread : (formatHandler args specs).readPieces ⟨numbering.nextArgId, out⟩ pieces = .ok ctx) :
    ∃ last written, numbered args numbering pieces = .ok last ∧
      fill args numbering pieces = .ok written ∧ ctx = ⟨last.nextArgId, out ++ written⟩ := by
  induction pieces generalizing numbering out with
  | nil =>
      refine ⟨numbering, [], rfl, rfl, ?_⟩
      rw [List.append_nil]
      exact (Except.ok.inj hread).symm
  | cons piece pieces ih =>
      obtain ⟨next, hpiece, hread⟩ := bind_eq_ok hread
      cases piece with
      | text chars =>
          obtain rfl : (⟨numbering.nextArgId, out ++ chars⟩ : FormatContext) = next :=
            Except.ok.inj hpiece
          obtain ⟨last, written, hnumbered, hfill, rfl⟩ := ih hread
          refine ⟨last, chars ++ written, hnumbered, ?_, ?_⟩
          · rw [fill, hfill]
            rfl
          · rw [List.append_assoc]
      | field argId hargId =>
          obtain ⟨p, hid, hvalue⟩ := bind_eq_ok hpiece
          obtain ⟨field, hnext, rfl⟩ := map_eq_ok ((onArgId_read ..).symm.trans hid)
          obtain ⟨value, hget, rfl⟩ := map_eq_ok hvalue
          obtain ⟨last, written, hnumbered, hfill, rfl⟩ := ih hread
          refine ⟨last, value ++ written, ?_, ?_, ?_⟩
          · rw [numbered, hnext]
            exact hnumbered
          · rw [fill, hnext]
            change (args.getArg field.2).bind _ = _
            rw [hget]
            change (fill args field.1 pieces).map _ = _
            rw [hfill]
            rfl
          · rw [List.append_assoc]

/-- What is written without any specifiers being read is what a message gives.  Otherwise
pieces come before the first field that has specifiers, and these are read for the argument
of that field, as it is numbered there, with what the pieces give written before it. -/
theorem vformat_accepts (args : FormatArgs) (specs : SpecsFormatter) {out fmt text : Bytes}
    (hok : vformatTo args specs out fmt = .ok text) :
    (∃ pieces : List FormatPiece, fmt = pieces.flatMap FormatPiece.print ∧
      (fill args .undecided pieces).map (out ++ ·) = .ok text) ∨
    ∃ (pieces : List FormatPiece) (argId : ArgId) (rest : Bytes) (numbering : Numbering)
      (written : Bytes) (field : Numbering × ℕ) (value : Bytes) (result : FormatContext × Bytes),
      argId.Identifier ∧
      fmt = pieces.flatMap FormatPiece.print ++ 0x7B :: (argId.print ++ 0x3A :: rest) ∧
      numbered args .undecided pieces = .ok numbering ∧
      fill args .undecided pieces = .ok written ∧
      numbering.next args argId = .ok field ∧ args.getArg field.2 = .ok value ∧
      specs.format ⟨field.1.nextArgId, out ++ written⟩ field.2 rest = .ok result := by
  have hscan := (vformatTo_eq_scan args specs out fmt).symm.trans hok
  obtain ⟨ctx, hscan, -⟩ := map_eq_ok hscan
  rcases (formatHandler args specs).pieces_of_scan hscan with ⟨pieces, rfl⟩ | hreads
  · have hfill := (vformatTo_eq_scan args specs out _).trans
      (scan_pieces args specs pieces .undecided out)
    exact .inl ⟨pieces, rfl, hfill.symm.trans hok⟩
  · obtain ⟨pieces, argId, rest, t, p, result, hargId, hfmt, hpieces, hid, hspecs⟩ := hreads
    have hstart : (formatHandler args specs).readPieces ⟨Numbering.undecided.nextArgId, out⟩
        pieces = .ok t := hpieces
    obtain ⟨numbering, written, hnumbered, hfill, rfl⟩ := eq_of_readPieces hstart
    obtain ⟨field, hnext, rfl⟩ := map_eq_ok ((onArgId_read ..).symm.trans hid)
    obtain ⟨value, hget, hspecs⟩ := bind_eq_ok hspecs
    exact .inr ⟨pieces, argId, rest, numbering, written, field, value, result, hargId, hfmt,
      hnumbered, hfill, hnext, hget, hspecs⟩

/-- An argument that takes no specifiers. -/
def noSpecifiers : SpecsFormatter where
  format _ _ _ := .error (ascii "invalid type specifier")
  suffix _ _ _ _ _ hok := by cases hok

theorem vformat_accepts_doubled :
    ∃ pieces : List FormatPiece,
      [0x7B, 0x7B] ++ ascii "at " ++ [0x7B, 0x7D] = pieces.flatMap FormatPiece.print ∧
      (fill ⟨[ascii "7"], []⟩ .undecided pieces).map (ascii "> " ++ ·) =
        .ok (ascii "> " ++ [0x7B] ++ ascii "at 7") := by
  let pieces : List FormatPiece := [.text ([0x7B] ++ ascii "at "), .field .auto trivial]
  have hprint : [0x7B, 0x7B] ++ ascii "at " ++ [0x7B, 0x7D] =
      pieces.flatMap FormatPiece.print := by
    decide
  have hok : vformatTo ⟨[ascii "7"], []⟩ noSpecifiers (ascii "> ")
      ([0x7B, 0x7B] ++ ascii "at " ++ [0x7B, 0x7D]) =
      .ok (ascii "> " ++ [0x7B] ++ ascii "at 7") := by
    rw [hprint, vformatTo_eq_scan]
    exact scan_pieces ⟨[ascii "7"], []⟩ noSpecifiers pieces .undecided (ascii "> ")
  rcases vformat_accepts _ noSpecifiers hok with
      h | ⟨_, _, _, _, _, _, _, _, -, -, -, -, -, -, hspecs⟩
  · exact h
  · cases hspecs

end Structlog.Fmt
