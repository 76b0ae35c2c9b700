import Structlog.FormatSpecs

/-!
# Fields with specifiers

`format_handler` has the specifiers of a field read by `parse_format_specs`, whose handler
then formats the argument.  What that handler is remains open here: whatever it does, a
message is what its pieces add to it, and depends on its specifiers only through what they
tell the handler (`vformat_tells`).
-/

namespace Structlog.Fmt

open Lib

/-- The specifiers are told to `h`, and `write` formats the argument as they say. -/
def SpecsFormatter.ofHandler {σ : Type} (h : SpecEvent → σ → Except Bytes σ)
    (start : FormatContext → ℕ → σ) (write : σ → Except Bytes FormatContext) :
    SpecsFormatter where
  format ctx id rest :=
    (parseFormatSpecs h (start ctx id) rest).bind fun p =>
      if p.2.head? = some 0x7D then (write p.1).map fun ctx => (ctx, p.2)
      else .error missingBrace
  suffix ctx id rest ctx' rest' hok := by
    obtain ⟨⟨s, next⟩, hread, hok⟩ := bind_eq_ok hok
    dsimp only at hok
    split_ifs at hok
    obtain ⟨t, -, heq⟩ := map_eq_ok hok
    obtain ⟨-, rfl⟩ := Prod.mk.inj heq
    exact parseFormatSpecs_leaves _ rest s _ hread

/-! ## Pieces -/

/-- What a format string consists of.  A field that has a colon has specifiers. -/
inductive SpecsPiece
  | plain (piece : FormatPiece)
  | field (argId : ArgId) (identifier : argId.Identifier) (specs : FormatSpecs)
      (nonempty : specs.print ≠ [])

def SpecsPiece.print : SpecsPiece → Bytes
  | plain piece => piece.print
  | field argId _ specs _ => 0x7B :: (argId.print ++ 0x3A :: (specs.print ++ [0x7D]))

theorem FormatHandler.parseReplacementField_specs {σ : Type} (h : FormatHandler σ) (s : σ)
    {argId : ArgId} (hargId : argId.Identifier) (rest : Bytes) :
    h.parseReplacementField s (argId.print ++ 0x3A :: rest) =
      (h.onArgId s argId.read).bind fun p =>
        (h.onFormatSpecs p.1 p.2 rest).bind fun q => closeField q.1 q.2 := by
  have hhead : ∃ c after, argId.print ++ 0x3A :: rest = c :: after ∧ c ≠ 0x7D ∧ c ≠ 0x7B := by
    cases argId with
    | auto => exact ⟨0x3A, rest, rfl, by decide, by decide⟩
    | index id =>
        obtain ⟨c, after, hdecimal, hc⟩ := decimal_cons id
        exact ⟨c, after ++ 0x3A :: rest, by rw [ArgId.print, hdecimal]; rfl,
          ne_of_isDigit hc rfl, ne_of_isDigit hc rfl⟩
    | name id =>
        obtain ⟨c, after, rfl, hc, -⟩ := hargId
        obtain ⟨-, hopen, hclose, -⟩ := isNameStart_bounds hc
        exact ⟨c, after ++ 0x3A :: rest, rfl, hclose, hopen⟩
  -- so the field is neither empty nor a doubled brace
  obtain ⟨c, after, htext, hclose, hopen⟩ := hhead
  have hparse := parseArgId_print hargId (.inr rfl) rest
  rw [htext] at hparse ⊢
  rw [parseReplacementField, if_neg hclose, if_neg hopen, hparse]
  rfl

section Pieces

variable {σ : Type} (args : FormatArgs) (h : SpecEvent → σ → Except Bytes σ)
  (start : FormatContext → ℕ → σ) (write : σ → Except Bytes FormatContext)

/-- What a piece adds to a message. -/
def SpecsPiece.apply (ctx : FormatContext) : SpecsPiece → Except Bytes FormatContext
  | plain (.text chars) => .ok (ctx.onText chars)
  | plain (.field argId _) =>
      (FormatContext.onArgId args ctx argId.read).bind fun p => p.1.onReplacementField args p.2
  | field argId _ specs _ =>
      (FormatContext.onArgId args ctx argId.read).bind fun p =>
        (args.getArg p.2).bind fun _ => (emit h specs.events (start p.1 p.2)).bind write

theorem scan_piece (piece : SpecsPiece) (ctx : FormatContext) (rest : Bytes) :
    (formatHandler args (.ofHandler h start write)).scan ctx (piece.print ++ rest) =
      (piece.apply args h start write ctx).bind fun ctx =>
        (formatHandler args (.ofHandler h start write)).scan ctx rest := by
  rcases piece with (chars | ⟨argId, hargId⟩) | ⟨argId, hargId, specs, hnonempty⟩
  · exact FormatHandler.scan_doubled _ ctx chars rest
  · rw [SpecsPiece.print, FormatPiece.print, List.cons_append, List.append_assoc,
      FormatHandler.scan_field, List.singleton_append,
      FormatHandler.parseReplacementField_print _ _ hargId]
    change ((FormatContext.onArgId args ctx argId.read).bind _).bind _ =
      ((FormatContext.onArgId args ctx argId.read).bind _).bind _
    cases FormatContext.onArgId args ctx argId.read with
    | error message => rfl
    | ok p =>
        change ((p.1.onReplacementField args p.2).map _).bind _ =
          (p.1.onReplacementField args p.2).bind _
        cases p.1.onReplacementField args p.2 <;> rfl
  · have htext : (SpecsPiece.field argId hargId specs hnonempty).print ++ rest =
        0x7B :: (argId.print ++ 0x3A :: (specs.print ++ 0x7D :: rest)) := by
      simp [SpecsPiece.print]
    rw [htext, FormatHandler.scan_field, FormatHandler.parseReplacementField_specs _ _ hargId]
    change ((FormatContext.onArgId args ctx argId.read).bind _).bind _ =
      ((FormatContext.onArgId args ctx argId.read).bind _).bind _
    cases FormatContext.onArgId args ctx argId.read with
    | error message => rfl
    | ok p =>
        change (((args.getArg p.2).bind _).bind _).bind _ = ((args.getArg p.2).bind _).bind _
        cases args.getArg p.2 with
        | error message => rfl
        | ok value =>
            -- the value itself is left to `write`
            have htold : parseFormatSpecs h (start p.1 p.2) (specs.print ++ 0x7D :: rest) = _ :=
              reads_specs specs (fun hempty => absurd hempty hnonempty) (start p.1 p.2)
            change (((parseFormatSpecs h (start p.1 p.2) _).bind _).bind _).bind _ =
              ((emit h specs.events (start p.1 p.2)).bind write).bind _
            rw [htold]
            cases emit h specs.events (start p.1 p.2) with
            | error message => rfl
            | ok s =>
                change (((write s).map _).bind _).bind _ = (write s).bind _
                cases write s <;> rfl

theorem scan_specs_pieces (pieces : List SpecsPiece) (ctx : FormatContext) :
    (formatHandler args (.ofHandler h start write)).scan ctx
        (pieces.flatMap SpecsPiece.print) =
      pieces.foldlM (SpecsPiece.apply args h start write) ctx := by
  induction pieces generalizing ctx with
  | nil => exact FormatHandler.scan_nil _ ctx
  | cons piece pieces ih =>
      rw [List.flatMap_cons, scan_piece, List.foldlM_cons]
      change Except.bind _ _ = Except.bind _ _
      cases piece.apply args h start write ctx with
      | error message => rfl
      | ok ctx => exact ih ctx

/-- A message is what its pieces add to it, one after the other. -/
theorem vformat_tells (out : Bytes) (pieces : List SpecsPiece) :
    vformatTo args (.ofHandler h start write) out (pieces.flatMap SpecsPiece.print) =
      (pieces.foldlM (SpecsPiece.apply args h start write) ⟨0, out⟩).map FormatContext.out :=
  (vformatTo_eq_scan args _ out _).trans
    (congrArg _ (scan_specs_pieces args h start write pieces ⟨0, out⟩))

end Pieces

end Structlog.Fmt
