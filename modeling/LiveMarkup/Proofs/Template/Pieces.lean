import LiveMarkup.Proofs.Expr.Reading
import LiveMarkup.Template.Parser

/-! Pieces and their tokens: a template whose tokens are those of some pieces is read as these. -/

namespace LiveMarkup

namespace Piece

open LiveMarkup.Expr (outcome outcome_eq_ok parse_begins read_before)

variable {piece : Piece} {ps : List Piece} {ts rest : List Lexeme} {t k : Lexeme} {e : Expr} {p q : Pos}

/-- The tokens of a piece. Its expression is what its tokens are by themselves. -/
inductive Spelled : Piece → List Lexeme → Prop where
  | text (s : String) (p : Pos) : Spelled (text s) [⟨.text s, p⟩]
  | value {ts : List Lexeme} {e : Expr} (p q : Pos) (he : Expr.parse ts = .ok (e, [])) :
    Spelled (value e) (⟨.symbol .openTag, p⟩ :: (ts ++ [⟨.symbol .closeTag, q⟩]))
  | openEach {ts : List Lexeme} {items : Expr} (p q pk pas px : Pos) (x : String)
    (he : Expr.parse ts = .ok (items, [])) :
    Spelled (openEach ⟨.keyword .each, pk⟩ items x none)
      (⟨.symbol .openTag, p⟩ :: ⟨.keyword .each, pk⟩ ::
        (ts ++ [⟨.keyword .asWord, pas⟩, ⟨.name x, px⟩, ⟨.symbol .closeTag, q⟩]))
  | openEachIndexed {ts : List Lexeme} {items : Expr} (p q pk pas px pcomma pi : Pos) (x i : String)
    (he : Expr.parse ts = .ok (items, [])) :
    Spelled (openEach ⟨.keyword .each, pk⟩ items x (some i))
      (⟨.symbol .openTag, p⟩ :: ⟨.keyword .each, pk⟩ ::
        (ts ++ [⟨.keyword .asWord, pas⟩, ⟨.name x, px⟩, ⟨.symbol .comma, pcomma⟩, ⟨.name i, pi⟩,
          ⟨.symbol .closeTag, q⟩]))
  | openIf {ts : List Lexeme} {test : Expr} (p q pk : Pos) (he : Expr.parse ts = .ok (test, [])) :
    Spelled (openIf ⟨.keyword .ifWord, pk⟩ test)
      (⟨.symbol .openTag, p⟩ :: ⟨.keyword .ifWord, pk⟩ :: (ts ++ [⟨.symbol .closeTag, q⟩]))
  | elseIf {ts : List Lexeme} {test : Expr} (p q pk pif : Pos) (he : Expr.parse ts = .ok (test, [])) :
    Spelled (elseIf ⟨.keyword .elseWord, pk⟩ test)
      (⟨.symbol .openTag, p⟩ :: ⟨.keyword .elseWord, pk⟩ :: ⟨.keyword .ifWord, pif⟩ ::
        (ts ++ [⟨.symbol .closeTag, q⟩]))
  | otherwise (p q pk : Pos) : Spelled (otherwise ⟨.keyword .elseWord, pk⟩)
      [⟨.symbol .openTag, p⟩, ⟨.keyword .elseWord, pk⟩, ⟨.symbol .closeTag, q⟩]
  | closeEach (p q pk : Pos) : Spelled (closeEach ⟨.keyword .closeEach, pk⟩)
      [⟨.symbol .openTag, p⟩, ⟨.keyword .closeEach, pk⟩, ⟨.symbol .closeTag, q⟩]
  | closeIf (p q pk : Pos) : Spelled (closeIf ⟨.keyword .closeIf, pk⟩)
      [⟨.symbol .openTag, p⟩, ⟨.keyword .closeIf, pk⟩, ⟨.symbol .closeTag, q⟩]

inductive SpelledAll : List Piece → List Lexeme → Prop where
  | nil : SpelledAll [] []
  | cons {piece : Piece} {ps : List Piece} {ts rest : List Lexeme} (h : Spelled piece ts)
    (hrest : SpelledAll ps rest) : SpelledAll (piece :: ps) (ts ++ rest)

/-! Expressions in tags. -/

private theorem atEnd_of_parse (he : Expr.parse ts = .ok (e, [])) : atEnd (ts ++ rest) = false := by
  obtain ⟨t, ts', rfl, ht⟩ := parse_begins he
  refine Bool.eq_false_iff.2 fun hend => ?_
  rw [Expr.isSymbol_iff.1 hend] at ht
  cases ht

private theorem readTest_spelled (rest : List Lexeme) (he : Expr.parse ts = .ok (e, [])) :
    outcome (readTest k (ts ++ ⟨.symbol .closeTag, q⟩ :: rest)) = .ok (e, rest) := by
  obtain ⟨_, hread⟩ := read_before (.symbol .closeTag) q rest he (by decide)
  rw [readTest, atEnd_of_parse he]
  simp only [Bool.false_eq_true, if_false, hread, readEnd, Token.isSymbol, beq_self_eq_true, if_true]
  rfl

private theorem readTested_spelled (he : Expr.parse ts = .ok (e, [])) (tested : Expr → Piece) :
    outcome (readTested tested k (ts ++ ⟨.symbol .closeTag, q⟩ :: rest)) = .ok (tested e, rest) := by
  obtain ⟨_, htest⟩ := outcome_eq_ok.1 (readTest_spelled (k := k) (q := q) rest he)
  rw [readTested, htest]
  rfl

private theorem readValue_spelled (rest : List Lexeme) (he : Expr.parse ts = .ok (e, [])) :
    outcome (readValue (ts ++ ⟨.symbol .closeTag, q⟩ :: rest)) = .ok (.value e, rest) := by
  obtain ⟨_, hread⟩ := read_before (.symbol .closeTag) q rest he (by decide)
  rw [readValue, hread]
  simp only [readEnd, Token.isSymbol, beq_self_eq_true, if_true]
  rfl

/-- A tag that begins as an expression does is a value. -/
theorem readTag_of_begins (ht : Expr.begins t.token = true) : readTag (t :: ts) = readValue (t :: ts) := by
  obtain ⟨token, pos⟩ := t
  cases token with
  | keyword k => cases ht
  | symbol s => cases s <;> first | rfl | cases ht
  | _ => rfl

private theorem readEach_spelled {x : String} {index : Option String} {pas px : Pos}
    (binding : List Lexeme) (he : Expr.parse ts = .ok (e, []))
    (hb : outcome (readIndex (binding ++ ⟨.symbol .closeTag, q⟩ :: rest)) =
      .ok (index, ⟨.symbol .closeTag, q⟩ :: rest)) :
    outcome (readEach k (ts ++ ⟨.keyword .asWord, pas⟩ :: ⟨.name x, px⟩ ::
      (binding ++ ⟨.symbol .closeTag, q⟩ :: rest))) = .ok (.openEach k e x index, rest) := by
  obtain ⟨_, hread⟩ := read_before (.keyword .asWord) pas
    (⟨.name x, px⟩ :: (binding ++ ⟨.symbol .closeTag, q⟩ :: rest)) he (by decide)
  obtain ⟨_, hb⟩ := outcome_eq_ok.1 hb
  rw [readEach, atEnd_of_parse he]
  simp only [Bool.false_eq_true, if_false, hread, Token.isKeyword, beq_self_eq_true, if_true,
    readBinding, hb, readEnd, Token.isSymbol]
  rfl

theorem outcome_within {α : Type} {m n : Nat} {r : Except CompileError (Expr.Reads α m)} (h : m ≤ n) :
    outcome (r.map fun r => r.within h) = outcome r := by
  cases r <;> rfl

theorem read_openTag (p : Pos) (ts : List Lexeme) :
    outcome (Piece.read ⟨.symbol .openTag, p⟩ ts) = outcome (readTag ts) := outcome_within _

/-- The tokens of a piece are read as the piece. -/
private theorem Spelled.read (h : Spelled piece ts) :
    ∃ t ts', ts = t :: ts' ∧ ∀ rest, outcome (Piece.read t (ts' ++ rest)) = .ok (piece, rest) := by
  cases h with
  | text s p => exact ⟨_, _, rfl, fun rest => rfl⟩
  | @value ts e p q he =>
    refine ⟨_, _, rfl, fun rest => ?_⟩
    have hvalue := readValue_spelled (q := q) rest he
    obtain ⟨t, ts', rfl, ht⟩ := parse_begins he
    rw [read_openTag, List.append_assoc, List.cons_append, readTag_of_begins ht]
    exact hvalue
  | openEach p q pk pas px x he =>
    refine ⟨_, _, rfl, fun rest => ?_⟩
    rw [read_openTag, List.cons_append, List.append_assoc]
    exact (outcome_within _).trans (readEach_spelled [] he rfl)
  | openEachIndexed p q pk pas px pcomma pi x i he =>
    refine ⟨_, _, rfl, fun rest => ?_⟩
    rw [read_openTag, List.cons_append, List.append_assoc]
    exact (outcome_within _).trans
      (readEach_spelled [⟨.symbol .comma, pcomma⟩, ⟨.name i, pi⟩] he rfl)
  | openIf p q pk he =>
    refine ⟨_, _, rfl, fun rest => ?_⟩
    rw [read_openTag, List.cons_append, List.append_assoc]
    exact (outcome_within _).trans (readTested_spelled he _)
  | elseIf p q pk pif he =>
    refine ⟨_, _, rfl, fun rest => ?_⟩
    rw [read_openTag, List.cons_append, List.cons_append, List.append_assoc]
    exact (outcome_within _).trans (readTested_spelled he _)
  | otherwise | closeEach | closeIf =>
    refine ⟨_, _, rfl, fun rest => ?_⟩
    rw [read_openTag]
    rfl

/-- The tokens of pieces are read as the pieces, and none of them is malformed. -/
theorem SpelledAll.readAll (h : SpelledAll ps ts) : readAll ts = (ps, none) := by
  induction h with
  | nil => rw [Piece.readAll]
  | @cons piece ps ts rest h _ ih =>
    obtain ⟨t, ts', rfl, hread⟩ := h.read
    obtain ⟨_, hread⟩ := outcome_eq_ok.1 (hread rest)
    rw [List.cons_append, Piece.readAll, hread]
    simp only [ih]

end Piece

end LiveMarkup
