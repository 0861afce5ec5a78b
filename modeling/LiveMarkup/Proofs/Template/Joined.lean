import LiveMarkup.Proofs.Eval.Relocate
import LiveMarkup.Proofs.Expr.Used
import LiveMarkup.Proofs.Template.Nesting

/-! Tokens of templates one after the other. What compiles is made of whole tags and whole blocks, so
that the tokens of two templates compile to the statements of the first and those of the second. -/

namespace LiveMarkup

namespace Piece

open LiveMarkup.Expr (isKeyword_iff isSymbol_iff outcome outcome_eq_ok read_eq)

variable {piece : Piece} {ps ps' : List Piece} {ts ts' rest : List Lexeme} {t k : Lexeme} {e : Expr}

/-! A piece is read from tokens that spell it. -/

private theorem symbol_eta {s : Symbol} (h : t.token.isSymbol s = true) : t = ⟨.symbol s, t.pos⟩ := by
  rw [← isSymbol_iff.1 h]

private theorem readEnd_eq (h : outcome (readEnd ts) = .ok ((), rest)) :
    ∃ q, ts = ⟨.symbol .closeTag, q⟩ :: rest := by
  cases ts with
  | nil => cases h
  | cons t ts =>
    rw [readEnd] at h
    split at h
    · next ht =>
      cases h
      exact ⟨t.pos, by rw [← symbol_eta ht]⟩
    · cases h

theorem readBinding_eq {x : String} (h : outcome (readBinding ts) = .ok (x, rest)) :
    ∃ p, ts = ⟨.name x, p⟩ :: rest := by
  cases ts with
  | nil => cases h
  | cons t ts =>
    obtain ⟨token, pos⟩ := t
    cases token with
    | name y =>
      cases h
      exact ⟨pos, rfl⟩
    | _ => cases h

/-- The expression that a tag contains up to its closing braces. -/
private theorem read_closed (he : Expr.read ts = .ok ⟨e, ts', h⟩)
    (hend : outcome (readEnd ts') = .ok ((), rest)) :
    ∃ used q, ts = used ++ ⟨.symbol .closeTag, q⟩ :: rest ∧ Expr.parse used = .ok (e, []) := by
  obtain ⟨q, rfl⟩ := readEnd_eq hend
  obtain ⟨used, rfl, hused⟩ := read_eq (outcome_eq_ok.2 ⟨_, he⟩)
  exact ⟨used, q, rfl, hused⟩

private theorem readValue_eq (h : outcome (readValue ts) = .ok (piece, rest)) :
    ∃ used q e, ts = used ++ ⟨.symbol .closeTag, q⟩ :: rest ∧ Expr.parse used = .ok (e, []) ∧
      piece = .value e := by
  unfold readValue at h
  split at h
  · cases h
  · next e ts' hlt he =>
    split at h
    · cases h
    · next hend =>
      cases h
      obtain ⟨used, q, rfl, hused⟩ := read_closed he (outcome_eq_ok.2 ⟨_, hend⟩)
      exact ⟨used, q, e, rfl, hused, rfl⟩

private theorem readTested_eq {tested : Expr → Piece}
    (h : outcome (readTested tested k ts) = .ok (piece, rest)) :
    ∃ used q e, ts = used ++ ⟨.symbol .closeTag, q⟩ :: rest ∧ Expr.parse used = .ok (e, []) ∧
      piece = tested e := by
  unfold readTested at h
  split at h
  · cases h
  · next e rest' hlt htest =>
    cases h
    unfold readTest at htest
    split at htest
    · cases htest
    · split at htest
      · cases htest
      · next he =>
        split at htest
        · cases htest
        · next hend =>
          cases htest
          obtain ⟨used, q, rfl, hused⟩ := read_closed he (outcome_eq_ok.2 ⟨_, hend⟩)
          exact ⟨used, q, e, rfl, hused, rfl⟩

private theorem readBare_eq {bare : Piece} (h : outcome (readBare bare ts) = .ok (piece, rest)) :
    (∃ q, ts = ⟨.symbol .closeTag, q⟩ :: rest) ∧ piece = bare := by
  unfold readBare at h
  split at h
  · cases h
  · next hend =>
    cases h
    exact ⟨readEnd_eq (outcome_eq_ok.2 ⟨_, hend⟩), rfl⟩

theorem readIndex_eq {index : Option String} (h : outcome (readIndex ts) = .ok (index, rest)) :
    (index = none ∧ ts = rest) ∨
      ∃ p q x, index = some x ∧ ts = ⟨.symbol .comma, p⟩ :: ⟨.name x, q⟩ :: rest := by
  unfold readIndex at h
  split at h
  · cases h
    exact .inl ⟨rfl, rfl⟩
  · next t ts =>
    split at h
    · next ht =>
      split at h
      · cases h
      · next x rest' hlt hx =>
        cases h
        obtain ⟨q, rfl⟩ := readBinding_eq (outcome_eq_ok.2 ⟨_, hx⟩)
        exact .inr ⟨t.pos, q, x, rfl, by rw [← symbol_eta ht]⟩
    · cases h
      exact .inl ⟨rfl, rfl⟩

/-- A loop up to the closing braces: what it repeats over, the name of an element and, after a comma,
that of its position. -/
private theorem readEach_eq (h : outcome (readEach k ts) = .ok (piece, rest)) :
    ∃ used e pas px x index binding q, Expr.parse used = .ok (e, []) ∧ piece = .openEach k e x index ∧
      ts = used ++ ⟨.keyword .asWord, pas⟩ :: ⟨.name x, px⟩ :: (binding ++ ⟨.symbol .closeTag, q⟩ :: rest) ∧
      ((index = none ∧ binding = []) ∨
        ∃ p p' i, index = some i ∧ binding = [⟨.symbol .comma, p⟩, ⟨.name i, p'⟩]) := by
  unfold readEach at h
  split at h
  · cases h
  · split at h
    · cases h
    · cases h
    · next e t ts' hlt he =>
      split at h
      · next ht =>
        split at h
        · cases h
        · next x ts₁ hlt₁ hx =>
          split at h
          · cases h
          · next index ts₂ hlt₂ hindex =>
            split at h
            · cases h
            · next hend =>
              cases h
              obtain ⟨px, rfl⟩ := readBinding_eq (outcome_eq_ok.2 ⟨_, hx⟩)
              obtain ⟨q, rfl⟩ := readEnd_eq (outcome_eq_ok.2 ⟨_, hend⟩)
              obtain ⟨used, rfl, hused⟩ := read_eq (outcome_eq_ok.2 ⟨_, he⟩)
              obtain ⟨token, pas⟩ := t
              obtain rfl := isKeyword_iff.1 ht
              obtain ⟨rfl, rfl⟩ | ⟨p, p', i, rfl, rfl⟩ := readIndex_eq (outcome_eq_ok.2 ⟨_, hindex⟩)
              · exact ⟨used, e, pas, px, x, none, [], q, hused, rfl, rfl, .inl ⟨rfl, rfl⟩⟩
              · exact ⟨used, e, pas, px, x, some i, _, q, hused, rfl, rfl, .inr ⟨p, p', i, rfl, rfl⟩⟩
      · cases h

private theorem spelled_of_readValue {p : Pos} (h : outcome (readValue ts) = .ok (piece, rest)) :
    ∃ used, ⟨.symbol .openTag, p⟩ :: ts = used ++ rest ∧ Spelled piece used := by
  obtain ⟨used, q, e, rfl, hused, rfl⟩ := readValue_eq h
  exact ⟨_, by rw [List.cons_append, List.append_assoc, List.singleton_append], .value p q hused⟩

/-- A tag that is read is spelled by its opening braces and the tokens that it takes. -/
private theorem spelled_of_readTag {p pk : Pos} {token : Token}
    (h : outcome (readTag (⟨token, pk⟩ :: ts)) = .ok (piece, rest)) :
    ∃ used, ⟨.symbol .openTag, p⟩ :: ⟨token, pk⟩ :: ts = used ++ rest ∧ Spelled piece used := by
  have hwithin {α : Type} {m n : Nat} {r : Except CompileError (Expr.Reads α m)} {hle : m ≤ n}
      {a : α × List Lexeme} (h : outcome (r.map fun r => r.within hle) = .ok a) : outcome r = .ok a :=
    (outcome_within hle).symm.trans h
  cases token with
  | keyword k =>
    cases k with
    | each =>
      obtain ⟨used, e, pas, px, x, index, binding, q, hused, rfl, rfl, hbinding⟩ := readEach_eq (hwithin h)
      obtain ⟨rfl, rfl⟩ | ⟨p', p'', i, rfl, rfl⟩ := hbinding
      · exact ⟨_, by simp, .openEach p q pk pas px x hused⟩
      · exact ⟨_, by simp, .openEachIndexed p q pk pas px p' p'' x i hused⟩
    | ifWord =>
      obtain ⟨used, q, e, rfl, hused, rfl⟩ := readTested_eq (hwithin h)
      exact ⟨_, by simp, .openIf p q pk hused⟩
    | elseWord =>
      cases ts with
      | nil => cases h
      | cons t ts =>
        rw [readTag] at h
        dsimp only at h
        split at h
        · next ht =>
          obtain ⟨token, pif⟩ := t
          obtain rfl := isKeyword_iff.1 ht
          obtain ⟨used, q, e, rfl, hused, rfl⟩ := readTested_eq (hwithin h)
          exact ⟨_, by simp, .elseIf p q pk pif hused⟩
        · obtain ⟨⟨q, hq⟩, rfl⟩ := readBare_eq (hwithin h)
          rw [hq]
          exact ⟨_, by simp, .otherwise p q pk⟩
    | closeEach =>
      obtain ⟨⟨q, rfl⟩, rfl⟩ := readBare_eq (hwithin h)
      exact ⟨_, by simp, .closeEach p q pk⟩
    | closeIf =>
      obtain ⟨⟨q, rfl⟩, rfl⟩ := readBare_eq (hwithin h)
      exact ⟨_, by simp, .closeIf p q pk⟩
    | _ => exact spelled_of_readValue h
  | symbol s =>
    cases s with
    | closeTag => cases h
    | _ => exact spelled_of_readValue h
  | _ => exact spelled_of_readValue h

/-- A piece that is read is spelled by the tokens that it takes. -/
theorem spelled_of_read (h : outcome (Piece.read t ts) = .ok (piece, rest)) :
    ∃ used, t :: ts = used ++ rest ∧ Spelled piece used := by
  obtain ⟨token, p⟩ := t
  cases token with
  | text s =>
    cases h
    exact ⟨[_], rfl, .text s p⟩
  | symbol s =>
    cases s with
    | openTag =>
      rw [read_openTag] at h
      cases ts with
      | nil => cases h
      | cons t ts => exact spelled_of_readTag h
    | _ => cases h
  | _ => cases h

/-- Tokens of which all pieces are read spell these. -/
private theorem spelledAll_of_readAll (h : readAll ts = (ps, none)) : SpelledAll ps ts := by
  fun_induction readAll ts generalizing ps with
  | case1 =>
    cases h
    exact .nil
  | case2 => cases h
  | case3 t ts piece rest hlt hread more =>
    rename_i ih
    obtain ⟨used, hused, hspelled⟩ := spelled_of_read (outcome_eq_ok.2 ⟨_, hread⟩)
    obtain ⟨rfl, hnone⟩ := Prod.mk.inj h
    rw [hused]
    exact .cons hspelled (ih (Prod.ext rfl hnone))

/-! Sequences of pieces. -/

private theorem SpelledAll.append (h : SpelledAll ps ts) (h' : SpelledAll ps' ts') :
    SpelledAll (ps ++ ps') (ts ++ ts') := by
  induction h with
  | nil => exact h'
  | cons h _ ih =>
    rw [List.append_assoc]
    exact .cons h ih

def ofText (cs : List Char) : List Piece := if cs.isEmpty then [] else [.text (String.ofList cs)]

theorem spelledAll_ofText (p : Pos) (cs : List Char) : SpelledAll (ofText cs) (Lexer.textLexemes p cs) := by
  cases cs with
  | nil => exact .nil
  | cons c cs => exact .cons (.text _ p) .nil

private theorem SpelledAll.eq_nil (h : SpelledAll ps []) : ps = [] := by
  generalize hts : ([] : List Lexeme) = ts at h
  cases h with
  | nil => rfl
  | cons h _ => cases h <;> cases hts

/-- A piece is a text, or its tokens are between braces. -/
private theorem Spelled.text_or_tag (h : Spelled piece ts) :
    (∃ s p, piece = .text s ∧ ts = [⟨.text s, p⟩]) ∨
    ∃ p inner q, ts = ⟨.symbol .openTag, p⟩ :: (inner ++ [⟨.symbol .closeTag, q⟩]) := by
  cases h with
  | text s p => exact .inl ⟨s, p, rfl, rfl⟩
  | value p q => exact .inr ⟨p, _, q, rfl⟩
  | openIf p q => exact .inr ⟨p, _ :: _, q, rfl⟩
  | elseIf p q => exact .inr ⟨p, _ :: _ :: _, q, rfl⟩
  | @openEach ts _ p q pk pas px x =>
    exact .inr ⟨p, ⟨.keyword .each, pk⟩ :: (ts ++ [⟨.keyword .asWord, pas⟩, ⟨.name x, px⟩]), q, by simp⟩
  | @openEachIndexed ts _ p q pk pas px pcomma pi x i =>
    exact .inr ⟨p, ⟨.keyword .each, pk⟩ :: (ts ++ [⟨.keyword .asWord, pas⟩, ⟨.name x, px⟩,
      ⟨.symbol .comma, pcomma⟩, ⟨.name i, pi⟩]), q, by simp⟩
  | otherwise p q | closeEach p q | closeIf p q => exact .inr ⟨p, [_], q, rfl⟩

/-- A text at the end is the last piece. -/
private theorem SpelledAll.of_append_text {s : String} {p : Pos}
    (h : SpelledAll ps (ts ++ [⟨.text s, p⟩])) :
    ∃ before, ps = before ++ [.text s] ∧ SpelledAll before ts := by
  generalize hall : ts ++ [⟨.text s, p⟩] = all at h
  induction h generalizing ts with
  | nil => simp at hall
  | @cons piece ps us rest h hrest ih =>
    rcases rest.eq_nil_or_concat with rfl | ⟨rest, t, rfl⟩
    · obtain rfl := hrest.eq_nil
      rw [List.append_nil] at hall
      obtain ⟨s', p', rfl, rfl⟩ | ⟨p', inner, q, rfl⟩ := h.text_or_tag
      · obtain ⟨rfl, hlast⟩ := List.append_inj' (hall.trans (List.nil_append _).symm) rfl
        cases hlast
        exact ⟨[], rfl, .nil⟩
      · have hlast := List.append_inj_right' (hall.trans (List.cons_append ..).symm) rfl
        cases hlast
    · rw [List.concat_eq_append, ← List.append_assoc] at hall
      obtain ⟨rfl, hlast⟩ := List.append_inj' hall rfl
      cases hlast
      obtain ⟨before, rfl, hbefore⟩ := ih List.concat_eq_append.symm
      exact ⟨piece :: before, rfl, .cons h hbefore⟩

private theorem SpelledAll.of_append_ofText {p : Pos} {cs : List Char}
    (h : SpelledAll ps (ts ++ Lexer.textLexemes p cs)) :
    ∃ before, ps = before ++ ofText cs ∧ SpelledAll before ts := by
  cases cs with
  | nil => exact ⟨ps, (List.append_nil ps).symm, List.append_nil ts ▸ h⟩
  | cons c cs => exact h.of_append_text

/-- A text at the beginning is the first piece. -/
private theorem SpelledAll.of_ofText_append {p : Pos} {cs : List Char}
    (h : SpelledAll ps (Lexer.textLexemes p cs ++ ts)) :
    ∃ after, ps = ofText cs ++ after ∧ SpelledAll after ts := by
  cases cs with
  | nil => exact ⟨ps, rfl, h⟩
  | cons c cs =>
    generalize hall : Lexer.textLexemes p (c :: cs) ++ ts = all at h
    cases h with
    | nil => cases hall
    | @cons piece ps us rest h hrest =>
      obtain ⟨s, p', rfl, rfl⟩ | ⟨p', inner, q, rfl⟩ := h.text_or_tag
      · cases hall
        exact ⟨ps, rfl, hrest⟩
      · cases hall

/-! Moved pieces. -/

def move (f : Pos → Pos) : Piece → Piece
  | text s => text s
  | value e => value (e.move f)
  | openEach k items item index => openEach (k.move f) (items.move f) item index
  | openIf k test => openIf (k.move f) (test.move f)
  | elseIf k test => elseIf (k.move f) (test.move f)
  | otherwise k => otherwise (k.move f)
  | closeEach k => closeEach (k.move f)
  | closeIf k => closeIf (k.move f)

private theorem Spelled.move (f : Pos → Pos) (h : Spelled piece ts) :
    Spelled (piece.move f) (ts.map (Lexeme.move f)) := by
  cases h with
  | text s p => exact .text s (f p)
  | value p q he =>
    rw [List.map_cons, List.map_append]
    exact .value (f p) (f q) (Expr.parse_move f he)
  | openEach p q pk pas px x he =>
    rw [List.map_cons, List.map_cons, List.map_append]
    exact .openEach (f p) (f q) (f pk) (f pas) (f px) x (Expr.parse_move f he)
  | openEachIndexed p q pk pas px pcomma pi x i he =>
    rw [List.map_cons, List.map_cons, List.map_append]
    exact .openEachIndexed (f p) (f q) (f pk) (f pas) (f px) (f pcomma) (f pi) x i (Expr.parse_move f he)
  | openIf p q pk he =>
    rw [List.map_cons, List.map_cons, List.map_append]
    exact .openIf (f p) (f q) (f pk) (Expr.parse_move f he)
  | elseIf p q pk pif he =>
    rw [List.map_cons, List.map_cons, List.map_cons, List.map_append]
    exact .elseIf (f p) (f q) (f pk) (f pif) (Expr.parse_move f he)
  | otherwise p q pk => exact .otherwise (f p) (f q) (f pk)
  | closeEach p q pk => exact .closeEach (f p) (f q) (f pk)
  | closeIf p q pk => exact .closeIf (f p) (f q) (f pk)

private theorem SpelledAll.move (f : Pos → Pos) (h : SpelledAll ps ts) :
    SpelledAll (ps.map (Piece.move f)) (ts.map (Lexeme.move f)) := by
  induction h with
  | nil => exact .nil
  | cons h _ ih =>
    rw [List.map_append]
    exact .cons (h.move f) ih

end Piece

namespace Statement

variable {ss : List Statement} {ps : List Piece}

def ofText (cs : List Char) : List Statement := if cs.isEmpty then [] else [.text (String.ofList cs)]

theorem generates_ofText (cs : List Char) : Generates (.body (ofText cs)) (Piece.ofText cs) := by
  cases cs with
  | nil => exact .nil
  | cons c cs => exact .text _ .nil

/-- A text at the end of a body is its last statement. -/
private theorem Generates.of_append_ofText {cs : List Char}
    (h : Generates (.body ss) (ps ++ Piece.ofText cs)) :
    ∃ before, ss = before ++ ofText cs ∧ Generates (.body before) ps := by
  cases cs with
  | nil => exact ⟨ss, (List.append_nil ss).symm, List.append_nil ps ▸ h⟩
  | cons c cs =>
    have hnest := nest_of_generates h
    have hstart : Reached [] [] [] := .bottom .nil
    obtain ⟨levels, current, hreached, hrun⟩ | ⟨before, p, after, k, rfl, -, -, hstray⟩ := hstart.run ps
    · rw [hrun] at hnest
      cases hreached with
      | bottom hbody =>
        cases hnest
        exact ⟨current.reverse, List.reverse_cons, hbody⟩
      | level => cases hnest
    · rw [List.append_assoc, List.cons_append, hstray] at hnest
      cases hnest

/-- A text at the beginning of a body is its first statement. -/
private theorem Generates.of_ofText_append {cs : List Char}
    (h : Generates (.body ss) (Piece.ofText cs ++ ps)) :
    ∃ after, ss = ofText cs ++ after ∧ Generates (.body after) ps := by
  cases cs with
  | nil => exact ⟨ss, rfl, h⟩
  | cons c cs =>
    cases h with
    | text s h => exact ⟨_, rfl, h⟩

def Form.move (f : Pos → Pos) : Form → Form
  | body ss => body (moveBody f ss)
  | tail branches otherwise => tail (moveBranches f branches) (moveOtherwise f otherwise)

private theorem Generates.move {form : Form} (f : Pos → Pos) (h : Generates form ps) :
    Generates (form.move f) (ps.map (Piece.move f)) := by
  induction h with
  | nil => exact .nil
  | text s _ ih => exact .text s ih
  | value e _ ih => exact .value (e.move f) ih
  | each k k' items item index _ _ ihbody ih =>
    rw [List.map_cons, List.map_append, List.map_cons]
    exact .each (k.move f) (k'.move f) (items.move f) item index ihbody ih
  | cond k test _ _ _ ihbody ihtail ih =>
    rw [List.map_cons, List.map_append, List.map_append]
    exact .cond (k.move f) (test.move f) ihbody ihtail ih
  | elseIf k test _ _ ihbody ihtail =>
    rw [List.map_cons, List.map_append]
    exact .elseIf (k.move f) (test.move f) ihbody ihtail
  | otherwise k k' _ ihbody =>
    rw [List.map_cons, List.map_append]
    exact .otherwise (k.move f) (k'.move f) ihbody
  | close k => exact .close (k.move f)

/-- Pieces before a malformed one are no statements. -/
private theorem nest_of_fault (e : CompileError) (levels : List Level) (current : List Statement)
    (ps : List Piece) : nest (some e) levels current ps ≠ .ok ss := by
  fun_induction nest (some e) levels current ps <;> first | assumption | simp_all

end Statement

namespace Template

open Statement

variable {t ta tb : Template} {ts : List Lexeme}

/-- What compiles is spelled by pieces that the block grammar generates. -/
theorem exists_pieces (h : ofLexemes ts = .ok t) :
    ∃ ps, Piece.SpelledAll ps ts ∧ Generates (.body t.statements) ps := by
  unfold ofLexemes at h
  split at h
  next ps fault hread =>
  split at h
  · cases h
  · next ss hnest =>
    cases h
    cases fault with
    | some e => exact absurd hnest (nest_of_fault e _ _ _)
    | none => exact ⟨ps, Piece.spelledAll_of_readAll hread, nest_eq_ok_iff.1 hnest⟩

theorem ofLexemes_of_pieces {ps : List Piece} {ss : List Statement} (hps : Piece.SpelledAll ps ts)
    (h : Generates (.body ss) ps) : ofLexemes ts = .ok ⟨ss⟩ :=
  (ofLexemes_eq_ok_iff hps).2 (nest_eq_ok_iff.2 h)

/-- Moved tokens compile to the moved statements. -/
theorem ofLexemes_move (f : Pos → Pos) (h : ofLexemes ts = .ok t) :
    ofLexemes (ts.map (Lexeme.move f)) = .ok ⟨moveBody f t.statements⟩ := by
  obtain ⟨ps, hps, hgen⟩ := exists_pieces h
  exact ofLexemes_of_pieces (hps.move f) (hgen.move f)

/-- The tokens of two templates of which the second is moved, with the text between them made one,
compile to the statements of both with that text made one. -/
theorem ofLexemes_join {before after : List Lexeme} {cs ds : List Char} {p q : Pos} (f : Pos → Pos)
    (ha : ofLexemes (before ++ Lexer.textLexemes p cs) = .ok ta)
    (hb : ofLexemes (Lexer.textLexemes q ds ++ after) = .ok tb) :
    ∃ first last, ta.statements = first ++ ofText cs ∧ tb.statements = ofText ds ++ last ∧
      ofLexemes (before ++ (Lexer.textLexemes p (cs ++ ds) ++ after.map (Lexeme.move f))) =
        .ok ⟨first ++ (ofText (cs ++ ds) ++ moveBody f last)⟩ := by
  obtain ⟨psa, hpsa, hgena⟩ := exists_pieces ha
  obtain ⟨psb, hpsb, hgenb⟩ := exists_pieces hb
  obtain ⟨psa', rfl, hpsa'⟩ := hpsa.of_append_ofText
  obtain ⟨psb', rfl, hpsb'⟩ := hpsb.of_ofText_append
  obtain ⟨first, hfirst, hgena'⟩ := hgena.of_append_ofText
  obtain ⟨last, hlast, hgenb'⟩ := hgenb.of_ofText_append
  refine ⟨first, last, hfirst, hlast, ofLexemes_of_pieces
    (hpsa'.append ((Piece.spelledAll_ofText p (cs ++ ds)).append (hpsb'.move f))) ?_⟩
  exact hgena'.append ((generates_ofText (cs ++ ds)).append (hgenb'.move f))

end Template

end LiveMarkup
