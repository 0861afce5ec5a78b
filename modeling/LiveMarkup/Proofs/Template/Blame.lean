import LiveMarkup.Proofs.Expr.Blame
import LiveMarkup.Proofs.Template.Joined
import LiveMarkup.Proofs.Text.Line
import LiveMarkup.Proofs.Token.Blame
import LiveMarkup.Template.Failure

/-! What a template is refused for. Every error of a source that does not compile blames characters of the
source at their place, and its report quotes the line that they are in. -/

namespace LiveMarkup

open LiveMarkup.Expr (Inside Names inside_append isSymbol_iff isKeyword_iff outcome outcome_eq_ok outcome_ok
  outcome_error derives_of_read names_of_read)

variable {P : Lexeme → Prop} {ended : Prop} {all ts rest : List Lexeme} {t k : Lexeme} {e : CompileError}

namespace Piece

def InTags (all : List Lexeme) (t : Lexeme) : Prop := t ∈ all ∧ ∀ s, t.token ≠ .text s

/-- After the braces that open a tag come tokens that `P` holds of, up to the braces that close it. -/
def Closed (P : Lexeme → Prop) (ts : List Lexeme) : Prop :=
  ∀ t rest, t :: rest <:+ ts → t.token = .symbol .openTag → Inside P False rest

/-! The readers of what is in tags. -/

private theorem readEnd_names (hin : Inside P ended ts) (h : readEnd ts = .error e) :
    Names P ended e := by
  cases ts with
  | nil =>
    cases h
    exact hin.names_end _
  | cons t rest =>
    rw [readEnd] at h
    split at h
    · cases h
    · cases h
      exact hin.names rfl

private theorem readBinding_names (hin : Inside P ended ts) (h : readBinding ts = .error e) :
    Names P ended e := by
  cases ts with
  | nil =>
    cases h
    exact hin.names_end _
  | cons t rest =>
    rw [readBinding] at h
    split at h
    · cases h
    · cases h
      exact hin.names rfl

private theorem readExpr_names (hin : Inside P ended ts) (h : Expr.read ts = .error e) :
    Names P ended e :=
  names_of_read (p := .expr) trivial hin (outcome_error h)

private theorem inside_of_readExpr {x : Expr} {hlt : rest.length < ts.length}
    (hin : Inside P ended ts) (h : Expr.read ts = .ok ⟨x, rest, hlt⟩) : Inside P ended rest :=
  hin.after (derives_of_read (p := .expr) (outcome_ok h)) trivial

private theorem inside_of_readBinding {x : String} (hin : Inside P ended ts)
    (h : outcome (readBinding ts) = .ok (x, rest)) : Inside P ended rest := by
  obtain ⟨q, rfl⟩ := readBinding_eq h
  exact hin.tail (by simp)

private theorem inside_of_readIndex {index : Option String} (hin : Inside P ended ts)
    (h : outcome (readIndex ts) = .ok (index, rest)) : Inside P ended rest := by
  obtain ⟨-, rfl⟩ | ⟨p, q, x, -, rfl⟩ := readIndex_eq h
  · exact hin
  · exact (hin.tail (by simp)).tail (by simp)

private theorem readIndex_names (hin : Inside P ended ts) (h : readIndex ts = .error e) :
    Names P ended e := by
  unfold readIndex at h
  split at h
  · cases h
  · split at h
    · next hcomma =>
      split at h
      · next hbinding =>
        cases h
        exact readBinding_names (hin.tail (by simp [isSymbol_iff.1 hcomma])) hbinding
      · cases h
    · cases h

private theorem readTest_names (hk : P k) (hin : Inside P ended ts) (h : readTest k ts = .error e) :
    Names P ended e := by
  unfold readTest at h
  split at h
  · cases h
    exact .inl ⟨k, hk, rfl⟩
  · split at h
    · next hread =>
      cases h
      exact readExpr_names hin hread
    · next hread =>
      split at h
      · next hend =>
        cases h
        exact readEnd_names (inside_of_readExpr hin hread) hend
      · cases h

private theorem readEach_names (hk : P k) (hin : Inside P ended ts) (h : readEach k ts = .error e) :
    Names P ended e := by
  unfold readEach at h
  split at h
  · cases h
    exact .inl ⟨k, hk, rfl⟩
  · split at h
    · next hread =>
      cases h
      exact readExpr_names hin hread
    · next hread =>
      cases h
      exact (inside_of_readExpr hin hread).names_end _
    · next hread =>
      have hin := inside_of_readExpr hin hread
      split at h
      · next has =>
        have hin := hin.tail (by simp [isKeyword_iff.1 has])
        split at h
        · next hitem =>
          cases h
          exact readBinding_names hin hitem
        · next hitem =>
          have hin := inside_of_readBinding hin (outcome_ok hitem)
          split at h
          · next hindex =>
            cases h
            exact readIndex_names hin hindex
          · next hindex =>
            split at h
            · next hend =>
              cases h
              exact readEnd_names (inside_of_readIndex hin (outcome_ok hindex)) hend
            · cases h
      · cases h
        exact hin.names rfl

private theorem readBare_names {piece : Piece} (hin : Inside P ended ts)
    (h : readBare piece ts = .error e) :
    Names P ended e := by
  unfold readBare at h
  split at h
  · next hend =>
    cases h
    exact readEnd_names hin hend
  · cases h

private theorem readTested_names {piece : Expr → Piece} (hk : P k) (hin : Inside P ended ts)
    (h : readTested piece k ts = .error e) : Names P ended e := by
  unfold readTested at h
  split at h
  · next htest =>
    cases h
    exact readTest_names hk hin htest
  · cases h

private theorem readValue_names (hin : Inside P ended ts) (h : readValue ts = .error e) :
    Names P ended e := by
  unfold readValue at h
  split at h
  · next hread =>
    cases h
    exact readExpr_names hin hread
  · next hread =>
    split at h
    · next hend =>
      cases h
      exact readEnd_names (inside_of_readExpr hin hread) hend
    · cases h

private theorem readTag_names (hin : Inside P ended ts) (h : readTag ts = .error e) :
    Names P ended e := by
  have hafter {α : Type} {m n : Nat} {r : Except CompileError (Expr.Reads α m)} {hle : m ≤ n}
      (h : (r.map fun r => r.within hle) = .error e) : r = .error e := Lexer.exists_of_map_eq_error h
  cases ts with
  | nil =>
    cases h
    exact hin.names_end _
  | cons t rest =>
    rw [readTag.eq_def] at h
    dsimp only at h
    split at h
    · next heach => exact readEach_names hin.head (hin.tail (by simp [heach])) (hafter h)
    · next hif => exact readTested_names hin.head (hin.tail (by simp [hif])) (hafter h)
    · next helse =>
      have hrest := hin.tail (by simp [helse])
      split at h
      · cases h
        exact hrest.names_end _
      · split at h
        · next hif =>
          exact readTested_names hin.head (hrest.tail (by simp [isKeyword_iff.1 hif])) (hafter h)
        · exact readBare_names hrest (hafter h)
    · next hclose => exact readBare_names (hin.tail (by simp [hclose])) (hafter h)
    · next hclose => exact readBare_names (hin.tail (by simp [hclose])) (hafter h)
    · cases h
      exact hin.names rfl
    · exact readValue_names hin h

private theorem read_names (hsuffix : t :: ts <:+ all) (hclosed : Closed (InTags all) (t :: ts))
    (h : Piece.read t ts = .error e) : Names (InTags all) False e := by
  unfold Piece.read at h
  split at h
  · cases h
  · next hopen =>
    exact readTag_names (hclosed t ts List.suffix_rfl hopen) (Lexer.exists_of_map_eq_error h)
  · next htext _ =>
    cases h
    exact .inl ⟨t, ⟨hsuffix.mem List.mem_cons_self, htext⟩, rfl⟩

/-! Pieces and blocks. -/

def kept? (piece : Piece) : Option Lexeme := piece.keyword? <|> piece.opens?

private theorem Spelled.kept_inTags {piece : Piece} (h : Spelled piece ts)
    (hk : piece.kept? = some k) :
    InTags ts k := by
  cases h with
  | text | value => cases hk
  | _ =>
    cases hk
    exact ⟨List.mem_cons_of_mem _ List.mem_cons_self, nofun⟩

private theorem readAll_names (hsuffix : ts <:+ all) (hclosed : Closed (InTags all) ts) :
    (∀ e, (readAll ts).2 = some e → Names (InTags all) False e) ∧
      ∀ piece ∈ (readAll ts).1, ∀ k, piece.kept? = some k → InTags all k := by
  fun_induction readAll ts with
  | case1 => exact ⟨(by simp), (by simp)⟩
  | case2 t ts e hread =>
    refine ⟨?_, (by simp)⟩
    rintro _ ⟨⟩
    exact read_names hsuffix hclosed hread
  | case3 t ts piece rest hlt hread more ih =>
    obtain ⟨used, hused, hspelled⟩ := spelled_of_read (outcome_ok hread)
    rw [hused] at hsuffix hclosed
    obtain ⟨hfault, hpieces⟩ := ih ((List.suffix_append _ _).trans hsuffix)
      fun t rest h => hclosed t rest (h.trans (List.suffix_append _ _))
    refine ⟨hfault, List.forall_mem_cons.2 ⟨fun k hk => ?_, hpieces⟩⟩
    obtain ⟨hmem, htext⟩ := hspelled.kept_inTags hk
    exact ⟨hsuffix.mem (List.mem_append_left _ hmem), htext⟩

end Piece

/-- Nesting fails with the error of the malformed piece, or for the keyword of a piece or an open block. -/
private theorem Statement.nest_names {fault : Option CompileError} {levels : List Level}
    {current : List Statement} {ps : List Piece} (hfault : ∀ e, fault = some e → Names P ended e)
    (hlevels : ∀ level ∈ levels, P level.keyword)
    (hps : ∀ piece ∈ ps, ∀ k, piece.kept? = some k → P k)
    (h : nest fault levels current ps = .error e) : Names P ended e := by
  fun_induction nest fault levels current ps with
  | case1 _ _ _ hsome =>
    cases h
    exact hfault _ hsome
  | case2 => cases h
  | case3 =>
    cases h
    exact .inl ⟨_, hlevels _ List.mem_cons_self, rfl⟩
  | case4 _ _ _ _ ih | case5 _ _ _ _ ih => exact ih hlevels (List.forall_mem_cons.1 hps).2 h
  | case6 _ _ _ _ _ _ _ ih | case7 _ _ _ _ _ ih =>
    -- the block that opens
    obtain ⟨hpiece, hps⟩ := List.forall_mem_cons.1 hps
    exact ih (List.forall_mem_cons.2 ⟨hpiece _ rfl, hlevels⟩) hps h
  | case8 _ _ _ _ _ _ _ _ _ ih | case10 _ _ _ _ _ _ _ _ ih =>
    -- the block that goes on with its next branch
    obtain ⟨hlevel, houter⟩ := List.forall_mem_cons.1 hlevels
    exact ih (List.forall_mem_cons.2 ⟨hlevel, houter⟩) (List.forall_mem_cons.1 hps).2 h
  | case12 _ _ _ _ _ _ _ _ _ ih | case14 _ _ _ _ _ _ _ _ ih | case15 _ _ _ _ _ _ _ ih =>
    -- the block that is closed
    exact ih (List.forall_mem_cons.1 hlevels).2 (List.forall_mem_cons.1 hps).2 h
  | case9 | case11 | case13 | case16 =>
    cases h
    exact .inl ⟨_, (List.forall_mem_cons.1 hps).1 _ rfl, rfl⟩

/-! Sources. -/

namespace Lexer

variable {a b : Reader} {spans : List Span}

/-- Who has read the braces that open a tag and ends up outside of tags has read braces that close one, and
no text before them. -/
theorem Scans.closed (h : Scans a spans b) (hb : b.side ≠ .inside) (hall : ∀ s ∈ spans, s.lexeme ∈ all) :
    Piece.Closed (Piece.InTags all) (spans.map Span.lexeme) := by
  induction h with
  | refl =>
    intro t rest hsuffix
    cases List.suffix_nil.1 hsuffix
  | blank _ _ ih => exact ih hb hall
  | @token side side' token pre w cs spans r ht hw hne hscans ih =>
    obtain ⟨-, hspans⟩ := List.forall_mem_cons.1 hall
    intro t rest hsuffix hopen
    rcases List.suffix_cons_iff.1 hsuffix with heq | hsuffix
    · cases heq
      cases ht with
      | opening =>
        have hread : 0 < (pre ++ w).length := by
          rw [List.length_append]
          exact Nat.add_pos_right _ (List.length_pos_iff.2 hne)
        obtain ⟨inner, c, after, rfl, hcode, hc, -⟩ := hscans.closes rfl hb hread
        rw [List.map_append, List.map_cons]
        refine inside_append (fun t ht => ?_) ⟨?_, fun s hs => ?_⟩ hc
        · obtain ⟨s, hs, rfl⟩ := List.mem_map.1 ht
          refine ⟨hspans s (List.mem_append_left _ hs), fun x hx => ?_⟩
          have hcode := hcode s hs
          rw [hx] at hcode
          cases hcode
        · exact hspans c (List.mem_append_right _ List.mem_cons_self)
        · cases hc.symm.trans hs
      | code hcode =>
        rw [Span.after] at hopen
        cases hopen
        cases hcode
      | _ => cases hopen
    · exact ih hb hspans t rest hsuffix hopen

end Lexer

open CompileError (Located)

/-- An error that blames a token is where the token is. -/
theorem located_of_lexeme {source pre w cs : List Char} {t : Token}
    (hsource : source = pre ++ (w ++ cs)) (hw : t.SpelledBy w) (hne : w ≠ [])
    (he : e.lexeme? = some ⟨t, Pos.start.after pre⟩) : Located source e := by
  cases e with
  | misplaced | unexpected | mismatched | strayClose | neverClosed =>
    cases he
    exact .intro hsource hne hw rfl rfl
  | _ => cases he

/-- A report about a place in a source quotes the line around the place. -/
theorem Report.exists_quoted_line {source : String} {pre cs : List Char} {blame : Blame}
    (hsource : source.toList = pre ++ cs) (hne : cs ≠ []) (hpos : blame.pos = Pos.start.after pre) :
    ∃ line, Text.Lists line (Text.lineAround pre cs) ∧ ∀ path, Report.ofBlame? source path blame =
      some (((path.map fun p => Report.heading p blame.pos).getD "") ++ Report.quote blame line) := by
  obtain ⟨line, hline, hlists⟩ := Text.exists_line pre hne
  refine ⟨line, hlists, fun path => ?_⟩
  have hnumber : max 1 blame.pos.line - 1 = pre.count '\n' := by
    rw [hpos, Pos.start_after]
    exact congrArg (· - 1) (Nat.max_eq_right (Nat.le_add_left 1 _))
  rw [Report.ofBlame?, hnumber, hsource, hline]
  rfl

namespace Template

theorem ofLexemes_names (hclosed : Piece.Closed (Piece.InTags ts) ts) (h : ofLexemes ts = .error e) :
    Names (Piece.InTags ts) False e := by
  obtain ⟨hfault, hps⟩ := Piece.readAll_names List.suffix_rfl hclosed
  rw [ofLexemes] at h
  dsimp only at h
  split at h
  · next hnest =>
    cases h
    exact Statement.nest_names hfault (List.forall_mem_nil _) hps hnest
  · cases h

theorem compile_located {source : String} (h : compile source = .error e) : Located source.toList e := by
  unfold compile at h
  split at h
  · next hlexer =>
    cases h
    exact Lexer.template_located hlexer (Pos.after_nil .start).symm
  · next ts hlexer =>
    obtain ⟨spans, read, text, rfl, hscans⟩ :=
      Lexer.template_scans hlexer (Pos.after_nil .start).symm
    obtain ⟨t, ⟨hmem, -⟩, ht⟩ | ⟨hended, -⟩ :=
      ofLexemes_names (hscans.closed nofun fun s => List.mem_map_of_mem) h
    swap
    · exact hended.elim
    obtain ⟨s, hs, rfl⟩ := List.mem_map.1 hmem
    obtain @⟨pre, w, cs, token, hsource, hw, hne⟩ := hscans.covers hs
    exact located_of_lexeme hsource hw hne ht

/-- Every error of a source that does not compile is at a place, which is that of the first of the characters
that it blames, and its report quotes the line there, whether it is for a path or not. -/
theorem compile_error_quoted {source : String} (h : compile source = .error e) :
    ∃ pre w cs blame, source.toList = pre ++ (w ++ cs) ∧ w ≠ [] ∧ e.About w ∧
      e.blame? = some blame ∧
      blame.pos = ⟨lineAt source.toList pre.length, columnAt source.toList pre.length⟩ ∧
      (Failure.compile e).isSyntax = true ∧
      ∀ path, ∃ line, Text.trim line = Text.trim (Text.lineAround pre (w ++ cs)) ∧
        (Failure.compile e).pretty source path =
          .report (((path.map fun p => Report.heading p blame.pos).getD "") ++ Report.quote blame line) := by
  obtain @⟨pre, w, cs, blame, hsource, hne, habout, hblame, hpos⟩ := compile_located h
  rw [Pos.start_after] at hpos
  refine ⟨pre, w, cs, blame, hsource, hne, habout, hblame, ?_, ?_, fun path => ?_⟩
  · rw [hpos, lineAt, columnAt, hsource, List.take_left]
  · exact Bool.or_eq_true_iff.2 (.inl (Option.isSome_of_eq_some hblame))
  · rw [← Pos.start_after] at hpos
    obtain ⟨line, hlists, hreport⟩ :=
      Report.exists_quoted_line hsource (List.append_ne_nil_of_left_ne_nil hne cs) hpos
    refine ⟨line, hlists.trim_eq, ?_⟩
    rw [Failure.pretty, Failure.blame?, hblame]
    dsimp only
    rw [hreport]
    rfl

/-- An empty tag is refused for the braces that close it. -/
theorem compile_text_emptyTag {text : List Char} (hne : text ≠ [])
    (hcut : Text.cut? ['\x7b', '\x7b'] (text ++ ['\x7b', '\x7b'] ++ ['\x7d', '\x7d']) =
      some (text, ['\x7d', '\x7d'])) :
    compile (String.ofList (text ++ ['\x7b', '\x7b'] ++ ['\x7d', '\x7d'])) = .error (.unexpected
      ⟨.symbol .closeTag, Pos.start.after (text ++ ['\x7b', '\x7b'])⟩) := by
  obtain ⟨c, cs, rfl⟩ := List.ne_nil_iff_exists_cons.1 hne
  rw [Pos.after_append]
  set opening := Pos.start.after (c :: cs)
  set closing := opening.after ['\x7b', '\x7b']
  have hcode : Lexer.code .tag (.ofTag (.symbol .openTag)) closing ['\x7d', '\x7d'] =
      .ok ⟨[⟨.symbol .closeTag, closing⟩], some (closing.after ['\x7d', '\x7d'], [])⟩ :=
    Lexer.code_close rfl
  have htag : Lexer.tag opening closing ([] ++ ['\x7d', '\x7d']) = .ok (_, _, _) :=
    Lexer.tag_of_code opening (List.forall_mem_nil _) (by decide) rfl hcode rfl
  have hpieces : Piece.readAll [⟨.text (String.ofList (c :: cs)), .start⟩, ⟨.symbol .openTag, opening⟩,
      ⟨.symbol .closeTag, closing⟩] =
      ([.text (String.ofList (c :: cs))], some (.unexpected ⟨.symbol .closeTag, closing⟩)) := by
    rw [Piece.readAll, Piece.read]
    dsimp only
    rw [Piece.readAll]
    rfl
  rw [compile, Lexer.ofTemplate, String.toList_ofList,
    Lexer.template_tag .start hcut htag (Lexer.template_nil _)]
  change ofLexemes [⟨.text (String.ofList (c :: cs)), .start⟩, ⟨.symbol .openTag, opening⟩,
    ⟨.symbol .closeTag, closing⟩] = _
  rw [ofLexemes, hpieces]
  rfl

def emptyTag : List Char := ['x', '\n', ' '] ++ ['\x7b', '\x7b'] ++ ['\x7d', '\x7d']

theorem compile_emptyTag :
    compile (String.ofList emptyTag) = .error (.unexpected ⟨.symbol .closeTag, ⟨2, 4⟩⟩) :=
  compile_text_emptyTag nofun rfl

theorem compile_error_quoted_emptyTag :
    compile (String.ofList emptyTag) = .error (.unexpected ⟨.symbol .closeTag, ⟨2, 4⟩⟩) ∧
    ∃ pre w cs blame, (String.ofList emptyTag).toList = pre ++ (w ++ cs) ∧ w ≠ [] ∧
      (CompileError.unexpected ⟨.symbol .closeTag, ⟨2, 4⟩⟩).About w ∧
      (CompileError.unexpected ⟨.symbol .closeTag, ⟨2, 4⟩⟩).blame? = some blame ∧
      blame.pos = ⟨lineAt (String.ofList emptyTag).toList pre.length,
        columnAt (String.ofList emptyTag).toList pre.length⟩ ∧
      (Failure.compile (.unexpected ⟨.symbol .closeTag, ⟨2, 4⟩⟩)).isSyntax = true ∧
      ∀ path, ∃ line, Text.trim line = Text.trim (Text.lineAround pre (w ++ cs)) ∧
        (Failure.compile (.unexpected ⟨.symbol .closeTag, ⟨2, 4⟩⟩)).pretty (String.ofList emptyTag) path =
          .report (((path.map fun p => Report.heading p blame.pos).getD "") ++ Report.quote blame line) :=
  ⟨compile_emptyTag, compile_error_quoted compile_emptyTag⟩

end Template

end LiveMarkup
