import LiveMarkup.Proofs.Decimal.Digits
import LiveMarkup.Proofs.Template.Blame
import LiveMarkup.Proofs.Token.Visible
import Mathlib.Algebra.GroupWithZero.Nat

/-! Where the marks of a report stand. The quoted line is trimmed, and the marks are moved to the left by the
bytes of the white space that it begins with: they stand below the blamed characters exactly if this white space
has one byte for each character. -/

namespace LiveMarkup

variable {pre w cs line : List Char} {c : Char} {e : CompileError} {blame : Blame}

namespace Report

def behindGutter (line : List Char) : List Char := (line.dropWhile (· != '|')).drop 2

def aboveLast (report : List Char) : List Char := (report.reverse.dropWhile (· != '\n')).tail.reverse

def quoted (report : List Char) : List Char := behindGutter (Text.lastLine (aboveLast report))

/-- The count of characters before the first mark of the last line, without the gutter. -/
def caret (report : List Char) : Nat :=
  (behindGutter ((Text.lastLine report).takeWhile (· != '^'))).length

private theorem behindGutter_append (h : '|' ∉ pre) :
    behindGutter (pre ++ '|' :: ' ' :: cs) = cs := by
  have hall : ∀ c ∈ pre, (c != '|') = true := by
    intro c hc
    rw [bne_iff_ne]
    rintro rfl
    exact h hc
  rw [behindGutter, List.dropWhile_append_of_pos hall, List.dropWhile_cons_of_neg (by decide)]
  rfl

private theorem aboveLast_append (pre : List Char) (h : '\n' ∉ cs) :
    aboveLast (pre ++ '\n' :: cs) = pre := by
  have hall : ∀ c ∈ cs.reverse, (c != '\n') = true := by
    intro c hc
    rw [bne_iff_ne]
    rintro rfl
    exact h (List.mem_reverse.1 hc)
  rw [aboveLast, List.reverse_append, List.reverse_cons, List.append_assoc, List.dropWhile_append_of_pos hall,
    List.singleton_append, List.dropWhile_cons_of_neg (by decide), List.tail_cons, List.reverse_reverse]

/-! The lines of a report. -/

/-- What stands in front of a line without a number. -/
def gutter (blame : Blame) : List Char :=
  List.replicate (toString blame.pos.line).length ' ' ++ ' ' :: '|' :: [' ']

def numbered (blame : Blame) (line : List Char) : List Char :=
  Nat.toDigits 10 blame.pos.line ++ ' ' :: '|' :: ' ' :: Text.trim line

def marks (blame : Blame) (line : List Char) : List Char :=
  List.replicate (blame.pos.column - (1 + indentation line)) ' ' ++
    (List.replicate (max 1 blame.width) '^' ++ ' ' :: blame.reason.toList)

private theorem toList_quote (blame : Blame) (line : List Char) : (quote blame line).toList =
    gutter blame ++ '\n' :: (numbered blame line ++ '\n' :: (gutter blame ++ marks blame line)) := by
  simp [quote, gutter, numbered, marks]

private theorem not_mem_toDigits {n : Nat} (hc : c.isDigit = false) : c ∉ Nat.toDigits 10 n := by
  intro h
  rw [Decimal.isDigit_of_mem_toDigits h] at hc
  cases hc

private theorem lineFeed_not_mem_numbered (h : '\n' ∉ line) : '\n' ∉ numbered blame line := by
  have htrim : '\n' ∉ Text.trim line := fun hmem => h (Text.mem_of_mem_trim hmem)
  simp [numbered, not_mem_toDigits (c := '\n') (by decide), htrim]

private theorem lineFeed_not_mem_marked (he : e.blame? = some blame) :
    '\n' ∉ gutter blame ++ marks blame line := by
  have hreason : '\n' ∉ blame.reason.toList := by
    cases e with
    | endOfInput => cases he
    | _ =>
      cases he
      dsimp only
      decide
  simp [gutter, marks, hreason]

theorem quoted_append (above : List Char) (he : e.blame? = some blame) (h : '\n' ∉ line) :
    quoted (above ++ (quote blame line).toList) = Text.trim line := by
  have hbar : '|' ∉ Nat.toDigits 10 blame.pos.line ++ [' '] := by
    simp [not_mem_toDigits (c := '|') (by decide)]
  rw [toList_quote, quoted, ← List.cons_append, ← List.append_assoc, ← List.append_assoc,
    aboveLast_append _ (lineFeed_not_mem_marked he),
    Text.lastLine_append _ (lineFeed_not_mem_numbered h), numbered,
    List.append_cons, behindGutter_append hbar]

private theorem caret_append (above : List Char) (he : e.blame? = some blame) :
    caret (above ++ (quote blame line).toList) = blame.pos.column - (1 + indentation line) := by
  have hbar : '|' ∉ List.replicate (toString blame.pos.line).length ' ' ++ [' '] := by simp
  -- No mark stands in the gutter or among the blanks.
  have hplain : ∀ c ∈ gutter blame ++ List.replicate (blame.pos.column - (1 + indentation line)) ' ',
      (c != '^') = true := by
    intro c hc
    rw [bne_iff_ne]
    rintro rfl
    simp [gutter] at hc
  obtain ⟨more, hmore⟩ : ∃ more, List.replicate (max 1 blame.width) '^' = '^' :: more :=
    ⟨_, by rw [← Nat.sub_add_cancel (Nat.le_max_left 1 blame.width), List.replicate_succ]⟩
  rw [toList_quote, ← List.cons_append, ← List.append_assoc, ← List.append_assoc, caret,
    Text.lastLine_append _ (lineFeed_not_mem_marked he), marks, hmore, ← List.append_assoc,
    List.takeWhile_append_of_pos hplain, List.cons_append, List.takeWhile_cons_of_neg (by decide),
    List.append_nil, gutter, List.append_assoc, List.cons_append, List.cons_append, List.append_cons]
  rw [List.singleton_append, behindGutter_append hbar, List.length_replicate]

/-! White space in bytes and in characters. -/

def indented (line : List Char) : Nat := (line.takeWhile Text.isBlank).length

private theorem length_le_bytes (cs : List Char) : cs.length ≤ (cs.map Char.utf8Size).sum := by
  induction cs with
  | nil => exact Nat.le_refl 0
  | cons c cs ih =>
    rw [List.length_cons, List.map_cons, List.sum_cons]
    have hpos := c.utf8Size_pos
    omega

private theorem bytes_eq_length_iff :
    (cs.map Char.utf8Size).sum = cs.length ↔ ∀ c ∈ cs, c.utf8Size = 1 := by
  induction cs with
  | nil => simp
  | cons c cs ih =>
    rw [List.length_cons, List.map_cons, List.sum_cons, List.forall_mem_cons, ← ih]
    have hpos := c.utf8Size_pos
    have hle := length_le_bytes cs
    omega

private theorem indentation_eq (line : List Char) :
    indentation line = ((line.takeWhile Text.isBlank).map Char.utf8Size).sum := by
  rw [indentation, List.sum_eq_foldl, List.foldl_map]

private theorem indented_le (line : List Char) : indented line ≤ indentation line := by
  rw [indentation_eq]
  exact length_le_bytes _

private theorem indentation_eq_indented_iff :
    indentation line = indented line ↔ ∀ c ∈ line.takeWhile Text.isBlank, c.utf8Size = 1 := by
  rw [indentation_eq]
  exact bytes_eq_length_iff

end Report

namespace Template

private theorem compile_visible {source : String} (h : compile source = .error e) : e.Visible := by
  unfold compile at h
  split at h
  · next hlexer =>
    cases h
    exact Lexer.template_error_visible hlexer
  · next ts hlexer =>
    obtain ⟨spans, read, text, rfl, hscans⟩ :=
      Lexer.template_scans hlexer (Pos.after_nil .start).symm
    obtain ⟨t, ⟨hmem, htext⟩, ht⟩ | ⟨hended, -⟩ :=
      ofLexemes_names (hscans.closed nofun fun s => List.mem_map_of_mem) h
    · exact CompileError.visible_of_lexeme ht (Lexer.template_visible hlexer t hmem htext)
    · exact hended.elim

/-- The quoted line is the trimmed line of what is blamed, and the marks below it begin as many characters before
the blamed place as the white space in front of the line has more bytes than characters, or at the start of the
line: they begin below the first blamed character exactly if nothing visible stands before it on its line, or if
the white space in front has one byte for each character. -/
theorem caret_below {source : String} (h : compile source = .error e) (path : Option String) :
    ∃ pre w cs blame report tail, source.toList = pre ++ (w ++ cs) ∧ w ≠ [] ∧ e.About w ∧
      e.blame? = some blame ∧
      blame.pos = ⟨lineAt source.toList pre.length, columnAt source.toList pre.length⟩ ∧
      (Failure.compile e).pretty source path = .report report ∧
      Report.quoted report.toList = Text.trim (Text.lineAround pre (w ++ cs)) ∧
      Report.quoted report.toList = Text.trimStart (Text.lastLine pre) ++ tail ∧ tail.head? = w.head? ∧
      Report.caret report.toList = (Text.trimStart (Text.lastLine pre)).length -
        (Report.indentation (Text.lastLine pre) - Report.indented (Text.lastLine pre)) ∧
      (Report.caret report.toList = (Text.trimStart (Text.lastLine pre)).length ↔
        Text.trimStart (Text.lastLine pre) = [] ∨
          ∀ c ∈ (Text.lastLine pre).takeWhile Text.isBlank, c.utf8Size = 1) := by
  obtain @⟨pre, w, cs, blame, hsource, hne, habout, hblame, hpos⟩ := compile_located h
  obtain ⟨c, w, rfl⟩ := List.ne_nil_iff_exists_cons.1 hne
  have hc : Text.isBlank c = false := beginsVisibly_cons.1 (compile_visible h _ habout)
  obtain ⟨line, hlists, hreport⟩ :=
    Report.exists_quoted_line hsource (List.append_ne_nil_of_left_ne_nil hne cs) hpos
  have haround : Text.lineAround pre (c :: w ++ cs) =
      Text.lastLine pre ++ c :: (w ++ cs).takeWhile (· != '\n') := by
    rw [Text.lineAround, List.cons_append, List.takeWhile_cons_of_pos]
    rw [bne_iff_ne]
    rintro rfl
    exact absurd hc (by decide)
  have hfeed : '\n' ∉ line := by
    intro hmem
    refine Text.lineFeed_not_mem_lineAround pre (c :: w ++ cs) ?_
    rcases hlists with heq | heq
    · exact heq ▸ hmem
    · exact heq ▸ List.mem_append_left _ hmem
  have hindentation : Report.indentation line = Report.indentation (Text.lastLine pre) := by
    have hblank := hlists
    rw [haround] at hblank
    rw [Report.indentation_eq, Report.indentation_eq, hblank.takeWhile_isBlank hc]
  have hcolumn : blame.pos.column = (Text.lastLine pre).length + 1 := by
    rw [hpos, Pos.start_after, Text.lastLine, List.length_reverse]
  have hsplit : Report.indented (Text.lastLine pre) + (Text.trimStart (Text.lastLine pre)).length =
      (Text.lastLine pre).length := by
    rw [Report.indented, Text.trimStart, ← List.length_append, List.takeWhile_append_dropWhile]
  have hle := Report.indented_le (Text.lastLine pre)
  have hcaret (above : List Char) : Report.caret (above ++ (Report.quote blame line).toList) =
      (Text.trimStart (Text.lastLine pre)).length -
        (Report.indentation (Text.lastLine pre) - Report.indented (Text.lastLine pre)) := by
    rw [Report.caret_append above hblame, hcolumn, hindentation]
    omega
  have hquoted (above : List Char) : Report.quoted (above ++ (Report.quote blame line).toList) =
      Text.trim (Text.lineAround pre (c :: w ++ cs)) := by
    rw [Report.quoted_append above hblame hfeed, hlists.trim_eq]
  have hpretty : (Failure.compile e).pretty source path = .report
      (((path.map fun p => Report.heading p blame.pos).getD "") ++ Report.quote blame line) := by
    rw [Failure.pretty, Failure.blame?, hblame]
    dsimp only
    rw [hreport]
    rfl
  refine ⟨pre, c :: w, cs, blame, _, c :: Text.trimEnd ((w ++ cs).takeWhile (· != '\n')), hsource, hne, habout,
    hblame, ?_, hpretty, ?_, ?_, rfl, ?_, ?_⟩
  · rw [hpos, Pos.start_after, lineAt, columnAt, hsource, List.take_left]
  · rw [String.toList_append, hquoted]
  · rw [String.toList_append, hquoted, haround, Text.trim_append_cons hc]
  · rw [String.toList_append, hcaret]
  · rw [String.toList_append, hcaret, ← Report.indentation_eq_indented_iff, ← List.length_eq_zero_iff]
    omega

theorem caret_below_emptyTag :
    compile (String.ofList emptyTag) = .error (.unexpected ⟨.symbol .closeTag, ⟨2, 4⟩⟩) ∧
    ∃ pre w cs blame report tail, (String.ofList emptyTag).toList = pre ++ (w ++ cs) ∧ w ≠ [] ∧
      (CompileError.unexpected ⟨.symbol .closeTag, ⟨2, 4⟩⟩).About w ∧
      (CompileError.unexpected ⟨.symbol .closeTag, ⟨2, 4⟩⟩).blame? = some blame ∧
      blame.pos = ⟨lineAt (String.ofList emptyTag).toList pre.length,
        columnAt (String.ofList emptyTag).toList pre.length⟩ ∧
      (Failure.compile (.unexpected ⟨.symbol .closeTag, ⟨2, 4⟩⟩)).pretty (String.ofList emptyTag)
        (some "list.html") = .report report ∧
      Report.quoted report.toList = Text.trim (Text.lineAround pre (w ++ cs)) ∧
      Report.quoted report.toList = Text.trimStart (Text.lastLine pre) ++ tail ∧ tail.head? = w.head? ∧
      Report.caret report.toList = (Text.trimStart (Text.lastLine pre)).length -
        (Report.indentation (Text.lastLine pre) - Report.indented (Text.lastLine pre)) ∧
      (Report.caret report.toList = (Text.trimStart (Text.lastLine pre)).length ↔
        Text.trimStart (Text.lastLine pre) = [] ∨
          ∀ c ∈ (Text.lastLine pre).takeWhile Text.isBlank, c.utf8Size = 1) :=
  ⟨compile_emptyTag, caret_below compile_emptyTag (some "list.html")⟩

/-- An empty tag after a space that no line is broken at, which has two bytes. -/
def indentedTag : List Char := ['\u00a0'] ++ ['\x7b', '\x7b'] ++ ['\x7d', '\x7d']

/-- The braces that are blamed are quoted after two characters, and the marks begin after one. -/
theorem caret_left_of_blamed :
    compile (String.ofList indentedTag) = .error (.unexpected ⟨.symbol .closeTag, ⟨1, 4⟩⟩) ∧
    ∃ report, (Failure.compile (.unexpected ⟨.symbol .closeTag, ⟨1, 4⟩⟩)).pretty
        (String.ofList indentedTag) none = .report report ∧
      Report.quoted report.toList = ['\x7b', '\x7b'] ++ ['\x7d', '\x7d'] ∧
      Report.caret report.toList = 1 := by
  refine ⟨compile_text_emptyTag nofun rfl, _, rfl, ?_, ?_⟩
  · decide
  · decide

end Template

end LiveMarkup
