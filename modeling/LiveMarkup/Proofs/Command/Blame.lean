import LiveMarkup.Command.Run
import LiveMarkup.Proofs.Script.Blame
import LiveMarkup.Proofs.Template.Caret
import LiveMarkup.Proofs.View.Catalog
import Mathlib

/-! What commands report of a view that does not compile. The report is about a line of the markup, and if the
error is in the script, about the line of the markup that has the same number. -/

namespace LiveMarkup

variable {e : CompileError} {blame : Blame} {text block : String}

/-- The error is what a view is refused for, and the block is the one that it is in: the markup, or the script
if the markup compiles. -/
inductive Source.Refused (source : Source) (e : CompileError) : String → Prop where
  | markup (h : Template.compile source.markup = .error e) : Refused source e source.markup
  | script {template : Template} {block : String} (htemplate : Template.compile source.markup = .ok template)
    (hblock : source.script = some block) (h : Script.compile block = .error e) : Refused source e block

private theorem Source.Refused.located {source : Source} (h : source.Refused e block)
    (he : e.blame?.isSome) :
    CompileError.Located block.toList e := by
  cases h with
  | markup h => exact Template.compile_located h
  | script _ _ h => exact Script.compile_located h he

namespace Catalog

variable {c : Catalog} {beginning : String} {identifiers : List String}

private theorem mapError_eq_error {α : Type} {m : Except CompileError α} :
    m.mapError DefinitionError.compile = .error (.compile e) ↔ m = .error e := by
  cases m <;> simp [Except.mapError]

private theorem mapError_eq_ok {α : Type} {m : Except CompileError α} {a : α} :
    m.mapError DefinitionError.compile = .ok a ↔ m = .ok a := by
  cases m <;> simp [Except.mapError]

/-- Nothing but the first error in a block makes compiling fail with one, whatever has been compiled before. -/
private theorem compile_eq_error_iff : c.compile beginning identifiers text = .error (.compile e) ↔
    ∃ block, (Source.split text).Refused e block := by
  rw [compile]
  generalize Source.split text = source
  dsimp only
  constructor
  · intro h
    obtain h | ⟨template, htemplate, h⟩ := exists_of_bind_error h
    · exact ⟨_, .markup (mapError_eq_error.1 h)⟩
    split at h
    all_goals
      obtain h | ⟨script, -, h⟩ := exists_of_bind_error h
      swap
      -- A style does not fail to compile, it is only left without an attribute.
      · split at h
        · cases h
        · split at h <;> cases h
    · next block hblock _ => exact ⟨block, .script (mapError_eq_ok.1 htemplate) hblock (mapError_eq_error.1 h)⟩
    · cases h
  · rintro ⟨block, h⟩
    cases h with
    | markup h =>
      rw [h]
      rfl
    | script htemplate hblock h =>
      rw [htemplate, hblock]
      simp only [h]
      rfl

end Catalog

namespace Report

/-- What is reported of an error at a place is the trimmed line with its number, if there is one. -/
private theorem exists_report_iff {source : String} (path : String) {around : List Char}
    (hblame : e.blame? = some blame) :
    (∃ report, LoadError.ofCompile source path e = .report report ∧ quoted report.toList = around) ↔
      (Text.lines source.toList)[max 1 blame.pos.line - 1]?.map Text.trim = some around := by
  rw [LoadError.ofCompile, CompileError.report?, hblame]
  dsimp only
  rw [ofBlame?]
  cases hline : (Text.lines source.toList)[max 1 blame.pos.line - 1]? with
  | none => simp
  | some line =>
    have hquoted := quoted_append (heading path blame.pos).toList hblame
      (Text.lineFeed_not_mem_of_mem_lines (List.mem_of_getElem? hline))
    simpa using congrArg (· = around) hquoted

/-- A report of an error at a place begins with the place. -/
private theorem heading_prefix {source path report : String} (hblame : e.blame? = some blame)
    (h : LoadError.ofCompile source path e = .report report) :
    (heading path blame.pos).toList <+: report.toList := by
  rw [LoadError.ofCompile, CompileError.report?, hblame] at h
  dsimp only at h
  rw [ofBlame?] at h
  cases hline : (Text.lines source.toList)[max 1 blame.pos.line - 1]? with
  | none =>
    rw [hline] at h
    cases h
  | some line =>
    rw [hline] at h
    cases h
    rw [String.toList_append]
    exact List.prefix_append _ _

end Report

namespace Command

variable {s : Surroundings} {c : Config} {catalog : Catalog} {path : String}

/-- The report that a view in a file gets shows the characters around. -/
def Quotes (s : Surroundings) (c : Config) (catalog : Catalog) (path : String) (around : List Char) : Prop :=
  ∃ report, compile s c catalog path = .error (.definition (.report report)) ∧
    Report.quoted report.toList = around

private theorem compile_of_error (hread : s.read path = .ok text)
    (h : catalog.compile c.beginning [s.identifiers catalog.registry.size] text = .error (.compile e)) :
    compile s c catalog path =
      .error (.definition (.ofCompile (Source.split text).markup path e)) := by
  rw [compile, hread]
  simp only [h]

private theorem quotes_iff {line : List Char} (hread : s.read path = .ok text)
    (h : catalog.compile c.beginning [s.identifiers catalog.registry.size] text = .error (.compile e))
    (hblame : e.blame? = some blame) : Quotes s c catalog path line ↔
      (Text.lines (Source.split text).markup.toList)[max 1 blame.pos.line - 1]?.map Text.trim = some line := by
  rw [← Report.exists_report_iff path hblame, Quotes, compile_of_error hread h]
  simp

/-- An error at a place is in the markup or in the script of a view, and what is blamed stands there at this place,
which a report of the view begins with. The report quotes the line that it stands in if the markup, white space
aside, has this line under the same number, and else it does not: always if the error is in the markup, but not if
it is in the script. -/
theorem compile_error_reported (hread : s.read path = .ok text)
    (h : catalog.compile c.beginning [s.identifiers catalog.registry.size] text = .error (.compile e))
    (hblame : e.blame? = some blame) :
    ∃ block pre w cs, (Source.split text).Refused e block ∧ block.toList = pre ++ (w ++ cs) ∧ w ≠ [] ∧
      e.About w ∧ blame.pos = ⟨lineAt block.toList pre.length, columnAt block.toList pre.length⟩ ∧
      (∀ report, compile s c catalog path = .error (.definition (.report report)) →
        (Report.heading path blame.pos).toList <+: report.toList) ∧
      (Quotes s c catalog path (Text.trim (Text.lineAround pre (w ++ cs))) ↔
        (Text.lines (Source.split text).markup.toList)[blame.pos.line - 1]?.map Text.trim =
          some (Text.trim (Text.lineAround pre (w ++ cs)))) ∧
      (Template.compile (Source.split text).markup = .error e →
        Quotes s c catalog path (Text.trim (Text.lineAround pre (w ++ cs)))) := by
  obtain ⟨block, hrefused⟩ := Catalog.compile_eq_error_iff.1 h
  obtain @⟨pre, w, cs, blame', hsource, hne, habout, hblame', hpos⟩ :=
    hrefused.located (Option.isSome_of_eq_some hblame)
  cases hblame.symm.trans hblame'
  have hline : max 1 blame.pos.line = blame.pos.line := by
    rw [hpos, Pos.start_after]
    exact Nat.max_eq_right (Nat.le_add_left 1 _)
  have hquotes : Quotes s c catalog path (Text.trim (Text.lineAround pre (w ++ cs))) ↔
      (Text.lines (Source.split text).markup.toList)[blame.pos.line - 1]?.map Text.trim =
        some (Text.trim (Text.lineAround pre (w ++ cs))) := by
    rw [quotes_iff hread h hblame, hline]
  refine ⟨block, pre, w, cs, hrefused, hsource, hne, habout, ?_, fun report hreport => ?_, hquotes,
    fun hmarkup => hquotes.2 ?_⟩
  · rw [hpos, Pos.start_after, lineAt, columnAt, hsource, List.take_left]
  · rw [compile_of_error hread h] at hreport
    exact Report.heading_prefix hblame (CommandError.definition.inj (Except.error.inj hreport))
  · cases hrefused with
    | script htemplate => cases hmarkup.symm.trans htemplate
    | markup =>
      obtain ⟨line, hline, hlists⟩ := Text.exists_line pre (List.append_ne_nil_of_left_ne_nil hne cs)
      rw [hsource, hpos, Pos.start_after, Nat.add_sub_cancel, hline, Option.map_some, hlists.trim_eq]

/-- A view with a bracket where its script declares a name. -/
def misdeclared : String := "<script>\n  const )\n</script>\n<p>x</p>"

def around : Surroundings := ⟨fun _ => .ok misdeclared, ⟨none, none⟩, Style.identifier⟩

private theorem split_misdeclared : Source.split misdeclared =
    ⟨"<p>x</p>", none, some "const )"⟩ := by
  cbv

private theorem refused_misdeclared :
    (Source.split misdeclared).Refused (.misplaced ⟨.symbol .closeRound, ⟨1, 7⟩⟩) "const )" := by
  have hmarkup : Template.compile "<p>x</p>" = .ok ⟨[.text "<p>x</p>"]⟩ := by cbv
  have hscript : Script.compile "const )" = .error (.misplaced ⟨.symbol .closeRound, ⟨1, 7⟩⟩) := by cbv
  rw [split_misdeclared]
  exact .script hmarkup rfl hscript

private theorem compile_misdeclared :
    Catalog.empty.compile Config.standard.beginning [around.identifiers 0] misdeclared =
      .error (.compile (.misplaced ⟨.symbol .closeRound, ⟨1, 7⟩⟩)) :=
  Catalog.compile_eq_error_iff.2 ⟨_, refused_misdeclared⟩

theorem compile_error_reported_misdeclared :
    around.read "v.html" = .ok misdeclared ∧
      Catalog.empty.compile Config.standard.beginning [around.identifiers 0] misdeclared =
        .error (.compile (.misplaced ⟨.symbol .closeRound, ⟨1, 7⟩⟩)) ∧
      ∃ block pre w cs, (Source.split misdeclared).Refused (.misplaced ⟨.symbol .closeRound, ⟨1, 7⟩⟩) block ∧
        block.toList = pre ++ (w ++ cs) ∧ w ≠ [] ∧
        (CompileError.misplaced ⟨.symbol .closeRound, ⟨1, 7⟩⟩).About w ∧
        ⟨1, 7⟩ = (⟨lineAt block.toList pre.length, columnAt block.toList pre.length⟩ : Pos) ∧
        (∀ report, compile around .standard .empty "v.html" = .error (.definition (.report report)) →
          (Report.heading "v.html" ⟨1, 7⟩).toList <+: report.toList) ∧
        (Quotes around .standard .empty "v.html" (Text.trim (Text.lineAround pre (w ++ cs))) ↔
          (Text.lines (Source.split misdeclared).markup.toList)[1 - 1]?.map Text.trim =
            some (Text.trim (Text.lineAround pre (w ++ cs)))) ∧
        (Template.compile (Source.split misdeclared).markup =
            .error (.misplaced ⟨.symbol .closeRound, ⟨1, 7⟩⟩) →
          Quotes around .standard .empty "v.html" (Text.trim (Text.lineAround pre (w ++ cs)))) :=
  ⟨rfl, compile_misdeclared, compile_error_reported rfl compile_misdeclared rfl⟩

/-- The bracket stands on the only line of the script, and the report quotes the only line of the markup. -/
theorem markup_quoted_for_script :
    (Source.split misdeclared).Refused (.misplaced ⟨.symbol .closeRound, ⟨1, 7⟩⟩) "const )" ∧
      Quotes around .standard .empty "v.html" "<p>x</p>".toList ∧
      ¬ Quotes around .standard .empty "v.html" "const )".toList := by
  have hquotes (line : List Char) :
      Quotes around .standard .empty "v.html" line ↔ "<p>x</p>".toList = line := by
    have h : Quotes around .standard .empty "v.html" line ↔ _ := quotes_iff rfl compile_misdeclared rfl
    rw [h, split_misdeclared]
    exact Option.some_inj
  exact ⟨refused_misdeclared, (hquotes _).2 rfl, fun h => absurd ((hquotes _).1 h) (by decide)⟩

end Command

end LiveMarkup
