import LiveMarkup.Proofs.Expr.Names
import LiveMarkup.Proofs.Expr.Reading
import LiveMarkup.Proofs.Script.Compose
import LiveMarkup.Proofs.Template.Compose
import LiveMarkup.Proofs.Token.Tiling
import LiveMarkup.Proofs.Value.Joins

/-! Compiled programs and the lambdas in them. Every lambda that is read has an arrow of its own among the tokens,
and these stand one behind the other: no two lambdas of a program have their arrows at one place. -/

namespace LiveMarkup.Lexer

variable {mode : Mode} {ctx : Context} {pos : Pos} {cs source : List Char} {ts : List Lexeme}

/-- The tokens stand at `pos` or behind it, each behind those before it. -/
structure Behind (pos : Pos) (ts : List Lexeme) : Prop where
  first : ∀ t ∈ ts, pos = t.pos ∨ pos.Before t.pos
  ordered : ts.Pairwise fun s t => s.pos.Before t.pos

private theorem Behind.nil (pos : Pos) : Behind pos [] := ⟨nofun, .nil⟩

/-- What stands behind the text from `pos` on also stands behind `pos`. -/
private theorem Behind.before_of_after {w : List Char} (h : Behind (pos.after w) ts) (hw : w ≠ []) :
    ∀ t ∈ ts, pos.Before t.pos := by
  intro t ht
  rcases h.first t ht with heq | hbefore
  · exact heq ▸ Pos.before_after pos hw
  · exact (Pos.before_after pos hw).trans hbefore

private theorem Behind.skip {w : List Char} (h : Behind (pos.after w) ts) (hw : w ≠ []) :
    Behind pos ts :=
  ⟨fun t ht => .inr (h.before_of_after hw t ht), h.ordered⟩

private theorem Behind.token {w : List Char} (h : Behind (pos.after w) ts) (hw : w ≠ []) (t : Token) :
    Behind pos (⟨t, pos⟩ :: ts) where
  first := List.forall_mem_cons.2 ⟨.inl rfl, fun t ht => .inr (h.before_of_after hw t ht)⟩
  ordered := .cons (h.before_of_after hw) h.ordered

private theorem code_behind {r : Code} (h : code mode ctx pos cs = .ok r) : Behind pos r.lexemes := by
  fun_induction code mode ctx pos cs generalizing r with
  | case1 =>
    cases h
    exact .nil _
  | case2 ctx pos c cs _ _ ih =>
    obtain ⟨tail, htail, rfl⟩ := exists_of_map_eq_ok h
    exact Behind.token (w := [c]) (ih htail) (List.cons_ne_nil c []) _
  | case3 ctx pos c cs _ _ ih | case4 ctx pos c cs _ _ ih =>
    exact Behind.skip (w := [c]) (ih h) (List.cons_ne_nil c [])
  | case5 ctx pos c cs =>
    cases h
    exact Behind.token (w := [c]) (.nil _) (List.cons_ne_nil c []) _
  | case6 ctx pos c cs _ _ _ hcomment ih =>
    refine (ih h).skip fun hnil => ?_
    rw [hcomment.2.1, List.takeWhile_cons_of_pos rfl] at hnil
    cases hnil
  | case7 => cases h
  | case8 ctx pos c cs _ _ _ _ s hs ih =>
    obtain ⟨tail, htail, rfl⟩ := exists_of_map_eq_ok h
    exact (ih htail).token (splitToken_append hs).2 _

private theorem ofScript_ordered {source : String} (h : ofScript source = .ok ts) :
    ts.Pairwise fun s t => s.pos.Before t.pos := by
  obtain ⟨r, hr, rfl⟩ := exists_of_map_eq_ok h
  exact (code_behind hr).ordered

/-- A token that begins where another one has ended stands behind it. -/
private theorem Covers.before {s s' : Span} (h : Covers source s) (h' : Covers source s')
    (hs : s.stop ≤ s'.start) :
    s.lexeme.pos.Before s'.lexeme.pos := by
  obtain @⟨pre, w, cs, t, hsource, -, hne⟩ := h
  obtain @⟨pre', w', cs', t', hsource', -, -⟩ := h'
  have hle : (pre ++ w).length ≤ pre'.length := by
    rw [List.length_append]
    exact hs
  have hfirst : pre ++ w <+: source := ⟨cs, by rw [hsource, List.append_assoc]⟩
  have hsecond : pre' <+: source := ⟨w' ++ cs', hsource'.symm⟩
  obtain ⟨more, rfl⟩ := List.prefix_of_prefix_length_le hfirst hsecond hle
  have hmore : w ++ more ≠ [] := fun hnil => hne (List.append_eq_nil_iff.1 hnil).1
  change (Pos.start.after pre).Before (Pos.start.after (pre ++ w ++ more))
  rw [List.append_assoc, Pos.after_append]
  exact Pos.before_after _ hmore

private theorem ofTemplate_ordered {source : String} (h : ofTemplate source = .ok ts) :
    ts.Pairwise fun s t => s.pos.Before t.pos := by
  obtain ⟨spans, read, text, rfl, hscans⟩ := template_scans h (Pos.after_nil .start).symm
  refine List.pairwise_map.2 (hscans.ordered.imp_of_mem fun hs hs' hle => ?_)
  exact (hscans.covers hs).before (hscans.covers hs') hle

end LiveMarkup.Lexer

namespace LiveMarkup.Expr

def arrowPlaces (ts : List Lexeme) : List Pos :=
  (ts.filter fun t => t.token.isSymbol .arrow).map Lexeme.pos

def arrowsOf (ls : List Lambda) : List Pos := ls.map Lambda.arrow

variable {p : Part} {ts rest rest' : List Lexeme} {t : Lexeme} {as bs cs : List Pos} {ls : List Lambda} {e : Expr}

@[simp] theorem arrowsOf_append (ls ls' : List Lambda) : arrowsOf (ls ++ ls') = arrowsOf ls ++ arrowsOf ls' :=
  List.map_append

private theorem arrowPlaces_append (ts rest : List Lexeme) :
    arrowPlaces (ts ++ rest) = arrowPlaces ts ++ arrowPlaces rest := by
  simp [arrowPlaces]

private theorem arrowPlaces_sublist_cons (t : Lexeme) (ts : List Lexeme) :
    (arrowPlaces ts).Sublist (arrowPlaces (t :: ts)) :=
  (List.Sublist.filter _ (List.sublist_cons_self t ts)).map _

/-- Arrows among the tokens up to `rest`, or before all of them. -/
def Spends (before : List Pos) (ts : List Lexeme) (as : List Pos) (rest : List Lexeme) : Prop :=
  (as ++ arrowPlaces rest).Sublist (before ++ arrowPlaces ts)

theorem Spends.refl (as : List Pos) (ts : List Lexeme) : Spends as ts as ts := List.Sublist.refl _

theorem Spends.trans (h : Spends as ts bs rest) (h' : Spends bs rest cs rest') : Spends as ts cs rest' :=
  List.Sublist.trans h' h

/-- What was there before stays in front. -/
private theorem Spends.after (h : Spends [] ts bs rest) (as : List Pos) :
    Spends as ts (as ++ bs) rest := by
  rw [Spends, List.append_assoc]
  exact h.append_left as

/-- One part after another. -/
private theorem Spends.and_then (h : Spends [] ts as rest) (h' : Spends [] rest bs rest') :
    Spends [] ts (as ++ bs) rest' :=
  h.trans (h'.after as)

/-- A token that is none of an arrow's, or one that is left out. -/
private theorem Spends.skip (h : Spends as ts bs rest) (t : Lexeme) : Spends as (t :: ts) bs rest :=
  List.Sublist.trans h ((arrowPlaces_sublist_cons t ts).append_left as)

private theorem Spends.skipped (h : Spends as ts bs (t :: rest)) : Spends as ts bs rest :=
  List.Sublist.trans ((arrowPlaces_sublist_cons t rest).append_left bs) h

/-- The arrow of a lambda comes before those in its body. -/
private theorem Spends.arrow (h : Spends [] ts as rest) (arrow : Pos) :
    Spends [] (⟨.symbol .arrow, arrow⟩ :: ts) (arrow :: as) rest :=
  List.Sublist.cons_cons arrow h

/-- The arrows of what is left out may be left out. -/
private theorem Spends.forget (h : Spends as ts bs rest) : Spends as ts [] rest :=
  (List.sublist_append_right bs _).trans h

def Part.lambdas : (p : Part) → p.Value → List Lambda
  | expr, e | conditional, e | binary _, e | operators _ _, e | unary, e | term, e | accesses _, e => e.lambdas
  | sequence _, es | items _, es => lambdasOfItems es
  | entries, es | moreEntries, es => lambdasOfEntries es

def Part.given : Part → List Lambda
  | operators _ left => left.lambdas
  | accesses target => target.lambdas
  | _ => []

/-- The lambdas that are read have arrows of their own among the tokens that are used. -/
private theorem Derives.spends {a : p.Value} (h : Derives p ts a rest) :
    Spends (arrowsOf p.given) ts (arrowsOf (p.lambdas a)) rest := by
  induction h with
  | plain _ _ ih | unconditional _ _ ih | operandTerm _ _ _ _ ih | someItems _ _ ih => exact ih
  | assign _ _ _ ih ihvalue => exact ih.skipped.trans ihvalue
  | cond _ _ _ ihtest ihyes ihno =>
    simp only [Part.lambdas, lambdas, arrowsOf_append]
    exact ihtest.skipped.and_then (ihyes.skipped.and_then ihno)
  | binary _ _ ihleft ih => exact ihleft.trans ih
  | operand _ | accessed _ => exact .refl _ _
  | operator _ _ _ _ ihright ih =>
    simp only [Part.given, lambdas, arrowsOf_append] at ih
    exact (ihright.skip _).after _ |>.trans ih
  | countBefore _ => exact (Spends.refl [] _).skip _ |>.skip _
  | unary _ _ ih | literal _ ih | name _ _ ih | entriesMore _ ih => exact ih.skip _
  | countAfter _ _ _ _ ih => exact ih.skipped
  | lambdaOne _ ih => exact (ih.arrow _).skip _
  | lambda _ _ _ ihitems ih => exact (ihitems.skip _).forget.and_then (ih.arrow _)
  | bracketed _ _ _ ihe ih =>
    simp only [Part.lambdas, lambdasOfItems, List.append_nil] at ihe
    exact (ihe.skip _).trans ih
  | list _ _ ihitems ih => exact (ihitems.skip _).trans ih
  | hash _ _ ihentries ih => exact (ihentries.skip _).trans ih
  | noItems => exact (Spends.refl [] _).skip _
  | itemsMore _ _ ihe ih =>
    simp only [Part.lambdas, lambdasOfItems, arrowsOf_append]
    exact ihe.skipped.and_then ih
  | itemsLast _ _ ihe =>
    simp only [Part.lambdas, lambdasOfItems, List.append_nil]
    exact ihe.skipped
  | noEntries | entriesEnd => exact (Spends.refl [] _).skip _
  | entry _ _ _ ihvalue ih =>
    simp only [Part.lambdas, lambdasOfEntries, arrowsOf_append]
    exact ((ihvalue.skip _).skip _).and_then ih
  | shorthand _ _ _ ih => exact ih.skip _
  | member _ _ _ ih => exact (ih.skip _).skip _
  | method _ _ _ ihargs ih =>
    simp only [Part.given, lambdas, arrowsOf_append] at ih
    exact (((ihargs.skip _).skip _).skip _).after _ |>.trans ih
  | index _ _ ihkey ih =>
    simp only [Part.given, lambdas, arrowsOf_append] at ih
    exact (ihkey.skipped.skip _).after _ |>.trans ih
  | call _ _ ihargs ih =>
    simp only [Part.given, lambdas, arrowsOf_append] at ih
    exact (ihargs.skip _).after _ |>.trans ih

end LiveMarkup.Expr

namespace LiveMarkup

open LiveMarkup.Expr (Spends arrowPlaces arrowPlaces_append arrowPlaces_sublist_cons arrowsOf arrowsOf_append)

/-! Expressions of templates and scripts. -/

mutual

def Statement.exprs : Statement → List Expr
  | text _ => []
  | value e => [e]
  | each items _ _ body => items :: exprsOfBody body
  | cond branches otherwise => exprsOfBranches branches ++ exprsOfOtherwise otherwise

def Statement.exprsOfBody : List Statement → List Expr
  | [] => []
  | s :: ss => s.exprs ++ exprsOfBody ss

def Statement.exprsOfBranches : List (Expr × List Statement) → List Expr
  | [] => []
  | (test, body) :: more => test :: (exprsOfBody body ++ exprsOfBranches more)

def Statement.exprsOfOtherwise : Option (List Statement) → List Expr
  | none => []
  | some body => exprsOfBody body

end

def Template.exprs (t : Template) : List Expr := Statement.exprsOfBody t.statements

def ScriptLine.exprs : ScriptLine → List Expr
  | declare _ e => e.toList
  | run e => [e]

def Script.exprs (s : Script) : List Expr := s.lines.flatMap ScriptLine.exprs

/-! Programs. -/

inductive Program where
  | template (t : Template)
  | script (s : Script)
  /-- The expression of a tag. -/
  | tag (e : Expr)

namespace Program

def exprs : Program → List Expr
  | template t => t.exprs
  | script s => s.exprs
  | tag e => [e]

def lambdas (p : Program) : List Lambda := p.exprs.flatMap Expr.lambdas

inductive CompiledFrom (source : String) : Program → Prop where
  | template {t : Template} (h : Template.compile source = .ok t) : CompiledFrom source (template t)
  | script {s : Script} (h : Script.compile source = .ok s) : CompiledFrom source (script s)
  | tag {e : Expr} (h : Expr.ofTag source = .ok e) : CompiledFrom source (tag e)

end Program

/-! Arrows of programs. -/

variable {ts rest : List Lexeme} {e : Expr} {es : List Expr} {source : String}

def arrowsIn (es : List Expr) : List Pos := arrowsOf (es.flatMap Expr.lambdas)

private theorem arrowsIn_append (es es' : List Expr) :
    arrowsIn (es ++ es') = arrowsIn es ++ arrowsIn es' := by
  rw [arrowsIn, List.flatMap_append, arrowsOf_append, arrowsIn, arrowsIn]

private theorem arrowsIn_singleton (e : Expr) : arrowsIn [e] = arrowsOf e.lambdas := by
  rw [arrowsIn, List.flatMap_singleton]

/-- The arrows of an expression are among its tokens. -/
private theorem Expr.arrows_sublist (h : Expr.parse ts = .ok (e, rest)) :
    (arrowsOf e.lambdas).Sublist (arrowPlaces ts) := by
  rw [Expr.parse_eq] at h
  have hspends := (Expr.derives_of_read h).spends
  exact (List.sublist_append_left _ _).trans hspends

/-- And so they are if it stands between other tokens. -/
private theorem Expr.arrows_sublist_between (h : Expr.parse ts = .ok (e, []))
    (before after : List Lexeme) :
    (arrowsOf e.lambdas).Sublist (arrowPlaces (before ++ (ts ++ after))) := by
  rw [arrowPlaces_append, arrowPlaces_append]
  exact (arrows_sublist h).trans
    ((List.sublist_append_left _ _).trans (List.sublist_append_right _ _))

namespace Piece

def exprs : Piece → List Expr
  | value e | openEach _ e _ _ | openIf _ e | elseIf _ e => [e]
  | text _ | otherwise _ | closeEach _ | closeIf _ => []

theorem Spelled.arrows_sublist {piece : Piece} (h : Spelled piece ts) :
    (arrowsIn piece.exprs).Sublist (arrowPlaces ts) := by
  cases h with
  | text | otherwise | closeEach | closeIf => exact List.nil_sublist _
  | value p q he =>
    rw [exprs, arrowsIn_singleton]
    exact Expr.arrows_sublist_between he [_] _
  | openEach _ _ _ _ _ _ he | openEachIndexed _ _ _ _ _ _ _ _ _ he | openIf _ _ _ he =>
    rw [exprs, arrowsIn_singleton]
    exact Expr.arrows_sublist_between he [_, _] _
  | elseIf _ _ _ _ he =>
    rw [exprs, arrowsIn_singleton]
    exact Expr.arrows_sublist_between he [_, _, _] _

theorem SpelledAll.arrows_sublist {ps : List Piece} (h : SpelledAll ps ts) :
    (arrowsIn (ps.flatMap exprs)).Sublist (arrowPlaces ts) := by
  induction h with
  | nil => exact List.nil_sublist _
  | cons h _ ih =>
    rw [List.flatMap_cons, arrowsIn_append, arrowPlaces_append]
    exact h.arrows_sublist.append ih

end Piece

namespace Statement

def Form.exprs : Form → List Expr
  | body ss => exprsOfBody ss
  | tail branches otherwise => exprsOfBranches branches ++ exprsOfOtherwise otherwise

/-- Nesting keeps the expressions and their order. -/
private theorem Generates.exprs {form : Form} {ps : List Piece} (h : Generates form ps) :
    form.exprs = ps.flatMap Piece.exprs := by
  induction h with
  | nil | close => rfl
  | _ => simp_all [Form.exprs, Statement.exprs, exprsOfBody, exprsOfBranches, exprsOfOtherwise, Piece.exprs]

end Statement

private theorem Template.arrows_sublist {t : Template} (h : ofLexemes ts = .ok t) :
    (arrowsIn t.exprs).Sublist (arrowPlaces ts) := by
  obtain ⟨ps, hspelled, hgenerates⟩ := exists_pieces h
  have hexprs : t.exprs = ps.flatMap Piece.exprs := hgenerates.exprs
  rw [hexprs]
  exact hspelled.arrows_sublist

namespace ScriptLine

theorem Spelled.arrows_sublist {l : ScriptLine} (h : Spelled l ts) :
    (arrowsIn l.exprs).Sublist (arrowPlaces ts) := by
  cases h with
  | bare => exact List.nil_sublist _
  | defined x p q r he =>
    have hbetween := Expr.arrows_sublist_between he [⟨.keyword .declare, p⟩, ⟨.name x, q⟩, ⟨.symbol .assign, r⟩] []
    rw [List.append_nil] at hbetween
    exact (arrowsIn_singleton _).symm ▸ hbetween
  | run he => exact (arrowsIn_singleton _).symm ▸ Expr.arrows_sublist he

theorem SpelledAll.arrows_sublist {ls : List ScriptLine} (h : SpelledAll ls ts) :
    (arrowsIn (ls.flatMap exprs)).Sublist (arrowPlaces ts) := by
  induction h with
  | nil => exact List.nil_sublist _
  | separator _ _ ih => exact ih.trans (arrowPlaces_sublist_cons _ _)
  | last h =>
    rw [List.flatMap_singleton]
    exact h.arrows_sublist
  | line h _ _ ih =>
    rw [List.flatMap_cons, arrowsIn_append, arrowPlaces_append]
    exact h.arrows_sublist.append (ih.trans (arrowPlaces_sublist_cons _ _))

end ScriptLine

private theorem Expr.ofTag_arrows (h : Expr.ofTag source = .ok e) :
    ∃ ts, Lexer.ofTemplate source = .ok ts ∧ (arrowsOf e.lambdas).Sublist (arrowPlaces ts) := by
  unfold Expr.ofTag at h
  split at h
  · cases h
  · next ts hts =>
    refine ⟨ts, hts, ?_⟩
    have hinside : (ts.dropWhile fun t => !t.token.isSymbol .openTag).tail.Sublist ts :=
      (List.tail_sublist _).trans (List.dropWhile_sublist _)
    have hparse {r : Reads Expr (ts.dropWhile fun t => !t.token.isSymbol .openTag).tail.length}
        (hr : Expr.read (ts.dropWhile fun t => !t.token.isSymbol .openTag).tail = .ok r) :
        (arrowsOf r.value.lambdas).Sublist (arrowPlaces ts) :=
      (arrows_sublist (by rw [Expr.parse, hr])).trans ((hinside.filter _).map _)
    split at h
    · cases h
    · next hr =>
      cases h
      exact hparse hr
    · next hr =>
      split at h
      · cases h
        exact hparse hr
      · cases h

/-- Tokens one behind the other have their arrows at different places. -/
private theorem nodup_arrowPlaces (h : ts.Pairwise fun s t => s.pos.Before t.pos) :
    (arrowPlaces ts).Nodup := by
  refine List.pairwise_map.2 ((h.filter _).imp fun hbefore heq => ?_)
  rw [heq] at hbefore
  unfold Pos.Before at hbefore
  omega

namespace Program

/-- No two lambdas of a program have their arrows at one place. -/
theorem CompiledFrom.nodup_arrows {p : Program} (h : p.CompiledFrom source) : (arrowsOf p.lambdas).Nodup := by
  cases h with
  | template h =>
    obtain ⟨ts, hlexed, hparsed⟩ := Template.compile_eq_ok_iff.1 h
    exact (nodup_arrowPlaces (Lexer.ofTemplate_ordered hlexed)).sublist (Template.arrows_sublist hparsed)
  | script h =>
    obtain ⟨ts, hlexed, hparsed⟩ := Script.compile_eq_ok_iff.1 h
    exact (nodup_arrowPlaces (Lexer.ofScript_ordered hlexed)).sublist hparsed.arrows_sublist
  | tag h =>
    obtain ⟨ts, hlexed, harrows⟩ := Expr.ofTag_arrows h
    rw [← arrowsIn_singleton] at harrows
    exact (nodup_arrowPlaces (Lexer.ofTemplate_ordered hlexed)).sublist harrows

end Program

end LiveMarkup
