import LiveMarkup.Proofs.Expr.Blame
import LiveMarkup.Proofs.Expr.Used
import LiveMarkup.Proofs.Scope.Clean
import LiveMarkup.Proofs.Template.Pieces
import LiveMarkup.Proofs.Token.Print

/-! Paths: a variable, and names and positions after dots. A path is read as members of members unless a position
stands right after a position: the point between two of them makes them a single number. -/

namespace LiveMarkup

/-- A step of a path: the name of a member, or a position. -/
inductive Segment where
  | name (s : String)
  | index (n : Nat)

namespace Segment

def text : Segment → String
  | name s => s
  | index n => toString n

def isIndex : Segment → Bool
  | name _ => false
  | index _ => true

/-- Names are identifiers, but no constants. Positions are integers. -/
def Legal : Segment → Prop
  | name s =>
      (∃ c cs, s.toList = c :: cs ∧ Text.isIdentStart c = true ∧ ∀ d ∈ cs, Text.isIdentRest d = true) ∧
      s ∉ ["true", "false", "null", "undefined"]
  | index n => n < Nat.pow 2 63

/-- No position stands right after a position. -/
def Apart (path : List Segment) : Prop := path.IsChain fun p q => (p.isIndex && q.isIndex) = false

instance (path : List Segment) : Decidable (Apart path) := inferInstanceAs (Decidable (List.IsChain _ path))

def dotted (path : List Segment) : List Char := path.flatMap fun p => '.' :: p.text.toList

def token : Segment → Token
  | name s => if s = "as" then .keyword .asWord else .name s
  | index n => .literal (.int (Int64.ofNat n))

/-- The tokens of dotted steps. Two positions are one number. -/
def tokens : List Segment → List Token
  | [] => []
  | index m :: index n :: path =>
    .symbol .dot ::
      .literal (Lexer.numeralValue (Nat.toDigits 10 m ++ '.' :: Nat.toDigits 10 n)) :: tokens path
  | p :: path => .symbol .dot :: p.token :: tokens path

/-- The value that a step leads to: the entry of a hash under its name, or the element of a list at its
position. -/
def next? (v : Value) (p : Segment) : Option Value :=
  match v, p with
  | .hash entries, p => Dictionary.get? entries p.text
  | .list items, index n => items[n]?
  | _, _ => none

def follow? (v : Value) (path : List Segment) : Option Value := path.foldlM next? v

def tag (x : String) (path : List Segment) : String :=
  String.ofList ('\x7b' :: '\x7b' :: ' ' :: (x.toList ++ (dotted path ++ [' ', '\x7d', '\x7d'])))

def expr (x : String) (path : List Segment) : Expr := path.foldl (fun e p => .member e p.text) (.name x)

variable {path : List Segment} {p : Segment}

end Segment

open Segment

namespace Lexer

variable {ctx : Context} {pos : Pos} {cs : List Char} {path : List Segment} {p : Segment}

private theorem endsName_dotted (path : List Segment) :
    EndsName (dotted path ++ [' ', '\x7d', '\x7d']) := by
  cases path with
  | nil =>
    rintro c ⟨⟩
    decide
  | cons p path =>
    rintro c ⟨⟩
    decide

private theorem beginsDigit_segment (hp : p.isIndex = false) (hlegal : p.Legal) (cs : List Char) :
    beginsDigit (p.text.toList ++ cs) = false := by
  cases p with
  | index n => cases hp
  | name s =>
    obtain ⟨⟨c, w, hs, hc, -⟩, -⟩ := hlegal
    rw [Segment.text, hs]
    exact Text.isDigit_of_isIdentStart hc

private theorem endsDigits_dotted {pointed : Bool} (hlegal : ∀ p ∈ path, p.Legal)
    (h : pointed = false → ∀ p ∈ path.head?, p.isIndex = false) :
    EndsDigits pointed (dotted path ++ [' ', '\x7d', '\x7d']) := by
  cases path with
  | nil =>
    rintro c ⟨⟩
    exact ⟨by decide, fun _ => by decide⟩
  | cons p path =>
    rintro c ⟨⟩
    refine ⟨by decide, fun hpointed _ => ?_⟩
    change beginsDigit ((p.text.toList ++ dotted path) ++ [' ', '\x7d', '\x7d']) = false
    rw [List.append_assoc]
    exact beginsDigit_segment (h hpointed p rfl) (hlegal p List.mem_cons_self) _

/-- Reading a token that stands after a dot. -/
private theorem code_dotted {c : Char} {w rest : List Char} {t : Token}
    (hblank : Text.isBlank c = false) (hbrace : c ≠ '\x7d')
    (hread : splitToken .tag (ctx.after (.symbol .dot)) (pos.next '.') c (w ++ rest) = .ok ⟨t, c :: w, rest⟩) :
    code .tag ctx pos ('.' :: (c :: w ++ rest)) =
      (code .tag ((ctx.after (.symbol .dot)).after t) (pos.after ('.' :: c :: w)) rest).map fun r =>
        (r.cons ⟨t, pos.next '.'⟩).cons ⟨.symbol .dot, pos⟩ := by
  have hdot : splitToken .tag ctx pos '.' (c :: (w ++ rest)) =
      .ok ⟨.symbol .dot, ['.'], c :: (w ++ rest)⟩ := rfl
  have hnext := code_token hblank (fun h => hbrace h.2) hread
  rw [List.cons_append, code_token (by decide) (fun h => absurd h.2 (by decide)) hdot]
  change (code .tag (ctx.after (.symbol .dot)) (pos.next '.') (c :: (w ++ rest))).map _ = _
  rw [hnext]
  change _ = (code .tag ((ctx.after (.symbol .dot)).after t) ((pos.next '.').after (c :: w)) rest).map _
  cases code .tag ((ctx.after (.symbol .dot)).after t) ((pos.next '.').after (c :: w)) rest <;> rfl

private theorem numeralValue_toDigits {n : Nat} (h : n < Nat.pow 2 63) :
    numeralValue (Nat.toDigits 10 n) = .int (Int64.ofNat n) := by
  obtain ⟨⟨-, hall⟩, hvalue⟩ := digits_of_nat n
  rw [numeralValue_digits hall, hvalue, if_pos h]

/-- The first of some digits is neither white space nor a brace. -/
private theorem exists_digit (n : Nat) :
    ∃ c w, Nat.toDigits 10 n = c :: w ∧ c.isDigit = true ∧ Text.isBlank c = false ∧ c ≠ '\x7d' := by
  obtain ⟨c, w, hw⟩ := List.exists_cons_of_ne_nil (Nat.toDigits_ne_nil (n := n) (b := 10))
  have hc : c.isDigit = true := Decimal.isDigit_of_mem_toDigits (hw ▸ List.mem_cons_self)
  refine ⟨c, w, hw, hc, Bool.eq_false_iff.2 fun hblank => ?_, ?_⟩
  · have hrest := Text.isIdentRest_of_isBlank hblank
    rw [Text.isIdentRest, hc, Bool.or_true] at hrest
    cases hrest
  · rintro rfl
    exact absurd hc (by decide)

/-- A step that no position joins is read as its token. -/
private theorem splitToken_segment (pos : Pos) (hfirst : ctx.first = false)
    (helse : ctx.afterElse = false) (hlegal : p.Legal) (hname : EndsName cs)
    (hdigits : p.isIndex = true → EndsDigits false cs) :
    ∃ c w, p.text.toList = c :: w ∧ Text.isBlank c = false ∧ c ≠ '\x7d' ∧
      splitToken .tag ctx pos c (w ++ cs) = .ok ⟨p.token, c :: w, cs⟩ := by
  cases p with
  | name s =>
    obtain ⟨⟨c, w, hs, hc, hw⟩, hconstant⟩ := hlegal
    have hword : wordToken .tag ctx s = (Segment.name s).token := by
      rw [Segment.token]
      split
      · next has =>
        subst has
        simp [wordToken]
      · next has =>
        refine wordToken_name ?_ (by simp [hfirst]) (by simp [helse])
        rw [constantWords]
        simp only [List.mem_cons, List.not_mem_nil, or_false, not_or] at hconstant ⊢
        exact ⟨hconstant.1, hconstant.2.1, hconstant.2.2.1, hconstant.2.2.2, has⟩
    have hread : ReadBack ctx _ c w := readBack_word hc hw rfl
    refine ⟨c, w, hs, hread.notBlank, ?_, ?_⟩
    · rintro rfl
      exact absurd hc (by decide)
    · rw [splitToken_word hc hname hw, ← hs, String.ofList_toList, hword, hs]
  | index n =>
    obtain ⟨c, w, hw, hc, hblank, hbrace⟩ := exists_digit n
    obtain ⟨⟨-, hall⟩, -⟩ := digits_of_nat n
    have hvalue := numeralValue_toDigits hlegal
    rw [hw] at hall hvalue
    refine ⟨c, w, (Decimal.toList_toString n).trans hw, hblank, hbrace, ?_⟩
    rw [splitToken_digits hc hall (hdigits rfl), hvalue]
    rfl

/-- The point between two positions belongs to the number that begins with the first of them. -/
private theorem splitNumeral_joined (m n : Nat) (h : EndsDigits true cs) :
    splitNumeral false (Nat.toDigits 10 m ++ '.' :: (Nat.toDigits 10 n ++ cs)) =
      (Nat.toDigits 10 m ++ '.' :: Nat.toDigits 10 n, cs) := by
  obtain ⟨⟨-, hm⟩, -⟩ := digits_of_nat m
  obtain ⟨⟨-, hn⟩, -⟩ := digits_of_nat n
  generalize Nat.toDigits 10 m = ds at hm
  induction ds with
  | nil =>
    have hnext : beginsDigit (Nat.toDigits 10 n ++ cs) = true := by
      obtain ⟨d, w, hw, hd, -⟩ := exists_digit n
      rw [hw]
      exact hd
    rw [List.nil_append, splitNumeral, if_neg (by decide), if_pos (by rw [hnext]; rfl),
      splitNumeral_append_digits h hn]
    rfl
  | cons d ds ih =>
    obtain ⟨hd, hds⟩ := List.forall_mem_cons.1 hm
    rw [List.cons_append, splitNumeral, if_pos hd, ih hds]
    rfl

/-- Two positions are read as one number. -/
private theorem splitToken_joined (ctx : Context) (pos : Pos) (m n : Nat) (h : EndsDigits true cs) :
    ∃ c w, Nat.toDigits 10 m ++ '.' :: Nat.toDigits 10 n = c :: w ∧ Text.isBlank c = false ∧ c ≠ '\x7d' ∧
      splitToken .tag ctx pos c (w ++ cs) =
        .ok ⟨.literal (numeralValue (Nat.toDigits 10 m ++ '.' :: Nat.toDigits 10 n)), c :: w, cs⟩ := by
  have hjoined := splitNumeral_joined m n h
  obtain ⟨c, w, hw, hc, hblank, hbrace⟩ := exists_digit m
  refine ⟨c, w ++ '.' :: Nat.toDigits 10 n, by rw [hw]; rfl, hblank, hbrace, ?_⟩
  rw [hw] at hjoined ⊢
  rw [splitToken, if_pos hc, List.append_assoc, List.cons_append, ← List.cons_append, hjoined]
  rfl

private theorem braces_after_dotted {t : Token} (hbraces : ctx.braces = 0) (ht : t.symbol? = none) :
    ((ctx.after (.symbol .dot)).after t).braces = 0 := by
  cases t with
  | symbol => cases ht
  | _ => exact hbraces

private theorem symbol?_token (p : Segment) : p.token.symbol? = none := by
  cases p with
  | name s =>
    rw [Segment.token]
    split <;> rfl
  | index n => rfl

/-- Dotted steps are read as their tokens, and the braces that close the tag after them. -/
private theorem code_path (ctx : Context) (pos : Pos) (path : List Segment)
    (hlegal : ∀ p ∈ path, p.Legal) (hbraces : ctx.braces = 0) :
    ∃ r q, code .tag ctx pos (dotted path ++ [' ', '\x7d', '\x7d']) = .ok r ∧ r.after = some (q, []) ∧
      r.lexemes.map Lexeme.token = tokens path ++ [.symbol .closeTag] := by
  fun_induction tokens path generalizing ctx pos with
  | case1 =>
    have hclose : code .tag ctx (pos.next ' ') ['\x7d', '\x7d'] = _ := code_close hbraces
    exact ⟨_, _, (code_blank (by decide)).trans hclose, rfl, rfl⟩
  | case2 m n path ih =>
    obtain ⟨-, hlegal⟩ := List.forall_mem_cons.1 hlegal
    obtain ⟨-, hlegal⟩ := List.forall_mem_cons.1 hlegal
    obtain ⟨c, w, hw, hblank, hbrace, hread⟩ :=
      splitToken_joined (ctx.after (.symbol .dot)) (pos.next '.') m n
        (endsDigits_dotted hlegal nofun)
    obtain ⟨r, q, hr, ha, hls⟩ := ih ((ctx.after (.symbol .dot)).after (.literal _)) (pos.after ('.' :: c :: w))
      hlegal (braces_after_dotted hbraces rfl)
    have htext : dotted (.index m :: .index n :: path) ++ [' ', '\x7d', '\x7d'] =
        '.' :: (c :: w ++ (dotted path ++ [' ', '\x7d', '\x7d'])) := by
      rw [← hw]
      simp [dotted, Segment.text]
    rw [htext, code_dotted hblank hbrace hread, hr]
    exact ⟨_, q, rfl, ha, congrArg (fun ls => _ :: _ :: ls) hls⟩
  | case3 p path hjoined ih =>
    obtain ⟨hp, hlegal⟩ := List.forall_mem_cons.1 hlegal
    have hdigits (hindex : p.isIndex = true) : EndsDigits false (dotted path ++ [' ', '\x7d', '\x7d']) := by
      refine endsDigits_dotted hlegal fun _ q hq => ?_
      cases p with
      | name s => cases hindex
      | index m =>
        cases q with
        | name s => rfl
        | index n =>
          obtain ⟨more, rfl⟩ := List.head?_eq_some_iff.1 hq
          exact (hjoined m n more rfl rfl).elim
    obtain ⟨c, w, hw, hblank, hbrace, hread⟩ := splitToken_segment (pos.next '.')
      (first_after ctx (.symbol .dot)) (afterElse_after ctx _) hp (endsName_dotted path) hdigits
    obtain ⟨r, q, hr, ha, hls⟩ := ih ((ctx.after (.symbol .dot)).after p.token) (pos.after ('.' :: c :: w))
      hlegal (braces_after_dotted hbraces (symbol?_token p))
    have htext : dotted (p :: path) ++ [' ', '\x7d', '\x7d'] =
        '.' :: (c :: w ++ (dotted path ++ [' ', '\x7d', '\x7d'])) := by
      rw [← hw]
      simp [dotted]
    rw [htext, code_dotted hblank hbrace hread, hr]
    exact ⟨_, q, rfl, ha, congrArg (fun ls => _ :: _ :: ls) hls⟩

/-- A tag with a path is read as the variable, the tokens of the steps and the braces around them. -/
private theorem ofTemplate_path {x : String} (hx : (Token.name x).Occurs true false)
    (hlegal : ∀ p ∈ path, p.Legal) :
    ∃ ls, ofTemplate (Segment.tag x path) = .ok (⟨.symbol .openTag, ⟨1, 1⟩⟩ :: ⟨.name x, ⟨1, 4⟩⟩ :: ls) ∧
      ls.map Lexeme.token = tokens path ++ [.symbol .closeTag] := by
  obtain ⟨⟨c, w, hw, hc, hrest⟩, hconstant, hfirst, -⟩ := hx
  have hword : wordToken .tag (.ofTag (.symbol .openTag)) x = .name x :=
    wordToken_name hconstant (fun _ => hfirst rfl) nofun
  have hread : ReadBack (.ofTag (.symbol .openTag)) (.name x) c w :=
    readBack_word hc hrest (by rw [← hw, String.ofList_toList, hword])
  have htoken : splitToken .tag (.ofTag (.symbol .openTag)) ⟨1, 4⟩ c (w ++ (dotted path ++ [' ', '\x7d', '\x7d'])) =
      .ok ⟨.name x, c :: w, dotted path ++ [' ', '\x7d', '\x7d']⟩ := by
    rw [splitToken_word hc (endsName_dotted path) hrest, ← hw, String.ofList_toList, hword]
  obtain ⟨r, q, hr, ha, hls⟩ := code_path (Context.after (.ofTag (.symbol .openTag)) (.name x))
    (Pos.after ⟨1, 4⟩ (c :: w)) path hlegal rfl
  have hcode := code_token hread.notBlank (fun h => absurd (hread.brace h.2) nofun) htoken
  dsimp only at hcode
  rw [hr] at hcode
  have hcloser : splitCloser? ⟨1, 4⟩ (c :: (w ++ (dotted path ++ [' ', '\x7d', '\x7d']))) = .ok none := by
    refine splitCloser?_eq_none ?_
    rintro rfl
    exact absurd hc (by decide)
  have htag : Lexer.tag ⟨1, 1⟩ ⟨1, 3⟩ ([' '] ++ c :: (w ++ (dotted path ++ [' ', '\x7d', '\x7d']))) = _ :=
    tag_of_code ⟨1, 1⟩ (List.all_eq_true.1 rfl) hread.notBlank hcloser hcode ha
  have hcut : Text.cut? ['\x7b', '\x7b'] (Segment.tag x path).toList =
      some ([], ' ' :: (x.toList ++ (dotted path ++ [' ', '\x7d', '\x7d']))) := by
    rw [Segment.tag, String.toList_ofList]
    rfl
  refine ⟨r.lexemes, ?_, hls⟩
  rw [hw] at hcut
  rw [ofTemplate, template_tag .start hcut htag (template_nil q)]
  simp [textLexemes, Code.cons]
  rfl

end Lexer

namespace Expr

variable {ts : List Lexeme} {path : List Segment} {target : Expr} {e : CompileError} {x : String}

private theorem memberName?_token {p : Segment} (h : p.Legal) :
    memberName? p.token = some p.text := by
  cases p with
  | name s =>
    rw [Segment.token, Segment.text]
    split
    · next hs =>
      subst hs
      rfl
    · rfl
  | index n =>
    have hn : (Int64.ofNat n).toInt = n := Int64.toInt_ofNat_of_lt h
    rw [Segment.token, memberName?, hn]
    rfl

private theorem exists_two_lexemes {t u : Token} {us : List Token}
    (hts : ts.map Lexeme.token = t :: u :: us) :
    ∃ a b rest, ts = ⟨t, a⟩ :: ⟨u, b⟩ :: rest ∧ rest.map Lexeme.token = us := by
  obtain ⟨⟨_, a⟩, more, rfl, rfl, hmore⟩ := List.map_eq_cons_iff.1 hts
  obtain ⟨⟨_, b⟩, rest, rfl, rfl, hrest⟩ := List.map_eq_cons_iff.1 hmore
  exact ⟨a, b, rest, rfl, hrest⟩

/-- After a step comes a dot or the end of the tag. -/
private theorem clear_path {kind : Token → Prop}
    (hts : ts.map Lexeme.token = tokens path ++ [.symbol .closeTag]) (hdot : ¬ kind (.symbol .dot))
    (hclose : ¬ kind (.symbol .closeTag)) : Clear kind ts := by
  revert hts
  fun_cases tokens path with
  | case1 =>
    intro hts
    obtain ⟨t, -, rfl, ht, -⟩ := List.map_eq_cons_iff.1 hts
    rwa [clear_cons, ht]
  | case2 | case3 =>
    intro hts
    obtain ⟨a, b, rest, rfl, -⟩ := exists_two_lexemes hts
    exact clear_of_symbol hdot

/-- Steps that no position joins are read as members. -/
private theorem derives_path (target : Expr) (hlegal : ∀ p ∈ path, p.Legal) (hapart : Apart path)
    (hts : ts.map Lexeme.token = tokens path ++ [.symbol .closeTag]) :
    ∃ pos, Derives (.accesses target) ts (path.foldl (fun e p => .member e p.text) target)
      [⟨.symbol .closeTag, pos⟩] := by
  fun_induction tokens path generalizing ts target with
  | case1 =>
    obtain ⟨⟨token, pos⟩, rfl, htoken⟩ := List.map_eq_singleton_iff.1 hts
    obtain rfl : token = .symbol .closeTag := htoken
    exact ⟨pos, .accessed (clear_of_symbol (by decide))⟩
  | case2 m n path ih =>
    obtain ⟨hjoined, -⟩ := List.isChain_cons_cons.1 hapart
    cases hjoined
  | case3 p path _ ih =>
    obtain ⟨hp, hlegal⟩ := List.forall_mem_cons.1 hlegal
    obtain ⟨a, b, more, rfl, hmore⟩ := exists_two_lexemes hts
    obtain ⟨pos, h⟩ := ih (.member target p.text) hlegal hapart.tail hmore
    exact ⟨pos, .member (memberName?_token hp) (clear_path hmore (by decide) (by decide)) h⟩

/-! A path that is refused. The error of a step is that of the whole expression. -/

private theorem readAccesses_member {t : Lexeme} {pos : Pos} {field : String}
    (hfield : memberName? t.token = some field) (hrest : Clear (· = .symbol .openRound) ts)
    (h : (Part.accesses (.member target field)).read ts = .error e) :
    (Part.accesses target).read (⟨.symbol .dot, pos⟩ :: t :: ts) = .error e := by
  have h := outcome_eq_error.1 h
  rw [Part.read, outcome_eq_error, readAccesses.eq_def]
  simp only [hfield]
  split
  · simp at hrest
  · simp only [h]

private theorem readTerm_name {pos : Pos} (hrest : Clear (· = .symbol .arrow) ts)
    (h : (Part.accesses (.name x)).read ts = .error e) :
    Part.term.read (⟨.name x, pos⟩ :: ts) = .error e := by
  have h := outcome_eq_error.1 h
  rw [Part.read, outcome_eq_error, readTerm]
  dsimp only
  split
  · simp at hrest
  · exact h

/-- What begins with a name begins with a term. -/
private theorem read_name_error (pos : Pos) (h : Part.term.read (⟨.name x, pos⟩ :: ts) = .error e) :
    Expr.read (⟨.name x, pos⟩ :: ts) = .error e := by
  rw [Part.read, outcome_eq_error] at h
  have hunary : readUnary (⟨.name x, pos⟩ :: ts) = .error e := by
    rw [readUnary]
    simp only [Token.symbol?, Option.bind_none, h]
  have hbinary : readBinary 0 (⟨.name x, pos⟩ :: ts) = .error e := by rw [readBinary, hunary]
  have hconditional : readConditional (⟨.name x, pos⟩ :: ts) = .error e := by rw [readConditional, hbinary]
  rw [Expr.read, hconditional]

/-- The number that two positions make is no member. -/
private theorem readAccesses_path (target : Expr) (hlegal : ∀ p ∈ path, p.Legal)
    (hjoined : ¬ Apart path) (hts : ts.map Lexeme.token = tokens path ++ [.symbol .closeTag]) :
    ∃ v pos, (Part.accesses target).read ts = .error (.unexpected ⟨.literal (.float v), pos⟩) := by
  fun_induction tokens path generalizing ts target with
  | case1 => exact absurd List.isChain_nil hjoined
  | case2 m n path ih =>
    obtain ⟨a, b, more, rfl, -⟩ := exists_two_lexemes hts
    obtain ⟨⟨-, hm⟩, -⟩ := Lexer.digits_of_nat m
    obtain ⟨⟨-, hn⟩, -⟩ := Lexer.digits_of_nat n
    obtain ⟨v, hv⟩ : ∃ v, Lexer.numeralValue (Nat.toDigits 10 m ++ '.' :: Nat.toDigits 10 n) = .float v :=
      ⟨_, Lexer.numeralValue_point hm hn⟩
    refine ⟨v, b, ?_⟩
    rw [hv, Part.read, outcome_eq_error, readAccesses.eq_def]
    rfl
  | case3 p path hfirst ih =>
    obtain ⟨hp, hlegal⟩ := List.forall_mem_cons.1 hlegal
    obtain ⟨a, b, more, rfl, hmore⟩ := exists_two_lexemes hts
    have hrest : ¬ Apart path := by
      intro hrest
      refine hjoined (List.isChain_cons.2 ⟨fun q hq => ?_, hrest⟩)
      obtain ⟨steps, rfl⟩ := List.head?_eq_some_iff.1 hq
      cases p with
      | name s => rfl
      | index m =>
        cases q with
        | name s => rfl
        | index n => exact (hfirst m n steps rfl rfl).elim
    obtain ⟨v, pos, h⟩ := ih (.member target p.text) hlegal hrest hmore
    exact ⟨v, pos, readAccesses_member (memberName?_token hp) (clear_path hmore (by decide) (by decide)) h⟩

end Expr

namespace Segment

variable {p : Segment} {path : List Segment} {v w : Value}

/-- Where a step leads to, there is a member. -/
private theorem field?_of_next? (hp : p.Legal) (h : next? v p = some w) :
    v.field? p.text = some w := by
  cases v with
  | hash entries => exact h
  | list items =>
    cases p with
    | name s => cases h
    | index n =>
      have hn : n < Nat.pow 2 64 := Nat.lt_trans hp (by decide)
      have hitem : items[n]? = some w := h
      rw [text, Value.field?, Decimal.readIndex?_toString hn, Option.map_some, Value.element, hitem]
      rfl
  | _ => cases h

variable {σ : Type} {h : Host σ} {env : Env σ} {x : String} {root : Value}

private theorem eval_name (hx : (env.locals.get? x).orElse (fun _ => (h.scope env.outer).get? x) = some v)
    (fuel source : Nat) : Eval.expr h (fuel + 1) source (.name x) env = .ok v env := by
  have hget : Env.get? h x env = .ok (some v) env := congrArg (EStateM.Result.ok · env) hx
  rw [Eval.expr, Eval.step, Run.bind_of_ok hget]
  rfl

private theorem eval_member {fuel source : Nat} {target : Expr} {field : String}
    (htarget : Eval.expr h fuel source target env = .ok v env) (hfield : v.field? field = some w) :
    Eval.expr h (fuel + 1) source (.member target field) env = .ok w env := by
  rw [Eval.expr, Eval.step, Run.bind_of_ok htarget, Eval.memberOf, hfield]
  rfl

/-- A path comes to the value that it leads to, at every depth that is greater than its length. -/
private theorem eval_expr (hlegal : ∀ p ∈ path, p.Legal)
    (hx : (env.locals.get? x).orElse (fun _ => (h.scope env.outer).get? x) = some root)
    (hfollow : follow? root path = some v) {fuel : Nat} (hfuel : path.length < fuel) (source : Nat) :
    Eval.expr h fuel source (expr x path) env = .ok v env := by
  induction path using List.reverseRecOn generalizing v fuel with
  | nil =>
    cases hfollow
    obtain ⟨n, rfl⟩ := Nat.exists_eq_add_of_lt hfuel
    exact eval_name hx _ source
  | append_singleton path p ih =>
    rw [follow?, List.foldlM_append] at hfollow
    obtain ⟨w, hw, hv⟩ := Option.bind_eq_some_iff.1 hfollow
    rw [List.length_append, List.length_singleton] at hfuel
    obtain ⟨n, rfl⟩ : ∃ n, fuel = n + 1 := ⟨fuel - 1, by omega⟩
    rw [expr, List.foldl_append]
    refine eval_member (ih (fun p hp => hlegal p (List.mem_append_left _ hp)) hw (by omega)) ?_
    refine field?_of_next? (hlegal p (List.mem_append_right _ List.mem_cons_self)) ?_
    simpa using hv

end Segment

namespace Template

variable {x : String} {path : List Segment}

private theorem compile_apart (hx : (Token.name x).Occurs true false) (hlegal : ∀ p ∈ path, p.Legal)
    (hapart : Apart path) : compile (Segment.tag x path) = .ok ⟨[.value (Segment.expr x path)]⟩ := by
  obtain ⟨ls, hls, htokens⟩ := Lexer.ofTemplate_path hx hlegal
  obtain ⟨pos, h⟩ := Expr.derives_path (.name x) hlegal hapart htokens
  have hname : Expr.Derives .term (⟨.name x, ⟨1, 4⟩⟩ :: ls) (Segment.expr x path) [⟨.symbol .closeTag, pos⟩] :=
    .name (Expr.clear_path htokens (by decide) (by decide)) h
  have hread := Expr.derives_iff_read.1 (hname.expr_of_term (Expr.clear_of_symbol (by decide)))
  obtain ⟨used, hused, hparse⟩ := Expr.read_eq hread
  have hpieces : Piece.readAll (⟨.symbol .openTag, ⟨1, 1⟩⟩ :: ⟨.name x, ⟨1, 4⟩⟩ :: ls) =
      ([.value (Segment.expr x path)], none) := by
    have hspelled := Piece.SpelledAll.cons (Piece.Spelled.value ⟨1, 1⟩ pos hparse) .nil
    rw [List.append_nil, ← hused] at hspelled
    exact hspelled.readAll
  rw [compile, hls]
  dsimp only
  rw [ofLexemes, hpieces]
  rfl

private theorem compile_joined (hx : (Token.name x).Occurs true false) (hlegal : ∀ p ∈ path, p.Legal)
    (hjoined : ¬ Apart path) :
    ∃ v pos, compile (Segment.tag x path) = .error (.unexpected ⟨.literal (.float v), pos⟩) := by
  obtain ⟨ls, hls, htokens⟩ := Lexer.ofTemplate_path hx hlegal
  obtain ⟨v, pos, h⟩ := Expr.readAccesses_path (.name x) hlegal hjoined htokens
  have hread := Expr.read_name_error ⟨1, 4⟩
    (Expr.readTerm_name (Expr.clear_path htokens (by decide) (by decide)) h)
  have hpieces : Piece.readAll (⟨.symbol .openTag, ⟨1, 1⟩⟩ :: ⟨.name x, ⟨1, 4⟩⟩ :: ls) =
      ([], some (.unexpected ⟨.literal (.float v), pos⟩)) := by
    have htag : Piece.readTag (⟨.name x, ⟨1, 4⟩⟩ :: ls) = .error (.unexpected ⟨.literal (.float v), pos⟩) := by
      rw [Piece.readTag_of_begins rfl, Piece.readValue, hread]
    have hpiece : Piece.read ⟨.symbol .openTag, ⟨1, 1⟩⟩ (⟨.name x, ⟨1, 4⟩⟩ :: ls) =
        .error (.unexpected ⟨.literal (.float v), pos⟩) := by
      rw [Piece.read, htag]
      rfl
    rw [Piece.readAll, hpiece]
  refine ⟨v, pos, ?_⟩
  rw [compile, hls]
  dsimp only
  rw [ofLexemes, hpieces]
  rfl

/-- A path of names and positions, however long, is read as members of members and comes to the value that it leads
to, wherever its variable is found, unless a position stands right after a position: then it is refused, for the
number that these two are read as. -/
theorem compile_path (hx : (Token.name x).Occurs true false) (hlegal : ∀ p ∈ path, p.Legal) :
    (Apart path → compile (Segment.tag x path) = .ok ⟨[.value (Segment.expr x path)]⟩) ∧
      (¬ Apart path →
        ∃ v pos, compile (Segment.tag x path) = .error (.unexpected ⟨.literal (.float v), pos⟩)) ∧
      ∀ {σ : Type} (h : Host σ) (env : Env σ) (root v : Value),
        (env.locals.get? x).orElse (fun _ => (h.scope env.outer).get? x) = some root →
        follow? root path = some v → ∀ fuel, path.length < fuel → ∀ source,
          Eval.expr h fuel source (Segment.expr x path) env = .ok v env :=
  ⟨compile_apart hx hlegal, compile_joined hx hlegal, fun _ _ _ _ hroot hfollow _ hfuel source =>
    Segment.eval_expr hlegal hroot hfollow hfuel source⟩

def branch : List Segment := [.index 0, .name "if", .index 1]

def nested : Value := .list [.hash [("if", .list [.int 1, .int 2])]]

private theorem occurs_m : (Token.name "m").Occurs true false :=
  ⟨⟨'m', [], rfl, by decide, nofun⟩, by decide, fun _ => by decide, nofun⟩

private theorem legal_index {n : Nat} (h : n < 10) :
    (Segment.index n).Legal := Nat.lt_trans h (by decide)

private theorem legal_branch : ∀ p ∈ branch, p.Legal := by
  have hname : (Segment.name "if").Legal :=
    ⟨⟨'i', ['f'], rfl, by decide, List.all_eq_true.1 rfl⟩, by decide⟩
  simp only [branch, List.forall_mem_cons]
  exact ⟨legal_index (by decide), hname, legal_index (by decide), nofun⟩

theorem compile_path_branch :
    (Token.name "m").Occurs true false ∧ (∀ p ∈ branch, p.Legal) ∧
      compile (Segment.tag "m" branch) =
        .ok ⟨[.value (.member (.member (.member (.name "m") "0") "if") "1")]⟩ ∧
      Eval.expr (Observed.host [] 1) 4 0 (Segment.expr "m" branch) ⟨[("m", nested)], .ofProps []⟩ =
        .ok (.int 2) ⟨[("m", nested)], .ofProps []⟩ := by
  obtain ⟨hcompile, -, hvalue⟩ := compile_path occurs_m legal_branch
  exact ⟨occurs_m, legal_branch, hcompile (by decide),
    hvalue (Observed.host [] 1) ⟨[("m", nested)], .ofProps []⟩ nested (.int 2) rfl rfl 4 (by decide) 0⟩

def positions : List Segment := [.index 0, .index 1]

/-- The steps lead to a value, and their tag does not compile. -/
theorem positions_joined :
    Segment.tag "m" positions = "\x7b\x7b m.0.1 \x7d\x7d" ∧ (∀ p ∈ positions, p.Legal) ∧
      follow? (.list [.list [.int 1, .int 2], .list [.int 3]]) positions = some (.int 2) ∧
      ∃ e, compile (Segment.tag "m" positions) = .error e := by
  have hlegal : ∀ p ∈ positions, p.Legal := by
    simp only [positions, List.forall_mem_cons]
    exact ⟨legal_index (by decide), legal_index (by decide), nofun⟩
  obtain ⟨v, pos, h⟩ := compile_joined occurs_m hlegal (by decide)
  exact ⟨rfl, hlegal, rfl, _, h⟩

end Template

end LiveMarkup
