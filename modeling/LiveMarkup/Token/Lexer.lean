import LiveMarkup.CompileError
import LiveMarkup.Decimal.Read
import LiveMarkup.Text.Class
import LiveMarkup.Text.Search

/-! Reading tokens from a source. A template is markup with tags between double braces; a script is
code throughout, and its line breaks separate statements. -/

namespace LiveMarkup.Lexer

/-- Whether code stands in a tag of a template or is a script. -/
inductive Mode where
  | tag
  | script
  deriving DecidableEq, Repr

/-- A part that was read, as spelled, and the text after it. -/
structure Split (α : Type) where
  value : α
  spelling : List Char
  rest : List Char

def splitIdentifier (cs : List Char) : Split String :=
  { value := String.ofList (cs.takeWhile Text.isIdentRest)
    spelling := cs.takeWhile Text.isIdentRest
    rest := cs.dropWhile Text.isIdentRest }

def beginsDigit : List Char → Bool
  | c :: _ => c.isDigit
  | [] => false

/-- The spelling of the number that a text begins with, and the text after it. A point belongs to
the number if a digit follows and there was none before (`pointed`). -/
def splitNumeral (pointed : Bool) : List Char → List Char × List Char
  | [] => ([], [])
  | c :: cs =>
    if c.isDigit || c == '_' then
      let tail := splitNumeral pointed cs
      (c :: tail.1, tail.2)
    else if c == '.' && !pointed && beginsDigit cs then
      let tail := splitNumeral true cs
      (c :: tail.1, tail.2)
    else ([], c :: cs)

/-- The constant that a numeral stands for. Underscores are ignored; an integer too great for 64
bits is a double. -/
def numeralValue (spelling : List Char) : Literal :=
  let digits := spelling.filter (· != '_')
  let whole := digits.takeWhile Char.isDigit
  match digits.dropWhile Char.isDigit with
  | _ :: fraction =>
    .float (Decimal.ofDecimal false (Decimal.natOfDigits (whole ++ fraction)) (-fraction.length))
  | [] =>
    let n := Decimal.natOfDigits whole
    if n < Nat.pow 2 63 then .int (Int64.ofNat n) else .float (Decimal.ofDecimal false n 0)

def unescape (c : Char) : Char :=
  match c with
  | 'n' => '\n'
  | 't' => '\t'
  | 'r' => '\r'
  | '0' => '\x00'
  | c => c

/-- The content of a string after its opening quote; its spelling includes the closing quote. -/
def splitString? (quote : Char) : List Char → Option (Split (List Char))
  | [] => none
  | '\\' :: [] => none
  | '\\' :: c :: cs =>
    (splitString? quote cs).map fun s => ⟨unescape c :: s.value, '\\' :: c :: s.spelling, s.rest⟩
  | c :: cs =>
    if c = quote then some ⟨[], [c], cs⟩
    else (splitString? quote cs).map fun s => ⟨c :: s.value, c :: s.spelling, s.rest⟩

/-- The spellings of the symbols of code, each before its own beginnings. Equality may be spelled
with a third sign. -/
def symbolSpellings : List (List Char × Symbol) :=
  [(['=', '=', '='], .equal), (['=', '='], .equal), (['=', '>'], .arrow), (['='], .assign),
   (['!', '=', '='], .notEqual), (['!', '='], .notEqual), (['!'], .not),
   (['&', '&'], .and), (['|', '|'], .or),
   (['+', '+'], .increment), (['+', '='], .addAssign), (['+'], .plus),
   (['-', '-'], .decrement), (['-', '='], .subAssign), (['-'], .minus),
   (['*', '='], .mulAssign), (['*'], .times), (['/', '='], .divAssign), (['/'], .divide),
   (['%'], .modulo),
   (['<', '='], .lessEqual), (['<'], .less), (['>', '='], .greaterEqual), (['>'], .greater),
   (['.'], .dot), ([','], .comma), ([':'], .colon), (['?'], .question), ([';'], .semicolon),
   (['('], .openRound), ([')'], .closeRound), (['['], .openSquare), ([']'], .closeSquare),
   (['\x7b'], .openCurly), (['\x7d'], .closeCurly)]

def splitSymbol? (cs : List Char) : Option (Split Symbol) :=
  symbolSpellings.findSome? fun e =>
    (Text.dropPrefix? e.1 cs).map fun rest => ⟨e.2, e.1, rest⟩

/-- What the tokens read so far say about the next one: the open brackets, the open braces among
them, whether the next word is the first of its tag, and the last token. -/
structure Context where
  depth : Nat
  braces : Nat
  first : Bool
  last : Option Token

/-- The token that a word is. In a tag the words of blocks count only where a block can begin. -/
def wordToken (mode : Mode) (ctx : Context) (word : String) : Token :=
  let afterElse : Bool := match ctx.last with
    | some t => t.isKeyword .elseWord
    | none => false
  if word = "true" then .literal (.bool true)
  else if word = "false" then .literal (.bool false)
  else if word = "null" ∨ word = "undefined" then .literal .null
  else match mode with
    | .tag =>
      if word = "each" ∧ ctx.first then .keyword .each
      else if word = "if" ∧ (ctx.first ∨ afterElse) then .keyword .ifWord
      else if word = "else" ∧ ctx.first then .keyword .elseWord
      else if word = "as" then .keyword .asWord
      else .name word
    | .script =>
      if word = "const" ∨ word = "let" ∨ word = "var" then .keyword .declare else .name word

def Context.after (ctx : Context) (t : Token) : Context :=
  let ctx := { ctx with first := false, last := some t }
  match t with
  | .symbol .openRound | .symbol .openSquare => { ctx with depth := ctx.depth + 1 }
  | .symbol .closeRound | .symbol .closeSquare => { ctx with depth := ctx.depth - 1 }
  | .symbol .openCurly => { ctx with depth := ctx.depth + 1, braces := ctx.braces + 1 }
  | .symbol .closeCurly => { ctx with depth := ctx.depth - 1, braces := ctx.braces - 1 }
  | _ => ctx

def continuesLine (t : Token) : Bool :=
  match t with
  | .symbol s => match s with
    | .newline | .semicolon | .comma | .arrow | .assign | .addAssign | .subAssign | .mulAssign
    | .divAssign | .and | .or | .not | .plus | .minus | .times | .divide | .modulo | .equal
    | .notEqual | .greater | .greaterEqual | .less | .lessEqual | .question | .colon | .dot => true
    | _ => false
  | _ => false

def Context.endsLine (ctx : Context) : Bool :=
  ctx.depth == 0 && match ctx.last with
    | some t => !continuesLine t
    | none => false

def splitToken (mode : Mode) (ctx : Context) (pos : Pos) (c : Char) (cs : List Char) :
    Except CompileError (Split Token) :=
  if c.isDigit then
    let numeral := splitNumeral false (c :: cs)
    .ok ⟨.literal (numeralValue numeral.1), numeral.1, numeral.2⟩
  else if c = '"' ∨ c = '\'' then
    match splitString? c cs with
    | some s => .ok ⟨.literal (.string (String.ofList s.value)), c :: s.spelling, s.rest⟩
    | none => .error (.unterminatedString pos)
  else if Text.isIdentStart c then
    let word := splitIdentifier (c :: cs)
    .ok ⟨wordToken mode ctx word.value, word.spelling, word.rest⟩
  else match splitSymbol? (c :: cs) with
    | some s => .ok ⟨.symbol s.value, s.spelling, s.rest⟩
    | none => .error (.unexpectedCharacter c pos)

private theorem splitNumeral_append (pointed : Bool) (cs : List Char) :
    (splitNumeral pointed cs).1 ++ (splitNumeral pointed cs).2 = cs := by
  induction cs generalizing pointed with
  | nil => rfl
  | cons c cs ih =>
    unfold splitNumeral
    split
    · simpa using ih pointed
    · split
      · simpa using ih true
      · rfl

private theorem splitString?_append {quote : Char} {cs : List Char} {s : Split (List Char)}
    (h : splitString? quote cs = some s) : s.spelling ++ s.rest = cs := by
  fun_induction splitString? quote cs generalizing s with
  | case1 => simp at h
  | case2 => simp at h
  | case3 c cs ih =>
    obtain ⟨t, ht, rfl⟩ := Option.map_eq_some_iff.1 h
    simpa using ih ht
  | case4 cs =>
    cases h
    rfl
  | case5 c cs _ _ _ ih =>
    obtain ⟨t, ht, rfl⟩ := Option.map_eq_some_iff.1 h
    simpa using ih ht

theorem splitSymbol?_append {cs : List Char} {s : Split Symbol} (h : splitSymbol? cs = some s) :
    s.spelling ++ s.rest = cs ∧ s.spelling ≠ [] := by
  obtain ⟨e, he, h⟩ := List.exists_of_findSome?_eq_some h
  obtain ⟨rest, hr, rfl⟩ := Option.map_eq_some_iff.1 h
  refine ⟨(Text.dropPrefix?_eq_some hr).symm, ?_⟩
  have all : ∀ e ∈ symbolSpellings, e.1 ≠ [] := by decide
  exact all e he

/-- A token is spelled by the characters that the text begins with, at least one. -/
theorem splitToken_append {mode : Mode} {ctx : Context} {pos : Pos} {c : Char} {cs : List Char}
    {s : Split Token} (h : splitToken mode ctx pos c cs = .ok s) :
    s.spelling ++ s.rest = c :: cs ∧ s.spelling ≠ [] := by
  unfold splitToken at h
  split at h
  · next hd =>
    cases h
    refine ⟨splitNumeral_append false (c :: cs), ?_⟩
    simp [splitNumeral, hd]
  · split at h
    · split at h
      · next s' hs =>
        cases h
        simp [splitString?_append hs]
      · simp at h
    · split at h
      · next hi =>
        cases h
        refine ⟨List.takeWhile_append_dropWhile, ?_⟩
        simp [splitIdentifier, Text.isIdentRest, hi]
      · split at h
        · next hs =>
          cases h
          exact splitSymbol?_append hs
        · simp at h

theorem splitToken_rest_length {mode : Mode} {ctx : Context} {pos : Pos} {c : Char}
    {cs : List Char} {s : Split Token} (h : splitToken mode ctx pos c cs = .ok s) :
    s.rest.length ≤ cs.length := by
  obtain ⟨h₁, h₂⟩ := splitToken_append h
  have := congrArg List.length h₁
  have := List.length_pos_iff.2 h₂
  simp only [List.length_append, List.length_cons] at *
  omega

/-- The tokens of code, and what follows a tag's closing braces if they are found. -/
structure Code where
  lexemes : List Lexeme
  after : Option (Pos × List Char)

def Code.cons (l : Lexeme) (c : Code) : Code := { c with lexemes := l :: c.lexemes }

/-- The tokens of code from the given place on. In a tag the closing braces end it unless a brace
is open. -/
def code (mode : Mode) (ctx : Context) (pos : Pos) : List Char → Except CompileError Code
  | [] => .ok ⟨[], none⟩
  | c :: cs =>
    if c = '\n' ∧ mode = .script then
      if ctx.endsLine then
        (code mode (ctx.after (.symbol .newline)) (pos.next c) cs).map
          (Code.cons ⟨.symbol .newline, pos⟩)
      else code mode ctx (pos.next c) cs
    else if Text.isBlank c then code mode ctx (pos.next c) cs
    else if mode = .tag ∧ ctx.braces = 0 ∧ c = '\x7d' ∧ cs.head? = some '\x7d' then
      .ok ⟨[⟨.symbol .closeTag, pos⟩], some ((pos.next c).next c, cs.tail)⟩
    else if mode = .script ∧ c = '/' ∧ cs.head? = some '/' then
      code mode ctx (pos.after ((c :: cs).takeWhile (· != '\n'))) (cs.dropWhile (· != '\n'))
    else
      match _h : splitToken mode ctx pos c cs with
      | .error e => .error e
      | .ok s =>
        (code mode (ctx.after s.value) (pos.after s.spelling) s.rest).map (Code.cons ⟨s.value, pos⟩)
termination_by cs => cs.length
decreasing_by
  · simp
  · simp
  · simp
  · have := (List.dropWhile_suffix (l := cs) (· != '\n')).length_le
    simp only [List.length_cons]
    omega
  · have := splitToken_rest_length _h
    simp only [List.length_cons]
    omega

private theorem map_eq_ok {α β : Type} {f : α → β} {x : Except CompileError α} {b : β}
    (h : x.map f = .ok b) : ∃ a, x = .ok a ∧ f a = b := by
  cases x with
  | error e => simp [Except.map] at h
  | ok a => exact ⟨a, rfl, by simpa [Except.map] using h⟩

/-- What follows a tag is shorter than the tag and what follows it. -/
private theorem code_after_length {mode : Mode} {ctx : Context} {pos : Pos} {cs : List Char}
    {r : Code} {p : Pos} {rest : List Char} (h : code mode ctx pos cs = .ok r)
    (ha : r.after = some (p, rest)) :
    rest.length < cs.length := by
  fun_induction code mode ctx pos cs generalizing r with
  | case1 => cases h; simp at ha
  | case2 ctx pos c cs _ _ ih =>
    obtain ⟨tail, ht, rfl⟩ := map_eq_ok h
    have := ih ht ha
    simp only [List.length_cons]
    omega
  | case3 ctx pos c cs _ _ ih =>
    have := ih h ha
    simp only [List.length_cons]
    omega
  | case4 ctx pos c cs _ _ ih =>
    have := ih h ha
    simp only [List.length_cons]
    omega
  | case5 ctx pos c cs _ _ hclose =>
    cases h
    simp only [Option.some.injEq, Prod.mk.injEq] at ha
    obtain ⟨-, rfl⟩ := ha
    simp only [List.length_tail, List.length_cons]
    omega
  | case6 ctx pos c cs _ _ _ _ ih =>
    have := ih h ha
    have := (List.dropWhile_suffix (l := cs) (· != '\n')).length_le
    simp only [List.length_cons]
    omega
  | case7 => simp at h
  | case8 ctx pos c cs _ _ _ _ s hs ih =>
    obtain ⟨tail, ht, rfl⟩ := map_eq_ok h
    have := ih ht ha
    have := splitToken_rest_length hs
    simp only [List.length_cons]
    omega

def splitCloser? (pos : Pos) (cs : List Char) : Except CompileError (Option (Split Token)) :=
  match cs with
  | '/' :: c :: r =>
    if Text.isIdentStart c then
      let word := splitIdentifier (c :: r)
      let keep (k : Keyword) : Except CompileError (Option (Split Token)) :=
        .ok (some ⟨.keyword k, '/' :: word.spelling, word.rest⟩)
      if word.value = "each" then keep .closeEach
      else if word.value = "if" then keep .closeIf
      else .error (.misplaced ⟨.name ("/" ++ word.value), pos⟩)
    else .ok none
  | _ => .ok none

theorem splitCloser?_append {pos : Pos} {cs : List Char} {s : Split Token}
    (h : splitCloser? pos cs = .ok (some s)) : s.spelling ++ s.rest = cs := by
  unfold splitCloser? at h
  split at h
  · split at h
    · simp only at h
      split at h
      · cases h
        simp [splitIdentifier]
      · split at h
        · cases h
          simp [splitIdentifier]
        · simp at h
    · simp at h
  · simp at h

def Context.ofTag (last : Token) : Context :=
  { depth := 0, braces := 0, first := true, last := some last }

def tagCode (pos : Pos) (cs : List Char) : Except CompileError Code :=
  match splitCloser? pos cs with
  | .error e => .error e
  | .ok none => code .tag (.ofTag (.symbol .openTag)) pos cs
  | .ok (some s) =>
    (code .tag (.ofTag s.value) (pos.after s.spelling) s.rest).map (Code.cons ⟨s.value, pos⟩)

theorem tagCode_after_length {pos : Pos} {cs : List Char} {r : Code} {p : Pos} {rest : List Char}
    (h : tagCode pos cs = .ok r) (ha : r.after = some (p, rest)) : rest.length < cs.length := by
  unfold tagCode at h
  split at h
  · simp at h
  · exact code_after_length h ha
  · next s hs =>
    obtain ⟨tail, ht, rfl⟩ := map_eq_ok h
    have := code_after_length ht ha
    have := congrArg List.length (splitCloser?_append hs)
    simp only [List.length_append] at this
    omega

/-- The tokens of a tag after its opening braces, the place after its closing braces, and the text
that follows. `opening` is the place of the opening braces, `pos` the place after them. -/
def tag (opening pos : Pos) (cs : List Char) :
    Except CompileError (List Lexeme × Pos × List Char) :=
  match tagCode (pos.after (cs.takeWhile Text.isBlank)) (cs.dropWhile Text.isBlank) with
  | .error e => .error e
  | .ok read =>
    match read.after with
    | some (p, rest) => .ok (read.lexemes, p, rest)
    | none => .error (.unclosedTag opening)

private theorem tag_rest_length {opening pos : Pos} {cs : List Char} {lexemes : List Lexeme} {p : Pos}
    {rest : List Char} (h : tag opening pos cs = .ok (lexemes, p, rest)) :
    rest.length < cs.length := by
  have hb := (List.dropWhile_suffix (l := cs) Text.isBlank).length_le
  unfold tag at h
  split at h
  · simp at h
  · next read hr =>
    split at h
    · next ha =>
      cases h
      have := tagCode_after_length hr ha
      omega
    · simp at h

def textLexemes (pos : Pos) (cs : List Char) : List Lexeme :=
  if cs.isEmpty then [] else [⟨.text (String.ofList cs), pos⟩]

def template (pos : Pos) (cs : List Char) : Except CompileError (List Lexeme) :=
  match _h : Text.cut? ['\x7b', '\x7b'] cs with
  | none => .ok (textLexemes pos cs)
  | some (text, body) =>
    let opening := pos.after text
    match _ht : tag opening (opening.after ['\x7b', '\x7b']) body with
    | .error e => .error e
    | .ok (lexemes, p, rest) =>
      (template p rest).map fun tail =>
        textLexemes pos text ++ ⟨.symbol .openTag, opening⟩ :: (lexemes ++ tail)
termination_by cs.length
decreasing_by
  have h₁ := congrArg List.length (Text.cut?_eq_some _h)
  have h₂ := tag_rest_length _ht
  simp only [List.length_append] at h₁
  omega

def ofTemplate (source : String) : Except CompileError (List Lexeme) :=
  template .start source.toList

def ofScript (source : String) : Except CompileError (List Lexeme) :=
  (code .script { depth := 0, braces := 0, first := false, last := none } .start source.toList).map
    Code.lexemes

end LiveMarkup.Lexer
