import LiveMarkup.Expr.Parser
import LiveMarkup.Template.Basic
import LiveMarkup.Token.Lexer

/-! Compiling templates: tokens are read piece by piece, and the pieces are nested into blocks. -/

namespace LiveMarkup

namespace Piece

open LiveMarkup.Expr (Reads lt_length_cons length_cons_lt length_le_succ length_nil_lt)

def readEnd (ts : List Lexeme) : Except CompileError (Reads Unit ts.length) :=
  match ts with
  | [] => .error (.endOfInput "block end")
  | t :: rest =>
    if t.token.isSymbol .closeTag then .ok ⟨(), rest, lt_length_cons t rest⟩ else .error (.unexpected t)

def readBinding (ts : List Lexeme) : Except CompileError (Reads String ts.length) :=
  match ts with
  | [] => .error (.endOfInput "each binding")
  | t :: rest =>
    match t.token with
    | .name x => .ok ⟨x, rest, lt_length_cons t rest⟩
    | _ => .error (.misplaced t)

def atEnd : List Lexeme → Bool
  | [] => false
  | t :: _ => t.token.isSymbol .closeTag

def readTest (keyword : Lexeme) (ts : List Lexeme) : Except CompileError (Reads Expr ts.length) :=
  if atEnd ts then .error (.misplaced keyword)
  else
    match Expr.read ts with
    | .error e => .error e
    | .ok ⟨test, rest, h⟩ =>
      match readEnd rest with
      | .error e => .error e
      | .ok ⟨_, rest', h'⟩ => .ok ⟨test, rest', by omega⟩

/-- The position that a loop binds after its element, if there is a comma. -/
def readIndex (ts : List Lexeme) : Except CompileError (Reads (Option String) (ts.length + 1)) :=
  match ts with
  | [] => .ok ⟨none, [], length_nil_lt⟩
  | t :: rest =>
    if t.token.isSymbol .comma then
      match readBinding rest with
      | .error e => .error e
      | .ok ⟨x, rest', h⟩ => .ok ⟨some x, rest', by simp only [List.length_cons]; omega⟩
    else .ok ⟨none, t :: rest, length_cons_lt t rest⟩

def readEach (keyword : Lexeme) (ts : List Lexeme) : Except CompileError (Reads Piece ts.length) :=
  if atEnd ts then .error (.misplaced keyword)
  else
    match Expr.read ts with
    | .error e => .error e
    | .ok ⟨_, [], _⟩ => .error (.endOfInput "each")
    | .ok ⟨items, t :: rest, h⟩ =>
      if t.token.isKeyword .asWord then
        match readBinding rest with
        | .error e => .error e
        | .ok ⟨item, rest, h₁⟩ =>
          match readIndex rest with
          | .error e => .error e
          | .ok ⟨index, rest, h₂⟩ =>
            match readEnd rest with
            | .error e => .error e
            | .ok ⟨_, rest, h₃⟩ =>
              .ok ⟨.openEach keyword items item index, rest, by
                simp only [List.length_cons] at h; omega⟩
      else .error (.misplaced t)

def readBare (piece : Piece) (ts : List Lexeme) : Except CompileError (Reads Piece ts.length) :=
  match readEnd ts with
  | .error e => .error e
  | .ok ⟨_, rest, h⟩ => .ok ⟨piece, rest, h⟩

def readTested (piece : Expr → Piece) (keyword : Lexeme) (ts : List Lexeme) :
    Except CompileError (Reads Piece ts.length) :=
  match readTest keyword ts with
  | .error e => .error e
  | .ok ⟨test, rest, h⟩ => .ok ⟨piece test, rest, h⟩

def readValue (ts : List Lexeme) : Except CompileError (Reads Piece ts.length) :=
  match Expr.read ts with
  | .error e => .error e
  | .ok ⟨e, rest, h⟩ =>
    match readEnd rest with
    | .error e => .error e
    | .ok ⟨_, rest', h'⟩ => .ok ⟨.value e, rest', by omega⟩

def readTag (ts : List Lexeme) : Except CompileError (Reads Piece ts.length) :=
  match ts with
  | [] => .error (.endOfInput "tag")
  | t :: rest =>
    let after (r : Except CompileError (Reads Piece rest.length)) :
        Except CompileError (Reads Piece (t :: rest).length) :=
      r.map fun p => p.within (by simp)
    match t.token with
    | .keyword .each => after (readEach t rest)
    | .keyword .ifWord => after (readTested (.openIf t) t rest)
    | .keyword .elseWord =>
      match rest with
      | [] => .error (.endOfInput "block end")
      | next :: rest' =>
        if next.token.isKeyword .ifWord then
          (readTested (.elseIf t) t rest').map fun p =>
            p.within (by simp only [List.length_cons]; omega)
        else (readBare (.otherwise t) (next :: rest')).map fun p => p.within (by simp)
    | .keyword .closeEach => after (readBare (.closeEach t) rest)
    | .keyword .closeIf => after (readBare (.closeIf t) rest)
    | .symbol .closeTag => .error (.unexpected t)
    | _ => readValue (t :: rest)

def read (t : Lexeme) (ts : List Lexeme) : Except CompileError (Reads Piece (ts.length + 1)) :=
  match t.token with
  | .text s => .ok ⟨.text s, ts, by omega⟩
  | .symbol .openTag => (readTag ts).map fun p => p.within (length_le_succ ts)
  | _ => .error (.misplaced t)

def readAll : List Lexeme → List Piece × Option CompileError
  | [] => ([], none)
  | t :: ts =>
    match read t ts with
    | .error e => ([], some e)
    | .ok ⟨piece, rest, _⟩ =>
      let more := readAll rest
      (piece :: more.1, more.2)
termination_by ts => ts.length
decreasing_by
  simp only [List.length_cons]
  omega

end Piece

namespace Statement

/-- Nests pieces into statements. `levels` are the open blocks, innermost first, and `current` the
statements read within the innermost one, last first. If the pieces end because the next one is
malformed, `fault` is its error. -/
def nest (fault : Option CompileError) (levels : List Level) (current : List Statement) :
    List Piece → Except CompileError (List Statement)
  | [] =>
    match fault, levels with
    | some e, _ => .error e
    | none, [] => .ok current.reverse
    | none, level :: _ => .error (.neverClosed level.keyword)
  | .text s :: ps => nest fault levels (.text s :: current) ps
  | .value e :: ps => nest fault levels (.value e :: current) ps
  | .openEach k items item index :: ps =>
    nest fault (⟨k, .each items item index, current⟩ :: levels) [] ps
  | .openIf k test :: ps => nest fault (⟨k, .cond [] (some test), current⟩ :: levels) [] ps
  | .elseIf k test :: ps =>
    match levels with
    | ⟨k', .cond branches (some t), before⟩ :: outer =>
      nest fault (⟨k', .cond (branches ++ [(t, current.reverse)]) (some test), before⟩ :: outer) []
        ps
    | _ => .error (.strayClose k)
  | .otherwise k :: ps =>
    match levels with
    | ⟨k', .cond branches (some t), before⟩ :: outer =>
      nest fault (⟨k', .cond (branches ++ [(t, current.reverse)]) none, before⟩ :: outer) [] ps
    | _ => .error (.strayClose k)
  | .closeEach k :: ps =>
    match levels with
    | ⟨_, .each items item index, before⟩ :: outer =>
      nest fault outer (.each items item index current.reverse :: before) ps
    | _ => .error (.strayClose k)
  | .closeIf k :: ps =>
    match levels with
    | ⟨_, .cond branches (some t), before⟩ :: outer =>
      nest fault outer (.cond (branches ++ [(t, current.reverse)]) none :: before) ps
    | ⟨_, .cond branches none, before⟩ :: outer =>
      nest fault outer (.cond branches (some current.reverse) :: before) ps
    | _ => .error (.strayClose k)

end Statement

namespace Template

def ofLexemes (ts : List Lexeme) : Except CompileError Template :=
  let (pieces, fault) := Piece.readAll ts
  match Statement.nest fault [] [] pieces with
  | .error e => .error e
  | .ok statements => .ok ⟨statements⟩

def compile (source : String) : Except CompileError Template :=
  match Lexer.ofTemplate source with
  | .error e => .error e
  | .ok ts => ofLexemes ts

end Template

/-- The expression of the first tag of a source, which has to be the whole tag. The rest of the
source is only required to consist of tokens. -/
def Expr.ofTag (source : String) : Except CompileError Expr :=
  match Lexer.ofTemplate source with
  | .error e => .error e
  | .ok ts =>
    match Expr.read (ts.dropWhile fun t => !t.token.isSymbol .openTag).tail with
    | .error e => .error e
    | .ok ⟨e, [], _⟩ => .ok e
    | .ok ⟨e, t :: _, _⟩ => if t.token.isSymbol .closeTag then .ok e else .error (.unexpected t)

end LiveMarkup
