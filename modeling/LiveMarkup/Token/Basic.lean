import LiveMarkup.Decimal.Layout

/-! Tokens of tags and scripts, and where they stand in a source. -/

namespace LiveMarkup

/-- A place in a source. Lines and columns count from one, columns in characters. -/
structure Pos where
  line : Nat
  column : Nat
  deriving DecidableEq, Repr, Inhabited

namespace Pos

def start : Pos := ⟨1, 1⟩

def next (p : Pos) (c : Char) : Pos := if c = '\n' then ⟨p.line + 1, 1⟩ else ⟨p.line, p.column + 1⟩

def after (p : Pos) (cs : List Char) : Pos := cs.foldl next p

@[simp] theorem after_nil (p : Pos) : p.after [] = p := rfl

@[simp] theorem after_cons (p : Pos) (c : Char) (cs : List Char) :
    p.after (c :: cs) = (p.next c).after cs := rfl

theorem after_append (p : Pos) (a b : List Char) : p.after (a ++ b) = (p.after a).after b :=
  List.foldl_append

end Pos

inductive Literal where
  | null
  | bool (b : Bool)
  | int (n : Int64)
  | float (x : Float)
  | string (s : String)

/-- Doubles have the fewest digits that read back, a tie going up, and are always positional. -/
def plainLayout : Decimal.Layout :=
  { tie := .up, positional := none, fraction := false, nan := "NaN", infinity := "inf" }

def Literal.text : Literal → String
  | null => "null"
  | bool b => if b then "true" else "false"
  | int n => toString n.toInt
  | float x => plainLayout.text x
  | string s => s

/-- Words with a meaning of their own, some only in certain places. -/
inductive Keyword where
  | each
  | asWord
  | ifWord
  | elseWord
  | closeEach
  | closeIf
  | declare
  deriving DecidableEq, Repr

/-- Operators, brackets, separators and the ends of a tag. -/
inductive Symbol where
  | openTag
  | closeTag
  | dot
  | comma
  | colon
  | question
  | semicolon
  | newline
  | and
  | or
  | not
  | plus
  | minus
  | times
  | divide
  | modulo
  | equal
  | notEqual
  | greater
  | greaterEqual
  | less
  | lessEqual
  | assign
  | addAssign
  | subAssign
  | mulAssign
  | divAssign
  | increment
  | decrement
  | arrow
  | openSquare
  | closeSquare
  | openRound
  | closeRound
  | openCurly
  | closeCurly
  deriving DecidableEq, Repr

/-- A token. Text is the markup between tags. -/
inductive Token where
  | text (s : String)
  | name (s : String)
  | literal (v : Literal)
  | keyword (k : Keyword)
  | symbol (s : Symbol)

structure Lexeme where
  token : Token
  pos : Pos

def Keyword.spelling : Keyword → String
  | each => "each"
  | asWord => "as"
  | ifWord => "if"
  | elseWord => "else"
  | closeEach => "/each"
  | closeIf => "/if"
  | declare => "const"

/-- The usual spelling of a symbol; a line break is named. -/
def Symbol.spelling : Symbol → String
  | openTag => "\x7b\x7b"
  | closeTag => "\x7d\x7d"
  | dot => "."
  | comma => ","
  | colon => ":"
  | question => "?"
  | semicolon => ";"
  | newline => "newline"
  | and => "&&"
  | or => "||"
  | not => "!"
  | plus => "+"
  | minus => "-"
  | times => "*"
  | divide => "/"
  | modulo => "%"
  | equal => "=="
  | notEqual => "!="
  | greater => ">"
  | greaterEqual => ">="
  | less => "<"
  | lessEqual => "<="
  | assign => "="
  | addAssign => "+="
  | subAssign => "-="
  | mulAssign => "*="
  | divAssign => "/="
  | increment => "++"
  | decrement => "--"
  | arrow => "=>"
  | openSquare => "["
  | closeSquare => "]"
  | openRound => "("
  | closeRound => ")"
  | openCurly => "\x7b"
  | closeCurly => "\x7d"

def Token.spelling : Token → String
  | text s => s
  | name s => s
  | literal (.string s) => "\"" ++ s ++ "\""
  | literal v => v.text
  | keyword k => k.spelling
  | symbol s => s.spelling

/-- The count of characters by which a token is underlined. A string counts its quotes but not its
escapes, and every declaring word counts as three. -/
def Token.width : Token → Nat
  | text s => s.length
  | name s => s.length
  | literal (.string s) => s.length + 2
  | literal v => v.text.length
  | keyword .declare => 3
  | keyword k => k.spelling.length
  | symbol .newline => 1
  | symbol s => s.spelling.length

def Token.isSymbol (t : Token) (s : Symbol) : Bool :=
  match t with
  | symbol s' => s' == s
  | _ => false

def Token.isKeyword (t : Token) (k : Keyword) : Bool :=
  match t with
  | keyword k' => k' == k
  | _ => false

end LiveMarkup
