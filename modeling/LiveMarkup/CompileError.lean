import LiveMarkup.Token.Basic

/-! What can be wrong with a source that does not compile. -/

namespace LiveMarkup

inductive CompileError where
  /-- The token cannot stand where a statement or a binding is expected. -/
  | misplaced (lexeme : Lexeme)
  /-- The token cannot stand where an expression is expected or continues. -/
  | unexpected (lexeme : Lexeme)
  /-- The token stands where one certain other token is expected. -/
  | mismatched (lexeme : Lexeme)
  /-- The source ends within a construct. -/
  | endOfInput (within : String)
  | unexpectedCharacter (c : Char) (pos : Pos)
  | unterminatedString (pos : Pos)
  | unclosedTag (pos : Pos)
  /-- The keyword closes a block that is not open. -/
  | strayClose (keyword : Lexeme)
  /-- The keyword opens a block that is not closed. -/
  | neverClosed (keyword : Lexeme)

/-- A source position, a count of characters to underline, and what is wrong there. -/
structure Blame where
  pos : Pos
  width : Nat
  reason : String

namespace CompileError

def message : CompileError → String
  | misplaced _ => "syntax error"
  | unexpected _ => "expression syntax error"
  | mismatched t =>
    "expected a different token, but have token \"" ++ t.token.spelling ++ "\" instead"
  | endOfInput within =>
    "reached end of file while performing \"" ++ within ++ "\", did you forget a closing tag?"
  | unexpectedCharacter c p =>
    "unexpected character '" ++ String.singleton c ++ "' at line " ++ toString p.line ++
      ", column " ++ toString p.column
  | unterminatedString p =>
    "unterminated string at line " ++ toString p.line ++ ", column " ++ toString p.column
  | unclosedTag p =>
    "tag opened at line " ++ toString p.line ++ ", column " ++ toString p.column ++
      " is missing its closing \"\x7d\x7d\""
  | strayClose t => "\"" ++ t.token.spelling ++ "\" doesn't close any open tag"
  | neverClosed t => "\"" ++ t.token.spelling ++ "\" is never closed"

/-- Where the error is, unless it is the end of the source. -/
def blame? : CompileError → Option Blame
  | misplaced t => some ⟨t.pos, t.token.width, "syntax error"⟩
  | unexpected t => some ⟨t.pos, t.token.width, "expression syntax error"⟩
  | mismatched t => some ⟨t.pos, t.token.width, "unexpected token"⟩
  | endOfInput _ => none
  | unexpectedCharacter _ p => some ⟨p, 1, "unexpected character"⟩
  | unterminatedString p => some ⟨p, 1, "unterminated string"⟩
  | unclosedTag p => some ⟨p, 2, "missing \"\x7d\x7d\""⟩
  | strayClose t => some ⟨t.pos, t.token.width, "no matching opening tag"⟩
  | neverClosed t => some ⟨t.pos, t.token.width, "never closed"⟩

end CompileError

end LiveMarkup
