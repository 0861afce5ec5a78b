import LiveMarkup.Expr.Basic

/-! Compiled templates: markup and values in order, repeated and conditional parts nested. -/

namespace LiveMarkup

inductive Statement where
  /-- Markup that is copied. -/
  | text (s : String)
  /-- A value that is put into the markup. -/
  | value (e : Expr)
  /-- A body for every element, which is bound to `item`, and its position to `index`. -/
  | each (items : Expr) (item : String) (index : Option String) (body : List Statement)
  /-- The body of the first branch whose test holds, or else the last body if there is one. -/
  | cond (branches : List (Expr × List Statement)) (otherwise : Option (List Statement))

structure Template where
  statements : List Statement

/-- The parts of a template's source, one for each text and each tag. Those that open, divide or
close a block keep their keyword. -/
inductive Piece where
  | text (s : String)
  | value (e : Expr)
  | openEach (keyword : Lexeme) (items : Expr) (item : String) (index : Option String)
  | openIf (keyword : Lexeme) (test : Expr)
  | elseIf (keyword : Lexeme) (test : Expr)
  | otherwise (keyword : Lexeme)
  | closeEach (keyword : Lexeme)
  | closeIf (keyword : Lexeme)

/-- A block that is open: what it repeats over, or its finished branches and the test of the branch
that is being read, which the last body has none of. -/
inductive OpenBlock where
  | each (items : Expr) (item : String) (index : Option String)
  | cond (branches : List (Expr × List Statement)) (test : Option Expr)

/-- An open block with its keyword and the statements that stand before it, last first. -/
structure Level where
  keyword : Lexeme
  block : OpenBlock
  before : List Statement

end LiveMarkup
