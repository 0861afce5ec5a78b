import LiveMarkup.Token.Basic

/-! Expressions: what a tag or a line of a script computes. -/

namespace LiveMarkup

inductive UnaryOp where
  | not
  | negate
  | plus
  deriving DecidableEq, Repr

inductive BinaryOp where
  | or
  | and
  | equal
  | notEqual
  | greater
  | greaterEqual
  | less
  | lessEqual
  | add
  | sub
  | mul
  | div
  | mod
  deriving DecidableEq, Repr

/-- Operators that an assignment can be combined with. -/
inductive CompoundOp where
  | add
  | sub
  | mul
  | div
  deriving DecidableEq, Repr

/-- Which way a variable is counted. -/
inductive Count where
  | up
  | down
  deriving DecidableEq, Repr

/-- An expression. A lambda keeps the place of its arrow, by which its values are told apart. -/
inductive Expr where
  | literal (v : Literal)
  | name (x : String)
  | binary (op : BinaryOp) (left right : Expr)
  | unary (op : UnaryOp) (operand : Expr)
  | list (items : List Expr)
  | hash (entries : List (String × Expr))
  /-- `target.name` -/
  | member (target : Expr) (name : String)
  /-- `target.name(args)` -/
  | method (target : Expr) (name : String) (args : List Expr)
  /-- `target[key]` -/
  | index (target key : Expr)
  | call (callee : Expr) (args : List Expr)
  | cond (test yes no : Expr)
  | lambda (arrow : Pos) (params : List String) (body : Expr)
  | assign (x : String) (op : Option CompoundOp) (value : Expr)
  /-- `x++`, or `++x` if `before` -/
  | count (x : String) (step : Count) (before : Bool)
  deriving Inhabited

def BinaryOp.precedence : BinaryOp → Nat
  | or => 1
  | and => 2
  | equal | notEqual => 3
  | greater | greaterEqual | less | lessEqual => 4
  | add | sub => 5
  | mul | div | mod => 6

def CompoundOp.binary : CompoundOp → BinaryOp
  | add => .add
  | sub => .sub
  | mul => .mul
  | div => .div

def Count.binary : Count → BinaryOp
  | up => .add
  | down => .sub

def Symbol.binary? : Symbol → Option BinaryOp
  | or => some .or
  | and => some .and
  | equal => some .equal
  | notEqual => some .notEqual
  | greater => some .greater
  | greaterEqual => some .greaterEqual
  | less => some .less
  | lessEqual => some .lessEqual
  | plus => some .add
  | minus => some .sub
  | times => some .mul
  | divide => some .div
  | modulo => some .mod
  | _ => none

def Symbol.unary? : Symbol → Option UnaryOp
  | not => some .not
  | minus => some .negate
  | plus => some .plus
  | _ => none

def Symbol.count? : Symbol → Option Count
  | increment => some .up
  | decrement => some .down
  | _ => none

def Symbol.assignment? : Symbol → Option (Option CompoundOp)
  | assign => some none
  | addAssign => some (some .add)
  | subAssign => some (some .sub)
  | mulAssign => some (some .mul)
  | divAssign => some (some .div)
  | _ => none

def Token.symbol? : Token → Option Symbol
  | symbol s => some s
  | _ => none

end LiveMarkup
