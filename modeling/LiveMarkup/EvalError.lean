/-! What can go wrong while a program is evaluated or its output is put into a document. -/

namespace LiveMarkup

inductive DocumentError where
  /-- The reference node has no parent. -/
  | detached
  /-- A node would come to lie within itself. -/
  | hierarchy
  /-- The markup cannot be parsed. -/
  | malformed (reason : String)
  deriving DecidableEq, Repr

def DocumentError.message : DocumentError → String
  | detached => "reference node is not attached to a parent"
  | hierarchy => "a node can't be inserted into itself or its descendants"
  | malformed reason => "malformed markup: " ++ reason

/-- Why an evaluation fails. -/
inductive EvalError where
  | undefinedVariable (x : String)
  /-- There is no method of the name for values of the kind. -/
  | unknownMethod (name kind : String)
  | notCallable (shown : String)
  | notIterable (shown : String)
  | divisionByZero
  /-- The method needs a function as its first argument. -/
  | functionExpected (method : String)
  /-- The key of an access is neither a string nor an integer. -/
  | badMemberName (shown : String)
  /-- Properties can only be given as an object. -/
  | badProps
  /-- A first render gave no fragment to insert. -/
  | alreadyRendered
  | document (e : DocumentError)
  /-- A failure that the host reports. -/
  | failed (reason : String)
  deriving DecidableEq, Repr

def EvalError.message : EvalError → String
  | undefinedVariable x => "variable \"" ++ x ++ "\" is not defined or in scope"
  | unknownMethod name kind => "method \"" ++ name ++ "\" is not defined for " ++ kind
  | notCallable shown => "\"" ++ shown ++ "\" is not a function"
  | notIterable shown => "\"" ++ shown ++ "\" can't be used in an each loop"
  | divisionByZero => "division by zero"
  | functionExpected method => "\"" ++ method ++ "\" expects a function argument"
  | badMemberName shown => "member name should be a string, got " ++ shown ++ " instead"
  | badProps => "props must be a JSON object"
  | alreadyRendered => "instance rendered before mounting"
  | document e => e.message
  | failed reason => reason

/-- Why an evaluation has no outcome that a program could go on from. -/
inductive Fault where
  /-- The least integer was divided by minus one. -/
  | overflow
  /-- The evaluation did not end within the steps it was given. -/
  | outOfFuel
  deriving DecidableEq, Repr

/-- The end of an evaluation without a value. -/
inductive Stop where
  | error (e : EvalError)
  | fault (f : Fault)
  deriving DecidableEq, Repr

end LiveMarkup
