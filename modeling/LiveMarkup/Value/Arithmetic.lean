import LiveMarkup.Decimal.Read
import LiveMarkup.EvalError
import LiveMarkup.Text.Search
import LiveMarkup.Text.Trim
import LiveMarkup.Value.Text

/-! The operators of the language. Integers have 64 bits and wrap around; an operation that the
kinds of its operands give no meaning is null. -/

namespace LiveMarkup.Value

def repeatString (s : String) (n : Int64) : String :=
  if s.isEmpty then "" else String.join (List.replicate n.toInt.toNat s)

def repeatList (items : List Value) (n : Int64) : List Value :=
  if items.isEmpty then [] else (List.replicate n.toInt.toNat items).flatten

/-- The sum of numbers, the concatenation with a string, or a list with one more element. -/
def add : Value → Value → Value
  | int a, int b => int (a + b)
  | int a, float b => float (a.toFloat + b)
  | float a, int b => float (a + b.toFloat)
  | float a, float b => float (a + b)
  | string a, b => string (a ++ b.markup)
  | list a, b => list (a ++ [b])
  | a, list b => list (a :: b)
  | a, string b => string (a.markup ++ b)
  | _, _ => null

/-- The difference of numbers, or what is left without all occurrences of the second operand. -/
def sub : Value → Value → Value
  | int a, int b => int (a - b)
  | int a, float b => float (a.toFloat - b)
  | float a, int b => float (a - b.toFloat)
  | float a, float b => float (a - b)
  | string a, string b => string (String.ofList (Text.replaceAll b.toList [] a.toList))
  | list a, b => list (a.filter fun v => !v.same b)
  | _, _ => null

def mul : Value → Value → Value
  | int a, int b => int (a * b)
  | int a, float b => float (a.toFloat * b)
  | float a, int b => float (a * b.toFloat)
  | float a, float b => float (a * b)
  | string s, int n => string (repeatString s n)
  | int n, string s => string (repeatString s n)
  | list items, int n => list (repeatList items n)
  | _, _ => null

def checkDivisor (a b : Int64) : Except Stop Unit :=
  if b = 0 then .error (.error .divisionByZero)
  else if a = Int64.minValue ∧ b = -1 then .error (.fault .overflow)
  else .ok ()

/-- The quotient of numbers, an integer only if the division of integers leaves no remainder. -/
def div : Value → Value → Except Stop Value
  | int a, int b =>
    (checkDivisor a b).map fun _ =>
      if a % b = 0 then int (a / b) else float (a.toFloat / b.toFloat)
  | int a, float b => .ok (float (a.toFloat / b))
  | float a, int b => .ok (float (a / b.toFloat))
  | float a, float b => .ok (float (a / b))
  | _, _ => .ok null

def mod : Value → Value → Except Stop Value
  | int a, int b => (checkDivisor a b).map fun _ => int (a % b)
  | int a, float b => .ok (float (Decimal.remainder a.toFloat b))
  | float a, int b => .ok (float (Decimal.remainder a b.toFloat))
  | float a, float b => .ok (float (Decimal.remainder a b))
  | _, _ => .ok null

/-- The number that a string spells, apart from white space around it. -/
def number (s : String) : Value :=
  let cs := Text.trim s.toList
  match Decimal.readInt64? cs with
  | some n => int n
  | none =>
    match Decimal.readFloat? cs with
    | some x => float x
    | none => null

/-- The value of a unary operator. The negation of the least integer is that integer, as in builds
without overflow checks; others stop there. -/
def unary : UnaryOp → Value → Value
  | .not, v => bool (!v.truthy)
  | .negate, int n => int (-n)
  | .negate, float x => float (-x)
  | .negate, _ => null
  | .plus, string s => number s
  | .plus, v => v

/-- Whether two values are in one of two orders; values without an order are in none. -/
def inOrder (a b : Value) (p : Ordering → Bool) : Value := bool ((a.compare? b).any p)

def binary : BinaryOp → Value → Value → Except Stop Value
  | .or, a, b => .ok (if a.truthy then a else b)
  | .and, a, b => .ok (if a.truthy then b else a)
  | .equal, a, b => .ok (bool (a.same b))
  | .notEqual, a, b => .ok (bool (!a.same b))
  | .greater, a, b => .ok (inOrder a b (· == .gt))
  | .greaterEqual, a, b => .ok (inOrder a b (· != .lt))
  | .less, a, b => .ok (inOrder a b (· == .lt))
  | .lessEqual, a, b => .ok (inOrder a b (· != .gt))
  | .add, a, b => .ok (a.add b)
  | .sub, a, b => .ok (a.sub b)
  | .mul, a, b => .ok (a.mul b)
  | .div, a, b => a.div b
  | .mod, a, b => a.mod b

end LiveMarkup.Value
