import LiveMarkup.Dictionary
import LiveMarkup.Expr.Basic

/-! Values: what expressions evaluate to, with the truth, equality and order that the language
gives them. -/

namespace LiveMarkup

/-- Which lambda of which compiled source a function value was made by. -/
structure Site where
  source : Nat
  arrow : Pos
  deriving DecidableEq, Repr, Inhabited

/-- A value. The entries of a hash are in the order of their keys. A lambda carries the local
bindings in force where it was made; a native function is known by its number. -/
inductive Value where
  | null
  | bool (b : Bool)
  | int (n : Int64)
  | float (x : Float)
  | string (s : String)
  | list (items : List Value)
  | hash (entries : List (String × Value))
  | lambda (site : Site) (params : List String) (body : Expr) (captured : List (String × Value))
  | native (id : Nat)
  deriving Inhabited

def Literal.value : Literal → Value
  | null => .null
  | bool b => .bool b
  | int n => .int n
  | float x => .float x
  | string s => .string s

namespace Value

def truthy : Value → Bool
  | null => false
  | bool b => b
  | int n => n != 0
  | float x => x != 0.0 && !x.isNaN
  | string s => !s.isEmpty
  | list items => !items.isEmpty
  | hash entries => !entries.isEmpty
  | lambda .. => true
  | native _ => true

/-- Lists, hashes and functions: values whose equality says nothing about whether a view is out of
date, so that writing one always counts as a change. -/
def isComposite : Value → Bool
  | list _ => true
  | hash _ => true
  | lambda .. => true
  | native _ => true
  | _ => false

def isFunction : Value → Bool
  | lambda .. => true
  | native _ => true
  | _ => false

mutual

/-- Equality of values. Integers and doubles are compared as doubles, and lambdas by the place that
made them. -/
def same : Value → Value → Bool
  | null, null => true
  | bool a, bool b => a == b
  | int a, int b => a == b
  | int a, float b => a.toFloat == b
  | float a, int b => a == b.toFloat
  | float a, float b => a == b
  | string a, string b => a == b
  | list a, list b => sameItems a b
  | hash a, hash b => sameEntries a b
  | lambda a _ _ _, lambda b _ _ _ => a == b
  | native a, native b => a == b
  | _, _ => false

def sameItems : List Value → List Value → Bool
  | [], [] => true
  | a :: as, b :: bs => same a b && sameItems as bs
  | _, _ => false

def sameEntries : List (String × Value) → List (String × Value) → Bool
  | [], [] => true
  | (j, a) :: as, (k, b) :: bs => j == k && same a b && sameEntries as bs
  | _, _ => false

end

def compareFloats (a b : Float) : Option Ordering :=
  if a < b then some .lt else if a == b then some .eq else if b < a then some .gt else none

/-- The order of two values. Only numbers, strings and truth values have one, among themselves. -/
def compare? : Value → Value → Option Ordering
  | int a, int b => some (compare a.toInt b.toInt)
  | int a, float b => compareFloats a.toFloat b
  | float a, int b => compareFloats a b.toFloat
  | float a, float b => compareFloats a b
  | string a, string b => some (if a < b then .lt else if a == b then .eq else .gt)
  | bool a, bool b => some (compare a.toNat b.toNat)
  | _, _ => none

end Value

end LiveMarkup
