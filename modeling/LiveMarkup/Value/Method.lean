import LiveMarkup.Text.Case
import LiveMarkup.Value.Arithmetic

/-! Members and methods of values, and the functions that every scope has. -/

namespace LiveMarkup

/-- What a method call comes to: a value, or a function still to be called on each element. -/
inductive Invocation where
  | value (v : Value)
  /-- The results of the function on each element and its position. -/
  | mapping (f : Value) (items : List Value)
  /-- The elements for which the function's result on them and their position is true. -/
  | filtering (f : Value) (items : List Value)

namespace Value

def rangeList (a b : Int64) : List Value :=
  (List.range (b.toInt - a.toInt).toNat).map fun (i : Nat) =>
    int (Int64.ofInt (a.toInt + (i : Int)))

def element (items : List Value) (i : Nat) : Value := items[i]?.getD null

/-- The entry of a hash or the element of a list, without recourse to methods. -/
def field? (name : String) : Value → Option Value
  | hash entries => Dictionary.get? entries name
  | list items => (Decimal.readIndex? name.toList).map (element items)
  | _ => none

def pairs (entries : List (String × Value)) : List Value :=
  entries.map fun e => list [string e.1, e.2]

def enumerate (items : List Value) : List Value :=
  items.zipIdx.map fun p => list [int (Int64.ofNat p.2), p.1]

def flatten (items : List Value) : List Value :=
  items.flatMap fun v => match v with
    | list inner => inner
    | v => [v]

/-- The separator that a method is given, a comma unless there is exactly one argument. -/
def separator : List Value → String
  | [v] => v.markup
  | _ => ","

def functionArgument (method : String) : List Value → Except EvalError Value
  | v :: _ => if v.isFunction then .ok v else .error (.functionExpected method)
  | [] => .error (.functionExpected method)

/-- A method of an integer. `abs` of the least one is that integer, as in builds without overflow
checks; others stop there. -/
def invokeInt (n : Int64) (name : String) : Except EvalError Value :=
  match name with
  | "abs" => .ok (int n.abs)
  | "to_string" | "to_s" | "toString" => .ok (string (toString n.toInt))
  | "to_f" | "to_float" => .ok (float n.toFloat)
  | "times" => .ok (list (rangeList 0 n))
  | _ => .error (.unknownMethod name "integer")

def invokeFloat (x : Float) (name : String) : Except EvalError Value :=
  match name with
  | "abs" => .ok (float x.abs)
  | "ceil" => .ok (float x.ceil)
  | "floor" => .ok (float x.floor)
  | "round" => .ok (float x.round)
  | "to_string" | "to_s" | "toString" => .ok (string (markupLayout.text x))
  | "to_i" | "to_integer" => .ok (int x.toInt64)
  | _ => .error (.unknownMethod name "float")

def invokeString (s : String) (name : String) (args : List Value) : Except EvalError Value :=
  match name with
  | "to_uppercase" | "upcase" | "toUpperCase" => .ok (string (Text.upper s))
  | "to_lowercase" | "downcase" | "toLowerCase" => .ok (string (Text.lower s))
  | "trim" => .ok (string (Text.trimmed s))
  | "capitalize" => .ok (string (Text.capitalize s))
  | "len" | "length" => .ok (int (Int64.ofNat s.length))
  | "empty" => .ok (bool s.isEmpty)
  | "includes" | "contains" =>
    match args with
    | [needle] => .ok (bool (Text.occursIn needle.markup.toList s.toList))
    | _ => .ok (bool false)
  | "split" =>
    .ok (list ((Text.splitOn (separator args).toList s.toList).map fun p =>
      string (String.ofList p)))
  | "to_i" | "to_integer" =>
    .ok (((Decimal.readInt64? (Text.trim s.toList)).map int).getD null)
  | _ => .error (.unknownMethod name "string")

def invokeList (items : List Value) (name : String) (args : List Value) :
    Except EvalError Invocation :=
  match Decimal.readIndex? name.toList with
  | some i => .ok (.value (element items i))
  | none =>
    match name with
    | "enumerate" => .ok (.value (list (enumerate items)))
    | "flatten" => .ok (.value (list (flatten items)))
    | "reverse" | "rev" => .ok (.value (list items.reverse))
    | "contains" | "includes" =>
      match args with
      | [needle] => .ok (.value (bool (items.any fun v => v.same needle)))
      | _ => .ok (.value (bool false))
    | "empty" => .ok (.value (bool items.isEmpty))
    | "len" | "length" => .ok (.value (int (Int64.ofNat items.length)))
    | "first" => .ok (.value (items.head?.getD null))
    | "last" => .ok (.value (items.getLast?.getD null))
    | "join" => .ok (.value (string ((separator args).intercalate (markupItems items))))
    | "sum" => .ok (.value (items.foldl add (int 0)))
    | "map" => (functionArgument name args).map fun f => .mapping f items
    | "filter" => (functionArgument name args).map fun f => .filtering f items
    | _ => .error (.unknownMethod name "list")

/-- A method of a hash; any other name is a key, whose value may be missing. -/
def invokeHash (entries : List (String × Value)) (name : String) : Value :=
  match name with
  | "keys" => list (entries.map fun e => string e.1)
  | "values" => list (entries.map (·.2))
  | "iter" => list (pairs entries)
  | "len" | "length" => int (Int64.ofNat entries.length)
  | _ => (Dictionary.get? entries name).getD null

def invoke (v : Value) (name : String) (args : List Value) : Except EvalError Invocation :=
  match v with
  | int n => (invokeInt n name).map .value
  | float x => (invokeFloat x name).map .value
  | string s => (invokeString s name args).map .value
  | list items => invokeList items name args
  | hash entries => .ok (.value (invokeHash entries name))
  | null | bool _ | lambda .. | native _ => .error (.unknownMethod name "other")

def length (v : Value) : Value :=
  match v.invoke "len" [] with
  | .ok (.value n) => n
  | _ => null

/-- The functions that can be called in every scope. There is none of the name otherwise. -/
def global? (name : String) (args : List Value) : Option Value :=
  match name with
  | "default" =>
    match args with
    | [null, fallback] => some fallback
    | [v, _] => some v
    | _ => some null
  | "range" =>
    match args with
    | [int stop] => some (list (rangeList 0 stop))
    | [int start, int stop] => some (list (rangeList start stop))
    | _ => some (list [])
  | "len" =>
    match args with
    | [v] => some v.length
    | _ => some null
  | "json" =>
    match args with
    | [v] => some (string v.toJson.text)
    | _ => some null
  | _ => none

def iterate : Value → Except EvalError (List Value)
  | list items => .ok items
  | hash entries => .ok (pairs entries)
  | null => .ok []
  | v => .error (.notIterable v.shown)

end Value

end LiveMarkup
