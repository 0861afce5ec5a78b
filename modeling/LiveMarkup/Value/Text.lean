import LiveMarkup.Json.Basic
import LiveMarkup.Value.Basic

/-! The three texts of a value: its JSON, what it puts into markup, and how messages show it. -/

namespace LiveMarkup

/-- Doubles in markup are written as in messages, except that infinity is spelled out. -/
def markupLayout : Decimal.Layout := { plainLayout with infinity := "Infinity" }

namespace Value

mutual

/-- The JSON of a value. Functions and doubles that are not finite have none. -/
def toJson : Value → Json
  | null => .null
  | bool b => .bool b
  | int n => .int n.toInt
  | float x => if x.isFinite then .float x else .null
  | string s => .string s
  | list items => .array (itemsToJson items)
  | hash entries => .object (entriesToJson entries)
  | lambda .. => .null
  | native _ => .null

def itemsToJson : List Value → List Json
  | [] => []
  | v :: vs => toJson v :: itemsToJson vs

def entriesToJson : List (String × Value) → List (String × Json)
  | [] => []
  | (k, v) :: es => (k, toJson v) :: entriesToJson es

end

mutual

/-- The value of a JSON value. An integer beyond 64 signed bits is a double. -/
def ofJson : Json → Value
  | .null => null
  | .bool b => bool b
  | .int n =>
    if -2 ^ 63 ≤ n ∧ n < 2 ^ 63 then int (Int64.ofInt n)
    else float (Decimal.ofDecimal (decide (n < 0)) n.natAbs 0)
  | .float x => float x
  | .string s => string s
  | .array items => list (ofItems items)
  | .object entries => hash (ofEntries entries)

def ofItems : List Json → List Value
  | [] => []
  | v :: vs => ofJson v :: ofItems vs

def ofEntries : List (String × Json) → List (String × Value)
  | [] => []
  | (k, v) :: es => (k, ofJson v) :: ofEntries es

end

mutual

def markup : Value → String
  | null => ""
  | bool b => if b then "true" else "false"
  | int n => toString n.toInt
  | float x => markupLayout.text x
  | string s => s
  | list items => ",".intercalate (markupItems items)
  | hash entries => (Json.object (entriesToJson entries)).text
  | lambda .. => ""
  | native _ => ""

def markupItems : List Value → List String
  | [] => []
  | v :: vs => markup v :: markupItems vs

end

mutual

def shown : Value → String
  | null => "null"
  | bool b => if b then "true" else "false"
  | int n => toString n.toInt
  | float x => plainLayout.text x
  | string s => s
  | list items => "[" ++ ", ".intercalate (shownItems items) ++ "]"
  | hash entries => (Json.object (entriesToJson entries)).text
  | lambda .. => "function"
  | native _ => "function"

def shownItems : List Value → List String
  | [] => []
  | v :: vs => shown v :: shownItems vs

end

end Value

end LiveMarkup
