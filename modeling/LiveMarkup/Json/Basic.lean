import LiveMarkup.Decimal.Layout
import LiveMarkup.Dictionary

/-! JSON values and their compact text. -/

namespace LiveMarkup

/-- A JSON value. Integers are kept apart from the numbers that are doubles. -/
inductive Json where
  | null
  | bool (b : Bool)
  | int (n : Int)
  | float (x : Float)
  | string (s : String)
  | array (items : List Json)
  | object (entries : List (String × Json))
  deriving Inhabited

namespace Json

/-- Doubles have the fewest digits that read back, a tie going to the even digit. From `1e-5` up to
below `1e16` they are positional and keep `.0`; there is no text for what is not finite. -/
def numberLayout : Decimal.Layout :=
  { tie := .even, positional := some (-5, 15), fraction := true, nan := "null", infinity := "null" }

/-- The text of a double, or of the absent value if it is not finite. -/
def floatText (x : Float) : String := if x.isFinite then numberLayout.text x else "null"

def hexQuad (n : Nat) : List Char :=
  [n / 4096 % 16, n / 256 % 16, n / 16 % 16, n % 16].map Nat.digitChar

def quotedChar (c : Char) : List Char :=
  match c with
  | '"' => ['\\', '"']
  | '\\' => ['\\', '\\']
  | '\x08' => ['\\', 'b']
  | '\x0c' => ['\\', 'f']
  | '\n' => ['\\', 'n']
  | '\r' => ['\\', 'r']
  | '\t' => ['\\', 't']
  | c => if c.toNat < 0x20 then '\\' :: 'u' :: hexQuad c.toNat else [c]

def quoted (s : String) : String := String.ofList ('"' :: s.toList.flatMap quotedChar ++ ['"'])

mutual

def text : Json → String
  | null => "null"
  | bool b => if b then "true" else "false"
  | int n => toString n
  | float x => floatText x
  | string s => quoted s
  | array items => "[" ++ ",".intercalate (itemTexts items) ++ "]"
  | object entries => "\x7b" ++ ",".intercalate (entryTexts entries) ++ "\x7d"

def itemTexts : List Json → List String
  | [] => []
  | v :: vs => text v :: itemTexts vs

def entryTexts : List (String × Json) → List String
  | [] => []
  | (k, v) :: es => (quoted k ++ ":" ++ text v) :: entryTexts es

end

def get? (key : String) : Json → Option Json
  | object entries => Dictionary.get? entries key
  | _ => none

end Json

end LiveMarkup
