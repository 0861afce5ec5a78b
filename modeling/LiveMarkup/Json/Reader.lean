import LiveMarkup.Decimal.Read
import LiveMarkup.Json.Basic
import LiveMarkup.Text.Search

/-! Reading JSON text. A number with a fraction or an exponent is a double, and so is one whose
integer does not fit in 64 bits. -/

namespace LiveMarkup.Json

def isSpace (c : Char) : Bool := c == ' ' || c == '\n' || c == '\t' || c == '\r'

def skipSpace (cs : List Char) : List Char := cs.dropWhile isSpace

/-- Appends digits to a significand while it fits in 64 bits. The second component counts the
digits that were appended, the third those that were not. -/
def gather (significand : Nat) : List Char → Nat × Nat × Nat
  | [] => (significand, 0, 0)
  | d :: ds =>
    let next := 10 * significand + (d.toNat - '0'.toNat)
    if Nat.pow 2 64 ≤ next then (significand, 0, ds.length + 1)
    else
      let (s, taken, left) := gather next ds
      (s, taken + 1, left)

/-- `x * 10 ^ exponent`, one rounded step for each power of ten up to the greatest that a double
holds. There is none if the result exceeds all doubles. -/
def scaleByTen : Nat → Float → Int → Option Float
  | 0, x, _ => some x
  | steps + 1, x, exponent =>
    if exponent.natAbs ≤ 308 then
      let power := Decimal.ofDecimal false 1 exponent.natAbs
      if exponent < 0 then some (x / power)
      else if (x * power).isInf then none
      else some (x * power)
    else if x == 0.0 then some x
    else if 0 ≤ exponent then none
    else scaleByTen steps (x / Decimal.ofDecimal false 1 308) (exponent + 308)

def floatOfParts (negative : Bool) (whole fraction : List Char) (exponent : Int) : Option Float :=
  let (first, _, dropped) := gather 0 whole
  let (significand, taken, _) := gather first fraction
  (scaleByTen 4 (Decimal.ofDecimal false significand 0) (exponent + dropped - taken)).map fun x =>
    if negative then -x else x

def readExponent? : List Char → Option (Int × List Char)
  | e :: cs =>
    if e = 'e' ∨ e = 'E' then
      let (negative, body) := Decimal.splitSign cs
      let digits := body.takeWhile Char.isDigit
      if digits.isEmpty then none
      else
        let n : Int := Decimal.natOfDigits digits
        some (if negative then -n else n, body.dropWhile Char.isDigit)
    else some (0, e :: cs)
  | [] => some (0, [])

def readNumber? (cs : List Char) : Option (Json × List Char) :=
  let (negative, body) := match cs with
    | '-' :: r => (true, r)
    | _ => (false, cs)
  let whole := body.takeWhile Char.isDigit
  let rest := body.dropWhile Char.isDigit
  if whole.isEmpty || (whole.head? == some '0' && whole.length != 1) then none
  else
    match rest with
    | '.' :: r =>
      let fraction := r.takeWhile Char.isDigit
      if fraction.isEmpty then none
      else do
        let (exponent, rest) ← readExponent? (r.dropWhile Char.isDigit)
        let x ← floatOfParts negative whole fraction exponent
        return (float x, rest)
    | _ =>
      if rest.head? == some 'e' || rest.head? == some 'E' then do
        let (exponent, rest) ← readExponent? rest
        let x ← floatOfParts negative whole [] exponent
        return (float x, rest)
      else
        let n := Decimal.natOfDigits whole
        if negative then
          if 0 < n ∧ n ≤ Nat.pow 2 63 then some (int (-n), rest)
          else (floatOfParts true whole [] 0).map fun x => (float x, rest)
        else if n < Nat.pow 2 64 then some (int n, rest)
        else (floatOfParts false whole [] 0).map fun x => (float x, rest)

def hexValue? (c : Char) : Option Nat :=
  if c.isDigit then some (c.toNat - '0'.toNat)
  else if 'a' ≤ c ∧ c ≤ 'f' then some (c.toNat - 'a'.toNat + 10)
  else if 'A' ≤ c ∧ c ≤ 'F' then some (c.toNat - 'A'.toNat + 10)
  else none

def readQuad? : List Char → Option (Nat × List Char)
  | a :: b :: c :: d :: rest => do
    let a ← hexValue? a
    let b ← hexValue? b
    let c ← hexValue? c
    let d ← hexValue? d
    return (4096 * a + 256 * b + 16 * c + d, rest)
  | _ => none

def readUnits? (cs : List Char) : Option (Char × List Char) := do
  let (first, rest) ← readQuad? cs
  if 0xDC00 ≤ first ∧ first < 0xE000 then none
  else if 0xD800 ≤ first ∧ first < 0xDC00 then
    match rest with
    | '\\' :: 'u' :: rest =>
      let (second, rest) ← readQuad? rest
      if 0xDC00 ≤ second ∧ second < 0xE000 then
        return (Char.ofNat (0x10000 + 0x400 * (first - 0xD800) + (second - 0xDC00)), rest)
      else none
    | _ => none
  else return (Char.ofNat first, rest)

def simpleEscape? (c : Char) : Option Char :=
  match c with
  | '"' => some '"'
  | '\\' => some '\\'
  | '/' => some '/'
  | 'b' => some '\x08'
  | 'f' => some '\x0c'
  | 'n' => some '\n'
  | 'r' => some '\r'
  | 't' => some '\t'
  | _ => none

/-- The rest of a string after its opening quote, `fuel` bounding its characters. -/
def readString? : Nat → List Char → Option (List Char × List Char)
  | 0, _ => none
  | _ + 1, [] => none
  | fuel + 1, c :: cs =>
    if c = '"' then some ([], cs)
    else if c = '\\' then
      match cs with
      | 'u' :: rest => do
        let (c, rest) ← readUnits? rest
        let (s, rest) ← readString? fuel rest
        return (c :: s, rest)
      | e :: rest => do
        let c ← simpleEscape? e
        let (s, rest) ← readString? fuel rest
        return (c :: s, rest)
      | [] => none
    else if c.toNat < 0x20 then none
    else (readString? fuel cs).map fun (s, rest) => (c :: s, rest)

mutual

/-- A value at the start of a text, nested at most `depth` deep. -/
def readValue? (depth : Nat) : Nat → List Char → Option (Json × List Char)
  | 0, _ => none
  | fuel + 1, cs =>
    match skipSpace cs with
    | '"' :: rest =>
      (readString? rest.length.succ rest).map fun (s, r) => (string (String.ofList s), r)
    | '[' :: rest =>
      if depth = 0 then none
      else match skipSpace rest with
        | ']' :: rest => some (array [], rest)
        | rest => (readItems? (depth - 1) fuel rest).map fun (vs, r) => (array vs, r)
    | '\x7b' :: rest =>
      if depth = 0 then none
      else match skipSpace rest with
        | '\x7d' :: rest => some (object [], rest)
        | rest =>
          (readEntries? (depth - 1) fuel rest).map fun (es, r) =>
            (object (Dictionary.ofEntries es), r)
    | rest =>
      match Text.dropPrefix? "null".toList rest with
      | some r => some (null, r)
      | none =>
        match Text.dropPrefix? "true".toList rest with
        | some r => some (bool true, r)
        | none =>
          match Text.dropPrefix? "false".toList rest with
          | some r => some (bool false, r)
          | none => readNumber? rest

def readItems? (depth : Nat) : Nat → List Char → Option (List Json × List Char)
  | 0, _ => none
  | fuel + 1, cs =>
    match readValue? depth fuel cs with
    | none => none
    | some (v, rest) =>
      match skipSpace rest with
      | ',' :: rest => (readItems? depth fuel rest).map fun (vs, r) => (v :: vs, r)
      | ']' :: rest => some ([v], rest)
      | _ => none

def readEntries? (depth : Nat) : Nat → List Char → Option (List (String × Json) × List Char)
  | 0, _ => none
  | fuel + 1, cs =>
    match skipSpace cs with
    | '"' :: rest =>
      match readString? rest.length.succ rest with
      | none => none
      | some (k, rest) =>
        match skipSpace rest with
        | ':' :: rest =>
          match readValue? depth fuel rest with
          | none => none
          | some (v, rest) =>
            let entry := (String.ofList k, v)
            match skipSpace rest with
            | ',' :: rest => (readEntries? depth fuel rest).map fun (es, r) => (entry :: es, r)
            | '\x7d' :: rest => some ([entry], rest)
            | _ => none
        | _ => none
    | _ => none

end

/-- The value that a whole text stands for. Values nested more than 127 deep are refused. -/
def read? (s : String) : Option Json :=
  let cs := s.toList
  match readValue? 127 (2 * cs.length + 2) cs with
  | some (v, rest) => if (skipSpace rest).isEmpty then some v else none
  | none => none

end LiveMarkup.Json
