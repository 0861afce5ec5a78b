import LiveMarkup.Decimal.Read
import LiveMarkup.Toml.Basic

/-! TOML values without parts: strings, numbers, truth values, dates and times. -/

namespace LiveMarkup.Toml

def isSpace (c : Char) : Bool := c == ' ' || c == '\t'

def skipSpace (cs : List Char) : List Char := cs.dropWhile isSpace

def isPlain (c : Char) : Bool := c == '\t' || (0x20 ≤ c.toNat && c.toNat != 0x7F)

def dropLineBreak? : List Char → Option (List Char)
  | '\n' :: cs => some cs
  | '\r' :: '\n' :: cs => some cs
  | _ => none

/-- The text without the white space and line breaks that it begins with. -/
def skipBlank : List Char → List Char
  | '\n' :: cs => skipBlank cs
  | '\r' :: '\n' :: cs => skipBlank cs
  | c :: cs => if isSpace c then skipBlank cs else c :: cs
  | [] => []

/-! Strings. -/

def digitValue? (base : Nat) (c : Char) : Option Nat :=
  let n :=
    if c.isDigit then c.toNat - '0'.toNat
    else if 'a' ≤ c ∧ c ≤ 'f' then c.toNat - 'a'.toNat + 10
    else if 'A' ≤ c ∧ c ≤ 'F' then c.toNat - 'A'.toNat + 10
    else 16
  if n < base then some n else none

def charOfHex? (digits : List Char) : Option Char := do
  let ds ← digits.mapM (digitValue? 16)
  let n := ds.foldl (fun n d => 16 * n + d) 0
  if n.isValidChar then return Char.ofNat n else none

def readEscape? : List Char → Option (Char × List Char)
  | 'b' :: cs => some ('\x08', cs)
  | 't' :: cs => some ('\t', cs)
  | 'n' :: cs => some ('\n', cs)
  | 'f' :: cs => some ('\x0c', cs)
  | 'r' :: cs => some ('\r', cs)
  | '"' :: cs => some ('"', cs)
  | '\\' :: cs => some ('\\', cs)
  | 'u' :: cs =>
    if cs.length < 4 then none else (charOfHex? (cs.take 4)).map fun c => (c, cs.drop 4)
  | 'U' :: cs =>
    if cs.length < 8 then none else (charOfHex? (cs.take 8)).map fun c => (c, cs.drop 8)
  | _ => none

/-- A string of one line after its opening quote, and the text after it. Only between double quotes
are there escapes. -/
def readLine? (quote : Char) : Nat → List Char → Option (List Char × List Char)
  | 0, _ => none
  | _ + 1, [] => none
  | fuel + 1, c :: cs =>
    if c = quote then some ([], cs)
    else if c = '\\' ∧ quote = '"' then do
      let (c, cs) ← readEscape? cs
      let (s, rest) ← readLine? quote fuel cs
      return (c :: s, rest)
    else if isPlain c then (readLine? quote fuel cs).map fun (s, rest) => (c :: s, rest)
    else none

/-- A string of several lines after its opening quotes, and the text after it. Up to two quotes may
stand before the closing three. A backslash at the end of a line, between double quotes, takes the
following white space with it. -/
def readLines? (quote : Char) : Nat → List Char → Option (List Char × List Char)
  | 0, _ => none
  | _ + 1, [] => none
  | fuel + 1, c :: cs =>
    if c = quote then
      let count := ((c :: cs).takeWhile (· == quote)).length
      if 6 ≤ count then none
      else if 3 ≤ count then some (List.replicate (count - 3) quote, (c :: cs).drop count)
      else (readLines? quote fuel cs).map fun (s, rest) => (c :: s, rest)
    else if c = '\\' ∧ quote = '"' then
      match dropLineBreak? (skipSpace cs) with
      | some after => readLines? quote fuel (skipBlank after)
      | none => do
        let (c, cs) ← readEscape? cs
        let (s, rest) ← readLines? quote fuel cs
        return (c :: s, rest)
    else match dropLineBreak? (c :: cs) with
      | some after => (readLines? quote fuel after).map fun (s, rest) => ('\n' :: s, rest)
      | none =>
        if isPlain c then (readLines? quote fuel cs).map fun (s, rest) => (c :: s, rest)
        else none

/-- A string of either kind after its first quote, and the text after it. A line break right after
three opening quotes does not count. -/
def readString? (quote : Char) (cs : List Char) : Option (String × List Char) :=
  let read := match cs with
    | a :: b :: rest =>
      if a = quote ∧ b = quote then
        readLines? quote (rest.length + 1) ((dropLineBreak? rest).getD rest)
      else readLine? quote (cs.length + 1) cs
    | _ => readLine? quote (cs.length + 1) cs
  read.map fun (s, rest) => (String.ofList s, rest)

/-! Numbers. -/

def ungroup? (isDigit : Char → Bool) : List Char → Option (List Char)
  | [] => none
  | [c] => if isDigit c then some [c] else none
  | c :: '_' :: cs => if isDigit c then (ungroup? isDigit cs).map (c :: ·) else none
  | c :: cs => if isDigit c then (ungroup? isDigit cs).map (c :: ·) else none

def isCanonical : List Char → Bool
  | '0' :: _ :: _ => false
  | _ => true

/-- Whether a word is an integer of 64 bits in a base other than ten, its mark having been read. -/
def isBased (base : Nat) (cs : List Char) : Bool :=
  match (ungroup? (fun c => (digitValue? base c).isSome) cs).bind (·.mapM (digitValue? base)) with
  | some ds => decide (ds.foldl (fun n d => base * n + d) 0 < Nat.pow 2 63)
  | none => false

def isInteger (cs : List Char) : Bool :=
  match cs with
  | '0' :: 'x' :: ds => isBased 16 ds
  | '0' :: 'o' :: ds => isBased 8 ds
  | '0' :: 'b' :: ds => isBased 2 ds
  | _ =>
    let (negative, body) := Decimal.splitSign cs
    match ungroup? Char.isDigit body with
    | some ds =>
      let n := Decimal.natOfDigits ds
      isCanonical ds && (n < Nat.pow 2 63 || (negative && n == Nat.pow 2 63))
    | none => false

/-- Whether a text is an exponent without its mark: digits with an optional sign. -/
def isExponent (cs : List Char) : Bool := (ungroup? Char.isDigit (Decimal.splitSign cs).2).isSome

/-- Whether a word is a floating-point number. One that exceeds all doubles is not. -/
def isFloat (cs : List Char) : Bool :=
  let body := (Decimal.splitSign cs).2
  let isMark (c : Char) : Bool := c == 'e' || c == 'E'
  let whole := body.takeWhile fun c => c.isDigit || c == '_'
  let rest := body.dropWhile fun c => c.isDigit || c == '_'
  let shaped := (ungroup? Char.isDigit whole).any isCanonical && match rest with
    | '.' :: r =>
      (ungroup? Char.isDigit (r.takeWhile fun c => !isMark c)).isSome &&
        match r.dropWhile fun c => !isMark c with
        | _ :: exponent => isExponent exponent
        | [] => true
    | e :: exponent => isMark e && isExponent exponent
    | [] => false
  let finite := (Decimal.readFloat? (cs.filter (· != '_'))).any fun x => !(x.isInf && 0.0 < x)
  body == "inf".toList || body == "nan".toList || (shaped && finite)

/-! Dates and times. -/

def readDigits? (count : Nat) (cs : List Char) : Option (Nat × List Char) :=
  if cs.length < count then none
  else (Decimal.readNat? (cs.take count)).map fun n => (n, cs.drop count)

def daysOf (year month : Nat) : Nat :=
  if month = 2 then (if year % 4 = 0 ∧ (year % 100 ≠ 0 ∨ year % 400 = 0) then 29 else 28)
  else if month = 4 ∨ month = 6 ∨ month = 9 ∨ month = 11 then 30
  else 31

def dropDate? (cs : List Char) : Option (List Char) :=
  match readDigits? 4 cs with
  | some (year, '-' :: cs) =>
    match readDigits? 2 cs with
    | some (month, '-' :: cs) => (readDigits? 2 cs).bind fun (day, cs) =>
      if 1 ≤ month ∧ month ≤ 12 ∧ 1 ≤ day ∧ day ≤ daysOf year month then some cs else none
    | _ => none
  | _ => none

def dropMinute? (cs : List Char) : Option (List Char) :=
  match readDigits? 2 cs with
  | some (hour, ':' :: cs) => (readDigits? 2 cs).bind fun (minute, cs) =>
    if hour < 24 ∧ minute < 60 then some cs else none
  | _ => none

def dropTime? (cs : List Char) : Option (List Char) :=
  match dropMinute? cs with
  | some (':' :: cs) => (readDigits? 2 cs).bind fun (second, cs) =>
    if 60 < second then none
    else match cs with
      | '.' :: ds =>
        if (ds.takeWhile Char.isDigit).isEmpty then none else some (ds.dropWhile Char.isDigit)
      | cs => some cs
  | _ => none

def isOffset : List Char → Bool
  | [] => true
  | ['Z'] => true
  | ['z'] => true
  | '+' :: cs => dropMinute? cs == some []
  | '-' :: cs => dropMinute? cs == some []
  | _ => false

def isZonedTime (cs : List Char) : Bool := (dropTime? cs).any isOffset

def isDatetime (cs : List Char) : Bool :=
  match dropDate? cs with
  | some [] => true
  | some (t :: time) => (t == 'T' || t == 't') && isZonedTime time
  | none => dropTime? cs == some []

def isWordChar (c : Char) : Bool :=
  c.isAlphanum || c == '_' || c == '+' || c == '-' || c == '.' || c == ':'

/-- A value without quotes, and the text after it. A date and a time may stand apart. -/
def readWord? (cs : List Char) : Option (Toml × List Char) :=
  let word := cs.takeWhile isWordChar
  let rest := cs.dropWhile isWordChar
  if word == "true".toList then some (.bool true, rest)
  else if word == "false".toList then some (.bool false, rest)
  else if isInteger word || isFloat word then some (.number, rest)
  else if isDatetime word then
    match rest with
    | ' ' :: next =>
      if dropDate? word == some [] && isZonedTime (next.takeWhile isWordChar) then
        some (.datetime, next.dropWhile isWordChar)
      else some (.datetime, rest)
    | _ => some (.datetime, rest)
  else none

end LiveMarkup.Toml
