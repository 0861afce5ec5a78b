import LiveMarkup.Decimal.Binary

/-! Numbers read from text: digits, integers of fixed width, and doubles. -/

namespace LiveMarkup.Decimal

def natOfDigits (ds : List Char) : Nat := ds.foldl (fun n c => 10 * n + (c.toNat - '0'.toNat)) 0

def readNat? (cs : List Char) : Option Nat :=
  if !cs.isEmpty && cs.all Char.isDigit then some (natOfDigits cs) else none

def splitSign : List Char → Bool × List Char
  | '-' :: cs => (true, cs)
  | '+' :: cs => (false, cs)
  | cs => (false, cs)

def readInt64? (cs : List Char) : Option Int64 :=
  let (negative, digits) := splitSign cs
  (readNat? digits).bind fun n =>
    if n < Nat.pow 2 63 ∨ (negative ∧ n = Nat.pow 2 63) then
      some (Int64.ofInt (if negative then -n else n))
    else none

/-- A position of at most 64 bits, with an optional plus sign, that is the whole text. -/
def readIndex? (cs : List Char) : Option Nat :=
  let digits := match cs with
    | '+' :: rest => rest
    | _ => cs
  (readNat? digits).bind fun n => if n < Nat.pow 2 64 then some n else none

/-- A number without its sign: digits, an optional point with digits, an optional exponent. The
mantissa has at least one digit. -/
def readMagnitude? (cs : List Char) : Option (Nat × Int) :=
  let whole := cs.takeWhile Char.isDigit
  let (fraction, rest) := match cs.dropWhile Char.isDigit with
    | '.' :: r => (r.takeWhile Char.isDigit, r.dropWhile Char.isDigit)
    | r => ([], r)
  if whole.isEmpty && fraction.isEmpty then none
  else
    let mantissa := natOfDigits (whole ++ fraction)
    match rest with
    | [] => some (mantissa, -fraction.length)
    | e :: r =>
      if e = 'e' ∨ e = 'E' then
        let (negative, digits) := splitSign r
        (readNat? digits).map fun n => (mantissa, (if negative then -n else n) - fraction.length)
      else none

/-- A double that is the whole text: a number, an infinity or a not-a-number, with an optional
sign. -/
def readFloat? (cs : List Char) : Option Float :=
  let (negative, body) := splitSign cs
  let word := String.ofList (body.map Char.toLower)
  if word = "inf" ∨ word = "infinity" then some (ofMagnitudeBits negative infinityBits)
  else if word = "nan" then some nan
  else (readMagnitude? body).map fun (mantissa, exponent) => ofDecimal negative mantissa exponent

end LiveMarkup.Decimal
