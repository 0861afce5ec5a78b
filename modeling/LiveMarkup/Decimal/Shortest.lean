import LiveMarkup.Decimal.Binary

/-! The fewest decimal digits that read back as a given double: the first of the grids of one, two,
… digits that has a point in the interval of numbers rounding to it. -/

namespace LiveMarkup.Decimal

/-- Which of two equally near neighbours is taken. -/
inductive Tie where
  | up
  | even
  deriving DecidableEq, Repr

/-- The number `d.ddd * 10 ^ exponent`, of which `digits` are the digits. -/
structure Scientific where
  digits : List Nat
  exponent : Int
  deriving DecidableEq, Repr

/-- The ratio `value / scale` lies strictly between `low / scale` and `high / scale`; the numbers
between those ends round to it, and so do the ends if `closed`. -/
structure Interval where
  low : Nat
  value : Nat
  high : Nat
  scale : Nat
  closed : Bool

/-- The numbers that round to a positive double. Below a power of two the double's neighbour is
half as far away. -/
def Interval.ofMagnitude (m : Dyadic) : Interval :=
  let low := if m.mantissa = Nat.pow 2 52 ∧ -1074 < m.exponent then 4 * m.mantissa - 1
    else 4 * m.mantissa - 2
  let e := m.exponent - 2
  let up := Nat.pow 2 e.toNat
  { low := low * up, value := 4 * m.mantissa * up, high := (4 * m.mantissa + 2) * up
    scale := Nat.pow 2 (-e).toNat, closed := m.mantissa % 2 = 0 }

/-- Whether the grid point `a * 10 ^ exponent` rounds to the double of the interval. -/
def Interval.contains (i : Interval) (a : Nat) (exponent : Int) : Bool :=
  let point := a * Nat.pow 10 exponent.toNat * i.scale
  let unit := Nat.pow 10 (-exponent).toNat
  if i.closed then decide (i.low * unit ≤ point) && decide (point ≤ i.high * unit)
  else decide (i.low * unit < point) && decide (point < i.high * unit)

/-- The greatest `a` such that `a * 10 ^ exponent` does not exceed the value. -/
def Interval.floorOn (i : Interval) (exponent : Int) : Nat :=
  i.value * Nat.pow 10 (-exponent).toNat / (i.scale * Nat.pow 10 exponent.toNat)

/-- The grid point of spacing `10 ^ exponent` that rounds to the double and is nearest to it. -/
def Interval.pointOn? (tie : Tie) (i : Interval) (exponent : Int) : Option Nat :=
  let a := i.floorOn exponent
  match i.contains a exponent, i.contains (a + 1) exponent with
  | false, false => none
  | true, false => some a
  | false, true => some (a + 1)
  | true, true =>
    let unit := Nat.pow 10 (-exponent).toNat
    let step := Nat.pow 10 exponent.toNat * i.scale
    let twice := 2 * (i.value * unit - a * step)
    if twice < step then some a
    else if step < twice then some (a + 1)
    else match tie with
      | .up => some (a + 1)
      | .even => some (if a % 2 = 0 then a else a + 1)

def Interval.leading (i : Interval) : Int :=
  if i.scale ≤ i.value then (Nat.toDigits 10 (i.value / i.scale)).length - 1
  else
    let k := (Nat.toDigits 10 (i.scale / i.value)).length
    if i.value * Nat.pow 10 (k - 1) < i.scale then -k else -k + 1

/-- The digits of a number, without trailing zeros, the first digit standing for
`10 ^ (exponent + count - 1)`. -/
def Scientific.ofPoint (a : Nat) (exponent : Int) : Scientific :=
  let ds := (Nat.toDigits 10 a).map fun c => c.toNat - '0'.toNat
  { digits := (ds.reverse.dropWhile (· == 0)).reverse, exponent := exponent + ds.length - 1 }

/-- Tries grids of `count` digits and more, `fuel` of them. -/
def Interval.shortestFrom (tie : Tie) (i : Interval) : Nat → Int → Scientific
  | 0, spacing => Scientific.ofPoint (i.floorOn spacing) spacing
  | fuel + 1, spacing =>
    match i.pointOn? tie spacing with
    | some a => Scientific.ofPoint a spacing
    | none => i.shortestFrom tie fuel (spacing - 1)

/-- The shortest digits of a finite positive magnitude. Seventeen digits always suffice. -/
def shortest (tie : Tie) (m : Dyadic) : Scientific :=
  let i := Interval.ofMagnitude m
  i.shortestFrom tie 17 i.leading

end LiveMarkup.Decimal
