/-! Doubles as exact numbers: a double is a whole mantissa times a power of two, and a ratio is
rounded to the nearest double, a half to the even neighbour. -/

namespace LiveMarkup.Decimal

/-- The number `mantissa * 2 ^ exponent`. -/
structure Dyadic where
  mantissa : Nat
  exponent : Int
  deriving DecidableEq, Repr

def isNegative (x : Float) : Bool := decide (Nat.pow 2 63 ≤ x.toBits.toNat)

def magnitude (x : Float) : Dyadic :=
  let word : Nat := x.toBits.toNat % Nat.pow 2 63
  let biased : Nat := word / Nat.pow 2 52
  let fraction : Nat := word % Nat.pow 2 52
  if biased = 0 then ⟨fraction, -1074⟩ else ⟨Nat.pow 2 52 + fraction, (biased : Int) - 1075⟩

/-- The whole number nearest to `num / den`, a half going to the even neighbour. -/
def roundRatio (num den : Nat) : Nat :=
  let q := num / den
  let twice := 2 * (num % den)
  if twice < den then q
  else if den < twice then q + 1
  else if q % 2 = 0 then q else q + 1

/-- `num / den` in units of `2 ^ exponent`, rounded. -/
def roundAt (num den : Nat) (exponent : Int) : Nat :=
  if exponent < 0 then roundRatio (num * Nat.pow 2 (-exponent).toNat) den
  else roundRatio num (den * Nat.pow 2 exponent.toNat)

/-- The exponent of the unit in which `num / den` has 53 binary digits, and never one below the
least unit of a double. -/
def unitExponent (num den : Nat) : Int :=
  let guess : Int := (num.log2 : Int) - (den.log2 : Int) - 52
  let below : Bool :=
    if guess < 0 then decide (num * Nat.pow 2 (-guess).toNat < den * Nat.pow 2 52)
    else decide (num < den * Nat.pow 2 52 * Nat.pow 2 guess.toNat)
  max (if below then guess - 1 else guess) (-1074)

def infinityBits : Nat := 0x7FF * Nat.pow 2 52

/-- The bits of the double nearest to the positive ratio `num / den`. Carries out of the mantissa
reach the exponent field by themselves. -/
def ratioBits (num den : Nat) : Nat :=
  let e := unitExponent num den
  min ((e + 1074).toNat * Nat.pow 2 52 + roundAt num den e) infinityBits

def ofMagnitudeBits (negative : Bool) (bits : Nat) : Float :=
  Float.ofBits (UInt64.ofNat (if negative then bits + Nat.pow 2 63 else bits))

/-- The double nearest to `mantissa * 10 ^ exponent`, with the given sign. Magnitudes far beyond
the range of doubles are decided by their count of digits. -/
def ofDecimal (negative : Bool) (mantissa : Nat) (exponent : Int) : Float :=
  let size : Int := (Nat.toDigits 10 mantissa).length + exponent
  let bits :=
    if mantissa = 0 ∨ size < -400 then 0
    else if 400 < size then infinityBits
    else if exponent < 0 then ratioBits mantissa (Nat.pow 10 (-exponent).toNat)
    else ratioBits (mantissa * Nat.pow 10 exponent.toNat) 1
  ofMagnitudeBits negative bits

def nan : Float := 0.0 / 0.0

/-- The remainder of a division that truncates its quotient, exact, with the sign of the
dividend. -/
def remainder (x y : Float) : Float :=
  if x.isNaN || y.isNaN || x.isInf || y == 0.0 then nan
  else if y.isInf then x
  else
    let a := magnitude x
    let b := magnitude y
    let e := min a.exponent b.exponent
    let rest :=
      a.mantissa * Nat.pow 2 (a.exponent - e).toNat % (b.mantissa * Nat.pow 2 (b.exponent - e).toNat)
    let bits :=
      if rest = 0 then 0
      else if e < 0 then ratioBits rest (Nat.pow 2 (-e).toNat)
      else ratioBits (rest * Nat.pow 2 e.toNat) 1
    ofMagnitudeBits (isNegative x) bits

end LiveMarkup.Decimal
