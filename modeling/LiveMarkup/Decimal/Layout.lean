import LiveMarkup.Decimal.Shortest

/-! How the digits of a double are laid out as text. -/

namespace LiveMarkup.Decimal

/-- The decisions of a number format. `positional` bounds the exponents of the first digit that
are written without an exponent part; `fraction` keeps `.0` on whole numbers. -/
structure Layout where
  tie : Tie
  positional : Option (Int × Int)
  fraction : Bool
  nan : String
  infinity : String

def digitChars (ds : List Nat) : List Char := ds.map Nat.digitChar

def Scientific.positional (fraction : Bool) (s : Scientific) : List Char :=
  let ds := digitChars s.digits
  if s.exponent < 0 then
    '0' :: '.' :: (List.replicate (-s.exponent - 1).toNat '0' ++ ds)
  else
    let whole := s.exponent.toNat + 1
    if ds.length ≤ whole then
      ds ++ List.replicate (whole - ds.length) '0' ++ (if fraction then ['.', '0'] else [])
    else ds.take whole ++ '.' :: ds.drop whole

def Scientific.exponential (s : Scientific) : List Char :=
  let ds := digitChars s.digits
  let mantissa := if ds.length ≤ 1 then ds else ds.take 1 ++ '.' :: ds.drop 1
  let sign := if s.exponent < 0 then '-' else '+'
  mantissa ++ 'e' :: sign :: Nat.toDigits 10 s.exponent.natAbs

def Layout.text (layout : Layout) (x : Float) : String :=
  if x.isNaN then layout.nan
  else
    let sign := if isNegative x then ['-'] else []
    let body :=
      if x.isInf then layout.infinity.toList
      else
        let m := magnitude x
        if m.mantissa = 0 then (if layout.fraction then ['0', '.', '0'] else ['0'])
        else
          let s := shortest layout.tie m
          match layout.positional with
          | none => s.positional layout.fraction
          | some (low, high) =>
            if low ≤ s.exponent ∧ s.exponent ≤ high then s.positional layout.fraction
            else s.exponential
    String.ofList (sign ++ body)

end LiveMarkup.Decimal
