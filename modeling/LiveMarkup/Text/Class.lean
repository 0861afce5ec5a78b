import LiveMarkup.Text.Alphabetic
import LiveMarkup.Text.Numeric
import LiveMarkup.Text.WordMarks

/-! Classes of characters: white space, letters, and the characters of identifiers and words. -/

namespace LiveMarkup.Text

def inRanges (ranges : List (Nat × Nat)) (n : Nat) : Bool :=
  ranges.any fun r => decide (r.1 ≤ n) && decide (n ≤ r.2)

def blankRanges : List (Nat × Nat) :=
  [(0x9, 0xD), (0x20, 0x20), (0x85, 0x85), (0xA0, 0xA0), (0x1680, 0x1680), (0x2000, 0x200A),
   (0x2028, 0x2029), (0x202F, 0x202F), (0x205F, 0x205F), (0x3000, 0x3000)]

def isBlank (c : Char) : Bool := inRanges blankRanges c.toNat

def isAlphabetic (c : Char) : Bool :=
  if c.toNat < 0x80 then c.isAlpha else inRanges alphabeticRanges c.toNat

def isAlphanumeric (c : Char) : Bool :=
  if c.toNat < 0x80 then c.isAlphanum
  else inRanges alphabeticRanges c.toNat || inRanges numericRanges c.toNat

/-- Word characters: letters, marks, decimal digits, connectors and joiners. Those that came with
version 17.0 of the Unicode standard are not counted. -/
def isWord (c : Char) : Bool :=
  if c.toNat < 0x80 then c.isAlphanum || c == '_'
  else (inRanges alphabeticRanges c.toNat || inRanges wordMarkRanges c.toNat) &&
    !inRanges recentWordRanges c.toNat

def isIdentStart (c : Char) : Bool := isAlphabetic c || c == '_' || c == '$'

def isIdentRest (c : Char) : Bool := isIdentStart c || c.isDigit

end LiveMarkup.Text
