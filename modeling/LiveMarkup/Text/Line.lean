/-! Lines of a text, and the one spelling of a line break. -/

namespace LiveMarkup.Text

/-- The text with each line break, however it is spelled, as a single line feed. -/
def unifyLineBreaks : List Char → List Char
  | [] => []
  | '\r' :: '\n' :: cs => '\n' :: unifyLineBreaks cs
  | c :: cs => (if c = '\r' then '\n' else c) :: unifyLineBreaks cs

/-- The lines of a text without their line breaks. A text that ends with a line break has no
further, empty line, and a carriage return is part of a line unless a line feed follows it. -/
def lines : List Char → List (List Char)
  | [] => []
  | '\r' :: '\n' :: cs => [] :: lines cs
  | '\n' :: cs => [] :: lines cs
  | c :: cs =>
    match lines cs with
    | [] => [[c]]
    | l :: ls => (c :: l) :: ls

end LiveMarkup.Text
