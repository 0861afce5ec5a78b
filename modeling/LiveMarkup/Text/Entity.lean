import LiveMarkup.Text.Search

/-! The five characters that markup gives a meaning, and the references that stand for them. -/

namespace LiveMarkup.Text

/-- What stands for a character in markup where it is meant as itself. -/
def entity (c : Char) : List Char :=
  match c with
  | '&' => "&amp;".toList
  | '<' => "&lt;".toList
  | '>' => "&gt;".toList
  | '"' => "&quot;".toList
  | '\'' => "&#39;".toList
  | c => [c]

def escape (cs : List Char) : List Char := cs.flatMap entity

/-- The characters that markup gives a meaning. Every reference begins with the first of them. -/
def reserved : List Char := ['&', '<', '>', '"', '\'']

/-- The text as it is written in markup, all occurrences of one character being replaced after those of
another. -/
def escapeByTurns (cs : List Char) : List Char :=
  reserved.foldl (fun cs c => replaceAll [c] (entity c) cs) cs

/-- The text that is written in markup as this one: each reference is read as its character, and
everything else as itself. -/
def unescape : List Char → List Char
  | '&' :: 'a' :: 'm' :: 'p' :: ';' :: cs => '&' :: unescape cs
  | '&' :: 'l' :: 't' :: ';' :: cs => '<' :: unescape cs
  | '&' :: 'g' :: 't' :: ';' :: cs => '>' :: unescape cs
  | '&' :: 'q' :: 'u' :: 'o' :: 't' :: ';' :: cs => '"' :: unescape cs
  | '&' :: '#' :: '3' :: '9' :: ';' :: cs => '\'' :: unescape cs
  | c :: cs => c :: unescape cs
  | [] => []

/-- Escaping works character by character, so it distributes over concatenation. -/
theorem escape_append (a b : List Char) : escape (a ++ b) = escape a ++ escape b := by
  simp [escape]

end LiveMarkup.Text
