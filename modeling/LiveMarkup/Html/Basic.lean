import LiveMarkup.Text.Case
import LiveMarkup.Text.Search

/-! Trees of HTML nodes, and how they are written. -/

namespace LiveMarkup

/-- A node with all that is below it. An element holds its tag, its attributes in order, the events
that it listens to, and its children. -/
inductive Html (α : Type) where
  | element (tag : String) (attributes : List (String × String)) (listeners : List (String × α))
    (children : List (Html α))
  | text (s : String)
  | comment (s : String)

namespace Html

variable {α : Type}

def voidTags : List String :=
  ["area", "base", "br", "col", "embed", "hr", "img", "input", "link", "meta", "param", "source",
   "track", "wbr"]

def isVoid (tag : String) : Bool := voidTags.contains tag

/-- The value of an attribute between double quotes. Characters other than the quote are written as
they are. -/
def attributeText (value : String) : String :=
  String.ofList (Text.replaceAll ['"'] "&quot;".toList value.toList)

def openingTag (tag : String) (attributes : List (String × String)) : String :=
  "<" ++ tag
    ++ String.join (attributes.map fun a => " " ++ a.1 ++ "=\"" ++ attributeText a.2 ++ "\"")
    ++ ">"

mutual

def markup : Html α → String
  | .element tag attributes _ children =>
    if isVoid tag then openingTag tag attributes
    else openingTag tag attributes ++ markupOf children ++ "</" ++ tag ++ ">"
  | .text s => s
  | .comment s => "<!--" ++ s ++ "-->"

def markupOf : List (Html α) → String
  | [] => ""
  | n :: ns => n.markup ++ markupOf ns

end

mutual

def textContent : Html α → String
  | .element _ _ _ children => textContentOf children
  | .text s => s
  | .comment _ => ""

def textContentOf : List (Html α) → String
  | [] => ""
  | n :: ns => n.textContent ++ textContentOf ns

end

/-- The markup of a concatenation is that of the parts. -/
theorem markupOf_append (a b : List (Html α)) : markupOf (a ++ b) = markupOf a ++ markupOf b := by
  induction a with
  | nil => simp [markupOf]
  | cons n ns ih => simp [markupOf, ih, String.append_assoc]

/-- Attributes with the value of one set: in its place if it is there, else at the end. -/
def setAttribute (name value : String) : List (String × String) → List (String × String)
  | [] => [(name, value)]
  | (n, v) :: rest =>
    if n = name then (n, value) :: rest else (n, v) :: setAttribute name value rest

def eraseAttribute (name : String) (attributes : List (String × String)) : List (String × String) :=
  attributes.filter fun a => a.1 != name

def attribute? (name : String) (attributes : List (String × String)) : Option String :=
  (attributes.find? fun a => a.1 == name).map (·.2)

end Html

end LiveMarkup
