import LiveMarkup.Decimal.Read
import LiveMarkup.Eval.Template
import LiveMarkup.Html.Parser
import LiveMarkup.Text.Entity

/-! Functions as attributes: a function that is the value of an `on…` attribute becomes a listener.
While the markup is text, a placeholder stands for it. -/

namespace LiveMarkup

namespace Slot

/-- What the placeholder of a listener begins with; its number follows. -/
def placeholder : String := "viewdoo-listener:"

def isLetter (c : Char) : Bool := c.isAlpha || c == '\u017f' || c == '\u212a'

def isEventRest (c : Char) : Bool := Text.isWord c || c == '-'

def namesEvent : List Char → Bool
  | o :: n :: c :: _ => o.toLower == 'o' && n.toLower == 'n' && isLetter c
  | _ => false

def dropQuote : List Char → List Char
  | '"' :: cs => cs
  | '\'' :: cs => cs
  | cs => cs

/-- Whether the value that follows some markup begins the value of an `on…` attribute. Only the
markup since the value before it counts. -/
def isEventSlot (before : List Char) : Bool :=
  match Text.trimStart (dropQuote before.reverse) with
  | '=' :: back =>
    let back := Text.trimStart back
    let name := (back.takeWhile isEventRest).reverse
    let earlier := back.dropWhile isEventRest
    namesEvent name && earlier.head?.all Text.isBlank
  | _ => false

/-- The markup of an output, and the functions for which it has placeholders, numbered from `n`
on. -/
def fillSlots (escaped : Bool) (n : Nat) : List (String × Value) → String × List Value
  | [] => ("", [])
  | (before, v) :: rest =>
    if v.isFunction && isEventSlot before.toList then
      let r := fillSlots escaped (n + 1) rest
      (before ++ placeholder ++ toString n ++ r.1, v :: r.2)
    else
      let r := fillSlots escaped n rest
      let text := if escaped then String.ofList (Text.escape v.markup.toList) else v.markup
      (before ++ text ++ r.1, r.2)

/-- The markup of an output with placeholders for listeners, and the functions that they stand for.
If `escaped` holds, the other values are written as text. -/
def fill (escaped : Bool) (r : Rendered) : String × List Value :=
  let filled := fillSlots escaped 0 r.slots
  (filled.1 ++ r.last, filled.2)

variable {α : Type}

def binding? (handlers : List α) (a : String × String) : Option (String × α) :=
  match Text.dropPrefix? "on".toList a.1.toList with
  | none | some [] => none
  | some event =>
    ((Text.dropPrefix? placeholder.toList a.2.toList).bind Decimal.readIndex?).bind fun i =>
      handlers[i]?.map fun h => (Text.lower (String.ofList event), h)

mutual

/-- The tree with every element marked with an attribute, and with listeners in place of the
attributes that stand for them. -/
def stamp (attr : Option String) (handlers : List α) : Html α → Html α
  | .element tag attributes listeners children =>
    let marked := match attr with
      | some name => Html.setAttribute name "" attributes
      | none => attributes
    .element tag (marked.filter fun a => (binding? handlers a).isNone)
      (listeners ++ marked.filterMap (binding? handlers)) (stampAll attr handlers children)
  | .text s => .text s
  | .comment s => .comment s

def stampAll (attr : Option String) (handlers : List α) : List (Html α) → List (Html α)
  | [] => []
  | t :: ts => stamp attr handlers t :: stampAll attr handlers ts

end

end Slot

end LiveMarkup
