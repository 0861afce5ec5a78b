import LiveMarkup.Style.Scan
import LiveMarkup.Text.Case

/-! Selectors: an attribute is required of the last compound of a selector, before its
pseudo-element. -/

namespace LiveMarkup.Style

def singleColonElements : List String := ["before", "after", "first-line", "first-letter"]

def namesElement (cs : List Char) : Bool :=
  let name := cs.takeWhile fun c => Text.isAlphanumeric c || c == '-'
  singleColonElements.contains (Text.lower (String.ofList name))

def isCombinator (c : Char) : Bool :=
  c == ' ' || c == '\t' || c == '\n' || c == '>' || c == '+' || c == '~'

/-- The position at which the pseudo-element of the last compound begins, if it has one. `position`
counts the characters before this text, and `found` is the pseudo-element of the compound so far. -/
def elementStart (s : Scan) (position : Nat) (found : Option Nat) : List Char → Option Nat
  | [] => found
  | c :: cs =>
    let found :=
      if !s.top then found
      else if isCombinator c then none
      else if c == ':' && found.isNone && (cs.head? == some ':' || namesElement cs) then
        some position
      else found
    elementStart (s.next c) (position + 1) found cs

def scopeSelector (attr selector : List Char) : List Char :=
  match elementStart .start 0 none selector with
  | some n => selector.take n ++ '[' :: attr ++ ']' :: selector.drop n
  | none => selector ++ '[' :: attr ++ [']']

end LiveMarkup.Style
