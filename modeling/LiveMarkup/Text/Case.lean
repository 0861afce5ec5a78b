import LiveMarkup.Text.CaseClasses
import LiveMarkup.Text.CaseMaps
import LiveMarkup.Text.Class

/-! Upper and lower case of texts, by the full mappings of the Unicode standard. A capital sigma
that ends a word has its own lower case form; no other mapping looks at its neighbours. -/

namespace LiveMarkup.Text

def mapRun (runs : List CaseRun) (n : Nat) : Option Nat :=
  let covers (r : CaseRun) : Bool :=
    decide (r.first ≤ n) && decide (n ≤ r.last) && (n - r.first) % r.step == 0
  (runs.find? covers).map fun r => ((n : Int) + r.shift).toNat

def mapCase (runs : List CaseRun) (expansions : List (Nat × List Nat)) (c : Char) : List Char :=
  match expansions.find? fun e => e.1 == c.toNat with
  | some e => e.2.map Char.ofNat
  | none => [((mapRun runs c.toNat).map Char.ofNat).getD c]

def lowerChar (c : Char) : List Char :=
  if c.toNat < 0x80 then [c.toLower] else mapCase lowerRuns lowerExpansions c

def upperChar (c : Char) : List Char :=
  if c.toNat < 0x80 then [c.toUpper] else mapCase upperRuns upperExpansions c

def beginsCased (cs : List Char) : Bool :=
  match cs.dropWhile fun c => inRanges caseIgnorableRanges c.toNat with
  | [] => false
  | c :: _ => inRanges casedRanges c.toNat

def lowerAfter (before : List Char) : List Char → List Char
  | [] => []
  | c :: cs =>
    let mapped :=
      if c = 'Σ' then
        if beginsCased before && !beginsCased cs then ['ς'] else ['σ']
      else lowerChar c
    mapped ++ lowerAfter (c :: before) cs

def lower (s : String) : String := String.ofList (lowerAfter [] s.toList)

def upper (s : String) : String := String.ofList (s.toList.flatMap upperChar)

def capitalize (s : String) : String :=
  match s.toList with
  | [] => ""
  | c :: cs => String.ofList (upperChar c ++ cs)

end LiveMarkup.Text
