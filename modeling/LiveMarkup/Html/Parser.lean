import LiveMarkup.Html.Basic
import LiveMarkup.Text.Trim

/-! Reading markup into trees. Every opening tag appends a node to the innermost open element, and a
closing tag closes the innermost open element of its name together with those inside it. -/

namespace LiveMarkup.Html

/-- Why markup cannot be read. -/
inductive Malformed where
  | unterminatedComment
  | unterminatedDeclaration
  | unterminatedTag
  | unterminatedValue
  /-- A closing tag has no end. -/
  | expectedEnd
  deriving DecidableEq, Repr

def Malformed.message : Malformed → String
  | unterminatedComment => "unterminated comment"
  | unterminatedDeclaration => "unterminated declaration"
  | unterminatedTag => "unterminated tag"
  | unterminatedValue => "unterminated attribute value"
  | expectedEnd => "expected \">\""

def rawTextTags : List String := ["script", "style", "textarea", "title"]

def endsName (c : Char) : Bool := Text.isBlank c || c == '>' || c == '/' || c == '='

def endsValue (c : Char) : Bool := Text.isBlank c || c == '>'

def nameOf (cs : List Char) : List Char := cs.takeWhile fun c => !endsName c

def afterName (cs : List Char) : List Char := cs.dropWhile fun c => !endsName c

def lowerName (cs : List Char) : String := Text.lower (String.ofList (nameOf cs))

def readValue (cs : List Char) : Except Malformed (String × List Char) :=
  let quoted (quote : Char) (rest : List Char) :=
    match Text.cut? [quote] rest with
    | some (value, after) => .ok (String.ofList value, after)
    | none => .error .unterminatedValue
  match Text.trimStart cs with
  | '"' :: rest => quoted '"' rest
  | '\'' :: rest => quoted '\'' rest
  | rest => .ok (String.ofList (rest.takeWhile fun c => !endsValue c),
      rest.dropWhile fun c => !endsValue c)

/-- The value of an attribute whose name has been read, which is empty if there is no sign of
equality, and the text after it. -/
def readAssigned (cs : List Char) : Except Malformed (String × List Char) :=
  match Text.trimStart cs with
  | '=' :: rest => readValue rest
  | rest => .ok ("", rest)

private theorem length_trimStart (cs : List Char) : (Text.trimStart cs).length ≤ cs.length :=
  (Text.trimStart_suffix cs).length_le

private theorem length_cut? {needle cs before after : List Char}
    (h : Text.cut? needle cs = some (before, after)) : after.length ≤ cs.length := by
  have := congrArg List.length (Text.cut?_eq_some h)
  simp only [List.length_append] at this
  omega

/-- A value is a part of the text. -/
private theorem length_readValue {cs after : List Char} {v : String}
    (h : readValue cs = .ok (v, after)) :
    after.length ≤ cs.length := by
  have ht := length_trimStart cs
  have quoted {q : Char} {rest : List Char} (hr : Text.trimStart cs = q :: rest)
      (h : (match Text.cut? [q] rest with
        | some (value, after) => .ok (String.ofList value, after)
        | none => .error .unterminatedValue : Except Malformed _) = .ok (v, after)) :
      after.length ≤ cs.length := by
    rw [hr] at ht
    split at h
    · rename_i hc
      cases h
      have := length_cut? hc
      simp only [List.length_cons] at ht
      omega
    · cases h
  unfold readValue at h
  dsimp only at h
  split at h
  · next rest hr => exact quoted hr h
  · next rest hr => exact quoted hr h
  · cases h
    exact Nat.le_trans (List.dropWhile_suffix _).length_le ht

/-- What is assigned is a part of the text. -/
theorem length_readAssigned {cs after : List Char} {v : String}
    (h : readAssigned cs = .ok (v, after)) : after.length ≤ cs.length := by
  have ht := length_trimStart cs
  unfold readAssigned at h
  split at h
  · next rest hr =>
    have := length_readValue h
    simp only [hr, List.length_cons] at ht
    omega
  · cases h
    exact ht

/-- A name is a part of the text. -/
theorem length_afterName (cs : List Char) : (afterName cs).length ≤ cs.length :=
  (List.dropWhile_suffix _).length_le

private theorem length_afterName_lt (c : Char) (cs : List Char) (h : endsName c = false) :
    (afterName (c :: cs)).length < (c :: cs).length := by
  have := length_afterName cs
  simp only [afterName, List.dropWhile_cons, h, Bool.not_false, if_true, List.length_cons] at this ⊢
  omega

/-- A tag whose name has been read. -/
structure TagEnd where
  attributes : List (String × String)
  selfClosing : Bool

/-- The attributes of an opening tag up to its end, of which the first of a name counts, and the
text after it. Signs of equality without a name and single slashes are ignored. -/
def readTagEnd (attributes : List (String × String)) (cs : List Char) :
    Except Malformed (TagEnd × List Char) :=
  match _h : Text.trimStart cs with
  | [] => .error .unterminatedTag
  | '>' :: rest => .ok (⟨attributes, false⟩, rest)
  | '/' :: '>' :: rest => .ok (⟨attributes, true⟩, rest)
  | '/' :: rest => readTagEnd attributes rest
  | c :: rest =>
    if _hc : endsName c then readTagEnd attributes rest
    else
      let name := lowerName (c :: rest)
      match _h' : readAssigned (afterName (c :: rest)) with
      | .error e => .error e
      | .ok (value, after) =>
        readTagEnd
          (if (attribute? name attributes).isSome then attributes
            else setAttribute name value attributes)
          after
termination_by cs.length
decreasing_by
  all_goals
    have ht := length_trimStart cs
    simp only [_h, List.length_cons] at ht
  · omega
  · omega
  · have h₁ := length_readAssigned _h'
    have h₂ := length_afterName_lt c rest (by simpa using _hc)
    simp only [List.length_cons] at h₂
    omega

inductive Item where
  | text (s : String)
  | comment (s : String)
  /-- A declaration, which leaves no node. -/
  | declaration
  | opening (tag : String) (attributes : List (String × String))
  /-- An element that is closed where it is opened, with its text. -/
  | whole (tag : String) (attributes : List (String × String)) (content : List Char)
  | closing (tag : String)

def startsName : List Char → Bool
  | c :: _ => c.isAlpha
  | [] => false

def startsMarkup : List Char → Bool
  | c :: _ => c.isAlpha || c == '/' || c == '!'
  | [] => false

def cutText : List Char → List Char × List Char
  | [] => ([], [])
  | c :: cs =>
    if c == '<' && startsMarkup cs then ([], c :: cs)
    else let r := cutText cs; (c :: r.1, r.2)

/-- The content of an element that holds text only, and what follows its closing tag. A closing tag
without an end is left where it is. -/
def readRawText (tag : String) (cs : List Char) : List Char × List Char :=
  match Text.cut? ("</".toList ++ tag.toList) cs with
  | none => (cs, [])
  | some (content, after) =>
    match Text.cut? ['>'] after with
    | some (_, rest) => (content, rest)
    | none => (content, "</".toList ++ tag.toList ++ after)

/-- An opening tag without its sign `<`, and the text after it or, for an element that holds text
only, after that text. -/
def readOpening (cs : List Char) : Except Malformed (Item × List Char) :=
  let tag := lowerName cs
  match readTagEnd [] (afterName cs) with
  | .error e => .error e
  | .ok (⟨attributes, selfClosing⟩, rest) =>
    if selfClosing then .ok (.whole tag attributes [], rest)
    else if rawTextTags.contains tag then
      let (content, after) := readRawText tag rest
      .ok (.whole tag attributes content, after)
    else if isVoid tag then .ok (.whole tag attributes [], rest)
    else .ok (.opening tag attributes, rest)

/-- The first item of a text that is not empty, and the text after it. A sign `<` that begins no
markup is text. -/
def readItem (c : Char) (cs : List Char) : Except Malformed (Item × List Char) :=
  let text := let r := cutText cs; .ok (.text (String.ofList (c :: r.1)), r.2)
  if c != '<' then text
  else match cs with
    | '!' :: '-' :: '-' :: rest =>
      match Text.cut? "-->".toList rest with
      | some (s, after) => .ok (.comment (String.ofList s), after)
      | none => .error .unterminatedComment
    | '!' :: rest =>
      match Text.cut? ['>'] rest with
      | some (_, after) => .ok (.declaration, after)
      | none => .error .unterminatedDeclaration
    | '/' :: rest =>
      if startsName rest then
        match Text.cut? ['>'] (afterName rest) with
        | some (_, after) => .ok (.closing (lowerName rest), after)
        | none => .error .expectedEnd
      else text
    | _ => if startsName cs then readOpening cs else text

private theorem length_cutText (cs : List Char) : (cutText cs).2.length ≤ cs.length := by
  induction cs with
  | nil => simp [cutText]
  | cons c cs ih =>
    unfold cutText
    split
    · simp
    · simp only [List.length_cons]
      omega

private theorem length_readTagEnd {attributes : List (String × String)} {cs after : List Char}
    {t : TagEnd} (h : readTagEnd attributes cs = .ok (t, after)) : after.length ≤ cs.length := by
  fun_induction readTagEnd attributes cs with
  | case1 => cases h
  | case2 attributes cs rest hr =>
    have ht := length_trimStart cs
    simp only [hr, List.length_cons] at ht
    cases h
    omega
  | case3 attributes cs rest hr =>
    have ht := length_trimStart cs
    simp only [hr, List.length_cons] at ht
    cases h
    omega
  | case4 attributes cs rest _ hr ih =>
    have ht := length_trimStart cs
    simp only [hr, List.length_cons] at ht
    have := ih h
    omega
  | case5 attributes cs c rest _ _ _ hr _ ih =>
    have ht := length_trimStart cs
    simp only [hr, List.length_cons] at ht
    have := ih h
    omega
  | case6 => cases h
  | case7 attributes cs c rest _ _ _ hr _ _ value after hv ih =>
    have ht := length_trimStart cs
    have h₁ := length_readAssigned hv
    have h₂ := length_afterName (c :: rest)
    have := ih h
    rw [hr] at ht
    omega

private theorem length_readRawText (tag : String) (cs : List Char) :
    (readRawText tag cs).2.length ≤ cs.length := by
  unfold readRawText
  split
  · simp
  · next content after hc =>
    have h := congrArg List.length (Text.cut?_eq_some hc)
    simp only [List.length_append] at h
    split
    · next hr =>
      have := length_cut? hr
      simp only
      omega
    · simp only [List.length_append]
      omega

private theorem length_readOpening {cs after : List Char} {i : Item}
    (h : readOpening cs = .ok (i, after)) : after.length ≤ cs.length := by
  have hn := length_afterName cs
  unfold readOpening at h
  dsimp only at h
  split at h
  · cases h
  · next hr =>
    have ht := length_readTagEnd hr
    split at h
    · cases h
      omega
    · split at h
      · cases h
        exact Nat.le_trans (length_readRawText _ _) (by omega)
      · split at h <;> (cases h; omega)

/-- An item is not empty. -/
theorem length_readItem {c : Char} {cs after : List Char} {i : Item}
    (h : readItem c cs = .ok (i, after)) : after.length ≤ cs.length := by
  have ht := length_cutText cs
  unfold readItem at h
  dsimp only at h
  split at h
  · cases h
    exact ht
  · split at h
    · split at h
      · next hc =>
        have := length_cut? hc
        cases h
        simp only [List.length_cons]
        omega
      · cases h
    · split at h
      · next hc =>
        have := length_cut? hc
        cases h
        simp only [List.length_cons]
        omega
      · cases h
    · split at h
      · split at h
        · next hc =>
          have := length_cut? hc
          cases h
          exact Nat.le_trans this (Nat.le_succ_of_le (length_afterName _))
        · cases h
      · cases h
        exact ht
    · split at h
      · exact length_readOpening h
      · cases h
        exact ht

def items : List Char → List Item × Option Malformed
  | [] => ([], none)
  | c :: cs =>
    match _h : readItem c cs with
    | .error e => ([], some e)
    | .ok (item, rest) =>
      let r := items rest
      (item :: r.1, r.2)
termination_by cs => cs.length
decreasing_by
  have := length_readItem _h
  simp only [List.length_cons]
  omega

/-- An element that is not closed yet, and what comes before it, latest first. -/
structure OpenElement (α : Type) where
  tag : String
  attributes : List (String × String)
  before : List (Html α)

/-- Trees under construction: the open elements, innermost first, and what the innermost one holds
so far, latest first. -/
structure Builder (α : Type) where
  content : List (Html α)
  opened : List (OpenElement α)

namespace Builder

variable {α : Type}

def close? (tag : String) (content : List (Html α)) : List (OpenElement α) → Option (Builder α)
  | [] => none
  | e :: es =>
    let closed := .element e.tag e.attributes [] content.reverse :: e.before
    if e.tag = tag then some ⟨closed, es⟩ else close? tag closed es

def finish (content : List (Html α)) : List (OpenElement α) → List (Html α)
  | [] => content.reverse
  | e :: es => finish (.element e.tag e.attributes [] content.reverse :: e.before) es

/-- Takes in an item. A closing tag of an element that is not open is ignored. -/
def add (b : Builder α) : Item → Builder α
  | .text s => { b with content := .text s :: b.content }
  | .comment s => { b with content := .comment s :: b.content }
  | .declaration => b
  | .opening tag attributes => ⟨[], ⟨tag, attributes, b.content⟩ :: b.opened⟩
  | .whole tag attributes content =>
    let children := if content.isEmpty then [] else [.text (String.ofList content)]
    { b with content := .element tag attributes [] children :: b.content }
  | .closing tag => (close? tag b.content b.opened).getD b

end Builder

def ofItems {α : Type} (is : List Item) : List (Html α) :=
  let b := is.foldl Builder.add (⟨[], []⟩ : Builder α)
  Builder.finish b.content b.opened

def readable {α : Type} (markup : String) : List (Html α) := ofItems (items markup.toList).1

def parse {α : Type} (markup : String) : Except Malformed (List (Html α)) :=
  match items markup.toList with
  | (is, none) => .ok (ofItems is)
  | (_, some e) => .error e

end LiveMarkup.Html
