/-! Reading style text with its strings and brackets in mind: what stands within them is not
syntax. -/

namespace LiveMarkup.Style

/-- Whether a string is open, by its quote, and whether the next character of it is escaped. -/
structure Quoting where
  quote : Option Char
  escaped : Bool
  deriving DecidableEq, Repr

namespace Quoting

def none : Quoting := ⟨.none, false⟩

/-- After one more character. A backslash escapes only within strings. -/
def next (q : Quoting) (c : Char) : Quoting :=
  match q.quote with
  | some quote =>
    if q.escaped then { q with escaped := false }
    else if c = '\\' then { q with escaped := true }
    else if c = quote then none
    else q
  | .none => if c = '"' ∨ c = '\'' then ⟨some c, false⟩ else q

def outside (q : Quoting) : Bool := q.quote.isNone

end Quoting

/-- The strings and the round and square brackets that are open. -/
structure Scan where
  quoting : Quoting
  depth : Nat
  deriving DecidableEq, Repr

namespace Scan

def start : Scan := ⟨.none, 0⟩

def top (s : Scan) : Bool := s.quoting.outside && s.depth == 0

/-- After one more character. A closing bracket too many is ignored. -/
def next (s : Scan) (c : Char) : Scan :=
  if s.quoting.outside then
    if c = '(' ∨ c = '[' then { s with depth := s.depth + 1 }
    else if c = ')' ∨ c = ']' then { s with depth := s.depth - 1 }
    else { s with quoting := s.quoting.next c }
  else { s with quoting := s.quoting.next c }

end Scan

/-- The text before the first character outside strings and brackets that satisfies `p`, that
character, and the text after it. -/
def cutTop? (p : Char → Bool) (s : Scan) : List Char → Option (List Char × Char × List Char)
  | [] => none
  | c :: cs =>
    if s.top && p c then some ([], c, cs)
    else (cutTop? p (s.next c) cs).map fun r => (c :: r.1, r.2)

theorem cutTop?_eq_some {p : Char → Bool} {s : Scan} {cs before after : List Char} {c : Char}
    (h : cutTop? p s cs = some (before, c, after)) : cs = before ++ c :: after := by
  induction cs generalizing s before with
  | nil => simp [cutTop?] at h
  | cons d cs ih =>
    unfold cutTop? at h
    split at h
    · cases h
      rfl
    · obtain ⟨⟨b, r⟩, hr, he⟩ := Option.map_eq_some_iff.1 h
      cases he
      simp [ih hr]

/-- The parts of a text between the separators outside strings and brackets. -/
def splitTop (separator : Char) (cs : List Char) : List (List Char) :=
  match _h : cutTop? (· == separator) .start cs with
  | none => [cs]
  | some (before, _, after) => before :: splitTop separator after
termination_by cs.length
decreasing_by
  have := congrArg List.length (cutTop?_eq_some _h)
  simp only [List.length_append, List.length_cons] at this
  omega

/-- A block whose opening brace has been read: the text before the brace that closes it, and the
text after that brace. `depth` counts the braces opened since. A block that is not closed is the
whole text. -/
def splitBlock (q : Quoting) (depth : Nat) : List Char → List Char × List Char
  | [] => ([], [])
  | c :: cs =>
    if q.outside && c == '\x7d' && depth == 0 then ([], cs)
    else
      let depth :=
        if q.outside && c == '\x7b' then depth + 1
        else if q.outside && c == '\x7d' then depth - 1
        else depth
      let r := splitBlock (q.next c) depth cs
      (c :: r.1, r.2)

theorem splitBlock_length (q : Quoting) (depth : Nat) (cs : List Char) :
    (splitBlock q depth cs).1.length ≤ cs.length ∧
      (splitBlock q depth cs).2.length ≤ cs.length := by
  induction cs generalizing q depth with
  | nil => simp [splitBlock]
  | cons c cs ih =>
    unfold splitBlock
    split
    · simp
    · simp only [List.length_cons]
      have := ih (q.next c) (if (q.outside && c == '\x7b') = true then depth + 1
        else if (q.outside && c == '\x7d') = true then depth - 1 else depth)
      omega

end LiveMarkup.Style
