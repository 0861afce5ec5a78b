/-! Finding a text inside another, and what is built on it: cutting, splitting and replacing. -/

namespace LiveMarkup.Text

def dropPrefix? : List Char → List Char → Option (List Char)
  | [], cs => some cs
  | _ :: _, [] => none
  | p :: ps, c :: cs => if p = c then dropPrefix? ps cs else none

def cut? (needle : List Char) : List Char → Option (List Char × List Char)
  | [] => (dropPrefix? needle []).map fun after => ([], after)
  | c :: cs =>
    match dropPrefix? needle (c :: cs) with
    | some after => some ([], after)
    | none => (cut? needle cs).map fun parts => (c :: parts.1, parts.2)

theorem dropPrefix?_eq_some {pre cs after : List Char} (h : dropPrefix? pre cs = some after) :
    cs = pre ++ after := by
  induction pre generalizing cs with
  | nil => simpa [dropPrefix?] using h
  | cons p ps ih =>
    cases cs with
    | nil => simp [dropPrefix?] at h
    | cons c cs =>
      by_cases hp : p = c
      · subst hp
        simp only [dropPrefix?, if_pos] at h
        simp [ih h]
      · simp [dropPrefix?, hp] at h

/-- Cutting loses nothing but the occurrence itself. -/
theorem cut?_eq_some {needle cs before after : List Char}
    (h : cut? needle cs = some (before, after)) : cs = before ++ needle ++ after := by
  induction cs generalizing before with
  | nil =>
    obtain ⟨rest, hr, he⟩ := Option.map_eq_some_iff.1 h
    cases he
    simpa using dropPrefix?_eq_some hr
  | cons c cs ih =>
    rw [cut?] at h
    split at h
    · rename_i rest hr
      cases h
      simpa using dropPrefix?_eq_some hr
    · obtain ⟨⟨b, a⟩, hp, he⟩ := Option.map_eq_some_iff.1 h
      cases he
      simp [ih hp]

def pieces (separator : List Char) (nonempty : 0 < separator.length) (cs : List Char) :
    List (List Char) :=
  match _h : cut? separator cs with
  | none => [cs]
  | some (before, after) => before :: pieces separator nonempty after
termination_by cs.length
decreasing_by
  have := congrArg List.length (cut?_eq_some _h)
  simp only [List.length_append] at this
  omega

/-- The pieces of a text between the occurrences of a separator. An empty separator occurs at both
ends and between any two characters. -/
def splitOn (separator cs : List Char) : List (List Char) :=
  if h : 0 < separator.length then pieces separator h cs
  else [] :: (cs.map fun c => [c]) ++ [[]]

def replaceAll (needle replacement cs : List Char) : List Char :=
  replacement.intercalate (splitOn needle cs)

def occursIn (needle cs : List Char) : Bool := (cut? needle cs).isSome

end LiveMarkup.Text
