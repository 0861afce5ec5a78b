import LiveMarkup.Style.Rule

/-! Stylesheets under generated attributes, and the registry that keeps the attributes apart. -/

namespace LiveMarkup.Style

structure Stylesheet where
  attr : String
  css : String
  deriving DecidableEq, Repr

/-- The stylesheets made so far, latest first. -/
structure Registry where
  sheets : List Stylesheet
  deriving Repr

namespace Registry

def empty : Registry := ⟨[]⟩

def get? (r : Registry) (attr : String) : Option String :=
  (r.sheets.find? fun s => s.attr == attr).map (·.css)

def size (r : Registry) : Nat := r.sheets.length

def fresh? (r : Registry) (beginning : String) (identifiers : List String) : Option String :=
  (identifiers.map (beginning ++ ·)).find? fun attr => (r.get? attr).isNone

def add? (r : Registry) (beginning : String) (identifiers : List String) (style : String) :
    Option (Stylesheet × Registry) :=
  (r.fresh? beginning identifiers).map fun attr =>
    let sheet := { attr, css := scope style attr }
    (sheet, ⟨sheet :: r.sheets⟩)

/-- An attribute that has been found fresh is not taken. -/
theorem get?_fresh? {r : Registry} {beginning attr : String} {identifiers : List String}
    (h : r.fresh? beginning identifiers = some attr) : r.get? attr = none := by
  have := List.find?_some h
  simpa using this

end Registry

def digit36 (n : Nat) : Char :=
  if n < 10 then Char.ofNat ('0'.toNat + n) else Char.ofNat ('a'.toNat + (n - 10))

def identifier (n : Nat) : String :=
  String.ofList ((List.range 9).map fun i => digit36 (n / Nat.pow 36 (8 - i) % 36))

end LiveMarkup.Style
