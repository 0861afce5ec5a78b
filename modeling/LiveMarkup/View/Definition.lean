import LiveMarkup.Script.Parser
import LiveMarkup.Source
import LiveMarkup.Style.Registry
import LiveMarkup.Template.Parser

/-! Compiled views, and the catalog of all that has been compiled. -/

namespace LiveMarkup

open Style (Registry Stylesheet)

/-- A compiled view. The functions that its markup and its script make are told apart from those of
other views by its number. -/
structure Definition where
  number : Nat
  source : Source
  template : Template
  script : Script
  stylesheet : Option Stylesheet

namespace Definition

def markupSource (d : Definition) : Nat := 2 * d.number

def scriptSource (d : Definition) : Nat := 2 * d.number + 1

def attr? (d : Definition) : Option String := d.stylesheet.map (·.attr)

end Definition

/-- Why a view cannot be compiled. -/
inductive DefinitionError where
  | compile (e : CompileError)
  /-- Every identifier that was offered for the attribute is taken. -/
  | attributesTaken

/-- The stylesheets made so far, the views kept by their texts, and the count of views. -/
structure Catalog where
  registry : Registry
  kept : List (String × Definition)
  count : Nat

namespace Catalog

def empty : Catalog := ⟨.empty, [], 0⟩

/-- Compiles a view. The attribute of its style is made of `beginning` and one of the
identifiers. -/
def compile (c : Catalog) (beginning : String) (identifiers : List String) (text : String) :
    Except DefinitionError (Definition × Catalog) := do
  let source := Source.split text
  let template ← (Template.compile source.markup).mapError .compile
  let script ← match source.script with
    | some s => (Script.compile s).mapError .compile
    | none => .ok .empty
  match source.style with
  | none =>
    .ok (⟨c.count, source, template, script, none⟩, { c with count := c.count + 1 })
  | some style =>
    match c.registry.add? beginning identifiers style with
    | none => .error .attributesTaken
    | some (sheet, registry) =>
      .ok (⟨c.count, source, template, script, some sheet⟩,
        { c with registry, count := c.count + 1 })

def kept? (c : Catalog) (text : String) : Option Definition :=
  (c.kept.find? fun e => e.1 == text).map (·.2)

/-- The view of a text, which is compiled only if it is not kept. If `keep` holds, a view that
compiles is kept. -/
def fetch (c : Catalog) (keep : Bool) (beginning : String) (identifiers : List String)
    (text : String) : Except DefinitionError (Definition × Catalog) :=
  match c.kept? text with
  | some d => .ok (d, c)
  | none => (c.compile beginning identifiers text).map fun r =>
    if keep then (r.1, { r.2 with kept := (text, r.1) :: r.2.kept }) else r

end Catalog

end LiveMarkup
