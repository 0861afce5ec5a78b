import LiveMarkup.View.Definition

/-! Requests for views. They share one catalog and are answered one after another. -/

namespace LiveMarkup

open Style (Stylesheet)

namespace Catalog

/-- Work on the catalog. A failure leaves the catalog as the work has made it by then. -/
abbrev Work (α : Type) := EStateM DefinitionError Catalog α

def Work.ofCompiled {α : Type} : Except CompileError α → Work α
  | .ok a => pure a
  | .error e => throw (.compile e)

/-- Scopes a style text to an attribute that is not taken, and enters it in the registry. -/
def enter (beginning : String) (identifiers : List String) (style : String) : Work Stylesheet := do
  match (← get).registry.add? beginning identifiers style with
  | none => throw .attributesTaken
  | some (sheet, registry) =>
    modify fun c => { c with registry }
    return sheet

def issue (beginning : String) (identifiers : List String) (source : Source) (template : Template)
    (script : Script) : Work Definition := do
  let stylesheet ← source.style.mapM (enter beginning identifiers)
  let c ← get
  set { c with count := c.count + 1 }
  return ⟨c.count, source, template, script, stylesheet⟩

/-- Compiles a view: its markup, then its script. Its style comes last. -/
def build (beginning : String) (identifiers : List String) (text : String) : Work Definition := do
  let source := Source.split text
  let template ← Work.ofCompiled (Template.compile source.markup)
  let script ← Work.ofCompiled ((source.script.map Script.compile).getD (.ok .empty))
  issue beginning identifiers source template script

def keep (text : String) (d : Definition) : Work Unit :=
  modify fun c => { c with kept := (text, d) :: c.kept }

end Catalog

/-- A request for the view of a text. The identifiers are those drawn for the attribute of its style. A
cached request is answered with the view kept for the text, and keeps the one that it compiles. -/
structure Request where
  cached : Bool
  beginning : String
  identifiers : List String
  text : String
  deriving Repr

def Request.answer (r : Request) : Catalog.Work Definition := do
  if r.cached then
    match (← get).kept? r.text with
    | some d => return d
    | none =>
      let d ← Catalog.build r.beginning r.identifiers r.text
      Catalog.keep r.text d
      return d
  else Catalog.build r.beginning r.identifiers r.text

/-- A request, and the catalog that it finds. -/
structure Served where
  request : Request
  found : Catalog

namespace Served

def outcome (a : Served) : EStateM.Result DefinitionError Catalog Definition := a.request.answer a.found

def left (a : Served) : Catalog :=
  match a.outcome with
  | .ok _ c => c
  | .error _ c => c

end Served

def Catalog.serve (c : Catalog) : List Request → List Served
  | [] => []
  | r :: rs => ⟨r, c⟩ :: (Served.left ⟨r, c⟩).serve rs

end LiveMarkup
