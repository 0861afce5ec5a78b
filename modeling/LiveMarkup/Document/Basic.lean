import LiveMarkup.Document.Forest

/-! Documents: a root element that holds a head and a body, and the stylesheets in the head. -/

namespace LiveMarkup

/-- A forest with the elements that every document has. -/
structure Document (α : Type) where
  forest : Forest α
  root : NodeId
  head : NodeId
  body : NodeId

namespace Document

variable {α : Type}

def empty : Document α :=
  let html := .element "html" [] [] [.element "head" [] [] [], .element "body" [] [] []]
  let (root, forest) := (Forest.empty : Forest α).plant html
  { forest, root, head := root + 1, body := root + 2 }

def markup (d : Document α) : String := "<!DOCTYPE html>" ++ d.forest.outerMarkup d.root

def styles (d : Document α) : List NodeId := d.forest.queryAll d.head "style"

def stylesheets (d : Document α) : List (String × String) :=
  d.styles.filterMap fun id =>
    (d.forest.attributes id).head?.map fun a => (a.1, d.forest.textContent id)

def hasStylesheet (d : Document α) (attr : String) : Bool :=
  d.styles.any fun id => (Html.attribute? attr (d.forest.attributes id)).isSome

def addStylesheet (d : Document α) (attr css : String) : Document α :=
  if d.hasStylesheet attr then d
  else
    let (id, forest) := d.forest.plant (.element "style" [(attr, "")] [] [.text css])
    { d with forest := forest.attach d.head (· ++ [id]) id }

end Document

end LiveMarkup
