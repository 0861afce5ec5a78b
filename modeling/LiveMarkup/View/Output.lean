import LiveMarkup.Document.Basic

/-! The output of a view in a document. A marker stands behind its nodes, so that it can be replaced
wherever it has been moved to, and whatever else has been put next to it stays. -/

namespace LiveMarkup

/-- The nodes of the last rendering, and the marker. -/
structure Output where
  nodes : List NodeId
  marker : NodeId

namespace Output

variable {α : Type}

/-- The first output: the trees and a marker in a new fragment. -/
def first (f : Forest α) (trees : List (Html α)) : NodeId × Output × Forest α :=
  let (fragment, f) := f.plantFragment trees
  let nodes := f.children fragment
  let (marker, f) := f.create (.text "")
  (fragment, ⟨nodes, marker⟩, f.attach fragment (· ++ [marker]) marker)

/-- Replaces the nodes of an output: the new nodes are inserted before the marker, then the earlier
ones are removed. -/
def replace (o : Output) (f : Forest α) (trees : List (Html α)) :
    Except DocumentError (Output × Forest α) :=
  let (fragment, f) := f.plantFragment trees
  let nodes := f.children fragment
  (f.insertBefore o.marker fragment).map fun f => ({ o with nodes }, o.nodes.foldl Forest.remove f)

end Output

end LiveMarkup
