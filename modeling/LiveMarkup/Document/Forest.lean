import LiveMarkup.EvalError
import LiveMarkup.Html.Basic

/-! Forests of nodes under identity: a node can be moved, and whoever knows it still does. Links are
kept in both directions, from a node to its children and to its parent. -/

namespace LiveMarkup

abbrev NodeId := Nat

/-- What a node is. A fragment groups roots that are to be moved together. -/
inductive NodeKind (α : Type) where
  | fragment
  | element (tag : String) (attributes : List (String × String)) (listeners : List (String × α))
  | text (s : String)
  | comment (s : String)

structure Node (α : Type) where
  kind : NodeKind α
  parent : Option NodeId
  children : List NodeId

/-- The nodes by identity. `α` is what elements do on events. -/
structure Forest (α : Type) where
  nodes : Array (Node α)

namespace Forest

variable {α : Type}

def empty : Forest α := ⟨#[]⟩

def node? (f : Forest α) (id : NodeId) : Option (Node α) := f.nodes[id]?

def parent? (f : Forest α) (id : NodeId) : Option NodeId := (f.node? id).bind (·.parent)

def children (f : Forest α) (id : NodeId) : List NodeId := ((f.node? id).map (·.children)).getD []

def kind? (f : Forest α) (id : NodeId) : Option (NodeKind α) := (f.node? id).map (·.kind)

def modify (f : Forest α) (id : NodeId) (change : Node α → Node α) : Forest α :=
  ⟨f.nodes.modify id change⟩

def create (f : Forest α) (kind : NodeKind α) : NodeId × Forest α :=
  (f.nodes.size, ⟨f.nodes.push ⟨kind, none, []⟩⟩)

/-- An element without attributes. Its tag is in lower case. -/
def createElement (f : Forest α) (tag : String) : NodeId × Forest α :=
  f.create (.element (Text.lower tag) [] [])

/-! What is above and below a node. -/

/-- The nodes from a node upwards, at most `n` of them. -/
def pathUp (f : Forest α) : Nat → NodeId → List NodeId
  | 0, _ => []
  | n + 1, id =>
    id :: match f.parent? id with
      | some p => pathUp f n p
      | none => []

def path (f : Forest α) (id : NodeId) : List NodeId := f.pathUp f.nodes.size id

def contains (f : Forest α) (upper lower : NodeId) : Bool := (f.path lower).contains upper

/-- The nodes below a node in document order, at most `n` levels of them. -/
def below (f : Forest α) : Nat → NodeId → List NodeId
  | 0, _ => []
  | n + 1, id => (f.children id).flatMap fun c => c :: below f n c

def descendants (f : Forest α) (id : NodeId) : List NodeId := f.below f.nodes.size id

/-- The tree of a node, at most `n` levels of it. A fragment stands for the trees of its
children. -/
def treesTo (f : Forest α) : Nat → NodeId → List (Html α)
  | 0, _ => []
  | n + 1, id =>
    let inner := (f.children id).flatMap (treesTo f n)
    match f.kind? id with
    | none => []
    | some .fragment => inner
    | some (.element tag attributes listeners) => [.element tag attributes listeners inner]
    | some (.text s) => [.text s]
    | some (.comment s) => [.comment s]

/-- The tree of a node. A fragment stands for the trees of its children. -/
def trees (f : Forest α) (id : NodeId) : List (Html α) := f.treesTo f.nodes.size id

def innerTrees (f : Forest α) (id : NodeId) : List (Html α) := (f.children id).flatMap f.trees

def outerMarkup (f : Forest α) (id : NodeId) : String := Html.markupOf (f.trees id)

def innerMarkup (f : Forest α) (id : NodeId) : String := Html.markupOf (f.innerTrees id)

def textContent (f : Forest α) (id : NodeId) : String := Html.textContentOf (f.trees id)

/-! Elements. -/

def isFragment (f : Forest α) (id : NodeId) : Bool :=
  match f.kind? id with
  | some .fragment => true
  | _ => false

def tag? (f : Forest α) (id : NodeId) : Option String :=
  match f.kind? id with
  | some (.element tag _ _) => some tag
  | _ => none

/-- The attributes of an element in order. Other nodes have none. -/
def attributes (f : Forest α) (id : NodeId) : List (String × String) :=
  match f.kind? id with
  | some (.element _ attributes _) => attributes
  | _ => []

def listeners (f : Forest α) (id : NodeId) (event : String) : List α :=
  match f.kind? id with
  | some (.element _ _ listeners) => (listeners.filter fun l => l.1 == event).map (·.2)
  | _ => []

def modifyElement (f : Forest α) (id : NodeId)
    (change : List (String × String) × List (String × α) →
      List (String × String) × List (String × α)) : Forest α :=
  f.modify id fun n =>
    match n.kind with
    | .element tag attributes listeners =>
      let r := change (attributes, listeners)
      { n with kind := .element tag r.1 r.2 }
    | _ => n

def setAttribute (f : Forest α) (id : NodeId) (name value : String) : Forest α :=
  f.modifyElement id fun e => (Html.setAttribute name value e.1, e.2)

def eraseAttribute (f : Forest α) (id : NodeId) (name : String) : Forest α :=
  f.modifyElement id fun e => (Html.eraseAttribute name e.1, e.2)

/-- Makes an element do something on an event, whose name is taken in lower case. -/
def listen (f : Forest α) (id : NodeId) (event : String) (listener : α) : Forest α :=
  f.modifyElement id fun e => (e.1, e.2 ++ [(Text.lower event, listener)])

def queryAll (f : Forest α) (id : NodeId) (tag : String) : List NodeId :=
  (f.descendants id).filter fun d => f.tag? d == some (Text.lower tag)

/-! Moving nodes. -/

def remove (f : Forest α) (id : NodeId) : Forest α :=
  match f.parent? id with
  | none => f
  | some p =>
    (f.modify p fun n => { n with children := n.children.filter (· != id) }).modify id fun n =>
      { n with parent := none }

def attach (f : Forest α) (parent : NodeId) (place : List NodeId → List NodeId) (id : NodeId) :
    Forest α :=
  (f.modify parent fun n => { n with children := place n.children }).modify id fun n =>
    { n with parent := some parent }

/-- The nodes that move when a node is inserted: the children of a fragment, any other node
itself. -/
def moving (f : Forest α) (id : NodeId) : List NodeId :=
  if f.isFragment id then f.children id else [id]

def putBefore (reference new : NodeId) (ids : List NodeId) : List NodeId :=
  ids.takeWhile (· != reference) ++ new :: ids.dropWhile (· != reference)

def append (f : Forest α) (parent child : NodeId) : Except DocumentError (Forest α) :=
  if f.contains child parent then .error .hierarchy
  else .ok ((f.moving child).foldl (fun f id => (f.remove id).attach parent (· ++ [id]) id) f)

def insertBefore (f : Forest α) (reference node : NodeId) : Except DocumentError (Forest α) :=
  match f.parent? reference with
  | none => .error .detached
  | some parent =>
    if f.contains node parent then .error .hierarchy
    else
      let moving := (f.moving node).filter (· != reference)
      .ok (moving.foldl (fun f id => (f.remove id).attach parent (putBefore reference id) id) f)

mutual

/-- Makes nodes of a tree. The result is its root. -/
def plant (f : Forest α) : Html α → NodeId × Forest α
  | .element tag attributes listeners children =>
    let (id, f) := f.create (.element tag attributes listeners)
    (id, plantAll f id children)
  | .text s => f.create (.text s)
  | .comment s => f.create (.comment s)

def plantAll (f : Forest α) (parent : NodeId) : List (Html α) → Forest α
  | [] => f
  | t :: ts =>
    let (id, f) := plant f t
    plantAll (f.attach parent (· ++ [id]) id) parent ts

end

def plantFragment (f : Forest α) (trees : List (Html α)) : NodeId × Forest α :=
  let (id, f) := f.create .fragment
  (id, f.plantAll id trees)

/-- Whether a node is in use: it or a node above it is held by someone. -/
def inUse (f : Forest α) (held : List NodeId) (id : NodeId) : Bool := (f.path id).any held.contains

/-- Lets go of what nobody holds any longer: a node whose parent is no longer in use is a root. -/
def release (f : Forest α) (held : List NodeId) : Forest α :=
  held.foldl (fun f id =>
    match f.parent? id with
    | some p => if f.inUse held p then f else f.remove id
    | none => f) f

end Forest

end LiveMarkup
