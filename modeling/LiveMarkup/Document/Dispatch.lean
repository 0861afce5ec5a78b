import LiveMarkup.Document.Basic
import LiveMarkup.Eval.Basic

/-! Events: what the listeners of an element do, then those of the elements above it. -/

namespace LiveMarkup.Document

variable {α σ : Type}

def runAll (call : α → Run σ Unit) : List α → Run σ Nat
  | [] => pure 0
  | l :: ls => do
    call l
    let n ← runAll call ls
    return n + 1

/-- Runs the listeners of a node, then those of the node that is its parent by then, and so on up to a
root, and counts them. At most `k` nodes are climbed. `call` is also told the node whose listener is
running. -/
def climb (document : σ → Document α) (call : NodeId → α → Run σ Unit) (event : String) :
    Nat → NodeId → Run σ Nat
  | 0, _ => throw (.fault .outOfFuel)
  | k + 1, id => do
    let n ← runAll (call id) ((document (← get)).forest.listeners id event)
    match (document (← get)).forest.parent? id with
    | some parent => return n + (← climb document call event k parent)
    | none => return n

/-- Runs what listens to an event, whose name is taken in lower case, at an element and above it, and
counts it. No path is longer than there are nodes. -/
def dispatch (document : σ → Document α) (call : NodeId → α → Run σ Unit) (event : String)
    (target : NodeId) : Run σ Nat := do
  let nodes := (document (← get)).forest.nodes
  climb document call (Text.lower event) nodes.size target

end LiveMarkup.Document
