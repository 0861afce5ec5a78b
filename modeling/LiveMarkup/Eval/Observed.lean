import LiveMarkup.Eval.Template

/-! Scopes with listeners that are told of every dirty write, in the order in which they were
subscribed. A listener may write to the scope itself, which tells the listeners again. -/

namespace LiveMarkup

/-- What a listener does when it is told of a property: it may take note of it, fail on a certain
property, and copy one property to another, in this order. -/
structure Listener where
  label : Option String
  failsOn : Option String
  copies : Option (String × String)

/-- A scope and the notes taken so far: the label of the listener and the property, latest first. -/
structure Observed where
  scope : Scope
  notes : List (String × String)

namespace Observed

def ofProps (props : Bindings) : Observed := ⟨Scope.ofProps props, []⟩

def react (set : String → Value → Run Observed Bool) (x : String) (l : Listener) :
    Run Observed Unit := do
  if let some label := l.label then
    modify fun s => { s with notes := (label, x) :: s.notes }
  if l.failsOn = some x then Run.fail (.failed ("listener failed on " ++ x))
  if let some (source, target) := l.copies then
    if source = x then
      match (← get).scope.get? x with
      | some v =>
        let _ ← set target v
      | none => pure ()

/-- A scope whose listeners tell one another of their writes at most `depth` deep. -/
def host (listeners : List Listener) : Nat → Host Observed
  | 0 =>
    { scope := Observed.scope, withScope := fun scope s => { s with scope }
      notify := fun _ => throw (.fault .outOfFuel), native := fun _ _ => pure .null }
  | depth + 1 =>
    { scope := Observed.scope, withScope := fun scope s => { s with scope }
      notify := fun x => listeners.forM (react (host listeners depth).set x)
      native := fun _ _ => pure .null }

/-- How deep listeners may tell one another of their writes. -/
def depthLimit : Nat := 10000

end Observed

end LiveMarkup
