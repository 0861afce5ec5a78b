import LiveMarkup.Value.Change
import LiveMarkup.View.Session

/-! What a user does with live views: creating and mounting them, reading and writing their public
properties, and what happens to the document from outside. -/

namespace LiveMarkup.Session

/-! Creating instances. -/

/-- Puts native functions into a scope under their names, internal or public. -/
def install (h : Host Session) (isPublic : Bool) :
    List (String × (List Value → Procedure)) → Run Session Unit
  | [] => pure ()
  | (x, f) :: rest => do
    let id := (← get).natives.size
    modify fun s => { s with natives := s.natives.push f }
    if isPublic then
      let _ ← h.setPublic x (.native id)
    else h.declare x (.native id)
    install h isPublic rest

/-- How the instances of a view are made: the view, and when and how they are rendered. -/
structure Recipe where
  definition : Definition
  discipline : Discipline
  escaped : Bool

/-- Creates an instance, runs the script of its view and renders it. The result is its number and
the fragment that holds its output. An instance that cannot be rendered is not alive. -/
def instantiate (r : Recipe) (props : Bindings) (isPublic : Bool)
    (natives : List (String × (List Value → Procedure))) : Run Session (InstanceId × NodeId) := do
  let i := (← get).instances.size
  let setAlive (alive : Bool) : Run Session Unit :=
    modify fun s => s.modifyInstance i fun inst => { inst with alive }
  modify fun s => { s with instances := s.instances.push {
    definition := r.definition, scope := .ofProps props, discipline := r.discipline
    escaped := r.escaped, output := none, renders := 0, pending := false, phase := .idle
    alive := false } }
  install (scriptHost i) isPublic natives
  Eval.script (scriptHost i) r.definition.scriptSource r.definition.script
  setAlive true
  tryCatch
    (do match ← update i with
      | some fragment => return (i, fragment)
      | none => Run.fail .alreadyRendered)
    fun e => do
      setAlive false
      modify settle
      throw e

/-- Changes the forest of the document, if that is possible, and lets go of what nobody keeps. -/
def edit (change : Forest Handler → Except DocumentError (Forest Handler)) : Run Session Unit := do
  let s ← get
  match change s.document.forest with
  | .error e => Run.fail (.document e)
  | .ok forest => set (settle { s with document := { s.document with forest } })

/-- Creates an instance and appends its output to a node. The result is its number and the fragment,
which is empty now. -/
def mount (r : Recipe) (props : Bindings) (isPublic : Bool)
    (natives : List (String × (List Value → Procedure))) (target : NodeId) :
    Run Session (InstanceId × NodeId) := do
  let (i, fragment) ← instantiate r props isPublic natives
  edit fun f => f.append target fragment
  return (i, fragment)

def hold (node : NodeId) : Run Session Unit := modify fun s => { s with held := node :: s.held }

def drop (i : InstanceId) : Run Session Unit :=
  modify fun s => settle (s.modifyInstance i fun inst => { inst with alive := false })

/-! Public properties. -/

def getPublic? (s : Session) (i : InstanceId) (x : String) : Option Value :=
  (scopeOf i s).getPublic? x

def setPublic (i : InstanceId) (x : String) (v : Value) : Run Session Unit := do
  let _ ← (host i).setPublic x v

def updatePublic (i : InstanceId) (x : String) (c : Change) : Run Session Unit := do
  if (scopeOf i (← get)).isPublic x then (host i).update x c.apply
  else Run.fail (.undefinedVariable x)

def callPublic (i : InstanceId) (x : String) (args : List Value) : Run Session Value := do
  match (← get).getPublic? i x with
  | none => Run.fail (.undefinedVariable x)
  | some f =>
    if f.isFunction then Eval.callFunction (host i) f args else Run.fail (.notCallable x)

def propsJson (s : Session) (i : InstanceId) : Json := (scopeOf i s).toJson

def debugText (s : Session) (i : InstanceId) : String := "State(" ++ (s.propsJson i).text ++ ")"

/-! The document. -/

def dispatch (event : String) (target : NodeId) : Run Session Nat := do
  let call (current : NodeId) (h : Handler) : Run Session Unit := keeping [current] do
    let _ ← Eval.callFunction (host h.owner) h.function [.string (Text.lower event)]
    modify settle
  let attempt := keeping [target] (Document.dispatch Session.document call event target)
  let r ← tryCatch attempt fun e => do
    modify settle
    throw e
  modify settle
  return r

def appendElement (tag : String) : Run Session Unit := do
  let body := (← get).document.body
  edit fun f => let (id, f) := f.createElement tag; f.append body id

def insertElement (tag : String) (reference : NodeId) : Run Session Unit :=
  edit fun f => let (id, f) := f.createElement tag; f.insertBefore reference id

def attach (node : NodeId) : Run Session Unit := do
  let body := (← get).document.body
  edit fun f => f.append body node

def remove (node : NodeId) : Run Session Unit := edit fun f => .ok (f.remove node)

def clear : Run Session Unit := do
  let body := (← get).document.body
  edit fun f => .ok ((f.children body).foldl Forest.remove f)

end LiveMarkup.Session
