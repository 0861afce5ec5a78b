import LiveMarkup.Document.Dispatch
import LiveMarkup.Schedule.Basic
import LiveMarkup.Schedule.Discipline
import LiveMarkup.View.Definition
import LiveMarkup.View.Output
import LiveMarkup.View.Slot

/-! Live views: instances of views in one document, rendered again when their properties change. -/

namespace LiveMarkup

abbrev InstanceId := Nat

/-- What an instance is doing. -/
inductive Phase where
  | idle
  /-- It is being rendered; `written` says whether a property has changed meanwhile. -/
  | rendering (written : Bool)
  /-- It is being rendered once more, because properties changed while it was. -/
  | following
  deriving DecidableEq, Repr

/-- A view with properties of its own. It is alive as long as its user keeps it; after that its
nodes and functions remain as they are. -/
structure Instance where
  definition : Definition
  scope : Scope
  discipline : Discipline
  escaped : Bool
  output : Option Output
  /-- How often it has been rendered with success. -/
  renders : Nat
  /-- Whether a job that renders it waits for a frame. -/
  pending : Bool
  phase : Phase
  alive : Bool

/-- What an element does on an event: it calls a function in the scope of an instance. -/
structure Handler where
  function : Value
  owner : InstanceId

inductive Action where
  | render (i : InstanceId)
  | write (i : InstanceId) (x : String) (v : Value)

/-- A document with the instances in it, the frame they wait for, and what the host has been told,
latest first. -/
structure Session where
  document : Document Handler
  instances : Array Instance
  natives : Array (List Value → Procedure)
  frame : Frame Action
  events : List Event
  /-- The nodes that are kept by someone else than the document and the instances. -/
  held : List NodeId

namespace Session

def empty : Session := ⟨.empty, #[], #[], .empty, [], []⟩

def modifyInstance (s : Session) (i : InstanceId) (change : Instance → Instance) : Session :=
  { s with instances := s.instances.modify i change }

def instance? (s : Session) (i : InstanceId) : Option Instance :=
  (s.instances[i]?).filter (·.alive)

def scopeOf (i : InstanceId) (s : Session) : Scope := ((s.instances[i]?).map (·.scope)).getD .empty

def withScopeOf (i : InstanceId) (scope : Scope) (s : Session) : Session :=
  s.modifyInstance i fun inst => { inst with scope }

def keptBy (inst : Instance) : List NodeId :=
  match inst.output with
  | some o => if inst.alive then o.marker :: o.nodes else []
  | none => []

def kept (s : Session) : List NodeId :=
  s.document.root :: s.document.head :: s.document.body :: s.held ++
    s.instances.toList.flatMap keptBy

def settle (s : Session) : Session :=
  { s with document := { s.document with forest := s.document.forest.release s.kept } }

def keeping {α : Type} (nodes : List NodeId) (m : Run Session α) : Run Session α := fun s =>
  match m { s with held := nodes ++ s.held } with
  | .ok a s' => .ok a { s' with held := s.held }
  | .error e s' => .error e { s' with held := s.held }

def tell (e : Event) : Run Session Unit := modify fun s => { s with events := e :: s.events }

def frameHost : FrameHost Session Action where
  frame := Session.frame
  withFrame frame s := { s with frame }
  tell := tell

/-! Evaluation in the scope of an instance. -/

def plainHost (i : InstanceId) (notify : String → Run Session Unit) : Host Session where
  scope := scopeOf i
  withScope := withScopeOf i
  notify := notify
  native _ _ := pure .null

/-- Evaluation in the scope of an instance. Native functions write as the instance does. They act on
its scope and on nothing else: one that reaches other instances or the document is left out. -/
def hostWith (i : InstanceId) (notify : String → Run Session Unit) : Host Session :=
  let plain := plainHost i notify
  { plain with
    native := fun id args => do
      match (← get).natives[id]? with
      | some f => (f args).run plain.scope plain.set fun vs => tell (.values vs)
      | none => return .null }

def scriptHost (i : InstanceId) : Host Session := hostWith i fun _ => pure ()

def setPhase (i : InstanceId) (phase : Phase) : Run Session Unit :=
  modify fun s => s.modifyInstance i fun inst => { inst with phase }

/-- What an instance that is being rendered does about a dirty write: it takes note of it, unless it
is rendered for such a write already. -/
def noteWrite (i : InstanceId) : Run Session Unit :=
  modify fun s => s.modifyInstance i fun inst =>
    match inst.phase with
    | .rendering _ => { inst with phase := .rendering true }
    | _ => inst

def renderHost (i : InstanceId) : Host Session := hostWith i fun _ => noteWrite i

/-! Rendering. -/

/-- Puts trees in the place of the output of an instance. The result is the fragment of a first
output. -/
def place (i : InstanceId) (inst : Instance) (trees : List (Html Handler)) :
    Run Session (Option NodeId) := do
  let s ← get
  let forest := s.document.forest
  let put (o : Output) (forest : Forest Handler) : Run Session Unit :=
    modify fun s =>
      { s with document := { s.document with forest } }.modifyInstance i fun inst =>
        { inst with output := some o, renders := inst.renders + 1 }
  match inst.output with
  | none =>
    let (fragment, o, forest) := Output.first forest trees
    put o forest
    return some fragment
  | some o =>
    match o.replace forest trees with
    | .error e => Run.fail (.document e)
    | .ok (o, forest) =>
      put o forest
      return none

/-- Renders an instance. The result is the fragment of a first output, which is for the caller to
insert. -/
def render (i : InstanceId) : Run Session (Option NodeId) := do
  match (← get).instances[i]? with
  | none => return none
  | some inst =>
    let d := inst.definition
    let rendered ← Eval.template (renderHost i) d.markupSource d.template
    let (markup, functions) := Slot.fill inst.escaped rendered
    match Html.parse markup with
    | .error e => Run.fail (.document (.malformed e.message))
    | .ok trees =>
      let trees := Slot.stampAll d.attr? (functions.map fun f => ⟨f, i⟩) trees
      if let some sheet := d.stylesheet then
        modify fun s => { s with document := s.document.addStylesheet sheet.attr sheet.css }
      let fragment ← place i inst trees
      keeping fragment.toList (modify settle)
      return fragment

/-- Renders an instance, and once more if its properties changed meanwhile. -/
def update (i : InstanceId) : Run Session (Option NodeId) := do
  let orIdle {α : Type} (m : Run Session α) : Run Session α :=
    tryCatch m fun e => do
      setPhase i .idle
      throw e
  setPhase i (.rendering false)
  let fragment ← orIdle (render i)
  if ((← get).instances[i]?).any fun inst => inst.phase == .rendering true then
    setPhase i .following
    let _ ← orIdle (keeping fragment.toList (render i))
  setPhase i .idle
  return fragment

/-- What an instance does about a dirty write: it is rendered at once or when the frame is
flushed. It is the only subscriber of its scope; others are left out. -/
def changed (i : InstanceId) : Run Session Unit := do
  match (← get).instance? i with
  | none => pure ()
  | some inst =>
    if inst.phase ≠ .idle then noteWrite i
    else match inst.discipline with
      | .sync =>
        let _ ← update i
      | .batched =>
        if !inst.pending then
          modify fun s => s.modifyInstance i fun inst => { inst with pending := true }
          frameHost.request (.act (.render i) .done)

def host (i : InstanceId) : Host Session := hostWith i fun _ => changed i

/-! Frames. -/

/-- What a job does. An instance that is no longer alive is not rendered. -/
def perform : Action → Run Session Unit
  | .render i => do
    if ((← get).instance? i).isSome then
      modify fun s => s.modifyInstance i fun inst => { inst with pending := false }
      let _ ← update i
  | .write i x v => do
    let _ ← (host i).setPublic x v

def scheduler : Scheduler Session Action := { frameHost with perform }

def flush : Run Session Nat := scheduler.flush

end Session

end LiveMarkup
