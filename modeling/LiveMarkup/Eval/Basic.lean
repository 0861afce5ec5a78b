import LiveMarkup.EvalError
import LiveMarkup.Scope

/-! What an evaluation runs in: a state that holds the scope and whatever a dirty write sets off,
and the local bindings of loops and functions. -/

namespace LiveMarkup

/-- An evaluation that changes a state and either has a result or stops. The state that it has
reached by then stays. -/
abbrev Run (σ α : Type) := EStateM Stop σ α

namespace Run

variable {σ α : Type}

def fail (e : EvalError) : Run σ α := throw (.error e)

def ofExcept : Except EvalError α → Run σ α
  | .ok a => pure a
  | .error e => fail e

/-- The result of a computation that has no effect but may stop in either way. -/
def ofStop : Except Stop α → Run σ α
  | .ok a => pure a
  | .error e => throw e

end Run

/-- Where the scope lies in a state, what a dirty write of a property sets off, and what calling a
native function does. -/
structure Host (σ : Type) where
  scope : σ → Scope
  withScope : Scope → σ → σ
  notify : String → Run σ Unit
  native : Nat → List Value → Run σ Value

namespace Host

variable {σ : Type}

/-- Stores a value, then notifies if the write is dirty. The result is whether it is. -/
def write (h : Host σ) (put : String → Value → Scope → Scope) (x : String) (v : Value) :
    Run σ Bool := do
  let scope := h.scope (← get)
  modify (h.withScope (put x v scope))
  let dirty := Scope.isDirty (scope.get? x) v
  if dirty then h.notify x
  return dirty

def set (h : Host σ) (x : String) (v : Value) : Run σ Bool := h.write Scope.put x v

def setPublic (h : Host σ) (x : String) (v : Value) : Run σ Bool := h.write Scope.putPublic x v

def declare (h : Host σ) (x : String) (v : Value) : Run σ Unit :=
  modify fun s => h.withScope ((h.scope s).put x v) s

/-- Changes the value of a property that exists, and notifies whatever the change is. -/
def update (h : Host σ) (x : String) (change : Value → Value) : Run σ Unit := do
  let scope := h.scope (← get)
  match scope.get? x with
  | none => Run.fail (.undefinedVariable x)
  | some v =>
    modify (h.withScope (scope.put x (change v)))
    h.notify x

end Host

/-- What a native function does: it may read and write properties and report values before it
returns or fails. -/
inductive Procedure where
  | done (v : Value)
  | fail (reason : String)
  | report (values : List Value) (next : Procedure)
  | read (x : String) (next : Option Value → Procedure)
  | write (x : String) (v : Value) (next : Bool → Procedure)

def Procedure.run {σ : Type} (scope : σ → Scope) (set : String → Value → Run σ Bool)
    (report : List Value → Run σ Unit) : Procedure → Run σ Value
  | done v => pure v
  | fail reason => Run.fail (.failed reason)
  | .report values next => do
    report values
    next.run scope set report
  | read x next => do
    let s ← get
    (next ((scope s).get? x)).run scope set report
  | write x v next => do
    let dirty ← set x v
    (next dirty).run scope set report

/-- The state of an evaluation together with the local bindings, innermost first. -/
structure Env (σ : Type) where
  locals : Bindings
  outer : σ

namespace Env

variable {σ α : Type}

def lift (m : Run σ α) : Run (Env σ) α := fun env =>
  match m env.outer with
  | .ok a s => .ok a { env with outer := s }
  | .error e s => .error e { env with outer := s }

/-- Runs with the given local bindings instead of those in force, which are in force again
afterwards, whether it succeeds or stops. -/
def within (locals : Bindings) (m : Run (Env σ) α) : Run (Env σ) α := fun env =>
  match m { env with locals } with
  | .ok a env' => .ok a { env with outer := env'.outer }
  | .error e env' => .error e { env with outer := env'.outer }

/-- Runs with further local bindings, which are dropped afterwards, whether it succeeds or stops.
What it assigns to the other bindings stays. -/
def binding (bs : Bindings) (m : Run (Env σ) α) : Run (Env σ) α := fun env =>
  match m { env with locals := bs ++ env.locals } with
  | .ok a env' => .ok a { env' with locals := env'.locals.drop bs.length }
  | .error e env' => .error e { env' with locals := env'.locals.drop bs.length }

def toplevel (m : Run (Env σ) α) : Run σ α := fun s =>
  match m ⟨[], s⟩ with
  | .ok a env => .ok a env.outer
  | .error e env => .error e env.outer

/-- The value of a name: the innermost local binding, else the property. -/
def get? (h : Host σ) (x : String) : Run (Env σ) (Option Value) := do
  let env ← get
  return (env.locals.get? x).orElse fun _ => (h.scope env.outer).get? x

/-- Assigns to a name: to its innermost local binding, else to the property. -/
def assign (h : Host σ) (x : String) (v : Value) : Run (Env σ) Unit := do
  let env ← get
  match env.locals.set? x v with
  | some locals => set { env with locals }
  | none =>
    let _ ← lift (h.set x v)

end Env

end LiveMarkup
