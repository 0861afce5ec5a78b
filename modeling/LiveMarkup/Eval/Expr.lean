import LiveMarkup.Eval.Basic
import LiveMarkup.Value.Method

/-! Evaluation of expressions. The meaning of an expression is given in terms of the meaning of the
expressions it refers to, its own parts and the bodies of the functions it calls, and a bound on
the depth of these references makes it total. -/

namespace LiveMarkup.Eval

variable {σ : Type}

/-- The meaning of the expressions of a source, which is known by its number. -/
abbrev Meaning (σ : Type) := Nat → Expr → Run (Env σ) Value

/-- Calls a function. A lambda's missing arguments are null and further ones are ignored. -/
def call (h : Host σ) (eval : Meaning σ) (f : Value) (args : List Value) : Run (Env σ) Value :=
  match f with
  | .lambda site params body captured =>
    let bound := params.zipIdx.map fun p => (p.1, args[p.2]?.getD .null)
    Env.within (bound.reverse ++ captured) (eval site.source body)
  | .native id => Env.lift (h.native id args)
  | v => Run.fail (.notCallable v.shown)

def evalItems (eval : Expr → Run (Env σ) Value) : List Expr → Run (Env σ) (List Value)
  | [] => pure []
  | e :: es => do
    let v ← eval e
    let vs ← evalItems eval es
    return v :: vs

def evalEntries (eval : Expr → Run (Env σ) Value) :
    List (String × Expr) → Run (Env σ) (List (String × Value))
  | [] => pure []
  | (k, e) :: es => do
    let v ← eval e
    let vs ← evalEntries eval es
    return (k, v) :: vs

def orNull (m : Run (Env σ) Value) : Run (Env σ) Value :=
  tryCatch m fun e => match e with
    | .error (.undefinedVariable _) => pure .null
    | e => throw e

def mapItems (f : List Value → Run (Env σ) Value) (i : Nat) : List Value → Run (Env σ) (List Value)
  | [] => pure []
  | v :: vs => do
    let w ← f [v, .int (Int64.ofNat i)]
    let ws ← mapItems f (i + 1) vs
    return w :: ws

/-- Keeps the elements on which, with their positions from `i` on, the function's result is true. -/
def filterItems (f : List Value → Run (Env σ) Value) (i : Nat) :
    List Value → Run (Env σ) (List Value)
  | [] => pure []
  | v :: vs => do
    let keep ← f [v, .int (Int64.ofNat i)]
    let kept ← filterItems f (i + 1) vs
    return if keep.truthy then v :: kept else kept

def invoke (h : Host σ) (eval : Meaning σ) (v : Value) (name : String) (args : List Value) :
    Run (Env σ) Value := do
  match ← Run.ofExcept (v.invoke name args) with
  | .value v => return v
  | .mapping f items => return .list (← mapItems (call h eval f) 0 items)
  | .filtering f items => return .list (← filterItems (call h eval f) 0 items)

/-- The member of a value: an entry or element if there is one, else a method without arguments. -/
def memberOf (h : Host σ) (eval : Meaning σ) (v : Value) (name : String) : Run (Env σ) Value :=
  match v.field? name with
  | some field => pure field
  | none => invoke h eval v name []

def accessName : Value → Run (Env σ) String
  | .string s => pure s
  | .int n => pure (toString n.toInt)
  | v => Run.fail (.badMemberName v.shown)

def step (h : Host σ) (eval : Meaning σ) (source : Nat) : Expr → Run (Env σ) Value
  | .literal v => pure v.value
  | .name x => do
    match ← Env.get? h x with
    | some v => return v
    | none =>
      match Value.global? x [] with
      | some v => return v
      | none => Run.fail (.undefinedVariable x)
  | .binary .and left right => do
    let a ← eval source left
    if a.truthy then eval source right else return a
  | .binary .or left right => do
    let a ← eval source left
    if a.truthy then return a else eval source right
  | .binary op left right => do
    let a ← eval source left
    let b ← eval source right
    Run.ofStop (Value.binary op a b)
  | .unary op operand => return Value.unary op (← eval source operand)
  | .list items => return .list (← evalItems (eval source) items)
  | .hash entries => return .hash (Dictionary.ofEntries (← evalEntries (eval source) entries))
  | .member target name => do
    let v ← eval source target
    memberOf h eval v name
  | .index target key => do
    let v ← eval source target
    let k ← eval source key
    let name ← accessName k
    memberOf h eval v name
  | .method target name args => do
    let v ← eval source target
    let args ← evalItems (eval source) args
    match v.field? name with
    | some f => if f.isFunction then call h eval f args else Run.fail (.notCallable name)
    | none => invoke h eval v name args
  | .call (.name x) args => do
    match ← Env.get? h x with
    | some f =>
      if f.isFunction then call h eval f (← evalItems (eval source) args)
      else Run.fail (.notCallable f.shown)
    | none =>
      let evalArg := if x = "default" then fun e => orNull (eval source e) else eval source
      let args ← evalItems evalArg args
      match Value.global? x args with
      | some v => return v
      | none => Run.fail (.undefinedVariable x)
  | .call callee args => do
    let f ← eval source callee
    if f.isFunction then call h eval f (← evalItems (eval source) args)
    else Run.fail (.notCallable f.shown)
  | .cond test yes no => do
    let c ← eval source test
    if c.truthy then eval source yes else eval source no
  | .lambda arrow params body => return .lambda ⟨source, arrow⟩ params body (← get).locals
  | .assign x op value => do
    let v ← eval source value
    let v ← match op with
      | none => pure v
      | some op =>
        match ← Env.get? h x with
        | none => Run.fail (.undefinedVariable x)
        | some current => Run.ofStop (Value.binary op.binary current v)
    Env.assign h x v
    return v
  | .count x step before => do
    match ← Env.get? h x with
    | none => Run.fail (.undefinedVariable x)
    | some current =>
      let next ← Run.ofStop (Value.binary step.binary current (.int 1))
      Env.assign h x next
      return if before then next else current

/-- The meaning of expressions that refer to others at most `fuel` deep. -/
def expr (h : Host σ) : Nat → Meaning σ
  | 0 => fun _ _ => throw (.fault .outOfFuel)
  | fuel + 1 => step h (expr h fuel)

def depthLimit : Nat := 100000

def value (h : Host σ) (source : Nat) (e : Expr) : Run σ Value :=
  Env.toplevel (expr h depthLimit source e)

def callFunction (h : Host σ) (f : Value) (args : List Value) : Run σ Value :=
  Env.toplevel (call h (expr h depthLimit) f args)

end LiveMarkup.Eval
