import LiveMarkup.Proofs.Eval.Operands
import LiveMarkup.Proofs.Eval.Relocate
import LiveMarkup.Proofs.Template.Compose
import LiveMarkup.Proofs.Value.Wrapping

/-! Divisions that overflow are the only steps of an evaluation that the machine does not carry out. The
evaluation is run beside one in which such a division is given a reply: the two agree unless a division
overflows, and then a reply that stops the other one stops it at that division. -/

namespace LiveMarkup

/-- What a division is answered by where it overflows. -/
abbrev Reply := BinaryOp → Except Stop Value

def Reply.Safe (r : Reply) : Prop := ∀ op, r op ≠ .error (.fault .overflow)

def Stop.Uncaught (e : Stop) : Prop := ∀ x, e ≠ .error (.undefinedVariable x)

private theorem Stop.fault_uncaught (f : Fault) : (Stop.fault f).Uncaught := by
  intro x h
  cases h

def Value.binaryWith (r : Reply) (op : BinaryOp) (a b : Value) : Except Stop Value :=
  match binary op a b with
  | .error (.fault .overflow) => r op
  | result => result

namespace Eval

variable {σ : Type}

/-- The meaning of an expression with replies, which operators and compound assignments are given. -/
def stepWith (r : Reply) (h : Host σ) (eval : Meaning σ) (source : Nat) : Expr → Run (Env σ) Value
  | .binary .and left right => step h eval source (.binary .and left right)
  | .binary .or left right => step h eval source (.binary .or left right)
  | .binary op left right => do
    let a ← eval source left
    let b ← eval source right
    Run.ofStop (Value.binaryWith r op a b)
  | .assign x (some op) value => do
    let v ← eval source value
    let next ← match ← Env.get? h x with
      | none => Run.fail (.undefinedVariable x)
      | some current => Run.ofStop (Value.binaryWith r op.binary current v)
    Env.assign h x next
    return next
  | e => step h eval source e

def exprWith (r : Reply) (h : Host σ) : Nat → Meaning σ
  | 0 => fun _ _ => throw (.fault .outOfFuel)
  | fuel + 1 => stepWith r h (exprWith r h fuel)

def valueWith (r : Reply) (h : Host σ) (source : Nat) (e : Expr) : Run σ Value :=
  Env.toplevel (exprWith r h depthLimit source e)

def templateWith (r : Reply) (h : Host σ) (source : Nat) (t : Template) : Run σ Rendered := do
  let chunks ← Env.toplevel (statements (exprWith r h depthLimit source) t.statements)
  return Rendered.ofChunks chunks

def lineWith (r : Reply) (h : Host σ) (source : Nat) : ScriptLine → Run σ Unit
  | .declare x none => h.declare x .null
  | .declare x (some e) => do
    let v ← valueWith r h source e
    h.declare x v
  | .run e => do
    let _ ← valueWith r h source e

def scriptWith (r : Reply) (h : Host σ) (source : Nat) (s : Script) : Run σ Unit :=
  s.lines.forM (lineWith r h source)

end Eval

/-! Catching undefined variables. -/

namespace Eval

variable {σ : Type} {m : Run (Env σ) Value} {e : Stop} {s t : Env σ}

private theorem orNull_of_ok {v : Value} (h : m s = .ok v t) :
    orNull m s = .ok v t := Run.tryCatch_of_ok h

private theorem orNull_of_uncaught (he : e.Uncaught) (h : m s = .error e t) :
    orNull m s = .error e t := by
  rw [orNull, Run.tryCatch_of_error h]
  split
  · exact absurd rfl (he _)
  · rfl

private theorem orNull_of_caught (he : ¬e.Uncaught) (h : m s = .error e t) :
    orNull m s = .ok .null t := by
  rw [orNull, Run.tryCatch_of_error h]
  split
  case h_1 => rfl
  case h_2 hne => exact absurd hne he

private theorem eq_of_orNull_eq_error (h : orNull m s = .error e t) : m s = .error e t := by
  cases hm : m s with
  | ok v u => exact nomatch (orNull_of_ok hm).symm.trans h
  | error e' u =>
    by_cases he : e'.Uncaught
    · exact (orNull_of_uncaught he hm).symm.trans h
    · exact nomatch (orNull_of_caught he hm).symm.trans h

end Eval

/-! Two runs of which the second is given replies. -/

namespace Run

variable {σ τ α β : Type} {r : Reply}

/-- How a run ends and how it ends with replies. If no division overflows, it has a value, fails or
exhausts its depth, and does the same with any replies. If one does, a reply that stops the evaluation
stops it there, and replies that never overflow leave nothing that does. -/
inductive Replied (r : Reply) : EStateM.Result Stop σ α → EStateM.Result Stop σ α → Prop where
  | value (a : α) (s : σ) : Replied r (.ok a s) (.ok a s)
  | failure (e : EvalError) (s : σ) : Replied r (.error (.error e) s) (.error (.error e) s)
  | exhausted (s : σ) : Replied r (.error (.fault .outOfFuel) s) (.error (.fault .outOfFuel) s)
  | overflow (s : σ) (p : EStateM.Result Stop σ α)
      (stops : ∀ stop : BinaryOp → Stop, (∀ op, (stop op).Uncaught) →
        r = (fun op => .error (stop op)) → p = .error (stop .div) s ∨ p = .error (stop .mod) s)
      (safe : r.Safe → ∀ t, p ≠ .error (.fault .overflow) t) : Replied r (.error (.fault .overflow) s) p

/-- From every state the second run is the first one with replies. -/
def Spares (r : Reply) (m n : Run σ α) : Prop := ∀ s, Replied r (m s) (n s)

private theorem Replied.safe {q p : EStateM.Result Stop σ α} (h : Replied r q p) (hr : r.Safe)
    (s : σ) :
    p ≠ .error (.fault .overflow) s := by
  cases h with
  | overflow _ _ _ hsafe => exact hsafe hr s
  | _ => exact nofun

namespace Spares

private theorem pure (a : α) : Spares r (Pure.pure a : Run σ α) (Pure.pure a) := .value a

private theorem fail (e : EvalError) : Spares r (Run.fail e : Run σ α) (Run.fail e) := .failure e

private theorem modify (f : σ → σ) : Spares r (modify f) (modify f) := fun s => .value () (f s)

private theorem ofExcept : ∀ q : Except EvalError α, Spares r (Run.ofExcept q : Run σ α)
    (Run.ofExcept q)
  | .ok a => pure a
  | .error e => fail e

private theorem get_bind {f g : σ → Run σ α} (h : ∀ s, Spares r (f s) (g s)) :
    Spares r (get >>= f) (get >>= g) := fun s => h s s

/-- An operator is the one step that is given replies. -/
private theorem binary (op : BinaryOp) (a b : Value) :
    Spares r (Run.ofStop (Value.binary op a b) : Run σ Value) (Run.ofStop (Value.binaryWith r op a b)) := by
  have hends := Value.binary_ends op a b
  unfold Value.binaryWith
  generalize Value.binary op a b = result at hends ⊢
  cases hends with
  | value v => exact pure v
  | divisionByZero => exact fail _
  | overflow h =>
    refine fun s => .overflow s _ (fun stop _ hr => ?_) fun hr t ht => ?_
    · subst hr
      exact h.op.imp (fun (hop : op = .div) => hop ▸ rfl) fun (hop : op = .mod) => hop ▸ rfl
    · cases hop : r op with
      | ok v =>
        simp only [hop] at ht
        cases ht
      | error e =>
        simp only [hop] at ht
        cases ht
        exact hr op hop

private theorem bind {m n : Run σ α} {f g : α → Run σ β} (hm : Spares r m n)
    (hf : ∀ a, Spares r (f a) (g a)) : Spares r (m >>= f) (n >>= g) := by
  intro s
  have ha := hm s
  generalize h : m s = q at ha
  generalize k : n s = p at ha
  cases ha with
  | value a t =>
    rw [bind_of_ok h, bind_of_ok k]
    exact hf a t
  | failure e t =>
    rw [bind_of_error h, bind_of_error k]
    exact .failure e t
  | exhausted t =>
    rw [bind_of_error h, bind_of_error k]
    exact .exhausted t
  | overflow t _ stops safe =>
    rw [bind_of_error h]
    refine .overflow t _ (fun stop hu hr => ?_) fun hr t' ht => ?_
    · exact (stops stop hu hr).imp (fun hp => bind_of_error (k.trans hp))
        fun hp => bind_of_error (k.trans hp)
    · obtain hn | ⟨a, s', -, hg⟩ := bind_eq_error.1 ht
      · exact safe hr t' (k.symm.trans hn)
      · exact (hf a s').safe hr t' hg

private theorem inside (enter : σ → τ) (leave : σ → τ → σ) {m n : Run τ α} (hm : Spares r m n) :
    Spares r (inside enter leave m) (inside enter leave n) := by
  intro s
  have ha := hm (enter s)
  generalize h : m (enter s) = q at ha
  generalize k : n (enter s) = p at ha
  cases ha with
  | value a t =>
    rw [inside_of_ok h, inside_of_ok k]
    exact .value a _
  | failure e t =>
    rw [inside_of_error h, inside_of_error k]
    exact .failure e _
  | exhausted t =>
    rw [inside_of_error h, inside_of_error k]
    exact .exhausted _
  | overflow t _ stops safe =>
    rw [inside_of_error h]
    refine .overflow _ _ (fun stop hu hr => ?_) fun hr t' ht => ?_
    · exact (stops stop hu hr).imp (fun hp => inside_of_error (k.trans hp))
        fun hp => inside_of_error (k.trans hp)
    · cases p with
      | ok a u =>
        rw [inside_of_ok k] at ht
        cases ht
      | error e u =>
        rw [inside_of_error k] at ht
        cases ht
        exact safe hr u rfl

/-- What catches undefined variables goes on after none of the replies. -/
private theorem orNull {m n : Run (Env σ) Value} (hm : Spares r m n) :
    Spares r (Eval.orNull m) (Eval.orNull n) := by
  intro s
  have ha := hm s
  generalize h : m s = q at ha
  generalize k : n s = p at ha
  cases ha with
  | value a t =>
    rw [Eval.orNull_of_ok h, Eval.orNull_of_ok k]
    exact .value a t
  | failure e t =>
    by_cases he : (Stop.error e).Uncaught
    · rw [Eval.orNull_of_uncaught he h, Eval.orNull_of_uncaught he k]
      exact .failure e t
    · rw [Eval.orNull_of_caught he h, Eval.orNull_of_caught he k]
      exact .value _ t
  | exhausted t =>
    rw [Eval.orNull_of_uncaught (Stop.fault_uncaught _) h, Eval.orNull_of_uncaught (Stop.fault_uncaught _) k]
    exact .exhausted t
  | overflow t _ stops safe =>
    rw [Eval.orNull_of_uncaught (Stop.fault_uncaught _) h]
    refine .overflow t _ (fun stop hu hr => ?_) fun hr t' ht => ?_
    · exact (stops stop hu hr).imp (fun hp => Eval.orNull_of_uncaught (hu _) (k.trans hp))
        fun hp => Eval.orNull_of_uncaught (hu _) (k.trans hp)
    · exact safe hr t' (k.symm.trans (Eval.eq_of_orNull_eq_error ht))

theorem choice {c : Prop} [Decidable c] {m n m' n' : Run σ α} (hm : Spares r m n) (hm' : Spares r m' n') :
    Spares r (if c then m else m') (if c then n else n') := by
  split
  · exact hm
  · exact hm'

private theorem forM {f g : α → Run σ Unit} (h : ∀ a, Spares r (f a) (g a)) (as : List α) :
    Spares r (as.forM f) (as.forM g) := by
  induction as with
  | nil => exact pure ()
  | cons a as ih => exact bind (h a) fun _ => ih

end Spares

end Run

open Run (Spares)

variable {σ α : Type} {r : Reply} {h : Host σ}

structure Host.Spared (r : Reply) (h : Host σ) : Prop where
  set : ∀ x v, Spares r (h.set x v) (h.set x v)
  native : ∀ id args, Spares r (h.native id args) (h.native id args)

namespace Env

variable {m n : Run (Env σ) α}

private theorem lift_spares {m n : Run σ α} (hm : Spares r m n) : Spares r (lift m) (lift n) := by
  rw [lift_eq_inside, lift_eq_inside]
  exact hm.inside _ _

private theorem within_spares (locals : Bindings) (hm : Spares r m n) :
    Spares r (within locals m) (within locals n) := by
  rw [within_eq_inside, within_eq_inside]
  exact hm.inside _ _

private theorem binding_spares (bs : Bindings) (hm : Spares r m n) :
    Spares r (binding bs m) (binding bs n) := by
  rw [binding_eq_inside, binding_eq_inside]
  exact hm.inside _ _

private theorem toplevel_spares (hm : Spares r m n) : Spares r (toplevel m) (toplevel n) := by
  rw [toplevel_eq_inside, toplevel_eq_inside]
  exact hm.inside _ _

private theorem get?_spares (x : String) :
    Spares r (get? h x) (get? h x) := .get_bind fun _ => .pure _

private theorem assign_spares (u : h.Spared r) (x : String) (v : Value) :
    Spares r (assign h x v) (assign h x v) := by
  refine .get_bind fun env => ?_
  cases env.locals.set? x v with
  | none => exact .bind (lift_spares (u.set x v)) fun _ => .pure _
  | some locals => exact .modify fun _ => { env with locals }

end Env

/-! Expressions. -/

namespace Eval

open Env

section Meaning

variable {eval evalr : Meaning σ} (u : h.Spared r)
  (he : ∀ source e, Spares r (eval source e) (evalr source e))

include u he in
private theorem call_spares (f : Value) (args : List Value) :
    Spares r (call h eval f args) (call h evalr f args) := by
  unfold call
  split
  · exact within_spares _ (he _ _)
  · exact lift_spares (u.native _ args)
  · exact .fail _

private theorem evalItems_spares {f g : Expr → Run (Env σ) Value} (hf : ∀ e, Spares r (f e) (g e))
    (es : List Expr) : Spares r (evalItems f es) (evalItems g es) := by
  induction es with
  | nil => exact .pure _
  | cons e es ih => exact .bind (hf e) fun _ => .bind ih fun _ => .pure _

private theorem evalEntries_spares {f g : Expr → Run (Env σ) Value} (hf : ∀ e, Spares r (f e) (g e))
    (es : List (String × Expr)) : Spares r (evalEntries f es) (evalEntries g es) := by
  induction es with
  | nil => exact .pure _
  | cons e es ih => exact .bind (hf e.2) fun _ => .bind ih fun _ => .pure _

section Items

variable {f g : List Value → Run (Env σ) Value} (hf : ∀ args, Spares r (f args) (g args))

include hf in
private theorem mapItems_spares (i : Nat) (vs : List Value) :
    Spares r (mapItems f i vs) (mapItems g i vs) := by
  induction vs generalizing i with
  | nil => exact .pure _
  | cons v vs ih => exact .bind (hf _) fun _ => .bind (ih _) fun _ => .pure _

include hf in
private theorem filterItems_spares (i : Nat) (vs : List Value) :
    Spares r (filterItems f i vs) (filterItems g i vs) := by
  induction vs generalizing i with
  | nil => exact .pure _
  | cons v vs ih => exact .bind (hf _) fun _ => .bind (ih _) fun _ => .pure _

end Items

include u he in
private theorem invoke_spares (v : Value) (name : String) (args : List Value) :
    Spares r (invoke h eval v name args) (invoke h evalr v name args) := by
  refine .bind (.ofExcept _) fun result => ?_
  cases result with
  | value v => exact .pure _
  | mapping f items => exact .bind (mapItems_spares (call_spares u he f) 0 items) fun _ => .pure _
  | filtering f items => exact .bind (filterItems_spares (call_spares u he f) 0 items) fun _ => .pure _

include u he in
private theorem memberOf_spares (v : Value) (name : String) :
    Spares r (memberOf h eval v name) (memberOf h evalr v name) := by
  unfold memberOf
  split
  · exact .pure _
  · exact invoke_spares u he v name []

private theorem accessName_spares (v : Value) :
    Spares r (accessName v : Run (Env σ) String) (accessName v) := by
  unfold accessName
  split
  · exact .pure _
  · exact .pure _
  · exact .fail _

include u he in
private theorem apply_spares (source : Nat) (f : Value) (args : List Expr) (e : EvalError) :
    Spares r (if f.isFunction then evalItems (eval source) args >>= call h eval f else Run.fail e)
      (if f.isFunction then evalItems (evalr source) args >>= call h evalr f else Run.fail e) :=
  .choice (.bind (evalItems_spares (he source) args) fun args => call_spares u he f args) (.fail e)

theorem global_spares (x : String) (args : List Value) :
    Spares r (match Value.global? x args with
        | some v => return v
        | none => Run.fail (.undefinedVariable x) : Run (Env σ) Value)
      (match Value.global? x args with
        | some v => return v
        | none => Run.fail (.undefinedVariable x)) := by
  split
  · exact .pure _
  · exact .fail _

include he in
/-- The arguments of a function that every scope has. -/
private theorem arguments_spares (source : Nat) (x : String) (args : List Expr) :
    Spares r
      (evalItems (if x = "default" then fun e => orNull (eval source e) else eval source) args)
      (evalItems (if x = "default" then fun e => orNull (evalr source e) else evalr source) args) := by
  split
  · exact evalItems_spares (fun e => (he source e).orNull) args
  · exact evalItems_spares (he source) args

include u in
private theorem assigned_spares (x : String) (v : Value) :
    Spares r (do assign h x v; return v : Run (Env σ) Value) (do assign h x v; return v) :=
  .bind (assign_spares u x v) fun _ => .pure _

include u he in
/-- If the parts of an expression and the bodies of functions take replies at divisions only, so does the
expression. -/
private theorem step_spares (source : Nat) (e : Expr) :
    Spares r (step h eval source e) (stepWith r h evalr source e) := by
  cases e with
  | literal v => exact .pure _
  | name x =>
    refine .bind (get?_spares x) fun v => ?_
    cases v with
    | some v => exact .pure _
    | none => exact global_spares x []
  | binary op left right =>
    cases op with
    | and => exact .bind (he _ _) fun v => .choice (he _ _) (.pure v)
    | or => exact .bind (he _ _) fun v => .choice (.pure v) (he _ _)
    | _ => exact .bind (he _ _) fun a => .bind (he _ _) fun b => .binary _ a b
  | unary op operand => exact .bind (he _ _) fun _ => .pure _
  | list items => exact .bind (evalItems_spares (he source) items) fun _ => .pure _
  | hash entries => exact .bind (evalEntries_spares (he source) entries) fun _ => .pure _
  | member target name => exact .bind (he _ _) fun v => memberOf_spares u he v name
  | index target key =>
    exact .bind (he _ _) fun v => .bind (he _ _) fun k => .bind (accessName_spares k) fun name =>
      memberOf_spares u he v name
  | method target name args =>
    refine .bind (he _ _) fun v => .bind (evalItems_spares (he source) args) fun args => ?_
    split
    · exact .choice (call_spares u he _ args) (.fail _)
    · exact invoke_spares u he v name args
  | call callee args =>
    cases callee with
    | name x =>
      refine .bind (get?_spares x) fun f => ?_
      cases f with
      | some f => exact apply_spares u he source f args _
      | none => exact .bind (arguments_spares he source x args) fun args => global_spares x args
    | _ => exact .bind (he _ _) fun f => apply_spares u he source f args _
  | cond test yes no => exact .bind (he _ _) fun v => .choice (he _ _) (he _ _)
  | lambda arrow params body => exact .get_bind fun _ => .pure _
  | assign x op value =>
    cases op with
    | none => exact .bind (he _ _) fun v => assigned_spares u x v
    | some op =>
      refine .bind (he _ _) fun v => .bind (get?_spares x) fun current => ?_
      cases current with
      | none => exact .bind (.fail _) fun v => assigned_spares u x v
      | some current => exact .bind (.binary _ current v) fun v => assigned_spares u x v
  | count x step before =>
    refine .bind (get?_spares x) fun current => ?_
    cases current with
    | none => exact .fail _
    | some current =>
      have hnext : Spares r (Run.ofStop (Value.binary step.binary current (.int 1)) : Run (Env σ) Value)
          (Run.ofStop (Value.binary step.binary current (.int 1))) := by
        cases step
        · exact .pure _
        · exact .pure _
      exact .bind hnext fun next => .bind (assign_spares u x next) fun _ => .pure _

end Meaning

private theorem expr_spares (u : h.Spared r) (fuel source : Nat) (e : Expr) :
    Spares r (expr h fuel source e) (exprWith r h fuel source e) := by
  induction fuel generalizing source e with
  | zero => exact fun env => .exhausted env
  | succ fuel ih => exact step_spares u ih source e

private theorem value_spares (u : h.Spared r) (source : Nat) (e : Expr) :
    Spares r (value h source e) (valueWith r h source e) :=
  toplevel_spares (expr_spares u depthLimit source e)

/-! Statements. -/

section Statements

variable {eval evalr : Expr → Run (Env σ) Value}

private theorem repeatFor_spares (item : String) (index : Option String)
    {body bodyr : Run (Env σ) (List Chunk)} (hb : Spares r body bodyr) (i : Nat) (vs : List Value) :
    Spares r (repeatFor item index body i vs) (repeatFor item index bodyr i vs) := by
  induction vs generalizing i with
  | nil => exact .pure _
  | cons v vs ih => exact .bind (binding_spares _ hb) fun _ => .bind (ih _) fun _ => .pure _

mutual

theorem statement_spares (he : ∀ e, Spares r (eval e) (evalr e)) (st : Statement) :
    Spares r (statement eval st) (statement evalr st) := by
  cases st with
  | text s => exact .pure _
  | value e => exact .bind (he e) fun _ => .pure _
  | each items item index body =>
    exact .bind (he items) fun _ => .bind (.ofExcept _) fun vs =>
      repeatFor_spares item index (statements_spares he body) 0 vs
  | cond branches otherwise =>
    cases otherwise with
    | none => exact branch_spares he (.pure _) branches
    | some body => exact branch_spares he (statements_spares he body) branches

private theorem statements_spares (he : ∀ e, Spares r (eval e) (evalr e)) (ss : List Statement) :
    Spares r (statements eval ss) (statements evalr ss) := by
  cases ss with
  | nil => exact .pure _
  | cons st ss =>
    exact .bind (statement_spares he st) fun _ => .bind (statements_spares he ss) fun _ => .pure _

theorem branch_spares (he : ∀ e, Spares r (eval e) (evalr e)) {rest restr : Run (Env σ) (List Chunk)}
    (hr : Spares r rest restr) (branches : List (Expr × List Statement)) :
    Spares r (branch eval rest branches) (branch evalr restr branches) := by
  cases branches with
  | nil => exact hr
  | cons b branches =>
    exact .bind (he b.1) fun v => .choice (statements_spares he b.2) (branch_spares he hr branches)

end

end Statements

private theorem template_spares (u : h.Spared r) (source : Nat) (t : Template) :
    Spares r (template h source t) (templateWith r h source t) :=
  .bind (toplevel_spares (statements_spares (expr_spares u depthLimit source) t.statements)) fun _ => .pure _

private theorem declare_spares (x : String) (v : Value) :
    Spares r (h.declare x v) (h.declare x v) := .modify _

private theorem line_spares (u : h.Spared r) (source : Nat) (l : ScriptLine) :
    Spares r (line h source l) (lineWith r h source l) := by
  cases l with
  | declare x init =>
    cases init with
    | none => exact declare_spares x .null
    | some e => exact .bind (value_spares u source e) fun v => declare_spares x v
  | run e => exact .bind (value_spares u source e) fun _ => .pure _

private theorem script_spares (u : h.Spared r) (source : Nat) (s : Script) :
    Spares r (script h source s) (scriptWith r h source s) :=
  .forM (line_spares u source) s.lines

end Eval

/-! Scopes of plain values, with listeners or without. -/

private theorem Host.set_spares (hn : ∀ x, Spares r (h.notify x) (h.notify x)) (x : String)
    (v : Value) :
    Spares r (h.set x v) (h.set x v) := by
  refine .get_bind fun s => .bind (.modify _) fun _ => ?_
  dsimp only
  split
  · exact .bind (hn x) fun _ => .pure _
  · exact .pure _

namespace Observed

section Listeners

variable {set : String → Value → Run Observed Bool} (hset : ∀ x v, Spares r (set x v) (set x v))

include hset

private theorem copy_spares (x : String) (copies : Option (String × String)) :
    Spares r (copy set x copies) (copy set x copies) := by
  cases copies with
  | none => exact .pure ()
  | some c =>
    refine Spares.choice ?_ (.pure ())
    refine .get_bind fun s => ?_
    split
    · exact .bind (hset _ _) fun _ => .pure ()
    · exact .pure ()

private theorem respond_spares (x : String) (l : Listener) :
    Spares r (respond set x l) (respond set x l) := by
  have hcopy := copy_spares hset x l.copies
  unfold respond
  split
  · exact .bind (.fail _) fun _ => hcopy
  · exact hcopy

/-- Telling a listener overflows only if what it writes does. -/
private theorem react_spares (x : String) (l : Listener) :
    Spares r (react set x l) (react set x l) := by
  rw [react_eq]
  cases l.label with
  | none => exact respond_spares hset x l
  | some label => exact .bind (.modify _) fun _ => respond_spares hset x l

end Listeners

private theorem host_spared (listeners : List Listener) (depth : Nat) :
    (host listeners depth).Spared r := by
  induction depth with
  | zero => exact ⟨Host.set_spares fun _ s => .exhausted s, fun _ _ => .pure _⟩
  | succ depth ih =>
    exact ⟨Host.set_spares fun x => .forM (react_spares ih.set x) listeners, fun _ _ => .pure _⟩

end Observed

namespace Eval

/-- Integers wrap around, operators between properties come to what they make of the values, and every
value, template and script ends in a result or a failure, or exhausts its depth, unless it divides the
least integer by minus one. -/
theorem overflows_only_dividing (listeners : List Listener) (depth : Nat) (r : Reply) :
    (∀ a b : Int64, Value.Wraps a b) ∧
    (∀ op a b, Value.Ends op a b (Value.binary op a b)) ∧
    (∀ (s : Observed) source x y a b, s.scope.get? x = some a → s.scope.get? y = some b →
      Computes s source x y a b) ∧
    (∀ fuel source e, Spares r (expr (Observed.host listeners depth) fuel source e)
      (exprWith r (Observed.host listeners depth) fuel source e)) ∧
    (∀ source e, Spares r (value (Observed.host listeners depth) source e)
      (valueWith r (Observed.host listeners depth) source e)) ∧
    (∀ source t, Spares r (template (Observed.host listeners depth) source t)
      (templateWith r (Observed.host listeners depth) source t)) ∧
    (∀ source s, Spares r (script (Observed.host listeners depth) source s)
      (scriptWith r (Observed.host listeners depth) source s)) := by
  have hspared : (Observed.host listeners depth).Spared r := Observed.host_spared listeners depth
  refine ⟨Value.integers_wrap, Value.binary_ends, ?_, ?_, ?_, ?_, ?_⟩
  · exact fun s source x y a b hx hy => computes source hx hy
  · exact expr_spares hspared
  · exact value_spares hspared
  · exact template_spares hspared
  · exact script_spares hspared

/-- A scope with the operands of the quotient that no integer of 64 bits comes to. -/
def least : Observed := .ofProps [("m", .int Int64.minValue), ("n", .int (-1))]

/-- Their sum and their product wrap around. -/
theorem overflows_only_dividing_least :
    least.scope.get? "m" = some (.int Int64.minValue) ∧ least.scope.get? "n" = some (.int (-1)) ∧
      least.result 0 (.binary .add (.name "m") (.name "n")) = .ok (.int Int64.maxValue) ∧
      least.result 0 (.assign "m" (some .mul) (.name "n")) = .ok (.int Int64.minValue) := by
  have hm : least.scope.get? "m" = some (.int Int64.minValue) := rfl
  have hn : least.scope.get? "n" = some (.int (-1)) := rfl
  obtain ⟨hwraps, -, hcomputes, -⟩ := overflows_only_dividing [] 1 fun op => Value.binary op .null .null
  have hleast := hwraps Int64.minValue (-1)
  have hresult := hcomputes least 0 "m" "n" _ _ hm hn
  have hsum : Value.wrapped (Int64.minValue.toInt + (-1 : Int64).toInt) = .int Int64.maxValue := rfl
  have hproduct : Value.wrapped (Int64.minValue.toInt * (-1 : Int64).toInt) = .int Int64.minValue := rfl
  refine ⟨hm, hn, ?_, ?_⟩
  · rw [hresult.binary .add, hleast.sum, hsum]
  · exact (hresult.compound .mul).trans (hleast.product.trans (congrArg _ hproduct))

/-- Their quotient does not, and the template has no output. -/
theorem quotient_of_least_overflows :
    ∃ t, Template.compile "\x7b\x7bm/n\x7d\x7d" = .ok t ∧
      template (Observed.host [] 1) 0 t least = .error (.fault .overflow) least := by
  have htag : Lexer.tag ⟨1, 1⟩ ⟨1, 3⟩ "m/n\x7d\x7d".toList = .ok ([⟨.name "m", ⟨1, 3⟩⟩,
      ⟨.symbol .divide, ⟨1, 4⟩⟩, ⟨.name "n", ⟨1, 5⟩⟩, ⟨.symbol .closeTag, ⟨1, 6⟩⟩],
      ⟨1, 8⟩, []) := by cbv
  have hcut : Text.cut? ['\x7b', '\x7b'] "\x7b\x7bm/n\x7d\x7d".toList =
      some ([], "m/n\x7d\x7d".toList) := rfl
  have hcompile : Template.compile "\x7b\x7bm/n\x7d\x7d" =
      .ok ⟨[.value (.binary .div (.name "m") (.name "n"))]⟩ := by
    refine Template.compile_eq_ok_iff.2 ⟨_, Lexer.template_tag .start hcut htag (Lexer.template_nil _),
      ?_⟩
    cbv
  exact ⟨_, hcompile, rfl⟩

end Eval

end LiveMarkup
