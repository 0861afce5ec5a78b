import LiveMarkup.Proofs.Eval.Assigned

/-! Writes taken as a whole. A property of the state that every write keeps together with all that it
sets off, and every native function, is kept by evaluation, even if storing the value alone does not
keep it. -/

namespace LiveMarkup

open Run (Keeps)

variable {σ α : Type} {P : σ → Prop} {h : Host σ} {eval : Eval.Meaning σ}

/-- A host whose writes and native functions keep a property of the state. -/
structure Host.Sustains (P : σ → Prop) (h : Host σ) : Prop where
  set : ∀ x v, Run.Keeps P (h.set x v)
  native : ∀ id args, Run.Keeps P (h.native id args)

/-- A native function keeps what its writes and reports keep. -/
theorem Procedure.run_keeps {scope : σ → Scope} {set : String → Value → Run σ Bool}
    {report : List Value → Run σ Unit} (hset : ∀ x v, Keeps P (set x v))
    (hreport : ∀ vs, Keeps P (report vs)) (p : Procedure) : Keeps P (p.run scope set report) := by
  induction p with
  | done v => exact .pure v
  | fail reason => exact .throw _
  | report vs next ih => exact .bind (hreport vs) fun _ => ih
  | read x next ih => exact .get_bind fun _ _ => ih _
  | write x v next ih => exact .bind (hset x v) fun dirty => ih dirty

def Env.Outer (P : σ → Prop) (env : Env σ) : Prop := P env.outer

namespace Env

private theorem lift_keeps {m : Run σ α} (hm : Keeps P m) : Keeps (Outer P) (lift m) := by
  rw [lift_eq_inside]
  exact hm.inside (fun _ h => h) fun _ _ _ h => h

private theorem within_keeps (locals : Bindings) {m : Run (Env σ) α} (hm : Keeps (Outer P) m) :
    Keeps (Outer P) (within locals m) := by
  rw [within_eq_inside]
  exact hm.inside (fun _ h => h) fun _ _ _ h => h

private theorem assign_keeps (u : h.Sustains P) (x : String) (v : Value) :
    Keeps (Outer P) (assign h x v) := by
  refine .get_bind fun env henv => ?_
  cases env.locals.set? x v with
  | none => exact .bind (lift_keeps (u.set x v)) fun _ => .pure _
  | some locals => exact fun _ _ => henv

end Env

/-! Expressions. -/

namespace Eval

open Env

section Meaning

variable (u : h.Sustains P) (he : ∀ source e, Keeps (Outer P) (eval source e))

include u he in
private theorem call_sustained (f : Value) (args : List Value) :
    Keeps (Outer P) (call h eval f args) := by
  unfold call
  split
  · exact within_keeps _ (he _ _)
  · exact lift_keeps (u.native _ args)
  · exact .throw _

include u he in
/-- What the parts of an expression and the bodies of functions keep, the expression keeps. -/
private theorem step_sustained (source : Nat) (e : Expr) : Keeps (Outer P) (step h eval source e) :=
  step_keeps (X := fun _ => True) (call_sustained u he) (fun x v _ => assign_keeps u x v)
    (fun e _ => he source e) fun _ _ => trivial

end Meaning

private theorem expr_sustained (u : h.Sustains P) (fuel source : Nat) (e : Expr) :
    Keeps (Outer P) (expr h fuel source e) := by
  induction fuel generalizing source e with
  | zero => exact .throw _
  | succ fuel ih => exact step_sustained u ih source e

/-! Statements. -/

mutual

theorem statement_sustained {eval : Expr → Run (Env σ) Value} (he : ∀ e, Keeps (Outer P) (eval e))
    (st : Statement) : Keeps (Outer P) (statement eval st) := by
  cases st with
  | text s => exact .pure _
  | value e => exact .bind (he e) fun _ => .pure _
  | each items item index body =>
    exact .bind (he items) fun _ => .bind (.ofExcept _) fun vs =>
      repeatFor_keeps item index (statements_sustained he body) 0 vs
  | cond branches otherwise =>
    cases otherwise with
    | none => exact branch_sustained he (.pure _) branches
    | some body => exact branch_sustained he (statements_sustained he body) branches

private theorem statements_sustained {eval : Expr → Run (Env σ) Value}
    (he : ∀ e, Keeps (Outer P) (eval e)) (ss : List Statement) :
    Keeps (Outer P) (statements eval ss) := by
  cases ss with
  | nil => exact .pure _
  | cons st ss =>
    exact .bind (statement_sustained he st) fun _ => .bind (statements_sustained he ss) fun _ => .pure _

theorem branch_sustained {eval : Expr → Run (Env σ) Value} (he : ∀ e, Keeps (Outer P) (eval e))
    {rest : Run (Env σ) (List Chunk)} (hr : Keeps (Outer P) rest)
    (branches : List (Expr × List Statement)) : Keeps (Outer P) (branch eval rest branches) := by
  cases branches with
  | nil => exact hr
  | cons b branches =>
    refine .bind (he b.1) fun v => ?_
    split
    · exact statements_sustained he b.2
    · exact branch_sustained he hr branches

end

/-- A template keeps what every write and every native function keeps. -/
theorem template_sustained (u : h.Sustains P) (source : Nat) (t : Template) :
    Keeps P (template h source t) :=
  .bind (Env.toplevel_keeps (statements_sustained (expr_sustained u depthLimit source) t.statements))
    fun _ => .pure _

end Eval

end LiveMarkup
