import LiveMarkup.Proofs.Eval.Reading

/-! The names that programs assign to, and what an evaluation keeps: that which calls keep and
assignments to these names. -/

namespace LiveMarkup

open Run (Keeps)

namespace Expr

mutual

/-- The names that an expression assigns to when it is evaluated. What stands in the body of a lambda is
not evaluated with the lambda, and its assignments reach what the lambda has captured. -/
def assigned : Expr → List String
  | literal _ => []
  | name _ => []
  | binary _ left right => assigned left ++ assigned right
  | unary _ operand => assigned operand
  | list items => assignedByItems items
  | hash entries => assignedByEntries entries
  | member target _ => assigned target
  | method target _ args => assigned target ++ assignedByItems args
  | index target key => assigned target ++ assigned key
  | call callee args => assigned callee ++ assignedByItems args
  | cond test yes no => assigned test ++ (assigned yes ++ assigned no)
  | lambda _ _ _ => []
  | assign x _ value => x :: assigned value
  | count x _ _ => [x]

def assignedByItems : List Expr → List String
  | [] => []
  | e :: es => assigned e ++ assignedByItems es

def assignedByEntries : List (String × Expr) → List String
  | [] => []
  | (_, e) :: es => assigned e ++ assignedByEntries es

end

variable {X : String → Prop}

/-- The expression assigns to names of a kind only. -/
def AssignsTo (X : String → Prop) (e : Expr) : Prop := ∀ x ∈ e.assigned, X x

private theorem assignsTo_items {es : List Expr} (h : ∀ x ∈ assignedByItems es, X x) :
    ∀ e ∈ es, e.AssignsTo X := by
  induction es with
  | nil => exact List.forall_mem_nil _
  | cons e es ih =>
    obtain ⟨he, hes⟩ := List.forall_mem_append.1 h
    exact List.forall_mem_cons.2 ⟨he, ih hes⟩

private theorem assignsTo_entries {es : List (String × Expr)} (h : ∀ x ∈ assignedByEntries es, X x) :
    ∀ p ∈ es, p.2.AssignsTo X := by
  induction es with
  | nil => exact List.forall_mem_nil _
  | cons e es ih =>
    obtain ⟨he, hes⟩ := List.forall_mem_append.1 h
    exact List.forall_mem_cons.2 ⟨he, ih hes⟩

end Expr

namespace Statement

mutual

/-- The names that a statement assigns to from where it stands: an assignment in the body of a loop to a
name that the loop binds reaches no further than the loop. -/
def assigned : Statement → List String
  | text _ => []
  | value e => e.assigned
  | each items item index body =>
    items.assigned ++ (assignedByBody body).filter fun x => x != item && !index.toList.contains x
  | cond branches otherwise => assignedByBranches branches ++ assignedByOtherwise otherwise

def assignedByBody : List Statement → List String
  | [] => []
  | s :: ss => assigned s ++ assignedByBody ss

def assignedByBranches : List (Expr × List Statement) → List String
  | [] => []
  | (test, body) :: more => (test.assigned ++ assignedByBody body) ++ assignedByBranches more

def assignedByOtherwise : Option (List Statement) → List String
  | none => []
  | some body => assignedByBody body

end

end Statement

variable {σ : Type} {h : Host σ} {eval : Eval.Meaning σ} {Q : Env σ → Prop} {X : String → Prop}

private theorem Env.get?_keeps (x : String) : Keeps Q (get? h x) := .get_bind fun _ _ => .pure _

namespace Eval

private theorem orNull_keeps {m : Run (Env σ) Value} (hm : Keeps Q m) : Keeps Q (orNull m) := by
  refine .tryCatch hm fun e => ?_
  split
  · exact .pure _
  · exact .throw _

private theorem mapItems_keeps {f : List Value → Run (Env σ) Value} (hf : ∀ args, Keeps Q (f args))
    (i : Nat) (vs : List Value) : Keeps Q (mapItems f i vs) := by
  induction vs generalizing i with
  | nil => exact .pure _
  | cons v vs ih => exact .bind (hf _) fun _ => .bind (ih _) fun _ => .pure _

private theorem filterItems_keeps {f : List Value → Run (Env σ) Value}
    (hf : ∀ args, Keeps Q (f args)) (i : Nat) (vs : List Value) : Keeps Q (filterItems f i vs) := by
  induction vs generalizing i with
  | nil => exact .pure _
  | cons v vs ih => exact .bind (hf _) fun _ => .bind (ih _) fun _ => .pure _

private theorem accessName_keeps (v : Value) : Keeps Q (accessName v) := by
  unfold accessName
  split
  · exact .pure _
  · exact .pure _
  · exact .throw _

private theorem choice_keeps (v : Value) {yes no : Run (Env σ) Value} (hy : Keeps Q yes)
    (hn : Keeps Q no) :
    Keeps Q (if v.truthy then yes else no) := by
  split
  · exact hy
  · exact hn

section Calls

variable (hcall : ∀ f args, Keeps Q (call h eval f args))

include hcall

private theorem invoke_keeps (v : Value) (name : String) (args : List Value) :
    Keeps Q (invoke h eval v name args) := by
  refine .bind (.ofExcept _) fun r => ?_
  cases r with
  | value v => exact .pure _
  | mapping f items => exact .bind (mapItems_keeps (hcall f) 0 items) fun _ => .pure _
  | filtering f items => exact .bind (filterItems_keeps (hcall f) 0 items) fun _ => .pure _

/-- Calls what a name or an expression stands for, if it is a function. -/
private theorem apply_keeps (f : Value) {source : Nat} {args : List Expr}
    (ha : Keeps Q (evalItems (eval source) args)) (e : EvalError) :
    Keeps Q (if f.isFunction then evalItems (eval source) args >>= call h eval f else Run.fail e) := by
  split
  · exact .bind ha fun args => hcall f args
  · exact .throw _

end Calls

theorem global_keeps {source : Nat} {args : List Expr} (ha : ∀ e ∈ args, Keeps Q (eval source e))
    (x : String) : Keeps Q (do
      let args ← evalItems (if x = "default" then fun e => orNull (eval source e) else eval source) args
      match Value.global? x args with
      | some v => return v
      | none => Run.fail (.undefinedVariable x)) := by
  refine .bind (evalItems_keeps fun e he => ?_) fun args => ?_
  · split
    · exact orNull_keeps (ha e he)
    · exact ha e he
  · split
    · exact .pure _
    · exact .throw _

/-- What calls keep, and assignments to names of a kind, every expression keeps that assigns to names of
the kind only, if its parts do. -/
theorem step_keeps (hcall : ∀ f args, Keeps Q (call h eval f args))
    (hassign : ∀ x v, X x → Keeps Q (Env.assign h x v)) {source : Nat}
    (heval : ∀ e : Expr, e.AssignsTo X → Keeps Q (eval source e)) {e : Expr} (he : e.AssignsTo X) :
    Keeps Q (step h eval source e) := by
  have hitems {es : List Expr} (h : ∀ x ∈ Expr.assignedByItems es, X x) :
      Keeps Q (evalItems (eval source) es) :=
    evalItems_keeps fun e hmem => heval e (Expr.assignsTo_items h e hmem)
  cases e with
  | literal v => exact .pure _
  | name x =>
    refine .bind (Env.get?_keeps x) fun v => ?_
    split
    · exact .pure _
    · split
      · exact .pure _
      · exact .throw _
  | binary op left right =>
    obtain ⟨hl, hr⟩ := List.forall_mem_append.1 he
    cases op with
    | and => exact .bind (heval left hl) fun v => choice_keeps v (heval right hr) (.pure _)
    | or => exact .bind (heval left hl) fun v => choice_keeps v (.pure _) (heval right hr)
    | _ => exact .bind (heval left hl) fun _ => .bind (heval right hr) fun _ => .ofStop _
  | unary op operand => exact .bind (heval operand he) fun _ => .pure _
  | list items => exact .bind (hitems he) fun _ => .pure _
  | hash entries =>
    have hentries := evalEntries_keeps fun p hmem => heval p.2 (Expr.assignsTo_entries he p hmem)
    exact .bind hentries fun _ => .pure _
  | member target name => exact .bind (heval target he) fun v => memberOf_keeps _ v name
  | index target key =>
    obtain ⟨ht, hk⟩ := List.forall_mem_append.1 he
    exact .bind (heval target ht) fun v => .bind (heval key hk) fun k =>
      .bind (accessName_keeps k) fun name => memberOf_keeps _ v name
  | method target name args =>
    obtain ⟨ht, ha⟩ := List.forall_mem_append.1 he
    refine .bind (heval target ht) fun v => .bind (hitems ha) fun args => ?_
    split
    · split
      · exact hcall _ args
      · exact .throw _
    · exact invoke_keeps hcall v name args
  | call callee args =>
    obtain ⟨hc, ha⟩ := List.forall_mem_append.1 he
    cases callee with
    | name x =>
      refine .bind (Env.get?_keeps x) fun f => ?_
      cases f with
      | some f => exact apply_keeps hcall f (hitems ha) _
      | none => exact global_keeps (fun e hmem => heval e (Expr.assignsTo_items ha e hmem)) x
    | _ => exact .bind (heval _ hc) fun f => apply_keeps hcall f (hitems ha) _
  | cond test yes no =>
    obtain ⟨ht, hbranches⟩ := List.forall_mem_append.1 he
    obtain ⟨hy, hn⟩ := List.forall_mem_append.1 hbranches
    exact .bind (heval test ht) fun v => choice_keeps v (heval yes hy) (heval no hn)
  | lambda arrow params body => exact .get_bind fun _ _ => .pure _
  | assign x op value =>
    obtain ⟨hx, hvalue⟩ := List.forall_mem_cons.1 he
    have hlast (v : Value) : Keeps Q (do Env.assign h x v; return v) :=
      .bind (hassign x v hx) fun _ => .pure _
    refine .bind (heval value hvalue) fun v => ?_
    cases op with
    | none => exact hlast v
    | some op =>
      refine .bind (Env.get?_keeps x) fun current => ?_
      cases current with
      | none => exact .bind (.throw _) hlast
      | some current => exact .bind (.ofStop _) hlast
  | count x step before =>
    refine .bind (Env.get?_keeps x) fun current => ?_
    cases current with
    | none => exact .throw _
    | some current =>
      exact .bind (.ofStop _) fun next =>
        .bind (hassign x next (he x List.mem_cons_self)) fun _ => .pure _

end Eval

end LiveMarkup
