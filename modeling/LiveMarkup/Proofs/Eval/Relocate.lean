import LiveMarkup.Eval.Observed
import LiveMarkup.Proofs.Run
import LiveMarkup.Proofs.Value.Relocate

/-! Evaluation in hosts one of which relocates the functions of the other. Nothing in an expression, a
template or a script can tell the two apart: runs end alike, their results being relocated as well. -/

namespace LiveMarkup

open Run (Related RelatedBy RelatedUpTo)

variable {σ τ α β : Type} {ρ : Relocation}

/-- A relation of scopes in which look-up finds a value and its relocation, and which writing these
preserves. -/
structure Scope.Follows (ρ : Relocation) (E : Scope → Scope → Prop) : Prop where
  get? : ∀ {a b}, E a b → ∀ x, a.get? x = (b.get? x).map (Value.relocate ρ)
  put : ∀ {a b}, E a b → ∀ x v, E (a.put x (v.relocate ρ)) (b.put x v)

private theorem Scope.follows_relocate (ρ : Relocation) :
    Scope.Follows ρ fun a b => a = b.relocate ρ where
  get? h x := h ▸ Scope.get?_relocate x _
  put h x v := h ▸ Scope.put_relocate x v _

/-- Two hosts whose scopes are in `E` whenever the states are in `R`, and that keep it so. What they
notify of is the same, and native functions take relocated arguments to relocated results. -/
structure Host.Follows (ρ : Relocation) (E : Scope → Scope → Prop) (R : σ → τ → Prop) (h : Host σ)
    (k : Host τ) : Prop where
  scopes : Scope.Follows ρ E
  scope : ∀ {s t}, R s t → E (h.scope s) (k.scope t)
  withScope : ∀ {s t a b}, R s t → E a b → R (h.withScope a s) (k.withScope b t)
  notify : ∀ x, Related R (h.notify x) (k.notify x)
  native : ∀ id args, RelatedBy (Value.relocate ρ) R (h.native id (args.map (Value.relocate ρ)))
    (k.native id args)

namespace Host.Follows

variable {E : Scope → Scope → Prop} {R : σ → τ → Prop} {h : Host σ} {k : Host τ}

private theorem set (a : Host.Follows ρ E R h k) (x : String) (v : Value) :
    RelatedBy id R (h.set x (v.relocate ρ)) (k.set x v) := by
  refine .get_bind fun s t hst => ?_
  have he := a.scope hst
  refine .bind (Related.modify fun s' t' hr => a.withScope hr (a.scopes.put he x v)).by_id fun _ => ?_
  rw [a.scopes.get? he x, Scope.isDirty_relocate]
  dsimp only
  split
  · exact .bind (a.notify x).by_id fun _ => (Related.pure _).by_id
  · exact (Related.pure _).by_id

private theorem declare (a : Host.Follows ρ E R h k) (x : String) (v : Value) :
    RelatedBy id R (h.declare x (v.relocate ρ)) (k.declare x v) :=
  (Related.modify fun _ _ hst => a.withScope hst (a.scopes.put (a.scope hst) x v)).by_id

end Host.Follows

namespace Env

/-- Environments in related states of which the first has the local bindings of the second relocated,
`d` of them. -/
structure Over (ρ : Relocation) (d : Nat) (R : σ → τ → Prop) (a : Env σ) (b : Env τ) : Prop where
  locals : a.locals = Value.relocated ρ b.locals
  length : b.locals.length = d
  outer : R a.outer b.outer

variable {R : σ → τ → Prop} {d : Nat} {f : β → α}

private theorem lift_follows {m : Run σ α} {n : Run τ β} (hm : RelatedBy f R m n) :
    RelatedBy f (Over ρ d R) (lift m) (lift n) := by
  rw [lift_eq_inside, lift_eq_inside]
  exact hm.inside (fun _ _ h => h.outer) fun _ _ _ _ h hr => ⟨h.locals, h.length, hr⟩

private theorem within_follows {m : Run (Env σ) α} {n : Run (Env τ) β} (locals : Bindings)
    (hm : RelatedBy f (Over ρ locals.length R) m n) :
    RelatedBy f (Over ρ d R) (within (Value.relocated ρ locals) m) (within locals n) := by
  rw [within_eq_inside, within_eq_inside]
  exact hm.inside (fun _ _ h => ⟨rfl, rfl, h.outer⟩) fun _ _ _ _ h hr => ⟨h.locals, h.length, hr.outer⟩

private theorem Over.drop {a : Env σ} {b : Env τ} {i : Nat} (h : Over ρ (i + d) R a b) :
    Over ρ d R { a with locals := a.locals.drop i } { b with locals := b.locals.drop i } where
  locals := by
    change a.locals.drop i = Value.relocated ρ (b.locals.drop i)
    rw [h.locals, Value.relocated, Value.relocated, List.map_drop]
  length := by
    change (b.locals.drop i).length = d
    rw [List.length_drop, h.length, Nat.add_sub_cancel_left]
  outer := h.outer

private theorem binding_follows {m : Run (Env σ) α} {n : Run (Env τ) β} (bs : Bindings)
    (hm : RelatedBy f (Over ρ (bs.length + d) R) m n) :
    RelatedBy f (Over ρ d R) (binding (Value.relocated ρ bs) m) (binding bs n) := by
  have hbs : (Value.relocated ρ bs).length = bs.length := List.length_map _
  rw [binding_eq_inside, binding_eq_inside, hbs]
  refine hm.inside (fun a b h => ?_) fun _ _ _ _ _ hr => hr.drop
  exact ⟨by rw [h.locals]; exact (List.map_append ..).symm, by simp [h.length], h.outer⟩

theorem toplevel_follows {m : Run (Env σ) α} {n : Run (Env τ) β} (hm : RelatedBy f (Over ρ 0 R) m n) :
    RelatedBy f R (toplevel m) (toplevel n) := by
  rw [toplevel_eq_inside, toplevel_eq_inside]
  exact hm.inside (fun _ _ hst => ⟨rfl, rfl, hst⟩) fun _ _ _ _ _ hr => hr.outer

/-- What goes on after a run without local bindings finds none either. -/
theorem toplevel_bind_follows {γ δ : Type} {g : δ → γ} {m : Run (Env σ) α} {n : Run (Env τ) β}
    {F : α → Run (Env σ) γ} {G : β → Run τ δ} (hm : RelatedBy f (Over ρ 0 R) m n)
    (hF : ∀ b, RelatedBy g R (toplevel (F (f b))) (G b)) :
    RelatedBy g R (toplevel (m >>= F)) (toplevel n >>= G) := by
  intro s t hst
  have hr := hm ⟨[], s⟩ ⟨[], t⟩ ⟨rfl, rfl, hst⟩
  generalize hm' : m ⟨[], s⟩ = r at hr
  generalize hn' : n ⟨[], t⟩ = q at hr
  cases hr with
  | @ok a b v hr =>
    obtain ⟨locals, s'⟩ := a
    obtain ⟨locals', t'⟩ := b
    obtain ⟨rfl, hlength, hr⟩ := hr
    obtain rfl := List.eq_nil_of_length_eq_zero hlength
    have hn : toplevel n t = .ok v t' := by rw [toplevel, hn']
    have hboth : toplevel (m >>= F) s = toplevel (F (f v)) s' := by
      rw [toplevel, Run.bind_of_ok hm', toplevel]
      rfl
    rw [hboth, Run.bind_of_ok hn]
    exact hF v _ _ hr
  | error e hr =>
    rw [toplevel, Run.bind_of_error hm', Run.bind_of_error (by rw [toplevel, hn'])]
    exact .error e hr.outer

variable {E : Scope → Scope → Prop} {h : Host σ} {k : Host τ}

private theorem get?_follows (a : Host.Follows ρ E R h k) (x : String) :
    RelatedBy (Option.map (Value.relocate ρ)) (Over ρ d R) (get? h x) (get? k x) := by
  refine .get_bind fun s t hst => ?_
  rw [hst.locals, Bindings.get?_relocated, a.scopes.get? (a.scope hst.outer) x]
  cases t.locals.get? x with
  | some v => exact .pure (some v)
  | none => exact .pure _

private theorem assign_follows (a : Host.Follows ρ E R h k) (x : String) (v : Value) :
    RelatedBy id (Over ρ d R) (assign h x (v.relocate ρ)) (assign k x v) := by
  refine .get_bind fun s t hst => ?_
  rw [hst.locals, Bindings.set?_relocated]
  cases hset : t.locals.set? x v with
  | some locals =>
    have hlength : locals.length = d := by
      rw [← hst.length, ← List.length_map, Bindings.map_fst_set? hset, List.length_map]
    exact fun _ _ _ => .ok () ⟨rfl, hlength, hst.outer⟩
  | none => exact .bind (lift_follows (a.set x v)) fun _ => (Related.pure ()).by_id

end Env

namespace Eval

open Env (Over)

variable {E : Scope → Scope → Prop} {R : σ → τ → Prop} {h : Host σ} {k : Host τ} {d : Nat}

/-- Meanings that go together on every expression and its relocation. -/
def Matching (ρ : Relocation) (R : σ → τ → Prop) (eval : Meaning σ) (eval' : Meaning τ) : Prop :=
  ∀ d source e, RelatedBy (Value.relocate ρ) (Over ρ d R)
    (eval (ρ.source source) (e.move (ρ.place source))) (eval' source e)

section Meanings

variable {eval : Meaning σ} {eval' : Meaning τ}

private theorem bound_relocate (params : List String) (args : List Value) (captured : Bindings) :
    (params.zipIdx.map fun p => (p.1, (args.map (Value.relocate ρ))[p.2]?.getD .null)).reverse ++
        Value.relocated ρ captured =
      Value.relocated ρ
        ((params.zipIdx.map fun p => (p.1, args[p.2]?.getD .null)).reverse ++ captured) := by
  simp only [Value.relocated, List.map_append, List.map_reverse, List.map_map, Function.comp_def,
    List.getElem?_map, Value.getD_relocate]

theorem call_of_not_isFunction {f : Value} (hf : f.isFunction = false) (args : List Value) :
    call h eval f args = Run.fail (.notCallable f.shown) := by
  cases f <;> first | rfl | cases hf

private theorem call_follows (a : Host.Follows ρ E R h k) (he : Matching ρ R eval eval') (f : Value)
    (args : List Value) :
    RelatedBy (Value.relocate ρ) (Over ρ d R)
      (call h eval (f.relocate ρ) (args.map (Value.relocate ρ))) (call k eval' f args) := by
  cases hf : f.isFunction with
  | false =>
    rw [call_of_not_isFunction hf, call_of_not_isFunction ((Value.isFunction_relocate f).trans hf),
      Value.shown_relocate]
    exact .fail _
  | true =>
    cases f with
    | lambda site params body captured =>
      rw [Value.relocate, Value.relocateEntries_eq, call, bound_relocate]
      exact Env.within_follows _ (he _ site.source body)
    | native id => exact Env.lift_follows (a.native id args)
    | _ => cases hf

private theorem evalItems_follows {eval : Expr → Run (Env σ) Value} {eval' : Expr → Run (Env τ) Value}
    {g : Expr → Expr} (he : ∀ e, RelatedBy (Value.relocate ρ) (Over ρ d R) (eval (g e)) (eval' e))
    (es : List Expr) : RelatedBy (List.map (Value.relocate ρ)) (Over ρ d R) (evalItems eval (es.map g))
      (evalItems eval' es) := by
  induction es with
  | nil => exact .pure []
  | cons e es ih => exact .bind (he e) fun v => .bind ih fun vs => .pure (v :: vs)

private theorem evalEntries_follows {eval : Expr → Run (Env σ) Value}
    {eval' : Expr → Run (Env τ) Value} {g : Expr → Expr}
    (he : ∀ e, RelatedBy (Value.relocate ρ) (Over ρ d R) (eval (g e)) (eval' e))
    (es : List (String × Expr)) : RelatedBy (Value.relocated ρ) (Over ρ d R)
      (evalEntries eval (es.map fun e => (e.1, g e.2))) (evalEntries eval' es) := by
  induction es with
  | nil => exact .pure []
  | cons e es ih => exact .bind (he e.2) fun v => .bind ih fun vs => .pure ((e.1, v) :: vs)

private theorem orNull_follows {m : Run (Env σ) Value} {n : Run (Env τ) Value}
    (hm : RelatedBy (Value.relocate ρ) (Over ρ d R) m n) :
    RelatedBy (Value.relocate ρ) (Over ρ d R) (orNull m) (orNull n) := by
  refine .tryCatch hm fun e => ?_
  split
  · exact .pure Value.null
  · exact .throw _

private theorem mapItems_follows {f : List Value → Run (Env σ) Value}
    {g : List Value → Run (Env τ) Value}
    (hf : ∀ args, RelatedBy (Value.relocate ρ) (Over ρ d R) (f (args.map (Value.relocate ρ))) (g args))
    (i : Nat) (vs : List Value) : RelatedBy (List.map (Value.relocate ρ)) (Over ρ d R)
      (mapItems f i (vs.map (Value.relocate ρ))) (mapItems g i vs) := by
  induction vs generalizing i with
  | nil => exact .pure []
  | cons v vs ih =>
    exact .bind (hf [v, .int (Int64.ofNat i)]) fun w => .bind (ih _) fun ws => .pure (w :: ws)

private theorem filterItems_follows {f : List Value → Run (Env σ) Value}
    {g : List Value → Run (Env τ) Value}
    (hf : ∀ args, RelatedBy (Value.relocate ρ) (Over ρ d R) (f (args.map (Value.relocate ρ))) (g args))
    (i : Nat) (vs : List Value) : RelatedBy (List.map (Value.relocate ρ)) (Over ρ d R)
      (filterItems f i (vs.map (Value.relocate ρ))) (filterItems g i vs) := by
  induction vs generalizing i with
  | nil => exact .pure []
  | cons v vs ih =>
    refine .bind (hf [v, .int (Int64.ofNat i)]) fun w => .bind (ih _) fun ws => ?_
    rw [Value.truthy_relocate]
    split
    · exact .pure (v :: ws)
    · exact .pure ws

private theorem invoke_follows (a : Host.Follows ρ E R h k) (he : Matching ρ R eval eval') (v : Value)
    (name : String) (args : List Value) :
    RelatedBy (Value.relocate ρ) (Over ρ d R)
      (invoke h eval (v.relocate ρ) name (args.map (Value.relocate ρ))) (invoke k eval' v name args) := by
  unfold invoke
  rw [Value.invoke_relocate]
  refine .bind (.ofExcept _) fun r => ?_
  cases r with
  | value v => exact .pure v
  | mapping f items =>
    refine .bind (mapItems_follows (call_follows a he f) 0 items) fun vs => ?_
    rw [← Value.relocate_list]
    exact .pure _
  | filtering f items =>
    refine .bind (filterItems_follows (call_follows a he f) 0 items) fun vs => ?_
    rw [← Value.relocate_list]
    exact .pure _

private theorem memberOf_follows (a : Host.Follows ρ E R h k) (he : Matching ρ R eval eval')
    (v : Value) (name : String) :
    RelatedBy (Value.relocate ρ) (Over ρ d R) (memberOf h eval (v.relocate ρ) name)
      (memberOf k eval' v name) := by
  unfold memberOf
  rw [Value.field?_relocate]
  cases v.field? name with
  | some w => exact .pure w
  | none => exact invoke_follows a he v name []

private theorem accessName_relocate (v : Value) :
    (accessName (v.relocate ρ) : Run (Env σ) String) = accessName v := by
  cases v with
  | string s => rfl
  | int n => rfl
  | _ => exact congrArg (fun s => Run.fail (.badMemberName s)) (Value.shown_relocate _)

private theorem accessName_follows (v : Value) : RelatedBy id (Over ρ d R)
    (accessName (v.relocate ρ) : Run (Env σ) String) (accessName v : Run (Env τ) String) := by
  rw [accessName_relocate]
  cases v with
  | string s => exact (Related.pure s).by_id
  | int n => exact (Related.pure (toString n.toInt)).by_id
  | _ => exact .fail _

private theorem strict_follows (he : Matching ρ R eval eval') (source : Nat) (op : BinaryOp)
    (left right : Expr) :
    RelatedBy (Value.relocate ρ) (Over ρ d R)
      (do let a ← eval (ρ.source source) (left.move (ρ.place source))
          let b ← eval (ρ.source source) (right.move (ρ.place source))
          Run.ofStop (Value.binary op a b))
      (do let a ← eval' source left
          let b ← eval' source right
          Run.ofStop (Value.binary op a b)) := by
  refine .bind (he d source left) fun v => .bind (he d source right) fun w => ?_
  rw [Value.binary_relocate]
  exact .ofStop _

/-- Calling what an expression evaluates to, the arguments being evaluated only if it is a
function. -/
private theorem apply_follows (a : Host.Follows ρ E R h k) (he : Matching ρ R eval eval')
    (source : Nat) (f : Value) (args : List Expr) :
    RelatedBy (Value.relocate ρ) (Over ρ d R)
      (if (f.relocate ρ).isFunction then do
          call h eval (f.relocate ρ)
            (← evalItems (eval (ρ.source source)) (args.map (Expr.move (ρ.place source))))
        else Run.fail (.notCallable (f.relocate ρ).shown))
      (if f.isFunction then do call k eval' f (← evalItems (eval' source) args)
        else Run.fail (.notCallable f.shown)) := by
  rw [Value.isFunction_relocate, Value.shown_relocate]
  split
  · exact .bind (evalItems_follows (he d source) args) fun _ => call_follows a he f _
  · exact .fail _

/-- A call of a name that has no value is that of a global function. -/
theorem callGlobal_follows (he : Matching ρ R eval eval') (source : Nat) (x : String)
    (args : List Expr) :
    RelatedBy (Value.relocate ρ) (Over ρ d R)
      (do let evalArg := if x = "default" then fun e => orNull (eval (ρ.source source) e)
            else eval (ρ.source source)
          let args ← evalItems evalArg (args.map (Expr.move (ρ.place source)))
          match Value.global? x args with
          | some v => return v
          | none => Run.fail (.undefinedVariable x))
      (do let evalArg := if x = "default" then fun e => orNull (eval' source e) else eval' source
          let args ← evalItems evalArg args
          match Value.global? x args with
          | some v => return v
          | none => Run.fail (.undefinedVariable x)) := by
  refine .bind (evalItems_follows (fun e => ?_) args) fun vs => ?_
  · split
    · exact orNull_follows (he d source e)
    · exact he d source e
  · rw [Value.global?_relocate]
    cases Value.global? x vs with
    | some v => exact .pure v
    | none => exact .fail _

/-- The meanings of an expression and its relocation go together if the meanings of the expressions
that they refer to do. -/
private theorem step_follows (a : Host.Follows ρ E R h k) (he : Matching ρ R eval eval') :
    Matching ρ R (step h eval) (step k eval') := by
  intro d source e
  cases e with
  | literal v => exact .pure_of (Value.relocate_literal v)
  | name x =>
    refine .bind (Env.get?_follows a x) fun r => ?_
    cases r with
    | some v => exact .pure v
    | none =>
      have hglobal := Value.global?_relocate (ρ := ρ) x []
      dsimp only [Option.map_none]
      cases hx : Value.global? x [] with
      | some v =>
        rw [List.map_nil, hx] at hglobal
        exact .pure_of (Option.some.inj hglobal).symm
      | none => exact .fail _
  | binary op left right =>
    cases op with
    | and =>
      refine .bind (he d source left) fun v => ?_
      rw [Value.truthy_relocate]
      split
      · exact he d source right
      · exact .pure v
    | or =>
      refine .bind (he d source left) fun v => ?_
      rw [Value.truthy_relocate]
      split
      · exact .pure v
      · exact he d source right
    | _ => exact strict_follows he source _ left right
  | unary op operand =>
    refine .bind (he d source operand) fun v => ?_
    rw [Value.unary_relocate]
    exact .pure _
  | list items =>
    rw [Expr.move, Expr.moveItems_eq_map]
    refine .bind (evalItems_follows (he d source) items) fun vs => ?_
    rw [← Value.relocate_list]
    exact .pure _
  | hash entries =>
    rw [Expr.move, Expr.moveEntries_eq_map]
    refine .bind (evalEntries_follows (he d source) entries) fun es => ?_
    rw [Value.ofEntries_relocated, ← Value.relocate_hash]
    exact .pure _
  | member target name => exact .bind (he d source target) fun v => memberOf_follows a he v name
  | index target key =>
    refine .bind (he d source target) fun v => .bind (he d source key) fun w => ?_
    exact .bind (accessName_follows w) fun name => memberOf_follows a he v name
  | method target name args =>
    rw [Expr.move, Expr.moveItems_eq_map]
    refine .bind (he d source target) fun v =>
      .bind (evalItems_follows (he d source) args) fun vs => ?_
    rw [Value.field?_relocate]
    cases v.field? name with
    | some f =>
      dsimp only [Option.map_some]
      rw [Value.isFunction_relocate]
      split
      · exact call_follows a he f vs
      · exact .fail _
    | none => exact invoke_follows a he v name vs
  | call callee args =>
    rw [Expr.move, Expr.moveItems_eq_map]
    cases callee with
    | name x =>
      refine .bind (Env.get?_follows a x) fun r => ?_
      cases r with
      | some f => exact apply_follows a he source f args
      | none => exact callGlobal_follows he source x args
    | _ => exact .bind (he d source _) fun f => apply_follows a he source f args
  | cond test yes no =>
    refine .bind (he d source test) fun v => ?_
    rw [Value.truthy_relocate]
    split
    · exact he d source yes
    · exact he d source no
  | lambda arrow params body =>
    refine .get_bind fun s t hst => ?_
    rw [hst.locals, ← Value.relocateEntries_eq]
    exact .pure (Value.lambda ⟨source, arrow⟩ params body t.locals)
  | assign x op value =>
    have store (v : Value) : RelatedBy (Value.relocate ρ) (Over ρ d R)
        (do Env.assign h x (v.relocate ρ); return v.relocate ρ) (do Env.assign k x v; return v) :=
      .bind (Env.assign_follows a x v) fun _ => .pure v
    refine .bind (he d source value) fun v => ?_
    cases op with
    | none => exact .bind (.pure v) store
    | some op =>
      refine .bind (Env.get?_follows a x) fun r => ?_
      cases r with
      | none => exact .bind (.fail _) store
      | some current =>
        dsimp only [Option.map_some]
        rw [Value.binary_relocate]
        exact .bind (.ofStop _) store
  | count x step before =>
    refine .bind (Env.get?_follows a x) fun r => ?_
    cases r with
    | none => exact .fail _
    | some current =>
      have hone := Value.binary_relocate (ρ := ρ) step.binary current (.int 1)
      rw [Value.relocate_int] at hone
      dsimp only [Option.map_some]
      rw [hone]
      refine .bind (.ofStop _) fun next => .bind (Env.assign_follows a x next) fun _ => ?_
      cases before with
      | true => exact .pure next
      | false => exact .pure current

end Meanings

/-- Expressions go together with their relocations, however deep they may refer to others. -/
private theorem expr_follows (a : Host.Follows ρ E R h k) (fuel : Nat) :
    Matching ρ R (expr h fuel) (expr k fuel) := by
  induction fuel with
  | zero => exact fun _ _ _ => .throw _
  | succ fuel ih => exact step_follows a ih

theorem value_follows (a : Host.Follows ρ E R h k) (source : Nat) (e : Expr) :
    RelatedBy (Value.relocate ρ) R (value h (ρ.source source) (e.move (ρ.place source)))
      (value k source e) :=
  Env.toplevel_follows (expr_follows a _ _ source e)

theorem callFunction_follows (a : Host.Follows ρ E R h k) (f : Value) (args : List Value) :
    RelatedBy (Value.relocate ρ) R (callFunction h (f.relocate ρ) (args.map (Value.relocate ρ)))
      (callFunction k f args) :=
  Env.toplevel_follows (call_follows a (expr_follows a _) f args)

end Eval

/-! Templates and scripts. -/

mutual

def Statement.move (f : Pos → Pos) : Statement → Statement
  | text s => text s
  | value e => value (e.move f)
  | each items item index body => each (items.move f) item index (moveBody f body)
  | cond branches otherwise => cond (moveBranches f branches) (moveOtherwise f otherwise)

def Statement.moveBody (f : Pos → Pos) : List Statement → List Statement
  | [] => []
  | s :: ss => s.move f :: moveBody f ss

def Statement.moveBranches (f : Pos → Pos) :
    List (Expr × List Statement) → List (Expr × List Statement)
  | [] => []
  | (test, body) :: more => (test.move f, moveBody f body) :: moveBranches f more

def Statement.moveOtherwise (f : Pos → Pos) : Option (List Statement) → Option (List Statement)
  | none => none
  | some body => some (moveBody f body)

end

mutual

/-- Places that stay leave the statement as it is. -/
theorem Statement.move_id (s : Statement) : s.move (fun p => p) = s := by
  cases s with
  | text s => rfl
  | value e => rw [move, e.move_id]
  | each items item index body => rw [move, items.move_id, moveBody_id body]
  | cond branches otherwise => rw [move, moveBranches_id branches, moveOtherwise_id otherwise]

theorem Statement.moveBody_id (ss : List Statement) : moveBody (fun p => p) ss = ss := by
  cases ss with
  | nil => rfl
  | cons s ss => rw [moveBody, move_id s, moveBody_id ss]

theorem Statement.moveBranches_id (bs : List (Expr × List Statement)) :
    moveBranches (fun p => p) bs = bs := by
  cases bs with
  | nil => rfl
  | cons b bs => rw [moveBranches, b.1.move_id, moveBody_id b.2, moveBranches_id bs]

theorem Statement.moveOtherwise_id (o : Option (List Statement)) :
    moveOtherwise (fun p => p) o = o := by
  cases o with
  | none => rfl
  | some body => rw [moveOtherwise, moveBody_id body]

end

theorem Statement.moveBody_eq_map (f : Pos → Pos) (ss : List Statement) :
    moveBody f ss = ss.map (move f) := by
  induction ss with
  | nil => rfl
  | cons s ss ih => rw [moveBody, ih, List.map_cons]

def ScriptLine.move (f : Pos → Pos) : ScriptLine → ScriptLine
  | declare x e => declare x (e.map (Expr.move f))
  | run e => run (e.move f)

theorem ScriptLine.move_id (l : ScriptLine) : l.move (fun p => p) = l := by
  cases l with
  | declare x e => cases e <;> simp [move, Expr.move_id]
  | run e => rw [move, e.move_id]

def Chunk.relocate (ρ : Relocation) : Chunk → Chunk
  | text s => text s
  | value v => value (v.relocate ρ)

theorem Chunk.relocate_refl (c : Chunk) : c.relocate .refl = c := by
  cases c with
  | text s => rfl
  | value v => rw [relocate, v.relocate_refl]

def Rendered.relocate (ρ : Relocation) (r : Rendered) : Rendered :=
  { r with slots := r.slots.map fun s => (s.1, s.2.relocate ρ) }

namespace Rendered

private theorem relocate_consText (s : String) (r : Rendered) :
    (r.consText s).relocate ρ = (r.relocate ρ).consText s := by
  obtain ⟨slots, last⟩ := r
  cases slots <;> rfl

theorem ofChunks_relocate (cs : List Chunk) :
    ofChunks (cs.map (Chunk.relocate ρ)) = (ofChunks cs).relocate ρ := by
  induction cs with
  | nil => rfl
  | cons c cs ih =>
    cases c with
    | text s => rw [ofChunks, relocate_consText, ← ih]; rfl
    | value v => rw [List.map_cons, Chunk.relocate, ofChunks, ih]; rfl

/-- Relocating functions changes nothing of the markup. -/
theorem markup_relocate (r : Rendered) : (r.relocate ρ).markup = r.markup := by
  simp only [markup, relocate, List.map_map, Function.comp_def, Value.markup_relocate]

end Rendered

namespace Eval

open Env (Over)

variable {E : Scope → Scope → Prop} {R : σ → τ → Prop} {h : Host σ} {k : Host τ}

section Statements

variable {eval : Expr → Run (Env σ) Value} {eval' : Expr → Run (Env τ) Value} {f : Pos → Pos}

private theorem repeatFor_follows {body : Run (Env σ) (List Chunk)} {body' : Run (Env τ) (List Chunk)}
    (hb : ∀ d, RelatedBy (List.map (Chunk.relocate ρ)) (Over ρ d R) body body') (item : String)
    (index : Option String) (i : Nat) (vs : List Value) (d : Nat) :
    RelatedBy (List.map (Chunk.relocate ρ)) (Over ρ d R)
      (repeatFor item index body i (vs.map (Value.relocate ρ))) (repeatFor item index body' i vs) := by
  induction vs generalizing i with
  | nil => exact .pure []
  | cons v vs ih =>
    have hbound : (index.toList.map fun x => (x, Value.int (Int64.ofNat i))) ++ [(item, v.relocate ρ)] =
        Value.relocated ρ ((index.toList.map fun x => (x, Value.int (Int64.ofNat i))) ++ [(item, v)]) := by
      simp [Value.relocated, Function.comp_def]
    rw [List.map_cons, repeatFor, hbound]
    refine .bind (Env.binding_follows _ (hb _)) fun cs => .bind (ih (i + 1)) fun more => ?_
    rw [← List.map_append]
    exact .pure _

mutual

theorem statement_follows
    (he : ∀ d e, RelatedBy (Value.relocate ρ) (Over ρ d R) (eval (e.move f)) (eval' e)) (s : Statement)
    (d : Nat) : RelatedBy (List.map (Chunk.relocate ρ)) (Over ρ d R) (statement eval (s.move f))
      (statement eval' s) := by
  cases s with
  | text s => exact .pure [Chunk.text s]
  | value e => exact .bind (he d e) fun v => .pure [Chunk.value v]
  | each items item index body =>
    rw [Statement.move]
    refine .bind (he d items) fun v => ?_
    rw [Value.iterate_relocate]
    refine .bind (.ofExcept _) fun vs => ?_
    exact repeatFor_follows (statements_follows he body) item index 0 vs d
  | cond branches otherwise =>
    rw [Statement.move]
    cases otherwise with
    | none => exact branch_follows he (.pure []) branches
    | some body => exact branch_follows he (statements_follows he body d) branches

private theorem statements_follows
    (he : ∀ d e, RelatedBy (Value.relocate ρ) (Over ρ d R) (eval (e.move f)) (eval' e))
    (ss : List Statement) (d : Nat) :
    RelatedBy (List.map (Chunk.relocate ρ)) (Over ρ d R) (statements eval (Statement.moveBody f ss))
      (statements eval' ss) := by
  cases ss with
  | nil => exact .pure []
  | cons s ss =>
    refine .bind (statement_follows he s d) fun cs => .bind (statements_follows he ss d) fun more => ?_
    rw [← List.map_append]
    exact .pure _

theorem branch_follows {d : Nat}
    (he : ∀ d e, RelatedBy (Value.relocate ρ) (Over ρ d R) (eval (e.move f)) (eval' e))
    {rest : Run (Env σ) (List Chunk)} {rest' : Run (Env τ) (List Chunk)}
    (hr : RelatedBy (List.map (Chunk.relocate ρ)) (Over ρ d R) rest rest')
    (branches : List (Expr × List Statement)) :
    RelatedBy (List.map (Chunk.relocate ρ)) (Over ρ d R)
      (branch eval rest (Statement.moveBranches f branches)) (branch eval' rest' branches) := by
  cases branches with
  | nil => exact hr
  | cons b more =>
    refine .bind (he d b.1) fun v => ?_
    rw [Value.truthy_relocate]
    split
    · exact statements_follows he b.2 d
    · exact branch_follows he hr more

end

end Statements

/-- A line goes together with its relocation. -/
private theorem line_follows (a : Host.Follows ρ E R h k) (source : Nat) (l : ScriptLine) :
    RelatedBy id R (line h (ρ.source source) (l.move (ρ.place source))) (line k source l) := by
  cases l with
  | declare x e =>
    cases e with
    | none => exact a.declare x .null
    | some e => exact .bind (value_follows a source e) fun v => a.declare x v
  | run e => exact .bind (value_follows a source e) fun _ => (Related.pure ()).by_id

/-- Scripts go together with their relocations. -/
theorem lines_follow (a : Host.Follows ρ E R h k) (source : Nat) (ls : List ScriptLine) :
    RelatedBy id R
      ((ls.map (ScriptLine.move (ρ.place source))).forM (line h (ρ.source source)))
      (ls.forM (line k source)) :=
  .forM (fun l => line_follows a source l) ls

/-- The statements of a template go together with their relocations. -/
theorem body_follows (a : Host.Follows ρ E R h k) (source : Nat) (ss : List Statement) (d : Nat) :
    RelatedBy (List.map (Chunk.relocate ρ)) (Over ρ d R)
      (statements (expr h depthLimit (ρ.source source)) (Statement.moveBody (ρ.place source) ss))
      (statements (expr k depthLimit source) ss) :=
  statements_follows (fun d e => expr_follows a depthLimit d source e) ss d

end Eval

/-! Scopes with listeners. -/

namespace Observed

variable {h : Host Observed}

def relocate (ρ : Relocation) (s : Observed) : Observed := { s with scope := s.scope.relocate ρ }

theorem relocate_eq_self (s : Observed) (h : ∀ n ∈ s.scope.sources, ρ.Fixes n) : s.relocate ρ = s := by
  rw [relocate, s.scope.relocate_eq_self h]

def copy (set : String → Value → Run Observed Bool) (x : String) :
    Option (String × String) → Run Observed Unit
  | none => pure ()
  | some (source, target) => do
    if source = x then
      match (← get).scope.get? x with
      | some v =>
        let _ ← set target v
      | none => pure ()

def respond (set : String → Value → Run Observed Bool) (x : String) (l : Listener) :
    Run Observed Unit := do
  if l.failsOn = some x then Run.fail (.failed ("listener failed on " ++ x))
  copy set x l.copies

theorem react_eq (set : String → Value → Run Observed Bool) (x : String) (l : Listener) :
    react set x l = match l.label with
      | none => respond set x l
      | some label =>
        (modify fun s => { s with notes := (label, x) :: s.notes }) >>= fun _ => respond set x l := by
  obtain ⟨label, failsOn, copies⟩ := l
  cases label <;> cases copies <;> rfl

section Listeners

variable {A : Value → Value → Prop} {R : Observed → Observed → Prop}
  (hset : ∀ x {v w}, A v w → RelatedUpTo Eq R (h.set x v) (h.set x w))
  (hget : ∀ {s t}, R s t → ∀ x, Option.Rel A (s.scope.get? x) (t.scope.get? x))
  (hnote : ∀ {s t}, R s t → ∀ n, R { s with notes := n :: s.notes } { t with notes := n :: t.notes })

include hset hget

private theorem copy_upTo (x : String) (copies : Option (String × String)) :
    RelatedUpTo Eq R (copy h.set x copies) (copy h.set x copies) := by
  cases copies with
  | none => exact .pure rfl
  | some c =>
    unfold copy
    dsimp only
    split
    · refine .get_bind fun s t hst => ?_
      have hvalue := hget hst x
      generalize s.scope.get? x = a at hvalue ⊢
      generalize t.scope.get? x = b at hvalue ⊢
      cases hvalue with
      | some hvw => exact (hset c.2 hvw).bind fun _ _ _ => .pure rfl
      | none => exact .pure rfl
    · exact .pure rfl

private theorem respond_upTo (x : String) (l : Listener) :
    RelatedUpTo Eq R (respond h.set x l) (respond h.set x l) := by
  have hcopy := copy_upTo hset hget x l.copies
  unfold respond
  split
  · exact RelatedUpTo.bind (Q := Eq) (.throw _) fun _ _ _ => hcopy
  · exact hcopy

include hnote

/-- A listener does the same in related states if it reads and writes related values there. -/
private theorem react_upTo (x : String) (l : Listener) :
    RelatedUpTo Eq R (react h.set x l) (react h.set x l) := by
  rw [react_eq]
  cases l.label with
  | none => exact respond_upTo hset hget x l
  | some label =>
    exact RelatedUpTo.bind (Q := Eq) (fun s t hst => .ok rfl (hnote hst _)) fun _ _ _ =>
      respond_upTo hset hget x l

/-- And so do all of them, one after the other. -/
theorem listeners_upTo (x : String) (ls : List Listener) :
    RelatedUpTo Eq R (ls.forM (react h.set x)) (ls.forM (react h.set x)) := by
  induction ls with
  | nil => exact .pure rfl
  | cons l ls ih => exact (react_upTo hset hget hnote x l).bind fun _ _ _ => ih

end Listeners

/-- Listeners do the same in a scope and in its relocation if writes do. -/
private theorem listeners_follow
    (hset : ∀ x v, RelatedBy id (fun s t => s = relocate ρ t) (h.set x (v.relocate ρ)) (h.set x v)) (x : String)
    (ls : List Listener) :
    Related (fun s t => s = relocate ρ t) (ls.forM (react h.set x)) (ls.forM (react h.set x)) := by
  refine .of_by (Run.relatedBy_iff_upTo.2
    (listeners_upTo (A := fun v w => v = w.relocate ρ) ?_ ?_ ?_ x ls))
  · rintro x v w rfl
    exact Run.relatedBy_iff_upTo.1 (hset x w)
  · rintro s t rfl x
    rw [relocate, Scope.get?_relocate]
    cases t.scope.get? x with
    | some v => exact .some rfl
    | none => exact .none
  · rintro s t rfl n
    rfl

/-- What runs in a scope with listeners goes together with what runs in its relocation. -/
theorem host_follows (ρ : Relocation) (listeners : List Listener) (depth : Nat) :
    Host.Follows ρ (fun a b => a = b.relocate ρ) (fun s t => s = relocate ρ t)
      (host listeners depth) (host listeners depth) := by
  have hnative (id : Nat) (args : List Value) : RelatedBy (Value.relocate ρ)
      (fun s t => s = relocate ρ t) (pure Value.null) (pure Value.null) := .pure Value.null
  induction depth with
  | zero =>
    exact ⟨Scope.follows_relocate ρ, fun hst => hst ▸ rfl, fun hst hab => by rw [hst, hab]; rfl,
      fun _ => .throw _, hnative⟩
  | succ depth ih =>
    exact ⟨Scope.follows_relocate ρ, fun hst => hst ▸ rfl, fun hst hab => by rw [hst, hab]; rfl,
      fun x => listeners_follow ih.set x listeners, hnative⟩

end Observed

end LiveMarkup
