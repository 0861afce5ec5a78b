import LiveMarkup.Proofs.Eval.Hosts

/-! Evaluation changes a scope by writing to it and in no other way. A property of the state that
every single write keeps, whatever is written where, is kept by expressions, templates and scripts,
even if it relates the scope to the rest of the state. -/

namespace LiveMarkup

variable {σ : Type} {h k : Host σ} {P : σ → Prop}

namespace Eval

variable {eval : Meaning σ}

/-- What calls see of a host. -/
private theorem call_congr (hn : h.native = k.native) : call h eval = call k eval := by
  funext f args
  cases f <;> simp only [call, hn]

private theorem memberOf_congr (hn : h.native = k.native) : memberOf h eval = memberOf k eval := by
  funext v name
  simp only [memberOf, invoke, call_congr hn]

/-- What the meaning of an expression sees of a host. -/
private theorem step_congr (hs : h.scope = k.scope) (hw : h.set = k.set) (hn : h.native = k.native) :
    step h eval = step k eval := by
  have hget : Env.get? h = Env.get? k := by
    funext x
    simp only [Env.get?, hs]
  have hassign : Env.assign h = Env.assign k := by
    funext x v
    simp only [Env.assign, hw]
  funext source e
  unfold step
  simp only [hget, hassign, call_congr hn, memberOf_congr hn, invoke]

private theorem expr_congr (hs : h.scope = k.scope) (hw : h.set = k.set) (hn : h.native = k.native)
    (fuel : Nat) : expr h fuel = expr k fuel := by
  induction fuel with
  | zero => rfl
  | succ fuel ih => rw [expr, expr, ih, step_congr hs hw hn]

private theorem callFunction_congr (hs : h.scope = k.scope) (hw : h.set = k.set)
    (hn : h.native = k.native) : callFunction h = callFunction k := by
  funext f args
  rw [callFunction, callFunction, expr_congr hs hw hn, call_congr hn]

private theorem value_congr (hs : h.scope = k.scope) (hw : h.set = k.set) (hn : h.native = k.native) :
    value h = value k := by
  funext source e
  rw [value, value, expr_congr hs hw hn]

private theorem template_congr (hs : h.scope = k.scope) (hw : h.set = k.set)
    (hn : h.native = k.native) :
    template h = template k := by
  funext source t
  rw [template, template, expr_congr hs hw hn]

private theorem script_congr (hs : h.scope = k.scope) (hw : h.set = k.set) (hn : h.native = k.native)
    (hd : h.declare = k.declare) : script h = script k := by
  have hline : line h = line k := by
    funext source l
    cases l with
    | declare x e => cases e <;> simp only [line, value_congr hs hw hn, hd]
    | run e => simp only [line, value_congr hs hw hn]
  funext source s
  rw [script, script, hline]

end Eval

namespace Host

/-- A write has been carried out before anybody is told of it. -/
theorem write_eq (h : Host σ) (put : String → Value → Scope → Scope) (x : String) (v : Value)
    (s : σ) : h.write put x v s =
      (if Scope.isDirty ((h.scope s).get? x) v then h.notify x >>= fun _ => pure true
        else pure false) (h.withScope (put x v (h.scope s)) s) := by
  show (if Scope.isDirty ((h.scope s).get? x) v then h.notify x >>= fun _ => pure _ else pure _ :
    Run σ Bool) (h.withScope (put x v (h.scope s)) s) = _
  cases Scope.isDirty ((h.scope s).get? x) v <;> rfl

/-- An update has been carried out before anybody is told of it. -/
theorem update_eq (h : Host σ) (x : String) (change : Value → Value) (s : σ) :
    h.update x change s = match (h.scope s).get? x with
      | none => .error (.error (.undefinedVariable x)) s
      | some v => h.notify x (h.withScope ((h.scope s).put x (change v)) s) := by
  show (match (h.scope s).get? x with
    | none => Run.fail (.undefinedVariable x)
    | some v => do
      modify (h.withScope ((h.scope s).put x (change v)))
      h.notify x : Run σ Unit) s = _
  cases (h.scope s).get? x <;> rfl

/-- What holds after the value has been stored, and stays while others are told of it. -/
theorem left_write {put : String → Value → Scope → Scope} {x : String} {v : Value} {s : σ}
    (hp : P (h.withScope (put x v (h.scope s)) s)) (hn : Run.Keeps P (h.notify x)) :
    P (Run.left (h.write put x v) s) := by
  rw [Run.left_congr (h.write_eq put x v s)]
  split
  · exact (hn.bind fun _ => .pure true) _ hp
  · exact hp

/-- A host whose writes and other effects keep a property of the state. -/
structure Upholds (P : σ → Prop) (h : Host σ) : Prop where
  put : ∀ s x v, P s → P (h.withScope ((h.scope s).put x v) s)
  notify : ∀ x, Run.Keeps P (h.notify x)
  native : ∀ id args, Run.Keeps P (h.native id args)

open Classical in
/-- The host that takes no scope but the one there with a value put into it. -/
noncomputable def confined (h : Host σ) : Host σ :=
  { h with withScope := fun scope s =>
      if ∃ x v, scope = (h.scope s).put x v then h.withScope scope s else s }

private theorem confined_withScope (h : Host σ) (x : String) (v : Value) (s : σ) :
    h.confined.withScope ((h.scope s).put x v) s = h.withScope ((h.scope s).put x v) s :=
  if_pos ⟨x, v, rfl⟩

private theorem confined_set (h : Host σ) : h.confined.set = h.set := by
  funext x v s
  have hput : h.confined.withScope ((h.confined.scope s).put x v) s = _ :=
    h.confined_withScope x v s
  rw [Host.set, Host.set, write_eq, write_eq, hput]
  rfl

private theorem confined_declare (h : Host σ) : h.confined.declare = h.declare := by
  funext x v s
  exact congrArg (EStateM.Result.ok ()) (h.confined_withScope x v s)

namespace Upholds

variable (u : h.Upholds P)

include u

private theorem confined : h.confined.Keeps P where
  withScope scope s hs := by
    simp only [Host.confined]
    split
    · next hput =>
      obtain ⟨x, v, rfl⟩ := hput
      exact u.put s x v hs
    · exact hs
  notify := u.notify
  native := u.native

theorem set (x : String) (v : Value) : Run.Keeps P (h.set x v) := by
  rw [← h.confined_set]
  exact u.confined.write Scope.put x v

theorem declare (x : String) (v : Value) : Run.Keeps P (h.declare x v) := by
  rw [← h.confined_declare]
  exact u.confined.declare x v

theorem update (x : String) (change : Value → Value) : Run.Keeps P (h.update x change) := by
  intro s hs
  have he := h.update_eq x change s
  cases hg : (h.scope s).get? x with
  | none =>
    rw [hg] at he
    rwa [Run.left_of_error he]
  | some v =>
    rw [hg] at he
    rw [Run.left_congr he]
    exact u.notify x _ (u.put s x (change v) hs)

theorem callFunction (f : Value) (args : List Value) : Run.Keeps P (Eval.callFunction h f args) := by
  rw [← Eval.callFunction_congr (h := h.confined) (k := h) rfl h.confined_set rfl]
  exact u.confined.callFunction f args

theorem value (source : Nat) (e : Expr) : Run.Keeps P (Eval.value h source e) := by
  rw [← Eval.value_congr (h := h.confined) (k := h) rfl h.confined_set rfl]
  exact u.confined.value source e

theorem script (source : Nat) (t : Script) : Run.Keeps P (Eval.script h source t) := by
  rw [← Eval.script_congr (h := h.confined) (k := h) rfl h.confined_set rfl h.confined_declare]
  exact u.confined.script source t

theorem template (source : Nat) (t : Template) : Run.Keeps P (Eval.template h source t) := by
  rw [← Eval.template_congr (h := h.confined) (k := h) rfl h.confined_set rfl]
  exact u.confined.template source t

end Upholds

end Host

end LiveMarkup
