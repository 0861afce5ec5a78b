import LiveMarkup.Proofs.Scope.Clean

/-! Programs compute with properties as with their values: an operator between two properties, an
assignment or a count comes to what the operator makes of the values, whatever they are. -/

namespace LiveMarkup

def Observed.result (s : Observed) (source : Nat) (e : Expr) : Except Stop Value :=
  Run.ending (Eval.value (host [] 1) source e) s

namespace Eval

/-- What expressions of two properties come to, given the values of these. -/
structure Computes (s : Observed) (source : Nat) (x y : String) (a b : Value) : Prop where
  binary : ∀ op, s.result source (.binary op (.name x) (.name y)) = Value.binary op a b
  compound : ∀ op, s.result source (.assign x (some op) (.name y)) = Value.binary op.binary a b
  before : ∀ c, s.result source (.count x c true) = Value.binary c.binary a (.int 1)
  after : ∀ c, s.result source (.count x c false) = .ok a
  unary : ∀ op, s.result source (.unary op (.name x)) = .ok (Value.unary op a)
  member : ∀ name v, a.field? name = none → a.invoke name [] = .ok (.value v) →
    s.result source (.member (.name x) name) = .ok v

variable {σ α β : Type} {s : Observed} {x y : String} {a b : Value}

private theorem ending_toplevel (m : Run (Env σ) α) (s : σ) :
    Run.ending (Env.toplevel m) s = Run.ending m ⟨[], s⟩ := by
  rw [Env.toplevel_eq_inside, Run.ending_inside]

private theorem result_eq_ending_step (s : Observed) (source : Nat) (e : Expr) :
    s.result source e =
      Run.ending (step (Observed.host [] 1) (expr (Observed.host [] 1) 99999) source e) ⟨[], s⟩ :=
  ending_toplevel _ s

/-- Where nobody listens an assignment succeeds. -/
private theorem exists_assign (x : String) (v : Value) (s : Observed) :
    ∃ env, Env.assign (Observed.host [] 1) x v ⟨[], s⟩ = .ok () env := by
  have hset : ∃ d t, (Observed.host [] 1).set x v s = .ok d t := by
    rw [Host.set, Host.write_eq]
    split
    · exact ⟨_, _, rfl⟩
    · exact ⟨_, _, rfl⟩
  obtain ⟨d, t, ht⟩ := hset
  have hlift : Env.lift ((Observed.host [] 1).set x v) ⟨[], s⟩ = .ok d ⟨[], t⟩ := by rw [Env.lift, ht]
  exact ⟨⟨[], t⟩, Run.bind_of_ok hlift⟩

private theorem ending_assign (x : String) (v w : Value) (s : Observed) :
    Run.ending (Env.assign (Observed.host [] 1) x v >>= fun _ => pure w) ⟨[], s⟩ = .ok w := by
  obtain ⟨env, henv⟩ := exists_assign x v s
  rw [Run.ending_bind henv]
  rfl

/-- If it is known what is assigned and what comes of it. -/
private theorem ending_assigning (x : String) (q : Except Stop Value) (f : Value → Value)
    (s : Observed) :
    Run.ending (Run.ofStop q >>= fun v => Env.assign (Observed.host [] 1) x v >>= fun _ => pure (f v))
      ⟨[], s⟩ = q.map f := by
  cases q with
  | ok v => exact ending_assign x v (f v) s
  | error e => rfl

theorem computes (source : Nat) (hx : s.scope.get? x = some a) (hy : s.scope.get? y = some b) :
    Computes s source x y a b := by
  have hget : Env.get? (Observed.host [] 1) x ⟨[], s⟩ = .ok (some a) ⟨[], s⟩ :=
    congrArg (EStateM.Result.ok · _) hx
  have hleft : expr (Observed.host [] 1) 99999 source (.name x) ⟨[], s⟩ = .ok a ⟨[], s⟩ :=
    expr_name hx 99998 source
  have hright : expr (Observed.host [] 1) 99999 source (.name y) ⟨[], s⟩ = .ok b ⟨[], s⟩ :=
    expr_name hy 99998 source
  constructor
  case binary =>
    intro op
    have hand : s.result source (.binary .and (.name x) (.name y)) = Value.binary .and a b := by
      rw [result_eq_ending_step, step, Run.ending_bind hleft, Value.binary]
      split
      · exact Run.ending_of_ok hright
      · rfl
    have hor : s.result source (.binary .or (.name x) (.name y)) = Value.binary .or a b := by
      rw [result_eq_ending_step, step, Run.ending_bind hleft, Value.binary]
      split
      · rfl
      · exact Run.ending_of_ok hright
    cases op with
    | and => exact hand
    | or => exact hor
    | _ =>
      rw [result_eq_ending_step, step, Run.ending_bind hleft, Run.ending_bind hright]
      · exact Run.ending_ofStop _ _
      · simp
      · simp
  case compound =>
    intro op
    rw [result_eq_ending_step, step, Run.ending_bind hright]
    dsimp only
    rw [Run.ending_bind hget]
    exact (ending_assigning x _ id s).trans (by cases Value.binary op.binary a b <;> rfl)
  case before =>
    intro c
    rw [result_eq_ending_step, step, Run.ending_bind hget]
    exact (ending_assigning x _ id s).trans (by cases Value.binary c.binary a (.int 1) <;> rfl)
  case after =>
    intro c
    rw [result_eq_ending_step, step, Run.ending_bind hget]
    refine (ending_assigning x _ (fun _ => a) s).trans ?_
    cases c <;> rfl
  case unary =>
    intro op
    rw [result_eq_ending_step, step, Run.ending_bind hleft]
    rfl
  case member =>
    intro name v hf hv
    rw [result_eq_ending_step, step, Run.ending_bind hleft, memberOf, hf]
    dsimp only
    rw [invoke_of_value (r := .ok v) hv]
    rfl

end Eval

end LiveMarkup
