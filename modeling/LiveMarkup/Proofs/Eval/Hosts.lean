import LiveMarkup.Proofs.Eval.Relocate

/-! Evaluation in hosts that agree. Nothing in an expression, a template or a script can tell apart
two hosts whose scopes, notifications and native functions go together. -/

namespace LiveMarkup

open Run (Related Keeps)

variable {σ τ α : Type}

/-- A relation of scopes that look-up respects and writing preserves. -/
structure Scope.Congruence (E : Scope → Scope → Prop) : Prop where
  get? : ∀ {a b}, E a b → ∀ x, a.get? x = b.get? x
  put : ∀ {a b}, E a b → ∀ x v, E (a.put x v) (b.put x v)

theorem Scope.Congruence.eq : Scope.Congruence Eq where
  get? h _ := by rw [h]
  put h _ _ := by rw [h]

/-- Two hosts whose scopes are in `E` whenever the states are in `R`, and that keep it so. -/
structure Host.Agree (E : Scope → Scope → Prop) (R : σ → τ → Prop) (h : Host σ) (k : Host τ) :
    Prop where
  congr : Scope.Congruence E
  scope : ∀ {s t}, R s t → E (h.scope s) (k.scope t)
  withScope : ∀ {s t a b}, R s t → E a b → R (h.withScope a s) (k.withScope b t)
  notify : ∀ x, Related R (h.notify x) (k.notify x)
  native : ∀ id args, Related R (h.native id args) (k.native id args)

namespace Host.Agree

variable {E : Scope → Scope → Prop} {R : σ → τ → Prop} {h : Host σ} {k : Host τ}

/-- Writes go together, whatever is stored where. -/
theorem write (a : Host.Agree E R h k) {put : String → Value → Scope → Scope}
    (hput : ∀ {s t}, E s t → ∀ x v, E (put x v s) (put x v t)) (x : String) (v : Value) :
    Related R (h.write put x v) (k.write put x v) := by
  unfold Host.write
  refine .get_bind fun s t hst => ?_
  have he := a.scope hst
  refine .bind (.modify fun s' t' hr => a.withScope hr (hput he x v)) fun _ => ?_
  rw [a.congr.get? he x]
  dsimp only
  split
  · exact .bind (a.notify x) fun _ => .pure _
  · exact .pure _

theorem set (a : Host.Agree E R h k) (x : String) (v : Value) :
    Related R (h.set x v) (k.set x v) := a.write a.congr.put x v

theorem declare (a : Host.Agree E R h k) (x : String) (v : Value) :
    Related R (h.declare x v) (k.declare x v) :=
  .modify fun _ _ hst => a.withScope hst (a.congr.put (a.scope hst) x v)

theorem update (a : Host.Agree E R h k) (x : String) (change : Value → Value) :
    Related R (h.update x change) (k.update x change) := by
  unfold Host.update
  refine .get_bind fun s t hst => ?_
  have he := a.scope hst
  dsimp only
  rw [a.congr.get? he x]
  cases (k.scope t).get? x with
  | none => exact .fail _
  | some v =>
    exact .bind (.modify fun s' t' hr => a.withScope hr (a.congr.put he x (change v))) fun _ =>
      a.notify x

/-- Hosts that agree follow the relocation that changes nothing. -/
private theorem follows (a : Host.Agree E R h k) : Host.Follows .refl E R h k where
  scopes :=
    { get? := fun he x => by rw [a.congr.get? he x, funext Value.relocate_refl]; simp
      put := fun he x v => by rw [Value.relocate_refl]; exact a.congr.put he x v }
  scope := a.scope
  withScope := a.withScope
  notify := a.notify
  native id args := by
    rw [funext Value.relocate_refl, List.map_id']
    exact (a.native id args).by_id

end Host.Agree

/-- A native function goes together with itself if reading, writing and reporting do. -/
theorem Procedure.run_related {R : σ → τ → Prop} {scope : σ → Scope} {scope' : τ → Scope}
    {set : String → Value → Run σ Bool} {set' : String → Value → Run τ Bool}
    {report : List Value → Run σ Unit} {report' : List Value → Run τ Unit}
    (hscope : ∀ s t, R s t → ∀ x, (scope s).get? x = (scope' t).get? x)
    (hset : ∀ x v, Related R (set x v) (set' x v))
    (hreport : ∀ vs, Related R (report vs) (report' vs)) (p : Procedure) :
    Related R (p.run scope set report) (p.run scope' set' report') := by
  induction p with
  | done v => exact .pure v
  | fail reason => exact .fail _
  | report vs next ih => exact .bind (hreport vs) fun _ => ih
  | read x next ih =>
    refine .get_bind fun s t hst => ?_
    rw [hscope s t hst x]
    exact ih _
  | write x v next ih => exact .bind (hset x v) fun dirty => ih dirty

namespace Eval

variable {E : Scope → Scope → Prop} {R : σ → τ → Prop} {h : Host σ} {k : Host τ}

theorem callFunction_related (a : Host.Agree E R h k) (f : Value) (args : List Value) :
    Related R (callFunction h f args) (callFunction k f args) := by
  have hf := callFunction_follows a.follows f args
  rw [funext Value.relocate_refl, List.map_id'] at hf
  exact .of_by hf

theorem value_related (a : Host.Agree E R h k) (source : Nat) (e : Expr) :
    Related R (value h source e) (value k source e) := by
  have he := value_follows a.follows source e
  have hmove : e.move (Relocation.refl.place source) = e := e.move_id
  rw [hmove] at he
  exact (Run.relatedBy_iff Value.relocate_refl).1 he

/-- Scripts go together in hosts that agree. -/
theorem script_related (a : Host.Agree E R h k) (source : Nat) (s : Script) :
    Related R (script h source s) (script k source s) := by
  have hlines : s.lines.map (ScriptLine.move (Relocation.refl.place source)) = s.lines :=
    (congrArg (List.map · s.lines) (funext ScriptLine.move_id)).trans (List.map_id' s.lines)
  have hs := lines_follow a.follows source s.lines
  rw [hlines] at hs
  exact .of_by hs

/-- Templates go together in hosts that agree. -/
theorem template_related (a : Host.Agree E R h k) (source : Nat) (t : Template) :
    Related R (template h source t) (template k source t) := by
  have hbody : Statement.moveBody (Relocation.refl.place source) t.statements = t.statements :=
    Statement.moveBody_id t.statements
  have hb := Env.toplevel_follows (body_follows a.follows source t.statements 0)
  rw [hbody, funext Chunk.relocate_refl] at hb
  exact .bind ((Run.relatedBy_iff List.map_id').1 hb) fun _ => .pure _

end Eval

/-! Properties that evaluation keeps. -/

/-- A host each of whose effects keeps a property of the state. -/
structure Host.Keeps (P : σ → Prop) (h : Host σ) : Prop where
  withScope : ∀ scope s, P s → P (h.withScope scope s)
  notify : ∀ x, Run.Keeps P (h.notify x)
  native : ∀ id args, Run.Keeps P (h.native id args)

namespace Host.Keeps

variable {P : σ → Prop} {h : Host σ}

theorem agree (a : Host.Keeps P h) : Host.Agree Eq (fun s t => s = t ∧ P s) h h where
  congr := .eq
  scope hst := by rw [hst.1]
  withScope := by
    rintro s _ scope _ ⟨rfl, hs⟩ rfl
    exact ⟨rfl, a.withScope scope s hs⟩
  notify x := Run.keeps_iff_related.1 (a.notify x)
  native id args := Run.keeps_iff_related.1 (a.native id args)

theorem write (a : Host.Keeps P h) (put : String → Value → Scope → Scope) (x : String) (v : Value) :
    Run.Keeps P (h.write put x v) :=
  Run.keeps_iff_related.2 (a.agree.write (fun hst _ _ => by rw [hst]) x v)

theorem declare (a : Host.Keeps P h) (x : String) (v : Value) : Run.Keeps P (h.declare x v) :=
  Run.keeps_iff_related.2 (a.agree.declare x v)

theorem callFunction (a : Host.Keeps P h) (f : Value) (args : List Value) :
    Run.Keeps P (Eval.callFunction h f args) :=
  Run.keeps_iff_related.2 (Eval.callFunction_related a.agree f args)

theorem value (a : Host.Keeps P h) (source : Nat) (e : Expr) :
    Run.Keeps P (Eval.value h source e) :=
  Run.keeps_iff_related.2 (Eval.value_related a.agree source e)

theorem script (a : Host.Keeps P h) (source : Nat) (s : Script) :
    Run.Keeps P (Eval.script h source s) :=
  Run.keeps_iff_related.2 (Eval.script_related a.agree source s)

theorem template (a : Host.Keeps P h) (source : Nat) (t : Template) :
    Run.Keeps P (Eval.template h source t) :=
  Run.keeps_iff_related.2 (Eval.template_related a.agree source t)

end Host.Keeps

end LiveMarkup
