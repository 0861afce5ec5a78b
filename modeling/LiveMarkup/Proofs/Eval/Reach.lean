import LiveMarkup.Proofs.Eval.Lockstep
import LiveMarkup.Proofs.Expr.Names

/-! Expressions depend on the names that they mention, and on nothing else. Two runs of one expression go
together from scopes that agree within its reach. The functions that a program makes stay in its reach: in
the scope, in lists and hashes and in what other functions have captured, all mention no other names. -/

namespace LiveMarkup

open Run (RelatedIn RelatedUpTo)

/-- What a program may get hold of: properties by their names and native functions by their numbers. -/
structure Reach where
  names : String → Prop
  natives : Nat → Prop

variable {σ α : Type} {N : Reach} {R : σ → σ → Prop} {h : Host σ}

abbrev Value.Mentions (N : Reach) (v : Value) : Prop := v.Confined (Expr.Within N.names) N.natives

def Bindings.Mention (N : Reach) (bs : Bindings) : Prop := ∀ b ∈ bs, b.2.Mentions N

/-- A host in which runs cannot be told apart within reach: they read the same there, what they write there
goes together, and so does what native functions do. -/
structure Host.Veils (N : Reach) (R : σ → σ → Prop) (h : Host σ) : Prop where
  get? : ∀ {s t}, R s t → ∀ x, N.names x → (h.scope s).get? x = (h.scope t).get? x
  mentions : ∀ {s t}, R s t → ∀ x, N.names x → ∀ v ∈ (h.scope t).get? x, v.Mentions N
  set : ∀ x v, N.names x → v.Mentions N → RelatedIn (fun _ => True) R (h.set x v) (h.set x v)
  declare : ∀ x v, N.names x → v.Mentions N → RelatedIn (fun _ => True) R (h.declare x v) (h.declare x v)
  native : ∀ id args, N.natives id → (∀ v ∈ args, v.Mentions N) →
    RelatedIn (Value.Mentions N) R (h.native id args) (h.native id args)

/-- What a native function does stays within reach: the properties that it reads and writes, and the values
that it writes and returns. -/
inductive Procedure.Mentions (N : Reach) : Procedure → Prop where
  | done {v : Value} (h : v.Mentions N) : Mentions N (.done v)
  | fail (reason : String) : Mentions N (.fail reason)
  | report (values : List Value) {next : Procedure} (h : Mentions N next) :
    Mentions N (.report values next)
  | read {x : String} {next : Option Value → Procedure} (hx : N.names x)
    (h : ∀ o, (∀ v ∈ o, Value.Mentions N v) → Mentions N (next o)) : Mentions N (.read x next)
  | write {x : String} {v : Value} {next : Bool → Procedure} (hx : N.names x) (hv : v.Mentions N)
    (h : ∀ dirty, Mentions N (next dirty)) : Mentions N (.write x v next)

/-- Native functions that stay within reach go together. -/
theorem Procedure.Mentions.run_coincides {f : Procedure} (hf : f.Mentions N) (hh : h.Veils N R)
    {report : List Value → Run σ Unit}
    (hr : ∀ vs, RelatedIn (fun _ => True) R (report vs) (report vs)) :
    RelatedIn (Value.Mentions N) R (f.run h.scope h.set report) (f.run h.scope h.set report) := by
  induction hf with
  | done hv => exact .pure hv
  | fail reason => exact .fail _
  | report values _ ih => exact (hr values).bind fun _ _ => ih
  | read hx _ ih =>
    refine .get_bind fun s t hst => ?_
    rw [hh.get? hst _ hx]
    exact ih _ (hh.mentions hst _ hx)
  | write hx hv _ ih => exact (hh.set _ _ hx hv).bind fun dirty _ => ih dirty

namespace Env

/-- Environments in related states with the same local bindings. -/
structure Twins (N : Reach) (R : σ → σ → Prop) (a b : Env σ) : Prop where
  locals : a.locals = b.locals
  mention : b.locals.Mention N
  outer : R a.outer b.outer

/-- That is, with local bindings that go together one by one. -/
theorem twins_eq_beside : Twins N R = Beside (.aligned fun v w => v = w ∧ w.Mentions N) R := by
  funext a b
  refine propext ⟨fun h => ⟨Value.along_kind_iff.2 ⟨h.locals, h.mention⟩, h.outer⟩, fun h => ?_⟩
  obtain ⟨hlocals, hmention⟩ := Value.along_kind_iff.1 h.locals
  exact ⟨hlocals, hmention, h.outer⟩

variable {Q : α → α → Prop} {m n : Run (Env σ) α}

theorem toplevel_coincides (hm : RelatedUpTo Q (Twins N R) m n) :
    RelatedUpTo Q R (toplevel m) (toplevel n) := by
  rw [twins_eq_beside] at hm
  exact toplevel_beside (F := .aligned _) List.Forall₂.nil hm

end Env

/-! Runs that stay within reach go in lockstep. -/

namespace Value

theorem mentions_respected (N : Reach) : Respected fun v w => v = w ∧ w.Mentions N := confined_respected _ _

/-- Functions that are made within reach stay there. -/
private theorem mentions_admits (N : Reach) (source : Nat) :
    (Pairing.aligned fun v w => v = w ∧ w.Mentions N).Admits N.names source (Expr.Within N.names) where
  parts h hpart x hx := h x (Expr.mem_names_of_part hpart hx)
  ownName h hx := ⟨trivial, h _ (Expr.mem_names_of_ownName? hx)⟩
  lambda h hrelated := by
    obtain ⟨rfl, hmention⟩ := along_kind_iff.1 hrelated
    exact ⟨rfl, .lambda _ _ h hmention⟩

private theorem mentions_callable (N : Reach) :
    Callable (fun v w => v = w ∧ w.Mentions N) N.names where
  lambda {site params body captured g} h := by
    obtain ⟨rfl, h⟩ := h
    cases h with
    | lambda _ _ hb hc =>
      refine ⟨captured, rfl, .aligned _, _, mentions_admits N _, hb, fun hvs => ?_⟩
      exact List.rel_append (Eval.bindParams_along ⟨rfl, .null⟩ params hvs) (along_kind_iff.2 ⟨rfl, hc⟩)
  native h := h.1.symm

end Value

private theorem Host.Veils.respects (hh : h.Veils N R) :
    h.Respects (fun v w => v = w ∧ w.Mentions N) N.names R where
  get? {s t x} hst hx := by
    rw [hh.get? hst x hx]
    exact Value.rel_kind (hh.mentions hst x hx)
  set hx hvw := hvw.1 ▸ (hh.set _ _ hx hvw.2).mono fun _ _ h => h.1
  declare hx hvw := hvw.1 ▸ (hh.declare _ _ hx hvw.2).mono fun _ _ h => h.1
  native hid hvs := by
    obtain ⟨rfl, hvs⟩ := Value.forall₂_kind_iff.1 hvs
    cases hid.2 with
    | native hid => exact hh.native _ _ hid hvs

namespace Eval

open Env (Twins)

/-- All runs of an expression that mentions names of a kind only go together. -/
theorem expr_coincides (hh : h.Veils N R) (fuel source : Nat) (e : Expr) (hN : e.Within N.names) :
    RelatedIn (Value.Mentions N) (Twins N R) (expr h fuel source e) (expr h fuel source e) := by
  rw [Env.twins_eq_beside]
  exact expr_lockstep (Value.mentions_respected N) (Value.mentions_callable N) hh.respects fuel (.aligned _)
    source _ (Value.mentions_admits N source) e hN

theorem value_coincides (hh : h.Veils N R) {e : Expr} (hN : e.Within N.names) (source : Nat) :
    RelatedIn (Value.Mentions N) R (value h source e) (value h source e) :=
  Env.toplevel_coincides (expr_coincides hh _ source e hN)

end Eval

end LiveMarkup
