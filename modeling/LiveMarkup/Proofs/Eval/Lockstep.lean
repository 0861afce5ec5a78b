import LiveMarkup.Proofs.Eval.Scopes
import LiveMarkup.Proofs.Value.Respect

/-! Evaluation respects what the language respects. Two runs of a program go in lockstep from related local
bindings and related scopes: they end alike, with related results, and leave related scopes. -/

namespace LiveMarkup

open Run (RelatedUpTo)

variable {σ α β : Type} {A : Value → Value → Prop} {N : String → Prop} {R : σ → σ → Prop} {h : Host σ}

/-- In related states names of a kind have related values, or none, and to write related values to them keeps
the states related. So does calling a native function with related arguments, whose results are related. -/
structure Host.Respects (A : Value → Value → Prop) (N : String → Prop) (R : σ → σ → Prop) (h : Host σ) :
    Prop where
  get? : ∀ {s t x}, R s t → N x → Option.Rel A ((h.scope s).get? x) ((h.scope t).get? x)
  set : ∀ {x v w}, N x → A v w → RelatedUpTo Eq R (h.set x v) (h.set x w)
  declare : ∀ {x v w}, N x → A v w → RelatedUpTo Eq R (h.declare x v) (h.declare x w)
  native : ∀ {id vs ws}, A (.native id) (.native id) → List.Forall₂ A vs ws →
    RelatedUpTo A R (h.native id vs) (h.native id ws)

/-- Local bindings that go together as far as names of a kind are concerned. -/
structure Pairing (A : Value → Value → Prop) where
  names : String → Prop
  related : Bindings → Bindings → Prop
  get? : ∀ {bs cs x}, related bs cs → names x → Option.Rel A (bs.get? x) (cs.get? x)
  set? : ∀ {bs cs x v w}, related bs cs → names x → A v w → Option.Rel related (bs.set? x v) (cs.set? x w)

/-- Expressions of a source that may be evaluated with them: they touch no other names, and the lambdas
that they make in it go together. -/
structure Pairing.Admits (F : Pairing A) (N : String → Prop) (source : Nat) (P : Expr → Prop) : Prop where
  parts : ∀ {e part}, P e → part ∈ e.parts → P part
  ownName : ∀ {e x}, P e → x ∈ e.ownName? → F.names x ∧ N x
  lambda : ∀ {arrow params body bs cs}, P (.lambda arrow params body) → F.related bs cs →
    A (.lambda ⟨source, arrow⟩ params body bs) (.lambda ⟨source, arrow⟩ params body cs)

namespace Eval

def bindParams (params : List String) (args : List Value) : Bindings :=
  (params.zipIdx.map fun p => (p.1, args[p.2]?.getD .null)).reverse

end Eval

/-- Functions that go together: the same native function, or lambdas that have the same body to evaluate, which
may be evaluated with the bindings of related arguments before those that were captured. -/
structure Value.Callable (A : Value → Value → Prop) (N : String → Prop) : Prop where
  lambda : ∀ {site params body captured g}, A (.lambda site params body captured) g →
    ∃ captured', g = .lambda site params body captured' ∧
      ∃ (F : Pairing A) (P : Expr → Prop), F.Admits N site.source P ∧ P body ∧
        ∀ {vs ws}, List.Forall₂ A vs ws →
          F.related (Eval.bindParams params vs ++ captured) (Eval.bindParams params ws ++ captured')
  native : ∀ {id g}, A (.native id) g → g = .native id

namespace Run.RelatedUpTo

variable {Q : α → β → Prop}

theorem ofExcept {r : Except EvalError α} {q : Except EvalError β} (h : Outcomes Q r q) :
    RelatedUpTo Q R (Run.ofExcept r) (Run.ofExcept q) := by
  cases h with
  | ok h => exact .pure h
  | error e => exact .throw _

theorem ofStop {r : Except Stop α} {q : Except Stop β} (h : Outcomes Q r q) :
    RelatedUpTo Q R (Run.ofStop r) (Run.ofStop q) := by
  cases h with
  | ok h => exact .pure h
  | error e => exact .throw e

end Run.RelatedUpTo

namespace Env

/-- Environments with related local bindings in related states. -/
structure Beside (F : Pairing A) (R : σ → σ → Prop) (a b : Env σ) : Prop where
  locals : F.related a.locals b.locals
  outer : R a.outer b.outer

variable {F G : Pairing A} {Q : α → β → Prop} {x : String} {v w : Value}

private theorem lift_beside {m : Run σ α} {n : Run σ β} (hm : RelatedUpTo Q R m n) :
    RelatedUpTo Q (Beside F R) (lift m) (lift n) := by
  rw [lift_eq_inside, lift_eq_inside]
  exact hm.inside (fun _ _ h => h.outer) fun _ _ _ _ h hr => ⟨h.locals, hr⟩

private theorem within_beside {m : Run (Env σ) α} {n : Run (Env σ) β} {bs cs : Bindings}
    (hbs : G.related bs cs) (hm : RelatedUpTo Q (Beside G R) m n) :
    RelatedUpTo Q (Beside F R) (within bs m) (within cs n) := by
  rw [within_eq_inside, within_eq_inside]
  exact hm.inside (fun _ _ h => ⟨hbs, h.outer⟩) fun _ _ _ _ h hr => ⟨h.locals, hr.outer⟩

theorem toplevel_beside {m : Run (Env σ) α} {n : Run (Env σ) β} (hnil : F.related [] [])
    (hm : RelatedUpTo Q (Beside F R) m n) : RelatedUpTo Q R (toplevel m) (toplevel n) := by
  rw [toplevel_eq_inside, toplevel_eq_inside]
  exact hm.inside (fun _ _ hst => ⟨hnil, hst⟩) fun _ _ _ _ _ hr => hr.outer

private theorem get?_beside (hh : h.Respects A N R) (hx : F.names x ∧ N x) :
    RelatedUpTo (Option.Rel A) (Beside F R) (get? h x) (get? h x) := by
  refine .get_bind fun a b hab => .pure ?_
  have hlocal := F.get? hab.locals hx.1
  generalize a.locals.get? x = v at hlocal ⊢
  generalize b.locals.get? x = w at hlocal ⊢
  cases hlocal with
  | some hvw => exact .some hvw
  | none => exact hh.get? hab.outer hx.2

private theorem assign_beside (hh : h.Respects A N R) (hx : F.names x ∧ N x) (hvw : A v w) :
    RelatedUpTo Eq (Beside F R) (assign h x v) (assign h x w) := by
  refine .get_bind fun a b hab => ?_
  have hlocal := F.set? hab.locals hx.1 hvw
  generalize a.locals.set? x v = bs at hlocal ⊢
  generalize b.locals.set? x w = cs at hlocal ⊢
  cases hlocal with
  | some hlocals => exact fun _ _ _ => .ok rfl ⟨hlocals, hab.outer⟩
  | none => exact (lift_beside (hh.set hx.2 hvw)).bind fun _ _ _ => .pure rfl

end Env

namespace Eval

open Env (Beside)

/-- All runs of an expression go in lockstep, with any local bindings that it may be evaluated with. -/
def Lockstep (A : Value → Value → Prop) (N : String → Prop) (R : σ → σ → Prop) (eval : Meaning σ) : Prop :=
  ∀ (F : Pairing A) (source : Nat) (P : Expr → Prop), F.Admits N source P → ∀ e, P e →
    RelatedUpTo A (Beside F R) (eval source e) (eval source e)

section Meanings

variable {eval : Meaning σ} {F : Pairing A} (hA : Value.Respected A) (hc : Value.Callable A N)
  (hh : h.Respects A N R) (he : Lockstep A N R eval)

include hA hc hh he in
theorem call_lockstep {f g : Value} {vs ws : List Value} (hfg : A f g) (hvs : List.Forall₂ A vs ws) :
    RelatedUpTo A (Beside F R) (call h eval f vs) (call h eval g ws) := by
  cases hf : f.isFunction with
  | false =>
    rw [call_of_not_isFunction hf, call_of_not_isFunction ((hA.isFunction hfg).symm.trans hf), hA.shown hfg]
    exact .throw _
  | true =>
    cases f with
    | lambda site params body captured =>
      obtain ⟨captured', rfl, G, P, hadmits, hbody, hbound⟩ := hc.lambda hfg
      exact Env.within_beside (hbound hvs) (he G site.source P hadmits body hbody)
    | native id =>
      obtain rfl := hc.native hfg
      exact Env.lift_beside (hh.native hfg hvs)
    | _ => cases hf

private theorem evalItems_lockstep {eval : Expr → Run (Env σ) Value} {es : List Expr}
    (he : ∀ e ∈ es, RelatedUpTo A (Beside F R) (eval e) (eval e)) :
    RelatedUpTo (List.Forall₂ A) (Beside F R) (evalItems eval es) (evalItems eval es) := by
  induction es with
  | nil => exact .pure .nil
  | cons e es ih =>
    obtain ⟨hfirst, hrest⟩ := List.forall_mem_cons.1 he
    exact hfirst.bind fun _ _ hv => (ih hrest).bind fun _ _ hvs => .pure (.cons hv hvs)

private theorem evalEntries_lockstep {eval : Expr → Run (Env σ) Value} {es : List (String × Expr)}
    (he : ∀ e ∈ es.map (·.2), RelatedUpTo A (Beside F R) (eval e) (eval e)) :
    RelatedUpTo (Bindings.Along A) (Beside F R) (evalEntries eval es) (evalEntries eval es) := by
  induction es with
  | nil => exact .pure .nil
  | cons e es ih =>
    obtain ⟨hfirst, hrest⟩ := List.forall_mem_cons.1 he
    exact hfirst.bind fun _ _ hv => (ih hrest).bind fun _ _ hvs => .pure (.cons ⟨rfl, hv⟩ hvs)

include hA

private theorem orNull_lockstep {m n : Run (Env σ) Value} (hm : RelatedUpTo A (Beside F R) m n) :
    RelatedUpTo A (Beside F R) (orNull m) (orNull n) := by
  refine .tryCatch hm fun e => ?_
  split
  · exact .pure (hA.literal .null)
  · exact .throw _

section Elements

variable {f g : List Value → Run (Env σ) Value} {vs ws : List Value}
  (hf : ∀ {vs ws}, List.Forall₂ A vs ws → RelatedUpTo A (Beside F R) (f vs) (g ws))

private theorem along_position {v w : Value} (hvw : A v w) (i : Nat) :
    List.Forall₂ A [v, .int (Int64.ofNat i)] [w, .int (Int64.ofNat i)] :=
  .cons hvw (.cons (hA.literal (.int _)) .nil)

include hf

private theorem mapItems_lockstep (hvs : List.Forall₂ A vs ws) (i : Nat) :
    RelatedUpTo (List.Forall₂ A) (Beside F R) (mapItems f i vs) (mapItems g i ws) := by
  induction hvs generalizing i with
  | nil => exact .pure .nil
  | cons hv _ ih =>
    exact (hf (along_position hA hv i)).bind fun _ _ hw => (ih (i + 1)).bind fun _ _ hws => .pure (.cons hw hws)

private theorem filterItems_lockstep (hvs : List.Forall₂ A vs ws) (i : Nat) :
    RelatedUpTo (List.Forall₂ A) (Beside F R) (filterItems f i vs) (filterItems g i ws) := by
  induction hvs generalizing i with
  | nil => exact .pure .nil
  | cons hv _ ih =>
    refine (hf (along_position hA hv i)).bind fun _ _ hkeep => (ih (i + 1)).bind fun _ _ hkept => .pure ?_
    rw [hA.truthy hkeep]
    split
    · exact .cons hv hkept
    · exact hkept

end Elements

include hc hh he

private theorem invoke_lockstep {v w : Value} {vs ws : List Value} (hvw : A v w)
    (hvs : List.Forall₂ A vs ws) (name : String) :
    RelatedUpTo A (Beside F R) (invoke h eval v name vs) (invoke h eval w name ws) := by
  refine (RelatedUpTo.ofExcept (hA.invoke name hvw hvs)).bind fun r q hrq => ?_
  cases hrq with
  | value h => exact .pure h
  | mapping hf hi =>
    exact (mapItems_lockstep hA (call_lockstep hA hc hh he hf) hi 0).bind fun _ _ hvs => .pure (hA.list hvs)
  | filtering hf hi =>
    exact (filterItems_lockstep hA (call_lockstep hA hc hh he hf) hi 0).bind fun _ _ hvs => .pure (hA.list hvs)

private theorem memberOf_lockstep {v w : Value} (hvw : A v w) (name : String) :
    RelatedUpTo A (Beside F R) (memberOf h eval v name) (memberOf h eval w name) := by
  unfold memberOf
  have hfield := hA.field? name hvw
  generalize v.field? name = a at hfield ⊢
  generalize w.field? name = b at hfield ⊢
  cases hfield with
  | some h => exact .pure h
  | none => exact invoke_lockstep hA hc hh he hvw .nil name

omit hc hh he in
private theorem accessName_lockstep {v w : Value} (hvw : A v w) :
    RelatedUpTo Eq (Beside F R) (accessName v : Run (Env σ) String) (accessName w) := by
  have heq : (accessName v : Run (Env σ) String) = accessName w := by
    cases v with
    | string s => rw [(hA.string hvw).1 rfl]
    | int n => rw [(hA.int hvw).1 rfl]
    | _ =>
      cases w with
      | string s => cases (hA.string hvw).2 rfl
      | int n => cases (hA.int hvw).2 rfl
      | _ => exact congrArg (fun s => Run.fail (.badMemberName s)) (hA.shown hvw)
  rw [heq]
  cases w with
  | string s => exact .pure rfl
  | int n => exact .pure rfl
  | _ => exact .throw _

/-- Calling what an expression evaluates to, the arguments being evaluated only if it is a function. -/
private theorem apply_lockstep {f g : Value} {es : List Expr} {source : Nat} (hfg : A f g)
    (hes : ∀ e ∈ es, RelatedUpTo A (Beside F R) (eval source e) (eval source e)) :
    RelatedUpTo A (Beside F R)
      (if f.isFunction then evalItems (eval source) es >>= call h eval f else Run.fail (.notCallable f.shown))
      (if g.isFunction then evalItems (eval source) es >>= call h eval g
        else Run.fail (.notCallable g.shown)) := by
  rw [hA.isFunction hfg, hA.shown hfg]
  split
  · exact (evalItems_lockstep hes).bind fun _ _ hvs => call_lockstep hA hc hh he hfg hvs
  · exact .throw _

omit hc hh he in
private theorem choice_lockstep {v w : Value} (hvw : A v w) {yes yes' no no' : Run (Env σ) Value}
    (hy : RelatedUpTo A (Beside F R) yes yes') (hn : RelatedUpTo A (Beside F R) no no') :
    RelatedUpTo A (Beside F R) (if v.truthy then yes else no) (if w.truthy then yes' else no') := by
  rw [hA.truthy hvw]
  split
  · exact hy
  · exact hn

omit hc hh he in
/-- A name that has no value is that of a global function. -/
private theorem global_lockstep {es : List Expr} {source : Nat} (x : String)
    (hes : ∀ e ∈ es, RelatedUpTo A (Beside F R) (eval source e) (eval source e)) :
    RelatedUpTo A (Beside F R)
      (do let args ← evalItems (if x = "default" then fun e => orNull (eval source e) else eval source) es
          match Value.global? x args with
          | some v => return v
          | none => Run.fail (.undefinedVariable x))
      (do let args ← evalItems (if x = "default" then fun e => orNull (eval source e) else eval source) es
          match Value.global? x args with
          | some v => return v
          | none => Run.fail (.undefinedVariable x)) := by
  refine (evalItems_lockstep fun e hmem => ?_).bind fun vs ws hvs => ?_
  · split
    · exact orNull_lockstep hA (hes e hmem)
    · exact hes e hmem
  · have hglobal := hA.global? x hvs
    generalize Value.global? x vs = a at hglobal ⊢
    generalize Value.global? x ws = b at hglobal ⊢
    cases hglobal with
    | some h => exact .pure h
    | none => exact .throw _

/-- What goes in lockstep for the parts of an expression and for the bodies of functions does so for the
expression. -/
private theorem step_lockstep : Lockstep A N R (step h eval) := by
  intro F source P hP e hPe
  have hparts (part : Expr) (hpart : part ∈ e.parts) :
      RelatedUpTo A (Beside F R) (eval source part) (eval source part) :=
    he F source P hP part (hP.parts hPe hpart)
  cases e with
  | literal l => exact .pure (hA.literal l)
  | name x =>
    refine (Env.get?_beside hh (hP.ownName hPe rfl)).bind fun a b hab => ?_
    cases hab with
    | some hvw => exact .pure hvw
    | none =>
      have hglobal := hA.global? x .nil
      generalize Value.global? x [] = a at hglobal ⊢
      cases hglobal with
      | some h => exact .pure h
      | none => exact .throw _
  | binary op left right =>
    have hleft := hparts left (by simp [Expr.parts])
    have hright := hparts right (by simp [Expr.parts])
    cases op with
    | and => exact hleft.bind fun _ _ hv => choice_lockstep hA hv hright (.pure hv)
    | or => exact hleft.bind fun _ _ hv => choice_lockstep hA hv (.pure hv) hright
    | _ => exact hleft.bind fun _ _ hv => hright.bind fun _ _ hw => .ofStop (hA.binary _ hv hw)
  | unary op operand =>
    exact (hparts operand (by simp [Expr.parts])).bind fun _ _ hv => .pure (hA.unary op hv)
  | list items => exact (evalItems_lockstep hparts).bind fun _ _ hvs => .pure (hA.list hvs)
  | hash entries => exact (evalEntries_lockstep hparts).bind fun _ _ hes => .pure (hA.hash hes)
  | member target name =>
    exact (hparts target (by simp [Expr.parts])).bind fun _ _ hv => memberOf_lockstep hA hc hh he hv name
  | index target key =>
    refine (hparts target (by simp [Expr.parts])).bind fun _ _ hv =>
      (hparts key (by simp [Expr.parts])).bind fun _ _ hk =>
        (accessName_lockstep hA hk).bind fun name name' hname => ?_
    exact hname ▸ memberOf_lockstep hA hc hh he hv name
  | method target name args =>
    refine (hparts target List.mem_cons_self).bind fun v w hv =>
      (evalItems_lockstep fun e hmem => hparts e (List.mem_cons_of_mem _ hmem)).bind fun vs ws hvs => ?_
    have hfield := hA.field? name hv
    generalize v.field? name = a at hfield ⊢
    generalize w.field? name = b at hfield ⊢
    cases hfield with
    | some hfg =>
      dsimp only
      rw [hA.isFunction hfg]
      split
      · exact call_lockstep hA hc hh he hfg hvs
      · exact .throw _
    | none => exact invoke_lockstep hA hc hh he hv hvs name
  | call callee args =>
    have hargs (e : Expr) (hmem : e ∈ args) := hparts e (List.mem_cons_of_mem _ hmem)
    cases callee with
    | name x =>
      have hx : F.names x ∧ N x := hP.ownName (hP.parts hPe List.mem_cons_self) rfl
      refine (Env.get?_beside hh hx).bind fun a b hab => ?_
      cases hab with
      | some hfg => exact apply_lockstep hA hc hh he hfg hargs
      | none => exact global_lockstep hA x hargs
    | _ => exact (hparts _ List.mem_cons_self).bind fun _ _ hfg => apply_lockstep hA hc hh he hfg hargs
  | cond test yes no =>
    exact (hparts test (by simp [Expr.parts])).bind fun _ _ hv =>
      choice_lockstep hA hv (hparts yes (by simp [Expr.parts])) (hparts no (by simp [Expr.parts]))
  | lambda arrow params body => exact .get_bind fun _ _ hab => .pure (hP.lambda hPe hab.locals)
  | assign x op value =>
    have hx : F.names x ∧ N x := hP.ownName hPe rfl
    have hlast {v w : Value} (hvw : A v w) : RelatedUpTo A (Beside F R)
        (do Env.assign h x v; return v) (do Env.assign h x w; return w) :=
      (Env.assign_beside hh hx hvw).bind fun _ _ _ => .pure hvw
    refine (hparts value (by simp [Expr.parts])).bind fun v w hvw => ?_
    cases op with
    | none => exact hlast hvw
    | some op =>
      refine (Env.get?_beside hh hx).bind fun a b hab => ?_
      cases hab with
      | none => exact RelatedUpTo.bind (Q := A) (.throw _) fun _ _ => hlast
      | some hcurrent => exact (RelatedUpTo.ofStop (hA.binary _ hcurrent hvw)).bind fun _ _ => hlast
  | count x step before =>
    have hx : F.names x ∧ N x := hP.ownName hPe rfl
    refine (Env.get?_beside hh hx).bind fun a b hab => ?_
    cases hab with
    | none => exact .throw _
    | some hcurrent =>
      refine (RelatedUpTo.ofStop (hA.binary _ hcurrent (hA.literal (.int 1)))).bind fun _ _ hnext =>
        (Env.assign_beside hh hx hnext).bind fun _ _ _ => .pure ?_
      cases before with
      | true => exact hnext
      | false => exact hcurrent

end Meanings

/-- The induction is on how deep expressions may refer to one another, as functions may call themselves. -/
theorem expr_lockstep (hA : Value.Respected A) (hc : Value.Callable A N) (hh : h.Respects A N R) (fuel : Nat) :
    Lockstep A N R (expr h fuel) := by
  induction fuel with
  | zero => exact fun _ _ _ _ _ _ => .throw _
  | succ fuel ih => exact step_lockstep hA hc hh ih

end Eval

/-! Bindings that go together one by one, also while further names are bound, as loops do. -/

section Aligned

variable {A : Value → Value → Prop} {bs cs : Bindings} {v w : Value}

namespace Bindings.Along

theorem get? (h : Along A bs cs) (x : String) : Option.Rel A (bs.get? x) (cs.get? x) := by
  induction h with
  | nil => exact .none
  | @cons b c bs cs hbc _ ih =>
    obtain ⟨hname, hvalue⟩ := hbc
    rw [Bindings.get?, Bindings.get?, hname]
    split
    · exact .some hvalue
    · exact ih

theorem set? (h : Along A bs cs) (x : String) (hvw : A v w) :
    Option.Rel (Along A) (bs.set? x v) (cs.set? x w) := by
  induction h with
  | nil => exact .none
  | @cons b c bs cs hbc hrest ih =>
    obtain ⟨hname, hvalue⟩ := hbc
    rw [Bindings.set?, Bindings.set?, hname]
    split
    · exact .some (.cons ⟨rfl, hvw⟩ hrest)
    · generalize Bindings.set? x v bs = a at ih ⊢
      generalize Bindings.set? x w cs = b at ih ⊢
      cases ih with
      | some h => exact .some (.cons ⟨rfl, hvalue⟩ h)
      | none => exact .none

theorem erase (h : Along A bs cs) (x : String) : Along A (bs.erase x) (cs.erase x) := by
  unfold Bindings.erase
  induction h with
  | nil => exact .nil
  | @cons b c _ _ hbc _ ih =>
    rw [List.filter_cons, List.filter_cons, hbc.1]
    split
    · exact .cons hbc ih
    · exact ih

end Bindings.Along

namespace Eval

variable {vs ws : List Value}

private theorem rel_getElem? (h : List.Forall₂ A vs ws) (i : Nat) : Option.Rel A vs[i]? ws[i]? := by
  induction h generalizing i with
  | nil => exact .none
  | cons hvw _ ih =>
    cases i with
    | zero => exact .some hvw
    | succ i => exact ih i

theorem bindParams_along (hnull : A .null .null) (params : List String) (h : List.Forall₂ A vs ws) :
    Bindings.Along A (bindParams params vs) (bindParams params ws) := by
  refine List.forall₂_reverse_iff.2 (List.forall₂_map_left_iff.2 (List.forall₂_map_right_iff.2 ?_))
  refine List.forall₂_same.2 fun p _ => ⟨rfl, ?_⟩
  have hargument := rel_getElem? h p.2
  generalize vs[p.2]? = a at hargument ⊢
  generalize ws[p.2]? = b at hargument ⊢
  cases hargument with
  | some h => exact h
  | none => exact hnull

end Eval

def Pairing.aligned (A : Value → Value → Prop) : Pairing A where
  names _ := True
  related := Bindings.Along A
  get? h _ := h.get? _
  set? h _ hvw := h.set? _ hvw

namespace Env

open Run (RelatedUpTo)

variable {σ α β : Type} {R : σ → σ → Prop}

/-- Bindings that go together are put in front, and as many are dropped afterwards. -/
theorem binding_beside {Q : α → β → Prop} {m : Run (Env σ) α} {n : Run (Env σ) β}
    (hbs : Bindings.Along A bs cs) (hm : RelatedUpTo Q (Beside (.aligned A) R) m n) :
    RelatedUpTo Q (Beside (.aligned A) R) (binding bs m) (binding cs n) := by
  rw [binding_eq_inside, binding_eq_inside]
  refine hm.inside (fun _ _ hst => ⟨List.rel_append hbs hst.locals, hst.outer⟩) fun _ _ _ _ _ hr => ?_
  exact ⟨hbs.length_eq ▸ List.forall₂_drop _ hr.locals, hr.outer⟩

end Env

end Aligned

end LiveMarkup
