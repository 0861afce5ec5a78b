import LiveMarkup.Proofs.Eval.Library
import LiveMarkup.Proofs.Eval.Relocate
import LiveMarkup.Proofs.Eval.Shown

/-! Whole programs in lockstep: templates, whose loops bind further names for a while, scripts, tags and calls
from outside. They go so in hosts that are uniform in values: whatever relation of values the language respects,
what these do with related values leaves related states. They can do no more with functions than programs can. -/

namespace LiveMarkup

open Run (RelatedUpTo)

variable {σ : Type} {A : Value → Value → Prop}

/-- Two scopes with the same properties, public and internal ones in the same order, that have related
values. -/
structure Scope.Along (A : Value → Value → Prop) (a b : Scope) : Prop where
  shown : Bindings.Along A a.shown b.shown
  internal : Bindings.Along A a.internal b.internal

namespace Scope.Along

variable {a b : Scope} {v w : Value}

private theorem imp {B : Value → Value → Prop} (h : a.Along A b) (hAB : ∀ v w, A v w → B v w) :
    a.Along B b :=
  ⟨h.shown.imp fun _ _ h => ⟨h.1, hAB _ _ h.2⟩, h.internal.imp fun _ _ h => ⟨h.1, hAB _ _ h.2⟩⟩

private theorem same (hA : ∀ v, A v v) (s : Scope) : s.Along A s :=
  ⟨List.forall₂_same.2 fun b _ => ⟨rfl, hA b.2⟩, List.forall₂_same.2 fun b _ => ⟨rfl, hA b.2⟩⟩

theorem get? (h : a.Along A b) (x : String) : Option.Rel A (a.get? x) (b.get? x) := by
  have hshown := h.shown.get? x
  unfold Scope.get?
  generalize Bindings.get? x a.shown = c at hshown ⊢
  generalize Bindings.get? x b.shown = d at hshown ⊢
  cases hshown with
  | some h => exact .some h
  | none => exact h.internal.get? x

private theorem put (h : a.Along A b) (x : String) (hvw : A v w) :
    (a.put x v).Along A (b.put x w) := by
  have hshown := h.shown.set? x hvw
  have hinternal := h.internal.set? x hvw
  unfold Scope.put
  generalize Bindings.set? x v a.shown = c at hshown ⊢
  generalize Bindings.set? x w b.shown = d at hshown ⊢
  cases hshown with
  | some hset => exact ⟨hset, h.internal⟩
  | none =>
    generalize Bindings.set? x v a.internal = c at hinternal ⊢
    generalize Bindings.set? x w b.internal = d at hinternal ⊢
    cases hinternal with
    | some hset => exact ⟨h.shown, hset⟩
    | none => exact ⟨h.shown, List.rel_append h.internal (.cons ⟨rfl, hvw⟩ .nil)⟩

private theorem putPublic (h : a.Along A b) (x : String) (hvw : A v w) :
    (a.putPublic x v).Along A (b.putPublic x w) := by
  have hshown := h.shown.set? x hvw
  unfold Scope.putPublic
  generalize Bindings.set? x v a.shown = c at hshown ⊢
  generalize Bindings.set? x w b.shown = d at hshown ⊢
  cases hshown with
  | some hset => exact ⟨hset, h.internal⟩
  | none => exact ⟨List.rel_append h.shown (.cons ⟨rfl, hvw⟩ .nil), h.internal.erase x⟩

private theorem isDirty (hA : Value.Respected A) {c d : Option Value} (hcd : Option.Rel A c d)
    (hvw : A v w) :
    Scope.isDirty c v = Scope.isDirty d w := by
  cases hcd with
  | some h => rw [Scope.isDirty, Scope.isDirty, hA.isComposite hvw, hA.same h hvw]
  | none => rfl

end Scope.Along

/-- For every relation of values there is one of states, in which the scopes go together, and which
notifications and native functions keep if the language respects the relation of values. -/
structure Host.Uniform (R : (Value → Value → Prop) → σ → σ → Prop) (h : Host σ) : Prop where
  refl : ∀ {A}, (∀ v, A v v) → ∀ s, R A s s
  mono : ∀ {A B s t}, (∀ v w, A v w → B v w) → R A s t → R B s t
  scope : ∀ {A s t}, R A s t → (h.scope s).Along A (h.scope t)
  withScope : ∀ {A s t a b}, R A s t → a.Along A b → R A (h.withScope a s) (h.withScope b t)
  notify : ∀ {A}, Value.Respected A → ∀ x, RelatedUpTo Eq (R A) (h.notify x) (h.notify x)
  native : ∀ {A}, Value.Respected A → ∀ id {vs ws}, List.Forall₂ A vs ws →
    RelatedUpTo A (R A) (h.native id vs) (h.native id ws)

namespace Host.Uniform

variable {R : (Value → Value → Prop) → σ → σ → Prop} {h : Host σ} {v w : Value}

/-- Writes of related values go together, whatever is stored where. -/
private theorem write (hh : h.Uniform R) (hA : Value.Respected A)
    {put : String → Value → Scope → Scope} {x : String} (hvw : A v w)
    (hput : ∀ {a b : Scope}, a.Along A b → (put x v a).Along A (put x w b)) :
    RelatedUpTo Eq (R A) (h.write put x v) (h.write put x w) := by
  refine .get_bind fun s t hst => ?_
  have hscope := hh.scope hst
  refine RelatedUpTo.bind (Q := Eq) (fun _ _ hst => .ok rfl (hh.withScope hst (hput hscope))) fun _ _ _ => ?_
  rw [Scope.Along.isDirty hA (hscope.get? x) hvw]
  dsimp only
  split
  · exact (hh.notify hA x).bind fun _ _ _ => .pure rfl
  · exact .pure rfl

theorem set (hh : h.Uniform R) (hA : Value.Respected A) (x : String) (hvw : A v w) :
    RelatedUpTo Eq (R A) (h.set x v) (h.set x w) := hh.write hA hvw fun hab => hab.put x hvw

theorem setPublic (hh : h.Uniform R) (hA : Value.Respected A) (x : String) (hvw : A v w) :
    RelatedUpTo Eq (R A) (h.setPublic x v) (h.setPublic x w) := hh.write hA hvw fun hab => hab.putPublic x hvw

/-- The language cannot tell apart what runs in related states. -/
theorem respects (hh : h.Uniform R) (hA : Value.Respected A) : h.Respects A (fun _ => True) (R A) where
  get? hst _ := (hh.scope hst).get? _
  set _ hvw := hh.set hA _ hvw
  declare _ hvw _ _ hst := .ok rfl (hh.withScope hst ((hh.scope hst).put _ hvw))
  native _ hvs := hh.native hA _ hvs

end Host.Uniform

namespace Observed

/-- The same properties with related values, and the same notes. -/
structure Along (A : Value → Value → Prop) (s t : Observed) : Prop where
  scope : s.scope.Along A t.scope
  notes : s.notes = t.notes

/-- The induction is on how deep listeners may tell one another of their writes. -/
theorem host_uniform (listeners : List Listener) (depth : Nat) : (host listeners depth).Uniform Along := by
  have hrefl {A : Value → Value → Prop} (hA : ∀ v, A v v) (s : Observed) : s.Along A s := ⟨.same hA _, rfl⟩
  have hmono {A B : Value → Value → Prop} {s t : Observed} (hAB : ∀ v w, A v w → B v w) (h : s.Along A t) :
      s.Along B t := ⟨h.scope.imp hAB, h.notes⟩
  have hnative {A : Value → Value → Prop} (hA : Value.Respected A) :
      RelatedUpTo A (Along A) (pure Value.null : Run Observed Value) (pure .null) := .pure (hA.literal .null)
  induction depth with
  | zero =>
    exact ⟨hrefl, hmono, Along.scope, fun hst hab => ⟨hab, hst.notes⟩, fun _ _ => .throw _,
      fun hA _ _ _ _ => hnative hA⟩
  | succ depth ih =>
    refine ⟨hrefl, hmono, Along.scope, fun hst hab => ⟨hab, hst.notes⟩, fun hA x => ?_,
      fun hA _ _ _ _ => hnative hA⟩
    exact listeners_upTo (fun x _ _ hvw => ih.set hA x hvw) (fun hst x => hst.scope.get? x)
      (fun hst n => ⟨hst.scope, congrArg (List.cons n) hst.notes⟩) x listeners

end Observed

section Programs

variable {R : σ → σ → Prop} {h : Host σ} {P : Expr → Prop}

namespace Statement

private theorem exprsOfBody_eq (ss : List Statement) : exprsOfBody ss = ss.flatMap exprs := by
  induction ss with
  | nil => rfl
  | cons s ss ih => rw [exprsOfBody, ih, List.flatMap_cons]

private theorem exprsOfBranches_eq (bs : List (Expr × List Statement)) :
    exprsOfBranches bs = bs.flatMap fun b => b.1 :: exprsOfBody b.2 := by
  induction bs with
  | nil => rfl
  | cons b bs ih => rw [exprsOfBranches, ih, List.flatMap_cons, List.cons_append]

private theorem exprs_closed (P : Expr → Prop) : Closed (fun st => ∀ e ∈ st.exprs, P e) P P where
  value h := List.forall_mem_singleton.1 h
  each h := by
    rw [exprs, exprsOfBody_eq, List.forall_mem_cons, List.forall_mem_flatMap] at h
    exact h
  cond {branches otherwise} h := by
    rw [exprs, exprsOfBranches_eq, List.forall_mem_append, List.forall_mem_flatMap] at h
    refine ⟨fun b hb => ?_, ?_⟩
    · have hb := h.1 b hb
      rw [exprsOfBody_eq, List.forall_mem_cons, List.forall_mem_flatMap] at hb
      exact hb
    · rintro body ⟨⟩
      have hbody := h.2
      rw [exprsOfOtherwise, exprsOfBody_eq, List.forall_mem_flatMap] at hbody
      exact hbody

end Statement

namespace Eval

/-! Runs without local bindings. -/

variable {source : Nat} (hA : Value.Respected A) (hc : Value.Callable A fun _ => True)
  (hh : h.Respects A (fun _ => True) R)

include hA hc hh

theorem callFunction_lockstep {f g : Value} {vs ws : List Value} (hfg : A f g) (hvs : List.Forall₂ A vs ws) :
    RelatedUpTo A R (callFunction h f vs) (callFunction h g ws) :=
  Env.toplevel_beside (F := .aligned A) List.Forall₂.nil
    (call_lockstep hA hc hh (expr_lockstep hA hc hh _) hfg hvs)

variable (hP : (Pairing.aligned A).Admits (fun _ => True) source P)

include hP

theorem value_lockstep {e : Expr} (he : P e) : RelatedUpTo A R (value h source e) (value h source e) :=
  Env.toplevel_beside List.Forall₂.nil (expr_lockstep hA hc hh _ _ source P hP e he)

theorem template_lockstep {t : Template} (ht : ∀ e ∈ t.exprs, P e) :
    RelatedUpTo (Rendered.Along A) R (template h source t) (template h source t) := by
  have he (e : Expr) (hPe : P e) := expr_lockstep hA hc hh depthLimit _ source P hP e hPe
  rw [Template.exprs, Statement.exprsOfBody_eq, List.forall_mem_flatMap] at ht
  have hstatements := statements_lockstep hA (Statement.exprs_closed P) he he t.statements ht
  exact (Env.toplevel_beside List.Forall₂.nil hstatements).bind fun _ _ hchunks =>
    .pure (Rendered.along_ofChunks hchunks)

theorem script_lockstep {s : Script} (hs : ∀ e ∈ s.exprs, P e) :
    RelatedUpTo Eq R (script h source s) (script h source s) := by
  have hline {l : ScriptLine} (hl : ∀ e ∈ l.exprs, P e) : RelatedUpTo Eq R (line h source l) (line h source l) := by
    cases l with
    | declare x e =>
      cases e with
      | none => exact hh.declare trivial (hA.literal .null)
      | some e =>
        exact (value_lockstep hA hc hh hP (hl e List.mem_cons_self)).bind fun _ _ hvw => hh.declare trivial hvw
    | run e =>
      exact (value_lockstep hA hc hh hP (hl e List.mem_cons_self)).bind fun _ _ _ => .pure rfl
  have hlines (ls : List ScriptLine) (hls : ∀ l ∈ ls, ∀ e ∈ l.exprs, P e) :
      RelatedUpTo Eq R (ls.forM (line h source)) (ls.forM (line h source)) := by
    induction ls with
    | nil => exact .pure rfl
    | cons l ls ih =>
      obtain ⟨hl, hls⟩ := List.forall_mem_cons.1 hls
      exact (hline hl).bind fun _ _ _ => ih hls
  exact hlines s.lines fun l hl e he => hs e (List.mem_flatMap_of_mem hl he)

end Eval

end Programs

end LiveMarkup
