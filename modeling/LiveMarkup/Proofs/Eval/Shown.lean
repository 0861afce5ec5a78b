import LiveMarkup.Proofs.Eval.Reach
import Mathlib.Data.List.Forall2

/-! Templates and the values that they show. Two runs of a template go together if all that it evaluates
without showing it is within reach: the outputs have the same markup, and the values in them go together as
the values that are shown do. These are the same if what is shown is within reach as well. Names that are
only shown may have different values. -/

namespace LiveMarkup

open Run (RelatedIn RelatedUpTo)

variable {σ : Type} {N : Reach} {R : σ → σ → Prop} {A : Value → Value → Prop} {h : Host σ}

/-- Two parts of outputs: the same markup, or values that go together. -/
inductive Chunk.Along (A : Value → Value → Prop) : Chunk → Chunk → Prop where
  | text (s : String) : Along A (.text s) (.text s)
  | value {v w : Value} (h : A v w) : Along A (.value v) (.value w)

/-- Two outputs with the same pieces of markup and values that go together. -/
structure Rendered.Along (A : Value → Value → Prop) (r r' : Rendered) : Prop where
  slots : List.Forall₂ (fun a b => a.1 = b.1 ∧ A a.2 b.2) r.slots r'.slots
  last : r.last = r'.last

private theorem Chunk.Along.eq {c d : Chunk} (h : c.Along Eq d) : c = d := by
  cases h with
  | text s => rfl
  | value h => exact congrArg Chunk.value h

private theorem Rendered.Along.consText {r r' : Rendered} (hr : r.Along A r') (s : String) :
    (r.consText s).Along A (r'.consText s) := by
  obtain ⟨slots, last⟩ := r
  obtain ⟨slots', last'⟩ := r'
  obtain ⟨hslots, rfl⟩ := hr
  cases hslots with
  | nil => exact ⟨.nil, rfl⟩
  | @cons a b l l' hab hrest =>
    obtain ⟨before, v⟩ := a
    obtain ⟨before', w⟩ := b
    obtain ⟨hbefore, hvalue⟩ := hab
    obtain rfl : before = before' := hbefore
    exact ⟨.cons ⟨rfl, hvalue⟩ hrest, rfl⟩

/-- Parts that go together make up outputs that do. -/
theorem Rendered.along_ofChunks {cs ds : List Chunk} (hc : List.Forall₂ (Chunk.Along A) cs ds) :
    (ofChunks cs).Along A (ofChunks ds) := by
  induction hc with
  | nil => exact ⟨.nil, rfl⟩
  | cons hcd _ ih =>
    cases hcd with
    | text s => exact ih.consText s
    | value hvw => exact ⟨.cons ⟨rfl, hvw⟩ ih.slots, ih.last⟩

namespace Statement

/-- Statements of the kind decide by expressions of a kind and show those of another, and the statements in them
are of the kind again. -/
structure Closed (S : Statement → Prop) (P Q : Expr → Prop) : Prop where
  value : ∀ {e}, S (.value e) → Q e
  each : ∀ {items item index body}, S (.each items item index body) → P items ∧ ∀ st ∈ body, S st
  cond : ∀ {branches otherwise}, S (.cond branches otherwise) →
    (∀ b ∈ branches, P b.1 ∧ ∀ st ∈ b.2, S st) ∧ ∀ body ∈ otherwise, ∀ st ∈ body, S st

private theorem namesBy_closed (shown : Expr → List String) (p : String → Prop) :
    Closed (fun st => ∀ x ∈ st.namesBy shown, p x) (Expr.Within p) fun e => ∀ x ∈ shown e, p x where
  value h := h
  each h := by
    rw [namesBy, namesOfBody_eq, List.forall_mem_append, List.forall_mem_flatMap] at h
    exact h
  cond {branches otherwise} h := by
    rw [namesBy, namesOfBranches_eq, List.forall_mem_append, List.forall_mem_flatMap] at h
    refine ⟨fun b hb => ?_, ?_⟩
    · have hb := h.1 b hb
      rw [namesOfBody_eq, List.forall_mem_append, List.forall_mem_flatMap] at hb
      exact hb
    · rintro body ⟨⟩
      have hbody := h.2
      rw [namesOfOtherwise, namesOfBody_eq, List.forall_mem_flatMap] at hbody
      exact hbody

end Statement

namespace Eval

open Env (Beside Twins)

/-- Two runs that make outputs with the same markup and values that go together. -/
abbrev OutputsAlong (N : Reach) (R : σ → σ → Prop) (A : Value → Value → Prop)
    (m n : Run (Env σ) (List Chunk)) : Prop :=
  RelatedUpTo (List.Forall₂ (Chunk.Along A)) (Twins N R) m n

/-- A name that is shown has values that go together, or it has none in both runs. -/
private theorem name_along (ha : ∀ v, A v v)
    (hA : ∀ {s t}, R s t → ∀ x, Option.Rel A ((h.scope s).get? x) ((h.scope t).get? x))
    (eval : Meaning σ) (source : Nat) (x : String) :
    RelatedUpTo A (Twins N R) (step h eval source (.name x)) (step h eval source (.name x)) := by
  have hget : RelatedUpTo (Option.Rel A) (Twins N R) (Env.get? h x) (Env.get? h x) := by
    refine .get_bind fun a b hab => .pure ?_
    rw [hab.locals]
    cases b.locals.get? x with
    | some v => exact .some (ha v)
    | none => exact hA hab.outer x
  refine hget.bind fun o o' ho => ?_
  cases ho with
  | some hvw => exact .pure hvw
  | none =>
    cases Value.global? x [] with
    | some v => exact .pure (ha v)
    | none => exact .throw _

/-- One of two values that are shown, chosen by one that is the same in both runs. -/
private theorem choice_along {v : Value} {yes no : Run (Env σ) Value}
    (hy : RelatedUpTo A (Twins N R) yes yes) (hn : RelatedUpTo A (Twins N R) no no) :
    RelatedUpTo A (Twins N R) (if v.truthy then yes else no) (if v.truthy then yes else no) := by
  split
  · exact hy
  · exact hn

/-- What is shown has values that go together: it is within reach, or a name, or a function, which is the
same in both runs whatever it mentions, or one of several such expressions. -/
private theorem shown_along (hh : h.Veils N R) (ha : ∀ v, A v v)
    (hA : ∀ {s t}, R s t → ∀ x, Option.Rel A ((h.scope s).get? x) ((h.scope t).get? x))
    (fuel source : Nat) (e : Expr) (hN : ∀ x ∈ e.operands, N.names x) :
    RelatedUpTo A (Twins N R) (expr h fuel source e) (expr h fuel source e) := by
  -- the induction is on the expression: what is tested is within reach, what is chosen is shown
  have hplain (fuel : Nat) {e : Expr} (hN : e.Within N.names) :
      RelatedUpTo A (Twins N R) (expr h fuel source e) (expr h fuel source e) :=
    (expr_coincides hh fuel source e hN).mono fun v w hvw => hvw.1 ▸ ha v
  cases fuel with
  | zero => exact .throw _
  | succ fuel =>
    cases e with
    | name x => exact name_along ha hA (expr h fuel) source x
    | lambda arrow params body =>
      refine .get_bind fun a b hab => .pure ?_
      rw [hab.locals]
      exact ha _
    | binary op left right =>
      cases op with
      | and =>
        obtain ⟨hl, hr⟩ := List.forall_mem_append.1 hN
        exact (expr_coincides hh fuel source left hl).bindUpTo fun v _ =>
          choice_along (shown_along hh ha hA fuel source right hr) (.pure (ha v))
      | or =>
        obtain ⟨hl, hr⟩ := List.forall_mem_append.1 hN
        exact (expr_coincides hh fuel source left hl).bindUpTo fun v _ =>
          choice_along (.pure (ha v)) (shown_along hh ha hA fuel source right hr)
      | _ => exact hplain _ hN
    | cond test yes no =>
      obtain ⟨ht, hrest⟩ := List.forall_mem_append.1 hN
      obtain ⟨hy, hn⟩ := List.forall_mem_append.1 hrest
      exact (expr_coincides hh fuel source test ht).bindUpTo fun v _ =>
        choice_along (shown_along hh ha hA fuel source yes hy) (shown_along hh ha hA fuel source no hn)
    | _ => exact hplain _ hN

section Statements

variable {eval : Expr → Run (Env σ) Value} {B : Value → Value → Prop} {S : Statement → Prop}
  {P Q : Expr → Prop}

private theorem repeatFor_lockstep (hB : Value.Respected B) {body : Run (Env σ) (List Chunk)}
    (hb : RelatedUpTo (List.Forall₂ (Chunk.Along A)) (Beside (.aligned B) R) body body) (item : String)
    (index : Option String) (i : Nat) {vs ws : List Value} (hvs : List.Forall₂ B vs ws) :
    RelatedUpTo (List.Forall₂ (Chunk.Along A)) (Beside (.aligned B) R) (repeatFor item index body i vs)
      (repeatFor item index body i ws) := by
  induction hvs generalizing i with
  | nil => exact .pure .nil
  | @cons v w _ _ hvw _ ih =>
    have hposition : Bindings.Along B (index.toList.map fun x => (x, .int (Int64.ofNat i)))
        (index.toList.map fun x => (x, .int (Int64.ofNat i))) := by
      refine List.forall₂_same.2 fun b hb => ⟨rfl, ?_⟩
      obtain ⟨x, -, rfl⟩ := List.mem_map.1 hb
      exact hB.literal (.int _)
    have hbound := List.rel_append hposition (.cons (b := (item, w)) (a := (item, v)) ⟨rfl, hvw⟩ .nil)
    exact (Env.binding_beside hbound hb).bind fun _ _ hfirst =>
      (ih (i + 1)).bind fun _ _ hmore => .pure (List.rel_append hfirst hmore)

mutual

/-- Statements of a kind make outputs that go together, if what decides does so and what is shown. -/
theorem statement_lockstep (hB : Value.Respected B) (hS : Statement.Closed S P Q)
    (he : ∀ e, P e → RelatedUpTo B (Beside (.aligned B) R) (eval e) (eval e))
    (hs : ∀ e, Q e → RelatedUpTo A (Beside (.aligned B) R) (eval e) (eval e)) (st : Statement) (h : S st) :
    RelatedUpTo (List.Forall₂ (Chunk.Along A)) (Beside (.aligned B) R) (statement eval st)
      (statement eval st) := by
  cases st with
  | text s => exact .pure (.cons (.text s) .nil)
  | value e => exact (hs e (hS.value h)).bind fun _ _ hvw => .pure (.cons (.value hvw) .nil)
  | each items item index body =>
    obtain ⟨hitems, hbody⟩ := hS.each h
    exact (he items hitems).bind fun _ _ hvw => (RelatedUpTo.ofExcept (hB.iterate hvw)).bind fun _ _ hvs =>
      repeatFor_lockstep hB (statements_lockstep hB hS he hs body hbody) item index 0 hvs
  | cond branches otherwise =>
    obtain ⟨hbranches, hotherwise⟩ := hS.cond h
    cases otherwise with
    | none => exact branch_lockstep hB hS he hs (.pure .nil) branches hbranches
    | some body =>
      have hrest := statements_lockstep hB hS he hs body (hotherwise body rfl)
      exact branch_lockstep hB hS he hs hrest branches hbranches

theorem statements_lockstep (hB : Value.Respected B) (hS : Statement.Closed S P Q)
    (he : ∀ e, P e → RelatedUpTo B (Beside (.aligned B) R) (eval e) (eval e))
    (hs : ∀ e, Q e → RelatedUpTo A (Beside (.aligned B) R) (eval e) (eval e)) (ss : List Statement)
    (h : ∀ st ∈ ss, S st) :
    RelatedUpTo (List.Forall₂ (Chunk.Along A)) (Beside (.aligned B) R) (statements eval ss)
      (statements eval ss) := by
  cases ss with
  | nil => exact .pure .nil
  | cons st ss =>
    obtain ⟨hfirst, hmore⟩ := List.forall_mem_cons.1 h
    exact (statement_lockstep hB hS he hs st hfirst).bind fun _ _ hfirst =>
      (statements_lockstep hB hS he hs ss hmore).bind fun _ _ hmore => .pure (List.rel_append hfirst hmore)

theorem branch_lockstep (hB : Value.Respected B) (hS : Statement.Closed S P Q)
    (he : ∀ e, P e → RelatedUpTo B (Beside (.aligned B) R) (eval e) (eval e))
    (hs : ∀ e, Q e → RelatedUpTo A (Beside (.aligned B) R) (eval e) (eval e))
    {rest : Run (Env σ) (List Chunk)}
    (hr : RelatedUpTo (List.Forall₂ (Chunk.Along A)) (Beside (.aligned B) R) rest rest)
    (branches : List (Expr × List Statement)) (h : ∀ b ∈ branches, P b.1 ∧ ∀ st ∈ b.2, S st) :
    RelatedUpTo (List.Forall₂ (Chunk.Along A)) (Beside (.aligned B) R) (branch eval rest branches)
      (branch eval rest branches) := by
  cases branches with
  | nil => exact hr
  | cons b branches =>
    obtain ⟨⟨htest, hbody⟩, hmore⟩ := List.forall_mem_cons.1 h
    refine (he b.1 htest).bind fun v w hvw => ?_
    rw [hB.truthy hvw]
    split
    · exact statements_lockstep hB hS he hs b.2 hbody
    · exact branch_lockstep hB hS he hs hr branches hmore

end

/-- Statements whose expressions go together, and show values that do, make outputs that go together. -/
private theorem statements_along {shown : Expr → List String}
    (he : ∀ e, e.Within N.names → RelatedIn (Value.Mentions N) (Twins N R) (eval e) (eval e))
    (hs : ∀ e, (∀ x ∈ shown e, N.names x) → RelatedUpTo A (Twins N R) (eval e) (eval e))
    (ss : List Statement) (hN : ∀ x ∈ Statement.namesOfBody shown ss, N.names x) :
    OutputsAlong N R A (statements eval ss) (statements eval ss) := by
  rw [Env.twins_eq_beside] at he hs
  rw [OutputsAlong, Env.twins_eq_beside]
  rw [Statement.namesOfBody_eq] at hN
  exact statements_lockstep (Value.mentions_respected N) (Statement.namesBy_closed shown N.names) he hs ss
    (List.forall_mem_flatMap.1 hN)

end Statements

/-- A template within reach makes the same output in two runs. -/
theorem template_related_of_veils (hh : h.Veils N R) (source : Nat) (t : Template)
    (hN : ∀ x ∈ t.names, N.names x) : Run.Related R (template h source t) (template h source t) := by
  have he (e : Expr) (hN : e.Within N.names) := expr_coincides hh depthLimit source e hN
  have hsame : RelatedIn (fun _ => True) R (Env.toplevel (statements (expr h depthLimit source) t.statements))
      (Env.toplevel (statements (expr h depthLimit source) t.statements)) :=
    (Env.toplevel_coincides (statements_along he (fun e hN => (he e hN).mono fun _ _ hvw => hvw.1)
      t.statements hN)).mono fun _ _ hchunks =>
        ⟨List.forall₂_eq_eq_eq ▸ hchunks.imp fun _ _ => Chunk.Along.eq, trivial⟩
  exact hsame.related.bind fun _ => .pure _

/-- A template whose other names mean the same in two runs makes outputs with the same markup and values
that go together. -/
theorem template_along (hh : h.Veils N R) (ha : ∀ v, A v v)
    (hA : ∀ {s t}, R s t → ∀ x, Option.Rel A ((h.scope s).get? x) ((h.scope t).get? x)) (source : Nat)
    (t : Template) (hN : ∀ x ∈ t.operands, N.names x) :
    RelatedUpTo (Rendered.Along A) R (template h source t) (template h source t) :=
  (Env.toplevel_coincides (statements_along (expr_coincides hh _ source) (shown_along hh ha hA _ source)
    t.statements hN)).bind fun _ _ hchunks => .pure (Rendered.along_ofChunks hchunks)

end Eval

end LiveMarkup
