import LiveMarkup.Proofs.Expr.Names
import LiveMarkup.Proofs.Value.Confined
import LiveMarkup.Proofs.Value.Recast
import Mathlib.Data.List.Forall2

/-! Relations of values that the language respects: from related values its operators, methods and functions
make related ones. To be made equal by a recasting is such a relation, and so is to be one and the same value of
a kind that nothing leads out of. Values that differ in what their functions have captured and do not mention
cannot be told apart. -/

namespace LiveMarkup

variable {α β γ ε : Type} {A : α → β → Prop}

/-- Two outcomes with related results, or with the same error. -/
inductive Outcomes (A : α → β → Prop) : Except ε α → Except ε β → Prop where
  | ok {a : α} {b : β} (h : A a b) : Outcomes A (.ok a) (.ok b)
  | error (e : ε) : Outcomes A (.error e) (.error e)

private theorem Outcomes.imp {B : α → β → Prop} {r : Except ε α} {q : Except ε β} (h : Outcomes A r q)
    (hAB : ∀ a b, A a b → B a b) : Outcomes B r q := by
  cases h with
  | ok h => exact .ok (hAB _ _ h)
  | error e => exact .error e

/-- Two invocations that come to related values, or to related functions on related elements. -/
inductive Invocation.Along (A : Value → Value → Prop) : Invocation → Invocation → Prop where
  | value {v w : Value} (h : A v w) : Along A (.value v) (.value w)
  | mapping {f g : Value} {vs ws : List Value} (hf : A f g) (h : List.Forall₂ A vs ws) :
    Along A (.mapping f vs) (.mapping g ws)
  | filtering {f g : Value} {vs ws : List Value} (hf : A f g) (h : List.Forall₂ A vs ws) :
    Along A (.filtering f vs) (.filtering g ws)

/-- Bindings, or entries, of the same names in the same order to related values. -/
abbrev Bindings.Along (A : Value → Value → Prop) : Bindings → Bindings → Prop :=
  List.Forall₂ fun a b => a.1 = b.1 ∧ A a.2 b.2

/-! To be made equal by two functions. -/

section Made

variable {f : α → γ} {g : β → γ}

private theorem forall₂_made_iff {as : List α} {bs : List β} :
    List.Forall₂ (fun a b => f a = g b) as bs ↔ as.map f = bs.map g := by
  rw [← List.forall₂_eq_eq_eq, List.forall₂_map_left_iff, List.forall₂_map_right_iff]

private theorem rel_made_iff {a : Option α} {b : Option β} :
    Option.Rel (fun a b => f a = g b) a b ↔ a.map f = b.map g := by
  cases a <;> cases b <;> simp

private theorem outcomes_made_iff {r : Except ε α} {q : Except ε β} :
    Outcomes (fun a b => f a = g b) r q ↔ r.map f = q.map g := by
  constructor
  · intro h
    cases h with
    | ok h => exact congrArg Except.ok h
    | error e => rfl
  · intro h
    cases r with
    | error e =>
      cases q with
      | error e' => exact Except.error.inj h ▸ .error e
      | ok b => cases h
    | ok a =>
      cases q with
      | error e' => cases h
      | ok b => exact .ok (Except.ok.inj h)

end Made

/-! The same value twice. -/

section Twice

variable {A : α → α → Prop}

private theorem forall₂_twice {as : List α} (h : List.Forall₂ A as as) :
    List.Forall₂ (fun a b => a = b ∧ A a b) as as :=
  List.forall₂_same.2 fun a ha => ⟨rfl, List.forall₂_same.1 h a ha⟩

private theorem rel_twice {a : Option α} (h : Option.Rel A a a) :
    Option.Rel (fun a b => a = b ∧ A a b) a a := by
  cases h with
  | some h => exact .some ⟨rfl, h⟩
  | none => exact .none

private theorem outcomes_twice {r : Except ε α} (h : Outcomes A r r) :
    Outcomes (fun a b => a = b ∧ A a b) r r := by
  cases h with
  | ok h => exact .ok ⟨rfl, h⟩
  | error e => exact .error e

private theorem eq_of_forall₂_twice {as bs : List α}
    (h : List.Forall₂ (fun a b => a = b ∧ A a b) as bs) :
    as = bs ∧ List.Forall₂ A as bs :=
  ⟨List.forall₂_eq_eq_eq ▸ h.imp fun _ _ => And.left, h.imp fun _ _ => And.right⟩

end Twice

namespace Value

/-- Related values cannot be told apart but for the insides of functions, and whatever is made of them is
related again. -/
structure Respected (A : Value → Value → Prop) : Prop where
  literal : ∀ l : Literal, A l.value l.value
  list : ∀ {vs ws}, List.Forall₂ A vs ws → A (.list vs) (.list ws)
  hash : ∀ {es fs}, Bindings.Along A es fs →
    A (.hash (Dictionary.ofEntries es)) (.hash (Dictionary.ofEntries fs))
  truthy : ∀ {v w}, A v w → v.truthy = w.truthy
  isFunction : ∀ {v w}, A v w → v.isFunction = w.isFunction
  isComposite : ∀ {v w}, A v w → v.isComposite = w.isComposite
  shown : ∀ {v w}, A v w → v.shown = w.shown
  string : ∀ {v w s}, A v w → (v = .string s ↔ w = .string s)
  int : ∀ {v w n}, A v w → (v = .int n ↔ w = .int n)
  same : ∀ {v v' w w'}, A v w → A v' w' → v.same v' = w.same w'
  unary : ∀ {v w} op, A v w → A (Value.unary op v) (Value.unary op w)
  binary : ∀ {v v' w w'} op, A v w → A v' w' → Outcomes A (Value.binary op v v') (Value.binary op w w')
  field? : ∀ {v w} name, A v w → Option.Rel A (v.field? name) (w.field? name)
  invoke : ∀ {v w vs ws} name, A v w → List.Forall₂ A vs ws →
    Outcomes (Invocation.Along A) (v.invoke name vs) (w.invoke name ws)
  global? : ∀ {vs ws} name, List.Forall₂ A vs ws → Option.Rel A (Value.global? name vs) (Value.global? name ws)
  iterate : ∀ {v w}, A v w → Outcomes (List.Forall₂ A) v.iterate w.iterate

/-! To be made equal by recasting. -/

section Recast

variable {ρ ρ' : Recasting}

private theorem recastValues_eq_iff {es fs : List (String × Value)} :
    recastValues ρ es = recastValues ρ' fs ↔
      Bindings.Along (fun v w => recast ρ v = recast ρ' w) es fs := by
  have hpair (a b : String × Value) : (a.1, recast ρ a.2) = (b.1, recast ρ' b.2) ↔
      a.1 = b.1 ∧ recast ρ a.2 = recast ρ' b.2 := Prod.mk.injEq .. ▸ Iff.rfl
  rw [recastValues, recastValues, ← forall₂_made_iff]
  simp only [hpair]

private theorem invocation_recast_eq_iff {r q : Invocation} :
    r.recast ρ = q.recast ρ' ↔ Invocation.Along (fun v w => recast ρ v = recast ρ' w) r q := by
  constructor
  · intro h
    cases r <;> cases q <;> simp only [Invocation.recast, reduceCtorEq, Invocation.value.injEq,
      Invocation.mapping.injEq, Invocation.filtering.injEq] at h
    · exact .value h
    · exact .mapping h.1 (forall₂_made_iff.2 h.2)
    · exact .filtering h.1 (forall₂_made_iff.2 h.2)
  · intro h
    cases h with
    | value h => exact congrArg Invocation.value h
    | mapping hf h => exact congrArg₂ Invocation.mapping hf (forall₂_made_iff.1 h)
    | filtering hf h => exact congrArg₂ Invocation.filtering hf (forall₂_made_iff.1 h)

private theorem recast_eq_string {v : Value} {s : String} :
    recast ρ v = .string s ↔ v = .string s := by
  cases v <;> simp [recast]

private theorem recast_eq_int {v : Value} {n : Int64} : recast ρ v = .int n ↔ v = .int n := by
  cases v <;> simp [recast]

/-- What two recastings make equal cannot be told apart, whatever is made of it. -/
theorem recast_respected (ρ ρ' : Recasting) : Respected fun v w => recast ρ v = recast ρ' w where
  literal l := by rw [recast_literal, recast_literal]
  list h := by rw [recast_list, recast_list, forall₂_made_iff.1 h]
  hash h := by
    rw [recast_hash, recast_hash, ← ofEntries_recastValues, ← ofEntries_recastValues,
      recastValues_eq_iff.2 h]
  truthy h := by rw [← truthy_recast, h, truthy_recast]
  isFunction h := by rw [← isFunction_recast, h, isFunction_recast]
  isComposite h := by rw [← isComposite_recast, h, isComposite_recast]
  shown h := by rw [← shown_recast, h, shown_recast]
  string h := by rw [← recast_eq_string (ρ := ρ), h, recast_eq_string]
  int h := by rw [← recast_eq_int (ρ := ρ), h, recast_eq_int]
  same h h' := by rw [← same_recast, h, h', same_recast]
  unary op h := by rw [← unary_recast, h, unary_recast]
  binary op h h' := outcomes_made_iff.2 (by rw [← binary_recast, h, h', binary_recast])
  field? name h := rel_made_iff.2 (by rw [← field?_recast, h, field?_recast])
  invoke {v w vs ws} name h h' := by
    have hmade := invoke_recast (ρ := ρ) v name vs
    rw [h, forall₂_made_iff.1 h', invoke_recast] at hmade
    exact (outcomes_made_iff.2 hmade.symm).imp fun _ _ => invocation_recast_eq_iff.1
  global? name h := rel_made_iff.2 (by rw [← global?_recast, forall₂_made_iff.1 h, global?_recast])
  iterate {v w} h := by
    have hmade := iterate_recast (ρ := ρ) v
    rw [h, iterate_recast] at hmade
    exact (outcomes_made_iff.2 hmade.symm).imp fun _ _ => forall₂_made_iff.2

end Recast

/-! To be the same value, and related to itself. -/

section Twice

variable {A : Value → Value → Prop} {es fs : List (String × Value)}

private theorem along_twice (h : Bindings.Along (fun v w => v = w ∧ A v w) es fs) :
    es = fs ∧ Bindings.Along A es fs :=
  ⟨List.forall₂_eq_eq_eq ▸ h.imp fun _ _ h => Prod.ext h.1 h.2.1, h.imp fun _ _ h => ⟨h.1, h.2.2⟩⟩

private theorem invocation_twice {r : Invocation} (h : Invocation.Along A r r) :
    Invocation.Along (fun v w => v = w ∧ A v w) r r := by
  cases h with
  | value h => exact .value ⟨rfl, h⟩
  | mapping hf h => exact .mapping ⟨rfl, hf⟩ (forall₂_twice h)
  | filtering hf h => exact .filtering ⟨rfl, hf⟩ (forall₂_twice h)

/-- A relation that the language respects is one that no operation leads out of on its diagonal. -/
theorem Respected.twice (hA : Respected A) : Respected fun v w => v = w ∧ A v w where
  literal l := ⟨rfl, hA.literal l⟩
  list h := by
    obtain ⟨rfl, h⟩ := eq_of_forall₂_twice h
    exact ⟨rfl, hA.list h⟩
  hash h := by
    obtain ⟨rfl, h⟩ := along_twice h
    exact ⟨rfl, hA.hash h⟩
  truthy h := hA.truthy h.2
  isFunction h := hA.isFunction h.2
  isComposite h := hA.isComposite h.2
  shown h := hA.shown h.2
  string h := hA.string h.2
  int h := hA.int h.2
  same h h' := hA.same h.2 h'.2
  unary op h := ⟨congrArg (Value.unary op) h.1, hA.unary op h.2⟩
  binary op h h' := by
    obtain ⟨rfl, h⟩ := h
    obtain ⟨rfl, h'⟩ := h'
    exact outcomes_twice (hA.binary op h h')
  field? name h := by
    obtain ⟨rfl, h⟩ := h
    exact rel_twice (hA.field? name h)
  invoke name h h' := by
    obtain ⟨rfl, h⟩ := h
    obtain ⟨rfl, h'⟩ := eq_of_forall₂_twice h'
    exact (outcomes_twice (hA.invoke name h h')).imp fun _ _ ⟨heq, h⟩ => heq ▸ invocation_twice (heq ▸ h)
  global? name h := by
    obtain ⟨rfl, h⟩ := eq_of_forall₂_twice h
    exact rel_twice (hA.global? name h)
  iterate h := by
    obtain ⟨rfl, h⟩ := h
    exact (outcomes_twice (hA.iterate h)).imp fun _ _ ⟨heq, h⟩ => heq ▸ forall₂_twice (heq ▸ h)

end Twice

/-! To be the same value, whose functions are of a kind. -/

section Kind

variable {p : Expr → Prop} {n : Nat → Prop}

theorem forall₂_kind_iff {P : α → Prop} {as bs : List α} :
    List.Forall₂ (fun a b => a = b ∧ P b) as bs ↔ as = bs ∧ ∀ b ∈ bs, P b := by
  constructor
  · intro h
    obtain ⟨rfl, h⟩ := eq_of_forall₂_twice (A := fun _ b => P b) h
    exact ⟨rfl, List.forall₂_same.1 h⟩
  · rintro ⟨rfl, h⟩
    exact List.forall₂_same.2 fun b hb => ⟨rfl, h b hb⟩

theorem along_kind_iff {P : Value → Prop} {es fs : List (String × Value)} :
    Bindings.Along (fun v w => v = w ∧ P w) es fs ↔ es = fs ∧ ∀ e ∈ fs, P e.2 := by
  constructor
  · intro h
    obtain ⟨rfl, h⟩ := along_twice (A := fun _ w => P w) h
    exact ⟨rfl, fun e he => (List.forall₂_same.1 h e he).2⟩
  · rintro ⟨rfl, h⟩
    exact List.forall₂_same.2 fun e he => ⟨rfl, rfl, h e he⟩

theorem rel_kind {P : α → Prop} {o : Option α} (h : ∀ a ∈ o, P a) : Option.Rel (fun a b => a = b ∧ P b) o o := by
  cases o with
  | some a => exact .some ⟨rfl, h a rfl⟩
  | none => exact .none

private theorem outcomes_kind {P : α → Prop} {r : Except ε α} (h : ∀ a, r = .ok a → P a) :
    Outcomes (fun a b => a = b ∧ P b) r r := by
  cases r with
  | ok a => exact .ok ⟨rfl, h a rfl⟩
  | error e => exact .error e

private theorem invocation_kind {r : Invocation} (h : r.Confined p n) :
    Invocation.Along (fun v w => v = w ∧ w.Confined p n) r r := by
  cases h with
  | value h => exact .value ⟨rfl, h⟩
  | mapping hf h => exact .mapping ⟨rfl, hf⟩ (forall₂_kind_iff.2 ⟨rfl, h⟩)
  | filtering hf h => exact .filtering ⟨rfl, hf⟩ (forall₂_kind_iff.2 ⟨rfl, h⟩)

/-- Nothing that can be done with values leads to functions of another kind. -/
theorem confined_respected (p : Expr → Prop) (n : Nat → Prop) :
    Respected fun v w => v = w ∧ w.Confined p n where
  literal l := ⟨rfl, .literal l⟩
  list h := by
    obtain ⟨rfl, h⟩ := forall₂_kind_iff.1 h
    exact ⟨rfl, .list h⟩
  hash h := by
    obtain ⟨rfl, h⟩ := along_kind_iff.1 h
    exact ⟨rfl, .hash (.ofEntries h)⟩
  truthy h := congrArg _ h.1
  isFunction h := congrArg _ h.1
  isComposite h := congrArg _ h.1
  shown h := congrArg _ h.1
  string h := h.1 ▸ Iff.rfl
  int h := h.1 ▸ Iff.rfl
  same h h' := congrArg₂ _ h.1 h'.1
  unary op h := ⟨congrArg _ h.1, h.2.unary op⟩
  binary op h h' := by
    obtain ⟨rfl, h⟩ := h
    obtain ⟨rfl, h'⟩ := h'
    exact outcomes_kind fun _ hu => h.binary h' hu
  field? name h := by
    obtain ⟨rfl, h⟩ := h
    exact rel_kind (h.field? name)
  invoke name h h' := by
    obtain ⟨rfl, h⟩ := h
    obtain ⟨rfl, h'⟩ := forall₂_kind_iff.1 h'
    refine (outcomes_kind fun _ hr => h.invoke h' hr).imp fun r q hrq => ?_
    obtain ⟨rfl, h⟩ := hrq
    exact invocation_kind h
  global? name h := by
    obtain ⟨rfl, h⟩ := forall₂_kind_iff.1 h
    exact rel_kind (.global? h)
  iterate h := by
    obtain ⟨rfl, h⟩ := h
    exact (outcomes_kind fun _ hu => h.iterate hu).imp fun _ _ h => forall₂_kind_iff.2 h

end Kind

end Value

/-! Values up to what their functions have captured and do not mention. -/

section Essence

namespace Bindings

/-- What is bound to the names, each of them with the value that it is looked up with. -/
def keep (names : List String) (bs : Bindings) : Bindings :=
  names.filterMap fun x => (bs.get? x).map fun v => (x, v)

variable {names : List String} {bs cs : Bindings} {x : String}

private theorem get?_keep (names : List String) (bs : Bindings) (x : String) :
    (keep names bs).get? x = if x ∈ names then bs.get? x else none := by
  induction names with
  | nil => rfl
  | cons y names ih =>
    unfold keep at ih ⊢
    cases hy : bs.get? y with
    | none =>
      rw [List.filterMap_cons_none (by rw [hy, Option.map_none]), ih]
      by_cases hx : x = y
      · subst hx
        simp [hy]
      · simp [hx]
    | some v =>
      rw [List.filterMap_cons_some (by rw [hy, Option.map_some]), get?, ih]
      by_cases hx : y = x
      · subst hx
        simp [hy]
      · simp [hx, Ne.symm hx]

/-- Of two bindings the same is kept exactly if the names have the same values in both. -/
private theorem keep_eq_keep_iff :
    keep names bs = keep names cs ↔ ∀ x ∈ names, bs.get? x = cs.get? x := by
  constructor
  · intro h x hx
    have hkept := congrArg (get? x) h
    rwa [get?_keep, get?_keep, if_pos hx, if_pos hx] at hkept
  · intro h
    exact List.filterMap_congr fun x hx => by rw [h x hx]

end Bindings

/-- Lambdas keep what they mention of what they have captured. -/
def Recasting.essential : Recasting where
  site s := s
  injective := Function.injective_id
  lambda site params body captured :=
    (params, body, Bindings.keep (Expr.lambda site.arrow params body).free captured)

namespace Value

/-- The value without what the functions in it have captured and do not mention. -/
def essence (v : Value) : Value := v.recast .essential

/-- The same value up to what functions in it have captured and do not mention. -/
def Akin (v w : Value) : Prop := v.essence = w.essence

variable {v w : Value} {site : Site} {params : List String} {body : Expr} {captured : List (String × Value)}

@[refl] theorem Akin.refl (v : Value) : v.Akin v := Eq.refl _

/-- Akin values cannot be told apart. -/
theorem akin_respected : Respected Akin := recast_respected .essential .essential

theorem akin_native_iff {id : Nat} : (native id).Akin v ↔ v = .native id := by
  cases v <;> simp [Akin, essence, recast, eq_comm]

private theorem essence_lambda : (lambda site params body captured).essence =
    .lambda site params body
      (Bindings.keep (Expr.lambda site.arrow params body).free (recastValues .essential captured)) := by
  rw [essence, recast, recastEntries_eq]
  rfl

/-- Lambdas are akin if they are written as one and have captured what is akin for all names that are free
in it. -/
theorem akin_lambda_iff : (lambda site params body captured).Akin v ↔
    ∃ captured', v = .lambda site params body captured' ∧
      ∀ x ∈ (Expr.lambda site.arrow params body).free,
        Option.Rel Akin (Bindings.get? x captured) (Bindings.get? x captured') := by
  have hkept (captured' : List (String × Value)) :
      (lambda site params body captured).Akin (.lambda site params body captured') ↔
        ∀ x ∈ (Expr.lambda site.arrow params body).free,
          Option.Rel Akin (Bindings.get? x captured) (Bindings.get? x captured') := by
    have hrel {a b : Option Value} : Option.Rel Akin a b ↔ a.map essence = b.map essence := rel_made_iff
    rw [Akin, essence_lambda, essence_lambda, lambda.injEq, Bindings.keep_eq_keep_iff]
    simp only [true_and, Bindings.get?_recastValues, hrel]
    rfl
  constructor
  · intro h
    cases v with
    | lambda site' params' body' captured' =>
      have hsame := h
      rw [Akin, essence_lambda, essence_lambda, lambda.injEq] at hsame
      obtain ⟨rfl, rfl, rfl, -⟩ := hsame
      exact ⟨captured', rfl, (hkept captured').1 h⟩
    | _ => cases h
  · rintro ⟨captured', rfl, h⟩
    exact (hkept captured').2 h

end Value

end Essence

end LiveMarkup
