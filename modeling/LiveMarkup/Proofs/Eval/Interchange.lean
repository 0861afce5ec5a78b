import LiveMarkup.Eval.Observed
import LiveMarkup.Proofs.Eval.Obtained
import LiveMarkup.Proofs.Scope.Visibility

/-! When equal functions are interchangeable. The functions that programs give are equal exactly if they have
the same code, whatever they have captured. Equal functions that have captured the same for the names that they
mention do the same in every scope; those that have not need not. -/

namespace LiveMarkup

/-! Akin functions can be called in lockstep: in their bodies the names go together that are free there, and
of what lambdas have captured only what is free in them. -/

section Kindred

variable {A : Value → Value → Prop} {bs cs bs' cs' : Bindings}

namespace Bindings

/-- A name goes together in bindings before others if it does so there, or is not there and goes together
in the others. -/
private theorem rel_get?_append {x : String} (h : Option.Rel A (bs.get? x) (cs.get? x))
    (h' : bs.get? x = none → Option.Rel A (bs'.get? x) (cs'.get? x)) :
    Option.Rel A (Bindings.get? x (bs ++ bs')) (Bindings.get? x (cs ++ cs')) := by
  rw [get?_append, get?_append]
  generalize bs.get? x = a at h h' ⊢
  generalize cs.get? x = b at h ⊢
  cases h with
  | some h => exact .some h
  | none => exact h' rfl

end Bindings

namespace Eval

private theorem map_fst_bindParams (params : List String) (args : List Value) :
    (bindParams params args).map (·.1) = params.reverse := by
  rw [bindParams, List.map_reverse, List.map_map]
  exact congrArg List.reverse (List.zipIdx_map_fst 0 params)

private theorem bindParams_get?_eq_none {params : List String} {args : List Value} {x : String}
    (h : (bindParams params args).get? x = none) : x ∉ params := by
  rw [← Option.not_isSome_iff_eq_none, Bindings.get?_isSome_iff, map_fst_bindParams, List.mem_reverse] at h
  exact h

end Eval

private theorem isSome_eq_of_rel {a b : Option Value} (h : Option.Rel A a b) :
    a.isSome = b.isSome := by
  cases h <;> rfl

def Pairing.named (A : Value → Value → Prop) (names : String → Prop) : Pairing A where
  names := names
  related bs cs := ∀ x, names x → Option.Rel A (bs.get? x) (cs.get? x)
  get? h hx := h _ hx
  set? {bs cs x v w} h hx hvw := by
    have hboth : (bs.set? x v).isSome = (cs.set? x w).isSome := by
      rw [Bindings.set?_isSome, Bindings.set?_isSome]
      exact isSome_eq_of_rel (h x hx)
    cases hbs : bs.set? x v with
    | none =>
      rw [hbs] at hboth
      rw [Option.not_isSome_iff_eq_none.1 (Bool.eq_false_iff.1 hboth.symm)]
      exact .none
    | some bs' =>
      rw [hbs] at hboth
      obtain ⟨cs', hcs⟩ := Option.isSome_iff_exists.1 hboth.symm
      rw [hcs]
      refine .some fun y hy => ?_
      rw [Bindings.get?_set? hbs, Bindings.get?_set? hcs]
      split
      · exact .some hvw
      · exact h y hy

namespace Value

/-- An expression, and so its parts, may be evaluated if the names go together that are free in it. -/
private theorem named_admits (names : String → Prop) (source : Nat) :
    (Pairing.named Akin names).Admits (fun _ => True) source fun e => ∀ x ∈ e.free, names x where
  parts h hpart x hx := h x (Expr.mem_free_of_part hpart hx)
  ownName h hx := ⟨h _ (Expr.mem_free_of_ownName? hx), trivial⟩
  lambda {_ _ _ _ cs} h hrelated := akin_lambda_iff.2 ⟨cs, rfl, fun x hx => hrelated x (h x hx)⟩

/-- Akin functions have one body, in which the names that are free go together. -/
private theorem akin_callable : Callable Akin fun _ => True where
  lambda {site params body captured g} h := by
    obtain ⟨captured', rfl, hfree⟩ := akin_lambda_iff.1 h
    refine ⟨captured', rfl, .named Akin (· ∈ body.free), _, named_admits _ _, fun x hx => hx, ?_⟩
    intro vs ws hvs x hx
    refine Bindings.rel_get?_append ((Eval.bindParams_along (.refl .null) params hvs).get? x) fun hnone => ?_
    exact hfree x (Expr.mem_free_lambda.2 ⟨hx, Eval.bindParams_get?_eq_none hnone⟩)
  native h := akin_native_iff.1 h

end Value

end Kindred

open Run (AlikeUpTo)

namespace Value

/-- One native function, or lambdas that are written as one. -/
inductive SameCode : Value → Value → Prop where
  | native (id : Nat) : SameCode (.native id) (.native id)
  | lambda (site : Site) (params : List String) (body : Expr) (captured captured' : List (String × Value)) :
    SameCode (.lambda site params body captured) (.lambda site params body captured')

def captured : Value → Bindings
  | lambda _ _ _ captured => captured
  | _ => []

def mentioned : Value → List String
  | lambda site params body _ => (Expr.lambda site.arrow params body).free
  | _ => []

/-- The two have captured akin values for all names that the first one mentions, or none. -/
def CapturesAlike (f g : Value) : Prop :=
  ∀ x ∈ f.mentioned, Option.Rel Akin (f.captured.get? x) (g.captured.get? x)

variable {f g v : Value} {lib : Library}

private theorem SameCode.akin (h : f.SameCode g) (hc : f.CapturesAlike g) : f.Akin g := by
  cases h with
  | native id => exact .refl _
  | lambda site params body captured captured' => exact akin_lambda_iff.2 ⟨captured', rfl, hc⟩

private theorem SameCode.same (h : f.SameCode g) : f.same g = true := by
  cases h with
  | native id => exact beq_self_eq_true id
  | lambda site => exact beq_self_eq_true site

/-- What is equal to a function has the same code, if both are written in the library. -/
private theorem sameCode_of_same (hf : lib.Written f) (hg : lib.Written g)
    (hfunction : g.isFunction = true) (h : f.same g = true) : f.SameCode g := by
  cases g with
  | lambda site params body captured =>
    cases f with
    | lambda site' params' body' captured' =>
      obtain rfl : site' = site := eq_of_beq h
      obtain ⟨rfl, rfl, -⟩ := Library.written_lambda_iff.1 hf
      obtain ⟨rfl, rfl, -⟩ := Library.written_lambda_iff.1 hg
      exact .lambda ..
    | _ => cases h
  | native id =>
    cases f with
    | native id' =>
      obtain rfl : id' = id := eq_of_beq h
      exact .native id'
    | _ => cases h
  | _ => cases hfunction

private theorem same_iff_sameCode (hf : lib.Written f) (hg : lib.Written g)
    (hfunction : g.isFunction = true) :
    f.same g = true ↔ f.SameCode g :=
  ⟨sameCode_of_same hf hg hfunction, SameCode.same⟩

end Value

namespace Eval

variable {σ : Type} {h : Host σ} {R : (Value → Value → Prop) → σ → σ → Prop} {lib : Library} {s s₀ : σ}
  {vs : List Value} {f g : Value}

/-- Functions with the same code that have captured the same do the same in every scope. -/
private theorem callFunction_of_sameCode (hh : h.Uniform R) (hfg : f.SameCode g)
    (hc : f.CapturesAlike g) (t : σ) (args : List Value) :
    AlikeUpTo Value.Akin (R Value.Akin) (callFunction h f args t) (callFunction h g args t) :=
  callFunction_lockstep Value.akin_respected Value.akin_callable (hh.respects Value.akin_respected)
    (hfg.akin hc) (List.forall₂_same.2 fun v _ => .refl v) t t (hh.refl .refl t)

open scoped Classical in
/-- Functions that programs give are equal exactly if they have the same code. If these have captured the
same for the names that they mention, calls of them end alike in every scope, with akin results, and leave akin
scopes. Lists look for a function, and drop it, as one that has its code. -/
theorem equal_functions_interchangeable (hh : h.Uniform R)
    (hstart : R (fun v w => v = w ∧ v.Lambdaless) s₀ s₀) (ho : Obtained h lib s₀ s vs) (hf : f ∈ vs)
    (hg : g ∈ vs) (hfunction : f.isFunction = true) :
    (g.same f = true ↔ g.SameCode f) ∧
      (g.same f = true → g.CapturesAlike f → ∀ (t : σ) (args : List Value),
        AlikeUpTo Value.Akin (R Value.Akin) (callFunction h g args t) (callFunction h f args t)) ∧
      ∀ items, .list items ∈ vs →
        (∀ name ∈ ["contains", "includes"], (Value.list items).invoke name [f] =
          .ok (.value (.bool (decide (∃ v ∈ items, v.SameCode f))))) ∧
        Value.binary .sub (.list items) f = .ok (.list (items.filter fun v => ¬ v.SameCode f)) := by
  obtain ⟨-, hwritten⟩ := ho.written hh hstart
  have hiff {v : Value} (hv : lib.Written v) : v.same f = true ↔ v.SameCode f :=
    Value.same_iff_sameCode hv (hwritten f hf) hfunction
  refine ⟨hiff (hwritten g hg), fun hsame hc => callFunction_of_sameCode hh ((hiff (hwritten g hg)).1 hsame) hc,
    fun items hitems => ?_⟩
  have heach (v : Value) (hv : v ∈ items) : v.same f = decide (v.SameCode f) := by
    have hv := hiff (Library.written_list_iff.1 (hwritten _ hitems) v hv)
    rw [Bool.eq_iff_iff, hv, decide_eq_true_iff]
  have hany : (items.any fun v => v.same f) = decide (∃ v ∈ items, v.SameCode f) := by
    rw [Bool.eq_iff_iff, List.any_eq_true, decide_eq_true_iff]
    exact exists_congr fun v => and_congr_right fun hv => by rw [heach v hv, decide_eq_true_iff]
  have hfilter : (items.filter fun v => !v.same f) = items.filter fun v => ¬ v.SameCode f := by
    refine List.filter_congr fun v hv => ?_
    rw [heach v hv, decide_not]
  refine ⟨?_, ?_⟩
  · simp only [List.mem_cons, List.not_mem_nil, or_false, forall_eq_or_imp, forall_eq, ← hany]
    exact ⟨rfl, rfl⟩
  · rw [← hfilter, Value.binary, Value.sub_list]

/-! Functions that add a multiple of what they are given to a property. The factor is captured, and so is an
index that is not mentioned. -/

def tallyText : String := "mk=(x,i)=>y=>t+=x*y"

def tallyBody : Expr := .assign "t" (some .add) (.binary .mul (.name "x") (.name "y"))

def tallyMaker : Value := .lambda ⟨0, ⟨1, 9⟩⟩ ["x", "i"] (.lambda ⟨1, 12⟩ ["y"] tallyBody) []

def tally (x i : Int64) : Value := .lambda ⟨0, ⟨1, 12⟩⟩ ["y"] tallyBody [("i", .int i), ("x", .int x)]

def tallyScript : Script :=
  ⟨[.run (.assign "mk" none (.lambda ⟨1, 9⟩ ["x", "i"] (.lambda ⟨1, 12⟩ ["y"] tallyBody)))]⟩

private theorem compile_tally : Script.compile tallyText = .ok tallyScript := by
  cbv

def tallyLibrary : Library := ⟨fun _ => .script tallyScript, fun _ => ⟨tallyText, .script compile_tally⟩⟩

abbrev tallyHost : Host Observed := Observed.host [⟨some "seen", none, none⟩] 1

def tallyStart : Observed := .ofProps [("t", .int 0)]

def tallied (t : Int64) (notes : List (String × String)) : Observed :=
  ⟨⟨[("t", .int t)], [("mk", tallyMaker)]⟩, notes⟩

private theorem tallyStart_lambdaless :
    Observed.Along (fun v w => v = w ∧ v.Lambdaless) tallyStart tallyStart :=
  ⟨⟨.cons ⟨rfl, rfl, .int 0⟩ .nil, .nil⟩, rfl⟩

/-- Each call of the first function makes another one. -/
private theorem obtained_tally {vs : List Value} {x i : Int64}
    (ho : Obtained tallyHost tallyLibrary tallyStart (tallied 0 [("seen", "mk")]) vs) (hmaker : tallyMaker ∈ vs)
    (hx : .int x ∈ vs) (hi : .int i ∈ vs) :
    Obtained tallyHost tallyLibrary tallyStart (tallied 0 [("seen", "mk")]) (tally x i :: vs) :=
  ho.call hmaker (List.forall_mem_cons.2 ⟨hx, List.forall_mem_singleton.2 hi⟩) rfl

private theorem obtained_tallies :
    Obtained tallyHost tallyLibrary tallyStart (tallied 0 [("seen", "mk")])
      [tally 2 0, tally 1 1, tally 1 0, .int 2, .int 1, .int 0, tallyMaker] := by
  have hmade : Obtained tallyHost tallyLibrary tallyStart (tallied 0 [("seen", "mk")]) [tallyMaker] :=
    (Obtained.start.script (n := 0) rfl rfl).read (x := "mk") rfl
  have hgiven := ((hmade.given (v := .int 0) (.int 0)).given (v := .int 1) (.int 1)).given (v := .int 2) (.int 2)
  have hfirst := obtained_tally (x := 1) (i := 0) hgiven (by simp) (by simp) (by simp)
  have hsecond := obtained_tally (x := 1) (i := 1) hfirst (by simp) (by simp) (by simp)
  exact obtained_tally hsecond (by simp) (by simp) (by simp)

/-- Of two functions that differ in the index only, each can be called for the other. -/
theorem tallies_interchangeable :
    Obtained tallyHost tallyLibrary tallyStart (tallied 0 [("seen", "mk")])
        [tally 2 0, tally 1 1, tally 1 0, .int 2, .int 1, .int 0, tallyMaker] ∧
      (tally 1 1).same (tally 1 0) = true ∧ (tally 1 1).CapturesAlike (tally 1 0) ∧
      ∀ (t : Observed) (args : List Value), AlikeUpTo Value.Akin (Observed.Along Value.Akin)
        (callFunction tallyHost (tally 1 1) args t) (callFunction tallyHost (tally 1 0) args t) := by
  have halike : (tally 1 1).CapturesAlike (tally 1 0) := by
    have hmentioned : (tally 1 1).mentioned = ["t", "x"] := by decide
    rw [Value.CapturesAlike, hmentioned]
    exact List.forall_mem_cons.2 ⟨.none, List.forall_mem_singleton.2 (.some (.refl _))⟩
  have hsame : (tally 1 1).same (tally 1 0) = true := rfl
  obtain ⟨-, hcalls, -⟩ := equal_functions_interchangeable (Observed.host_uniform _ _) tallyStart_lambdaless
    obtained_tallies (f := tally 1 0) (g := tally 1 1) (by simp) (by simp) rfl
  exact ⟨obtained_tallies, hsame, halike, hcalls hsame halike⟩

/-- Equal functions need not be interchangeable: two that differ in the factor are equal, but calls of them
have different results and leave different scopes. -/
theorem equal_functions_differ :
    Obtained tallyHost tallyLibrary tallyStart (tallied 0 [("seen", "mk")])
        [tally 2 0, tally 1 1, tally 1 0, .int 2, .int 1, .int 0, tallyMaker] ∧
      (tally 1 0).same (tally 2 0) = true ∧
      callFunction tallyHost (tally 1 0) [.int 1] (tallied 0 [("seen", "mk")]) =
        .ok (.int 1) (tallied 1 [("seen", "t"), ("seen", "mk")]) ∧
      callFunction tallyHost (tally 2 0) [.int 1] (tallied 0 [("seen", "mk")]) =
        .ok (.int 2) (tallied 2 [("seen", "t"), ("seen", "mk")]) :=
  ⟨obtained_tallies, rfl, rfl, rfl⟩

end Eval

end LiveMarkup
