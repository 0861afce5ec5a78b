import LiveMarkup.Proofs.Eval.Coincide
import LiveMarkup.Proofs.View.Inert
import LiveMarkup.Proofs.View.Leftover

/-! Strings never become listeners. Two scopes of a view that differ only in strings which are whole values
of attributes are rendered to the same listeners, on the same elements and for the same events: strings
that are shown do not change what else is evaluated, and in the markup they change nothing but the values
of attributes. -/

namespace LiveMarkup

open Run (RelatedIn RelatedUpTo)

variable {N : Reach}

/-- Two scopes that mean the same within reach. Properties beyond have the same values, or strings without
signs that markup gives a meaning. -/
structure Scope.Resemble (N : Reach) (a b : Scope) : Prop where
  agree : ∀ x, N.names x → a.get? x = b.get? x
  mentions : ∀ x, N.names x → ∀ v ∈ b.get? x, v.Mentions N
  akin : ∀ x, ¬ N.names x → Option.Rel Slot.Akin (a.get? x) (b.get? x)

namespace Scope

/-- Scopes of one property that is shown. -/
private theorem resemble_of_plain {x a b : String} (ha : Slot.Plain a) (hb : Slot.Plain b) :
    (ofProps [(x, .string a)]).Resemble ⟨(· ≠ x), fun _ => False⟩ (ofProps [(x, .string b)]) := by
  have hget (v : Value) (y : String) : (ofProps [(x, v)]).get? y = if x = y then some v else none := by
    rw [ofProps_eq, List.foldl_cons, List.foldl_nil, get?_putPublic]
    rfl
  constructor
  · intro y hy
    rw [hget, hget, if_neg (Ne.symm hy), if_neg (Ne.symm hy)]
  · intro y hy v hv
    rw [hget, if_neg (Ne.symm hy)] at hv
    cases hv
  · intro y hy
    rw [hget, hget, if_pos (not_not.1 hy).symm, if_pos (not_not.1 hy).symm]
    exact .some (.inr ⟨a, b, rfl, rfl, ha, hb⟩)

variable {a₀ b₀ a b : Scope}

private theorem Resemble.coincide (h : Resemble N a b) : Coincide N a b a b where
  agree := h.agree
  mentions := h.mentions
  left _ _ := ⟨rfl, rfl⟩
  right _ _ := ⟨rfl, rfl⟩

/-- What is written within reach changes nothing beyond. -/
private theorem Coincide.akin (h : Coincide N a₀ b₀ a b) (h₀ : Resemble N a₀ b₀) (x : String) :
    Option.Rel Slot.Akin (a.get? x) (b.get? x) := by
  by_cases hx : N.names x
  · rw [h.agree x hx]
    cases b.get? x with
    | none => exact .none
    | some v => exact .some (.inl rfl)
  · rw [(h.left x hx).1, (h.right x hx).1]
    exact h₀.akin x hx

end Scope

/-- The native functions within reach stay within it. -/
def Reach.Closed (N : Reach) (natives : Array (List Value → Procedure)) : Prop :=
  ∀ id f, N.natives id → natives[id]? = some f → ∀ args, (∀ v ∈ args, v.Mentions N) → (f args).Mentions N

namespace Session

open Html (handlersOf)
open Slot (WholeValues withoutValues)

variable {s t u w : Session} {i : InstanceId} {inst inst' : Instance} {a₀ b₀ : Scope}
  {natives : Array (List Value → Procedure)}

/-- Two sessions as an evaluation within reach sees them. -/
structure SeeingWithin (i : InstanceId) (N : Reach) (natives : Array (List Value → Procedure))
    (a₀ b₀ : Scope) (s t : Session) : Prop where
  natives : s.natives = natives
  seeing : Seeing i (Scope.Coincide N a₀ b₀) (fun _ _ => True) s t

private theorem SeeingWithin.coincide (h : SeeingWithin i N natives a₀ b₀ s t) :
    Scope.Coincide N a₀ b₀ (scopeOf i s) (scopeOf i t) := by
  obtain ⟨-, -, inst, inst', hi, hi', hc, -⟩ := h
  rw [scopeOf_eq hi, scopeOf_eq hi']
  exact hc

/-- Rendering cannot tell them apart. -/
private theorem renderHost_veils (hN : N.Closed natives) (i : InstanceId) (a₀ b₀ : Scope) :
    (renderHost i).Veils N (SeeingWithin i N natives a₀ b₀) := by
  have hstore {s t : Session} {a b : Scope} (hst : SeeingWithin i N natives a₀ b₀ s t)
      (hab : Scope.Coincide N a₀ b₀ a b) :
      SeeingWithin i N natives a₀ b₀ (withScopeOf i a s) (withScopeOf i b t) := by
    obtain ⟨hs, hn, inst, inst', hi, hi', -, -⟩ := hst
    exact ⟨hs, hn, _, _, getElem?_modifyInstance_self hi _, getElem?_modifyInstance_self hi' _, hab, trivial⟩
  have hnotify : RelatedIn (fun _ => True) (SeeingWithin i N natives a₀ b₀) (noteWrite i) (noteWrite i) := by
    rw [noteWrite_eq]
    rintro s t ⟨hs, hn, inst, inst', hi, hi', hc, -⟩
    exact .ok ⟨rfl, trivial⟩ ⟨hs, hn, _, _, getElem?_modifyInstance_self hi _,
      getElem?_modifyInstance_self hi' _, hc, trivial⟩
  -- native functions write as an instance without native functions does
  have hplain : (plainHost i fun _ => noteWrite i).Veils N (SeeingWithin i N natives a₀ b₀) :=
    Host.veils_of_coincide SeeingWithin.coincide hstore (fun _ => hnotify) fun _ _ _ _ => .pure .null
  refine Host.veils_of_coincide SeeingWithin.coincide hstore (fun _ => hnotify) fun id args hid hargs =>
    .get_bind fun s t hst => ?_
  rw [hst.seeing.natives, hst.natives]
  cases hf : natives[id]? with
  | none => exact .pure .null
  | some f =>
    refine (hN id f hid hf args hargs).run_coincides hplain fun vs => ?_
    rintro s t ⟨hs, hn, hself⟩
    exact .ok ⟨rfl, trivial⟩ ⟨hs, hn, hself⟩

abbrev evaluate (i : InstanceId) (inst : Instance) : Run Session Rendered :=
  Eval.template (renderHost i) inst.definition.markupSource inst.definition.template

/-- Scopes that resemble each other give outputs with the same markup and akin values. -/
private theorem evaluate_along (hi : s.instances[i]? = some inst) (hi' : t.instances[i]? = some inst')
    (hv : SameView inst inst') (hn : t.natives = s.natives) (hN : N.Closed s.natives)
    (hscopes : inst.scope.Resemble N inst'.scope)
    (hshown : ∀ x ∈ inst.definition.template.operands, N.names x) {r r' : Rendered}
    (he : evaluate i inst s = .ok r u) (he' : evaluate i inst' t = .ok r' w) :
    r.Along Slot.Akin r' := by
  have hsee : SeeingWithin i N s.natives inst.scope inst'.scope s t :=
    ⟨rfl, hn, inst, inst', hi, hi', hscopes.coincide, trivial⟩
  have ha : Run.AlikeUpTo (Rendered.Along Slot.Akin) (SeeingWithin i N s.natives inst.scope inst'.scope)
      (evaluate i inst s) (evaluate i inst t) :=
    Eval.template_along (renderHost_veils hN i inst.scope inst'.scope) (fun _ => .inl rfl)
      (fun h x => h.coincide.akin hscopes x) inst.definition.markupSource inst.definition.template hshown
      s t hsee
  rw [evaluate, hv.definition] at he'
  rw [he, show evaluate i inst t = _ from he'] at ha
  cases ha with
  | ok hr _ => exact hr

/-- Every listener that trees have been stamped with is due to a tag that evaluated to a function, with the
name of an event in front of it. -/
private theorem mem_handlersOf_treesFrom {r : Rendered} {trees : List (Html Handler)}
    (ht : treesFrom i inst r = .ok trees) {b : String × Handler} (hb : b ∈ handlersOf trees) :
    ∃ before, (before, b.2.function) ∈ r.slots ∧ b.2.function.isFunction = true ∧
      Slot.isEventSlot before.toList = true := by
  unfold treesFrom at ht
  dsimp only at ht
  split at ht
  · cases ht
  · next parsed hparse =>
    cases ht
    have hmem := (Slot.mem_handlersOf_stampAll hb).resolve_right
      (Html.handlersOf_parse hparse ▸ List.not_mem_nil)
    obtain ⟨f, hf, hfb⟩ := List.mem_map.1 hmem
    obtain rfl : b.2.function = f := hfb ▸ rfl
    exact Slot.mem_functions_fillSlots hf

/-- What a pass shows is made of the output of the template. -/
private theorem Sound.evaluates (hs : Sound s) (hi : s.instances[i]? = some inst) {a : Option NodeId}
    (hr : render i s = .ok a u) :
    ∃ r w, evaluate i inst s = .ok r w ∧ treesFrom i inst r = .ok (outputTrees i u) := by
  obtain ⟨-, trees, w, hm, rfl⟩ := hs.render_shows hi hr
  obtain ⟨r, parsed, he, hparse, htrees⟩ := materialize_eq_ok_iff.1 hm
  refine ⟨r, w, he, ?_⟩
  rw [treesFrom, ← htrees]
  dsimp only
  rw [hparse]

/-- Strings bind no listeners. Two scopes in which everything but strings that are shown means the same are
rendered to the same elements with the same listeners, if the strings are whole values of attributes
between double quotes and none of them stands for one of the functions of the output. Every listener is
due to a tag that evaluated to a function. -/
theorem strings_bind_nothing (hs : Sound s) (ht : Sound t) (hi : s.instances[i]? = some inst)
    (hi' : t.instances[i]? = some inst') (hv : SameView inst inst') (hn : t.natives = s.natives)
    (hN : N.Closed s.natives) (hscopes : inst.scope.Resemble N inst'.scope)
    (hshown : ∀ x ∈ inst.definition.template.operands, N.names x)
    (hwhole : ∀ r r' w w', evaluate i inst s = .ok r w → evaluate i inst' t = .ok r' w' →
      WholeValues inst.escaped r r')
    {a b : Option NodeId} (hr : render i s = .ok a u) (hr' : render i t = .ok b w) :
    withoutValues (outputTrees i u) = withoutValues (outputTrees i w) ∧
      ∃ r v, evaluate i inst s = .ok r v ∧ ∀ l ∈ handlersOf (outputTrees i u),
        ∃ before, (before, l.2.function) ∈ r.slots ∧ l.2.function.isFunction = true ∧
          Slot.isEventSlot before.toList = true := by
  obtain ⟨r, v, he, hu⟩ := hs.evaluates hi hr
  obtain ⟨r', v', he', hw⟩ := ht.evaluates hi' hr'
  have halong := evaluate_along hi hi' hv hn hN hscopes hshown he he'
  have hsame := treesFrom_along (i := i) hv.definition hv.escaped halong (hwhole r r' v v' he he')
  rw [hu, hw] at hsame
  exact ⟨Except.ok.inj hsame, r, v, he, fun l hl => mem_handlersOf_treesFrom hu hl⟩

def buttonText : String :=
  "<button onclick=\"\x7b\x7b s \x7d\x7d\" onfocus=\"\x7b\x7b x => x \x7d\x7d\">go</button>"

def button (str : String) : Instance :=
  unborn ⟨viewOf buttonText, .sync, false⟩ [("s", .string str)]

def withButton (str : String) : Session := joined (button str) empty

private theorem withButton_sound (str : String) :
    Sound (withButton str) := unrendered_sound buttonText _

/-- The string of the button may begin as placeholders do, but there is no second function. -/
theorem button_binds_one : ∃ a u b w, render 0 (withButton "save") = .ok a u ∧
    render 0 (withButton "viewdoo-listener:1") = .ok b w ∧
    withoutValues (outputTrees 0 u) = withoutValues (outputTrees 0 w) ∧
    (handlersOf (outputTrees 0 u)).map Prod.fst = ["focus"] := by
  have hi (str : String) : (withButton str).instances[0]? = some (button str) := rfl
  have hscopes : (button "save").scope.Resemble ⟨(· ≠ "s"), fun _ => False⟩
      (button "viewdoo-listener:1").scope := Scope.resemble_of_plain (by decide) (by decide)
  have hshown : (viewOf buttonText).template.operands = [] := by decide +kernel
  have hwhole : Run.succeedsWith (evaluate 0 (button "save")) (withButton "save") (fun r _ =>
      Run.succeedsWith (evaluate 0 (button "viewdoo-listener:1")) (withButton "viewdoo-listener:1")
        fun r' _ => decide (WholeValues false r r')) = true := by decide +kernel
  have hbound : Run.succeedsWith (render 0) (withButton "save") (fun _ u =>
      (handlersOf (outputTrees 0 u)).map Prod.fst == ["focus"]) = true := by decide +kernel
  have hagain : Run.succeedsWith (render 0) (withButton "viewdoo-listener:1") (fun _ _ => true) = true := by
    decide +kernel
  obtain ⟨r, v, he, hwhole⟩ := Run.succeedsWith_iff.1 hwhole
  obtain ⟨r', v', he', hwhole⟩ := Run.succeedsWith_iff.1 hwhole
  obtain ⟨a, u, hu, hevents⟩ := Run.succeedsWith_iff.1 hbound
  obtain ⟨b, w, hw, -⟩ := Run.succeedsWith_iff.1 hagain
  have hvalues (q q' : Rendered) (x x' : Session)
      (hq : evaluate 0 (button "save") (withButton "save") = .ok q x)
      (hq' : evaluate 0 (button "viewdoo-listener:1") (withButton "viewdoo-listener:1") = .ok q' x') :
      WholeValues false q q' := by
    cases he.symm.trans hq
    cases he'.symm.trans hq'
    exact of_decide_eq_true hwhole
  have hsame := strings_bind_nothing (withButton_sound "save") (withButton_sound "viewdoo-listener:1")
    (hi "save") (hi "viewdoo-listener:1") ⟨rfl, rfl⟩ rfl (fun _ _ hid => absurd hid id) hscopes
    (fun x hx => absurd (hshown ▸ hx : x ∈ []) List.not_mem_nil) hvalues hu hw
  exact ⟨a, u, b, w, hu, hw, hsame.1, beq_iff_eq.1 hevents⟩

/-- A string that is the placeholder of the function binds it a second time, although no sign in the string
has a meaning in markup. -/
theorem placeholder_string_binds : Slot.Plain "viewdoo-listener:0" ∧
    ∃ a u b w, render 0 (withButton "save") = .ok a u ∧
      render 0 (withButton "viewdoo-listener:0") = .ok b w ∧
      (handlersOf (outputTrees 0 u)).map Prod.fst = ["focus"] ∧
      (handlersOf (outputTrees 0 w)).map Prod.fst = ["click", "focus"] := by
  have hone : Run.succeedsWith (render 0) (withButton "save") (fun _ u =>
      (handlersOf (outputTrees 0 u)).map Prod.fst == ["focus"]) = true := by decide +kernel
  have htwo : Run.succeedsWith (render 0) (withButton "viewdoo-listener:0") (fun _ w =>
      (handlersOf (outputTrees 0 w)).map Prod.fst == ["click", "focus"]) = true := by decide +kernel
  obtain ⟨a, u, hu, hfocus⟩ := Run.succeedsWith_iff.1 hone
  obtain ⟨b, w, hw, hboth⟩ := Run.succeedsWith_iff.1 htwo
  exact ⟨by decide, a, u, b, w, hu, hw, beq_iff_eq.1 hfocus, beq_iff_eq.1 hboth⟩

end Session

end LiveMarkup
