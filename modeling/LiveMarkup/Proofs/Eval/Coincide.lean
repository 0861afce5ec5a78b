import LiveMarkup.Eval.Observed
import LiveMarkup.Proofs.Eval.Shown
import LiveMarkup.Proofs.Eval.Writes
import LiveMarkup.Proofs.Scope.Visibility

/-! Programs depend on the names that they mention, and on nothing else. Two runs of one program go
together from scopes that agree on these names. -/

namespace LiveMarkup

open Run (RelatedIn)

variable {σ α : Type} {N : Reach} {R : σ → σ → Prop} {h : Host σ}

namespace Eval

theorem line_related_of_veils (hh : h.Veils N R) (source : Nat) (l : ScriptLine)
    (hN : ∀ x ∈ l.names, N.names x) : Run.Related R (line h source l) (line h source l) := by
  cases l with
  | declare x e =>
    cases e with
    | none => exact (hh.declare x .null (hN x List.mem_cons_self) .null).related
    | some e =>
      obtain ⟨hx, he⟩ := List.forall_mem_cons.1 hN
      have hrun : RelatedIn (fun _ => True) R (line h source (.declare x (some e)))
          (line h source (.declare x (some e))) :=
        .bind (value_coincides hh he source) fun v hv => hh.declare x v hx hv
      exact hrun.related
  | run e => exact .bind (value_coincides hh hN source).related fun _ => .pure ()

theorem script_related_of_veils (hh : h.Veils N R) (source : Nat) (s : Script)
    (hN : ∀ x ∈ s.names, N.names x) : Run.Related R (script h source s) (script h source s) :=
  .forM_of_mem fun l hl => line_related_of_veils hh source l fun x hx =>
    hN x (List.mem_flatMap_of_mem hl hx)

end Eval

/-! Scopes that coincide. -/

namespace Scope

/-- A property is the same in both scopes: its value, or that it has none, and who sees it. -/
def AgreeAt (x : String) (a b : Scope) : Prop := a.get? x = b.get? x ∧ a.isPublic x = b.isPublic x

private theorem AgreeAt.put {x y : String} {v : Value} {a b : Scope} (h : AgreeAt y a b)
    (hxy : x ≠ y) :
    AgreeAt y (a.put x v) b := by
  refine ⟨?_, ?_⟩
  · rw [get?_put, if_neg hxy, h.1]
  · rw [isPublic_put, h.2]

/-- Two scopes in which the names of a kind mean the same, and that agree on all others with the scopes
that they were made from. -/
structure Coincide (N : Reach) (a₀ b₀ a b : Scope) : Prop where
  agree : ∀ x, N.names x → a.get? x = b.get? x
  mentions : ∀ x, N.names x → ∀ v ∈ b.get? x, v.Mentions N
  left : ∀ x, ¬ N.names x → AgreeAt x a a₀
  right : ∀ x, ¬ N.names x → AgreeAt x b b₀

private theorem Coincide.put {a₀ b₀ a b : Scope} (h : Coincide N a₀ b₀ a b) {x : String} {v : Value}
    (hx : N.names x) (hv : v.Mentions N) : Coincide N a₀ b₀ (a.put x v) (b.put x v) where
  agree y hy := by rw [get?_put, get?_put, h.agree y hy]
  mentions y hy w hw := by
    rw [get?_put] at hw
    split at hw
    · cases hw
      exact hv
    · exact h.mentions y hy w hw
  left y hy := (h.left y hy).put fun hxy => hy (hxy ▸ hx)
  right y hy := (h.right y hy).put fun hxy => hy (hxy ▸ hx)

end Scope

/-- Runs cannot be told apart within reach if their scopes coincide there, and what is told and what native
functions do goes together. -/
theorem Host.veils_of_coincide {a₀ b₀ : Scope}
    (hscope : ∀ {s t}, R s t → Scope.Coincide N a₀ b₀ (h.scope s) (h.scope t))
    (hstore : ∀ {s t a b}, R s t → Scope.Coincide N a₀ b₀ a b → R (h.withScope a s) (h.withScope b t))
    (hnotify : ∀ x, RelatedIn (fun _ => True) R (h.notify x) (h.notify x))
    (hnative : ∀ id args, N.natives id → (∀ v ∈ args, v.Mentions N) →
      RelatedIn (Value.Mentions N) R (h.native id args) (h.native id args)) : h.Veils N R where
  get? hst x hx := (hscope hst).agree x hx
  mentions hst x hx := (hscope hst).mentions x hx
  set x v hx hv s t hst := by
    have hput := hstore hst ((hscope hst).put hx hv)
    rw [Host.set, h.write_eq, h.write_eq, (hscope hst).agree x hx]
    split
    · exact (hnotify x).bind (fun _ _ => .pure trivial) _ _ hput
    · exact RelatedIn.pure trivial _ _ hput
  declare x v hx hv s t hst := .ok ⟨rfl, trivial⟩ (hstore hst ((hscope hst).put hx hv))
  native := hnative

/-! Scopes that nobody listens to. -/

def Reach.ofNames (xs : List String) : Reach := ⟨(· ∈ xs), fun _ => False⟩

/-- A host that reads what has been written and tells nobody of it. -/
structure Host.Unheard (h : Host σ) : Prop where
  scope_withScope : ∀ scope s, h.scope (h.withScope scope s) = scope
  notify : ∀ x, h.notify x = pure ()

namespace Host.Unheard

variable (u : h.Unheard)

include u

/-- Names tell nothing apart in scopes in which they mean the same. -/
private theorem veils (xs : List String) (a₀ b₀ : Scope) :
    h.Veils (.ofNames xs) fun s t => Scope.Coincide (.ofNames xs) a₀ b₀ (h.scope s) (h.scope t) := by
  refine Host.veils_of_coincide (fun hst => hst) (fun _ hab => ?_) (fun x => ?_) fun _ _ hid => hid.elim
  · rw [u.scope_withScope, u.scope_withScope]
    exact hab
  · rw [u.notify]
    exact .pure trivial

end Host.Unheard

/-- Nobody listens to a scope without listeners. -/
private theorem Observed.host_unheard (depth : Nat) : (Observed.host [] (depth + 1)).Unheard where
  scope_withScope _ _ := rfl
  notify _ := rfl

namespace Scope

/-- Two scopes give the same values to names of a list, in which there are no functions, or none. -/
structure AgreeOn (xs : List String) (a b : Scope) : Prop where
  get? : ∀ x ∈ xs, a.get? x = b.get? x
  functionless : ∀ x ∈ xs, ∀ v ∈ b.get? x, v.Functionless

private theorem AgreeOn.coincide {xs : List String} {a b : Scope} (h : AgreeOn xs a b) :
    Coincide (.ofNames xs) a b a b where
  agree := h.get?
  mentions x hx v hv := (h.functionless x hx v hv).mono (fun _ hf => hf.elim) fun _ hf => hf.elim
  left _ _ := ⟨rfl, rfl⟩
  right _ _ := ⟨rfl, rfl⟩

end Scope

namespace Eval

/-- What runs that go together have in common. -/
private theorem coincide_of_related {xs : List String} {m : Run σ α} {s t : σ}
    (hm : Run.Related
      (fun s' t' => Scope.Coincide (.ofNames xs) (h.scope s) (h.scope t) (h.scope s') (h.scope t')) m m)
    (hst : (h.scope s).AgreeOn xs (h.scope t)) :
    Run.ending m s = Run.ending m t ∧
      (∀ x ∈ xs, (h.scope (Run.left m s)).get? x = (h.scope (Run.left m t)).get? x) ∧
      ∀ x ∉ xs, (h.scope (Run.left m s)).AgreeAt x (h.scope s) ∧
        (h.scope (Run.left m t)).AgreeAt x (h.scope t) := by
  have hleft := hm.left hst.coincide
  refine ⟨hm.ending hst.coincide, hleft.agree, ?_⟩
  intro x hx
  exact ⟨hleft.left x hx, hleft.right x hx⟩

/-- A template depends on the names that it mentions only. From two scopes without listeners that give
the same values to these names, in which there are no functions, or none, it ends alike: with the same
output or for the same reason. The scopes still agree on the names of the template, and every other
property is in both as it was. -/
theorem template_coincides (u : h.Unheard) (source : Nat) (t : Template) {s s' : σ}
    (hs : (h.scope s).AgreeOn t.names (h.scope s')) :
    Run.ending (template h source t) s = Run.ending (template h source t) s' ∧
      (∀ x ∈ t.names, (h.scope (Run.left (template h source t) s)).get? x =
        (h.scope (Run.left (template h source t) s')).get? x) ∧
      ∀ x ∉ t.names, (h.scope (Run.left (template h source t) s)).AgreeAt x (h.scope s) ∧
        (h.scope (Run.left (template h source t) s')).AgreeAt x (h.scope s') :=
  coincide_of_related (template_related_of_veils (u.veils _ _ _) source t fun _ hx => hx) hs

/-- A template that stores a function which reads a property, and calls it in a loop. -/
def addingTemplate : Template :=
  ⟨[.value (.assign "add" none
      (.lambda ⟨1, 1⟩ ["x"] (.binary .add (.name "x") (.name "step")))),
    .each (.list [.literal (.int 1), .literal (.int 5)]) "n" none
      [.text "<li>", .value (.call (.name "add") [.name "n"])],
    .value (.call (.name "default") [.name "note", .literal (.string "no note")])]⟩

def addingScope (other : Value) : Observed := .ofProps [("step", .int 2), ("other", other)]

theorem addingTemplate_coincides :
    (addingScope (.int 1)).scope.AgreeOn addingTemplate.names (addingScope (.string "one")).scope ∧
      Run.ending (template (Observed.host [] 1) 0 addingTemplate) (addingScope (.int 1)) =
        Run.ending (template (Observed.host [] 1) 0 addingTemplate) (addingScope (.string "one")) := by
  have hnames : addingTemplate.names = ["add", "x", "step", "add", "n", "default", "note"] := by decide
  have hagree : ((Observed.host [] 1).scope (addingScope (.int 1))).AgreeOn addingTemplate.names
      ((Observed.host [] 1).scope (addingScope (.string "one"))) := by
    rw [hnames]
    constructor
    · intro x hx
      simp only [List.mem_cons, List.not_mem_nil, or_false] at hx
      rcases hx with rfl | rfl | rfl | rfl | rfl | rfl | rfl <;> rfl
    · intro x hx v hv
      simp only [List.mem_cons, List.not_mem_nil, or_false] at hx
      rcases hx with rfl | rfl | rfl | rfl | rfl | rfl | rfl <;> cases hv
      exact .int 2
  exact ⟨hagree, (template_coincides (Observed.host_unheard 0) 0 addingTemplate hagree).1⟩

/-- A script depends on the names that it mentions only, as templates do. -/
theorem script_coincides (u : h.Unheard) (source : Nat) (t : Script) {s s' : σ}
    (hs : (h.scope s).AgreeOn t.names (h.scope s')) :
    Run.ending (script h source t) s = Run.ending (script h source t) s' ∧
      (∀ x ∈ t.names, (h.scope (Run.left (script h source t) s)).get? x =
        (h.scope (Run.left (script h source t) s')).get? x) ∧
      ∀ x ∉ t.names, (h.scope (Run.left (script h source t) s)).AgreeAt x (h.scope s) ∧
        (h.scope (Run.left (script h source t) s')).AgreeAt x (h.scope s') :=
  coincide_of_related (script_related_of_veils (u.veils _ _ _) source t fun _ hx => hx) hs

end Eval

end LiveMarkup
