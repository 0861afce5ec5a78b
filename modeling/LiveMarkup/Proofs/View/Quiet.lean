import LiveMarkup.Proofs.Eval.Reading
import LiveMarkup.Proofs.View.Write

/-! What the program of an instance makes of its properties, and programs that do not write. Both
depend on the view, on what the scope holds and on the native functions alone. -/

namespace LiveMarkup.Session

open Run (Keeps Related)

variable {s t : Session} {i : InstanceId} {inst inst' : Instance} {E : Scope → Scope → Prop}
  {F : Phase → Phase → Prop} {trees : List (Html Handler)}

/-- Two sessions as an evaluation sees them: the scopes of an instance are in `E`, what it is doing
is in `F`, and the native functions are the same. -/
structure Seeing (i : InstanceId) (E : Scope → Scope → Prop) (F : Phase → Phase → Prop)
    (s t : Session) : Prop where
  natives : t.natives = s.natives
  self : ∃ inst inst', s.instances[i]? = some inst ∧ t.instances[i]? = some inst' ∧
    E inst.scope inst'.scope ∧ F inst.phase inst'.phase

/-- Rendering cannot tell them apart. -/
private theorem seeing_agree (hE : Scope.Congruence E) (hF : ∀ {p q}, F p q → F (noted p) (noted q)) :
    Host.Agree E (Seeing i E F) (renderHost i) (renderHost i) := by
  refine hostWith_agree hE ?_ ?_ ?_ (fun h => h.natives) fun x => noteWrite_eq i ▸ .modify ?_
  · rintro s t ⟨-, inst, inst', hi, hi', he, -⟩
    rw [scopeOf_eq hi, scopeOf_eq hi']
    exact he
  · rintro s t a b ⟨hn, inst, inst', hi, hi', -, hf⟩ hab
    exact ⟨hn, _, _, getElem?_modifyInstance_self hi _, getElem?_modifyInstance_self hi' _, hab, hf⟩
  · rintro s t e ⟨hn, hself⟩
    exact ⟨hn, hself⟩
  · rintro s t ⟨hn, inst, inst', hi, hi', he, hf⟩
    exact ⟨hn, _, _, getElem?_modifyInstance_self hi _, getElem?_modifyInstance_self hi' _, he, hF hf⟩

/-- Two instances of one view that escape alike. -/
structure SameView (inst inst' : Instance) : Prop where
  definition : inst'.definition = inst.definition
  escaped : inst'.escaped = inst.escaped

/-! What a program makes of the properties. -/

/-- The trees that the program of an instance makes of its properties, if it can be evaluated and its
output can be read. -/
def treesOf (i : InstanceId) (s : Session) : Option (List (Html Handler)) :=
  (s.instances[i]?).bind fun inst =>
    match materialize i inst s with
    | .ok trees _ => some trees
    | .error _ _ => none

theorem treesOf_of_ok (hi : s.instances[i]? = some inst) (hm : materialize i inst s = .ok trees t) :
    treesOf i s = some trees := by
  rw [treesOf, hi, Option.bind_some, hm]

theorem treesOf_of_error {e : Stop} (hi : s.instances[i]? = some inst)
    (hm : materialize i inst s = .error e t) : treesOf i s = none := by
  rw [treesOf, hi, Option.bind_some, hm]

/-- Only what can be read matters. -/
theorem treesOf_congr (hi : s.instances[i]? = some inst) (hi' : t.instances[i]? = some inst')
    (hv : SameView inst inst') (hn : t.natives = s.natives) (hs : inst.scope.Agrees inst'.scope) :
    treesOf i t = treesOf i s := by
  have hsee : Seeing i Scope.Agrees (fun _ _ => True) s t := ⟨hn, inst, inst', hi, hi', hs, trivial⟩
  have ha := materialize_related (seeing_agree Scope.agrees_congruence fun _ => trivial)
    hv.definition hv.escaped s t hsee
  cases hm : materialize i inst s with
  | ok trees s' =>
    rw [hm] at ha
    cases hm' : materialize i inst' t with
    | ok trees' t' =>
      rw [hm'] at ha
      cases ha
      rw [treesOf_of_ok hi hm, treesOf_of_ok hi' hm']
    | error e t' =>
      rw [hm'] at ha
      cases ha
  | error e s' =>
    rw [hm] at ha
    cases hm' : materialize i inst' t with
    | ok trees' t' =>
      rw [hm'] at ha
      cases ha
    | error e t' => rw [treesOf_of_error hi hm, treesOf_of_error hi' hm']

theorem treesOf_inPhase (phase : Phase) (i : InstanceId) (s : Session) :
    treesOf i (inPhase i phase s) = treesOf i s := by
  cases hi : s.instances[i]? with
  | none => rw [treesOf, treesOf, inPhase, getElem?_modifyInstance, if_pos rfl, hi]; rfl
  | some inst =>
    exact treesOf_congr hi (getElem?_inPhase hi _) ⟨rfl, rfl⟩ rfl fun _ => rfl

/-! Programs that do not write. -/

/-- Evaluating the program of an instance while it is rendered leaves the instance as it is: its
scope does not change, and no dirty write is noted. -/
def Silent (i : InstanceId) (s : Session) : Prop :=
  ∀ inst, (inPhase i (.rendering false) s).instances[i]? = some inst →
    (Run.left (Eval.template (renderHost i) inst.definition.markupSource inst.definition.template)
      (inPhase i (.rendering false) s)).instances[i]? = some inst

/-- A program that can only read does not write. -/
theorem silent_of_readOnly
    (h : ∀ inst ∈ s.instances[i]?, ∀ st ∈ inst.definition.template.statements, st.ReadOnly) :
    Silent i s := by
  intro inst hi
  have hread : ∀ st ∈ inst.definition.template.statements, st.ReadOnly := by
    have hi' := hi
    rw [inPhase, getElem?_modifyInstance, if_pos rfl] at hi'
    obtain ⟨inst₀, hi₀, rfl⟩ := Option.map_eq_some_iff.1 hi'
    exact h inst₀ hi₀
  have hkeeps : Keeps (fun t : Session => t.instances[i]? = some inst)
      (Eval.template (renderHost i) inst.definition.markupSource inst.definition.template) :=
    Eval.template_keeps hread _
  exact hkeeps _ hi

/-- A program that does not write leaves nothing aside but what the host has been told. -/
theorem Silent.aside (h : Silent i s)
    (hi : (inPhase i (.rendering false) s).instances[i]? = some inst) {scope : Scope} {phase : Phase}
    {events : List Event} (he : Run.left (materialize i inst) (inPhase i (.rendering false) s) =
      aside i scope phase events (inPhase i (.rendering false) s)) :
    scope = inst.scope ∧ phase = inst.phase := by
  have hsame := h inst hi
  rw [← left_materialize, he, getElem?_aside hi, Option.some.injEq] at hsame
  exact ⟨congrArg Instance.scope hsame, congrArg Instance.phase hsame⟩

theorem Silent.congr (hi : s.instances[i]? = some inst) (hi' : t.instances[i]? = some inst')
    (hv : SameView inst inst') (hn : t.natives = s.natives) (hs : inst'.scope = inst.scope)
    (h : Silent i s) : Silent i t := by
  have hin := getElem?_inPhase hi (.rendering false)
  have hin' := getElem?_inPhase hi' (.rendering false)
  intro inst₁ h₁
  cases hin'.symm.trans h₁
  have hsee : Seeing i Eq Eq (inPhase i (.rendering false) s) (inPhase i (.rendering false) t) :=
    ⟨hn, _, _, hin, hin', hs.symm, rfl⟩
  have hrel : Related (Seeing i Eq Eq) (materialize i { inst with phase := .rendering false })
      (materialize i { inst' with phase := .rendering false }) :=
    materialize_related (seeing_agree .eq fun hpq => congrArg noted hpq) hv.definition hv.escaped
  obtain ⟨-, a, b, ha, hb, hscope, hphase⟩ := hrel.left hsee
  rw [left_materialize] at ha
  cases (h _ hin).symm.trans ha
  obtain ⟨scope, phase, events, he⟩ := materialize_aside hin'
  rw [he, getElem?_aside hin'] at hb
  cases hb
  have hscope : scope = inst'.scope := hscope.symm.trans hs.symm
  have hphase : phase = .rendering false := hphase.symm
  rw [← left_materialize, he, getElem?_aside hin', hscope, hphase]

end LiveMarkup.Session
