import LiveMarkup.Proofs.View.Twins
import LiveMarkup.Proofs.View.Write

/-! Renderings that fail. The earlier output stays where it is, and the instance is ready for the next
dirty write. -/

namespace LiveMarkup.Session

open Run (Alike)

variable {s s' t : Session} {i : InstanceId} {inst : Instance} {o : Output}

/-- The session `s'` is `s` after a pass of an instance that has failed: the program may have written
to its scope and told the host of events, and the stylesheet of its view may be new in the head. -/
structure Spared (i : InstanceId) (d : Definition) (s s' : Session) : Prop where
  style : s'.document = s.document ∨
    ∃ sheet, d.stylesheet = some sheet ∧
      s'.document = s.document.addStylesheet sheet.attr sheet.css
  nodes : ∃ styles, Document.Styled s.document s'.document styles ∧
    StylesOf d s'.document.forest styles
  rest : ∃ scope phase events,
    s' = { aside i scope phase events s with document := s'.document }

private theorem render_spares {e : Stop} (h : s.instances[i]? = some inst)
    (hr : render i s = .error e s') :
    Spared i inst.definition s s' := by
  obtain ⟨scope, phase, events, document, rfl, hd⟩ := render_error h hr
  refine ⟨?_, ?_, scope, phase, events, rfl⟩
  · rcases hd with rfl | rfl
    · exact .inl rfl
    · unfold dress
      split
      · next sheet hs => exact .inr ⟨sheet, hs, rfl⟩
      · exact .inl rfl
  · rcases hd with rfl | rfl
    · exact ⟨[], .refl _, Nat.zero_le _, by simp⟩
    · exact dress_styled ..

/-- What an instance is doing before and after a failed pass does not matter. -/
private theorem Spared.any_phase {d : Definition} {phase : Phase}
    (h : Spared i d (inPhase i phase s) s') (phase' : Phase) :
    Spared i d s (inPhase i phase' s') := by
  obtain ⟨hs, hn, scope, phase, events, he⟩ := h
  refine ⟨hs, hn, scope, phase', events, ?_⟩
  rw [he]
  simp only [inPhase, aside, modifyInstance, modify_modify]

/-- What remains of an instance after a failed pass. -/
private theorem Spared.mounted {d : Definition} (h : Spared i d s s')
    (hi : s.instances[i]? = some inst) :
    ∃ scope phase, s'.instances[i]? = some { inst with scope, phase } := by
  obtain ⟨-, -, scope, phase, events, he⟩ := h
  refine ⟨scope, phase, ?_⟩
  rw [he]
  exact getElem?_aside hi scope phase events

private theorem keeping_none_spares {e : Stop} (h : s.instances[i]? = some inst)
    (hr : keeping (none : Option NodeId).toList (render i) s = .error e s') :
    Spared i inst.definition s s' := by
  rw [keeping_eq, show holding (none : Option NodeId).toList s = s from rfl] at hr
  cases hm : render i s with
  | ok a t =>
    rw [hm] at hr
    cases hr
  | error e' t =>
    rw [hm] at hr
    cases hr
    obtain ⟨hs, hn, scope, phase, events, he⟩ := render_spares h hm
    refine ⟨hs, hn, scope, phase, events, ?_⟩
    rw [he]
    rfl

/-- An update fails in its first pass or in the one that follows it, and is idle afterwards. -/
private theorem update_error {e : Stop} (h : s.instances[i]? = some inst) (ho : inst.output = some o)
    (hu : update i s = .error e s') :
    ∃ base inst', (base = s ∨
        render i (inPhase i (.rendering false) s) = .ok none base ∧ written i base) ∧
      base.instances[i]? = some inst' ∧ Spared i inst.definition base s' ∧
      ∃ t, s' = inPhase i .idle t := by
  rw [update_eq] at hu
  have h₁ : (inPhase i (.rendering false) s).instances[i]? =
      some { inst with phase := .rendering false } := getElem?_modifyInstance_self h _
  cases hr : render i (inPhase i (.rendering false) s) with
  | error e' t =>
    rw [hr] at hu
    cases hu
    exact ⟨s, inst, .inl rfl, h, (render_spares h₁ hr).any_phase _, t, rfl⟩
  | ok fragment t =>
    rw [hr] at hu
    obtain ⟨rfl, scope, phase, events, trees, o', forest, -, -, ht⟩ := render_ok h₁ ho hr
    dsimp only at hu
    split at hu
    · next hw =>
      have h₂ : t.instances[i]? = some { inst with
          scope, phase, output := some o', renders := inst.renders + 1 } := by
        rw [ht]
        exact getElem?_shown (getElem?_aside h₁ scope phase events) o' forest
      cases hk : keeping (none : Option NodeId).toList (render i) (inPhase i .following t) with
      | ok a u =>
        rw [hk] at hu
        cases hu
      | error e' u =>
        rw [hk] at hu
        cases hu
        refine ⟨t, _, .inr ⟨rfl, hw⟩, h₂, ?_, u, rfl⟩
        exact (keeping_none_spares (getElem?_modifyInstance_self h₂ _) hk).any_phase _
    · cases hu

/-! What the next dirty write sets off. -/

/-- The session that a failed pass began with, had the pass not been attempted: only what the program
had written by then is in the scope, and the stylesheet may be there. -/
def unattempted (i : InstanceId) (base s' : Session) : Session :=
  { aside i (scopeOf i s') .idle base.events base with document := s'.document }

/-- The instance is idle again, a user cannot tell that the pass has been attempted, and a dirty
write renders: at once, or by a job of the frame unless one waits already. -/
structure Recovered (i : InstanceId) (base s' : Session) : Prop where
  idle : ∀ inst, s'.instances[i]? = some inst → inst.phase = .idle
  same : Twins i id (unattempted i base s') s'
  set : ∀ x v, Alike (Twins i id) (setPublic i x v (unattempted i base s')) (setPublic i x v s')
  change : ∀ x c,
    Alike (Twins i id) (updatePublic i x c (unattempted i base s')) (updatePublic i x c s')
  call : ∀ x args,
    Alike (Twins i id) (callPublic i x args (unattempted i base s')) (callPublic i x args s')
  sync : ∀ inst scope, s'.instances[i]? = some inst → inst.alive → inst.discipline = .sync →
    changed i (withScopeOf i scope s') = (do let _ ← update i) (withScopeOf i scope s')
  batched : ∀ inst scope, s'.instances[i]? = some inst → inst.alive → inst.discipline = .batched →
    changed i (withScopeOf i scope s') =
      if inst.pending then .ok () (withScopeOf i scope s')
      else frameHost.request (.act (.render i) .done)
        ((withScopeOf i scope s').modifyInstance i fun inst => { inst with pending := true })

private theorem Spared.recovered {d : Definition} {base : Session} (h : Spared i d base s')
    (hi : base.instances[i]? = some inst) (hidle : ∃ t, s' = inPhase i .idle t) :
    Recovered i base s' := by
  have hphase (inst : Instance) (h : s'.instances[i]? = some inst) : inst.phase = .idle := by
    obtain ⟨t, rfl⟩ := hidle
    exact phase_of_inPhase h
  have hsame : Twins i id (unattempted i base s') s' := by
    obtain ⟨-, -, scope, phase, events, he⟩ := h
    have hi' : s'.instances[i]? = some { inst with scope, phase } := by
      rw [he]
      exact getElem?_aside hi scope phase events
    have hidle : phase = .idle := hphase _ hi'
    have hscope : scopeOf i s' = scope := scopeOf_eq hi'
    have hu : unattempted i base s' =
        { aside i scope .idle base.events base with document := s'.document } := by
      rw [unattempted, hscope]
    rw [hidle] at he
    refine ⟨events, he.trans ?_⟩
    rw [hu]
    simp only [twin, aside, modifyInstance, modify_modify]
    rfl
  refine ⟨hphase, hsame, fun x v => setPublic_related x v _ _ hsame,
    fun x c => updatePublic_related x c _ _ hsame, fun x args => callPublic_related x args _ _ hsame,
    fun inst scope hi ha hd => ?_, fun inst scope hi ha hd => ?_⟩
  · have hp : inst.phase = .idle := hphase _ hi
    rw [changed_eq (t := withScopeOf i scope s') (getElem?_modifyInstance_self hi _) ha hp]
    dsimp only
    rw [hd]
  · have hp : inst.phase = .idle := hphase _ hi
    rw [changed_eq (t := withScopeOf i scope s') (getElem?_modifyInstance_self hi _) ha hp]
    dsimp only
    rw [hd]

/-- A failed pass leaves all nodes, the output and the count of renderings as they are. However an
update fails, it is undone to where its last pass began, and the next dirty write renders as if that
pass had not been attempted. If it is the second pass that fails, the output is that of the first. -/
theorem failed_update_spares_output (h : s.instances[i]? = some inst) (ho : inst.output = some o) :
    (∀ e s', render i s = .error e s' →
      Spared i inst.definition s s' ∧
        ∃ scope phase, s'.instances[i]? = some { inst with scope, phase }) ∧
    ∀ e s', update i s = .error e s' →
      ∃ base inst', (base = s ∨
          render i (inPhase i (.rendering false) s) = .ok none base ∧ written i base) ∧
        base.instances[i]? = some inst' ∧
        Spared i inst.definition base s' ∧
        (∃ scope phase, s'.instances[i]? = some { inst' with scope, phase }) ∧
        Recovered i base s' := by
  refine ⟨fun e s' hr => ⟨render_spares h hr, (render_spares h hr).mounted h⟩, fun e s' hu => ?_⟩
  obtain ⟨base, inst', hb, hi, hs, hidle⟩ := update_error h ho hu
  exact ⟨base, inst', hb, hi, hs, hs.mounted hi, hs.recovered hi hidle⟩

/-- A view that repeats a paragraph for the elements of a property, and a session with an instance of
it whose property has been given a value since it was rendered. -/
def paragraphs : Recipe :=
  ⟨⟨0, ⟨"{{ each x as y }}<p></p>{{ endeach }}", none, none⟩,
    ⟨[.each (.name "x") "y" none [.text "<p></p>"]]⟩, .empty, none⟩, .sync, false⟩

def repeating (v : Value) : Session :=
  withScopeOf 0 ⟨[("x", v)], []⟩ (Run.left (mount paragraphs [("x", .list [.null])] false [] 2) empty)

/-- A truth value has no elements. -/
theorem failed_update_spares_paragraphs :
    ∃ inst o e s', (repeating (.bool true)).instances[0]? = some inst ∧ inst.output = some o ∧
      update 0 (repeating (.bool true)) = .error e s' ∧
      ∃ base inst', (base = repeating (.bool true) ∨
          render 0 (inPhase 0 (.rendering false) (repeating (.bool true))) = .ok none base ∧
            written 0 base) ∧
        base.instances[0]? = some inst' ∧
        Spared 0 inst.definition base s' ∧
        (∃ scope phase, s'.instances[0]? = some { inst' with scope, phase }) ∧
        Recovered 0 base s' := by
  have hmounted : ((repeating (.bool true)).instances[0]?.bind (·.output)).isSome = true := by
    decide +kernel
  have hfails : (update 0 (repeating (.bool true))) matches .error _ _ := by decide +kernel
  obtain ⟨o, ho⟩ := Option.isSome_iff_exists.1 hmounted
  obtain ⟨inst, hi, ho⟩ := Option.bind_eq_some_iff.1 ho
  generalize hu : update 0 (repeating (.bool true)) = r at hfails
  cases r with
  | ok r t => cases hfails
  | error e s' =>
    exact ⟨inst, o, e, s', hi, ho, rfl, (failed_update_spares_output hi ho).2 e s' hu⟩

end LiveMarkup.Session
