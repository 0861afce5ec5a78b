import LiveMarkup.Proofs.Document.Head
import LiveMarkup.Proofs.Eval.Hosts
import LiveMarkup.Proofs.View.Output
import LiveMarkup.View.Session

/-! A pass of rendering, part by part: the program is evaluated, its output is read as trees, the
stylesheet is added, and the trees are put in the place of the earlier output. -/

namespace LiveMarkup.Session

open Run (Keeps Related)

variable {s s' t : Session} {i j : InstanceId}

/-! Changes of one instance. -/

theorem getElem?_modifyInstance (change : Instance → Instance) :
    (s.modifyInstance i change).instances[j]? =
      if i = j then s.instances[j]?.map change else s.instances[j]? := by
  rw [modifyInstance, Array.getElem?_modify]

theorem getElem?_modifyInstance_self {inst : Instance} (h : s.instances[i]? = some inst)
    (change : Instance → Instance) :
    (s.modifyInstance i change).instances[i]? = some (change inst) := by
  rw [getElem?_modifyInstance, if_pos rfl, h, Option.map_some]

theorem getElem?_modifyInstance_of_ne (h : j ≠ i) (change : Instance → Instance) :
    (s.modifyInstance i change).instances[j]? = s.instances[j]? := by
  rw [getElem?_modifyInstance, if_neg (Ne.symm h)]

theorem modify_modify (a : Array Instance) (f g : Instance → Instance) :
    (a.modify i f).modify i g = a.modify i fun inst => g (f inst) := by
  refine Array.ext_getElem? fun k => ?_
  simp only [Array.getElem?_modify]
  split
  · rw [Option.map_map]
    rfl
  · rfl

private theorem flatMap_modify {α β : Type} {g : α → List β} {f : α → α} (h : ∀ a, g (f a) = g a)
    (l : List α) (k : Nat) : (l.modify k f).flatMap g = l.flatMap g := by
  induction l generalizing k with
  | nil => simp
  | cons a l ih => cases k <;> simp [h, ih]

theorem scopeOf_eq {inst : Instance} (h : s.instances[i]? = some inst) : scopeOf i s = inst.scope := by
  rw [scopeOf, h, Option.map_some, Option.getD_some]

/-- What is kept depends on the outputs of the instances that are alive. -/
theorem kept_modifyInstance {change : Instance → Instance}
    (h : ∀ inst, keptBy (change inst) = keptBy inst) : kept (s.modifyInstance i change) = kept s := by
  simp only [kept, modifyInstance, Array.toList_modify, flatMap_modify h]

def inPhase (i : InstanceId) (phase : Phase) (s : Session) : Session :=
  s.modifyInstance i fun inst => { inst with phase }

theorem getElem?_inPhase {inst : Instance} (h : s.instances[i]? = some inst) (phase : Phase) :
    (inPhase i phase s).instances[i]? = some { inst with phase } :=
  getElem?_modifyInstance_self h _

theorem phase_of_inPhase {phase : Phase} {inst : Instance}
    (h : (inPhase i phase s).instances[i]? = some inst) : inst.phase = phase := by
  rw [inPhase, getElem?_modifyInstance, if_pos rfl, Option.map_eq_some_iff] at h
  obtain ⟨inst', -, rfl⟩ := h
  rfl

/-- The session with another scope and phase of an instance, and with the host told other events. -/
def aside (i : InstanceId) (scope : Scope) (phase : Phase) (events : List Event) (s : Session) :
    Session :=
  { s.modifyInstance i fun inst => { inst with scope, phase } with events }

/-- The session with other nodes in the place of an instance, rendered once more. -/
def shown (i : InstanceId) (o : Output) (forest : Forest Handler) (s : Session) : Session :=
  { s with document := { s.document with forest } }.modifyInstance i fun inst =>
    { inst with output := some o, renders := inst.renders + 1 }

/-- Nothing is aside but what the host has been told. -/
theorem aside_self {inst : Instance} (h : s.instances[i]? = some inst) (events : List Event) :
    aside i inst.scope inst.phase events s = { s with events } := by
  have hmod : (s.instances.modify i fun it => { it with scope := inst.scope, phase := inst.phase }) =
      s.instances := by
    refine Array.ext_getElem? fun k => ?_
    rw [Array.getElem?_modify]
    split
    · next hk =>
      subst hk
      rw [h, Option.map_some]
    · rfl
  simp only [aside, modifyInstance, hmod]

private theorem withScopeOf_aside (scope scope' : Scope) (phase : Phase) (events : List Event) :
    withScopeOf i scope' (aside i scope phase events s) = aside i scope' phase events s := by
  simp only [withScopeOf, aside, modifyInstance, modify_modify]

theorem getElem?_aside {inst : Instance} (h : s.instances[i]? = some inst) (scope : Scope)
    (phase : Phase) (events : List Event) :
    (aside i scope phase events s).instances[i]? = some { inst with scope, phase } :=
  getElem?_modifyInstance_self h _

theorem getElem?_aside_of_ne (h : j ≠ i) (scope : Scope) (phase : Phase) (events : List Event) :
    (aside i scope phase events s).instances[j]? = s.instances[j]? :=
  getElem?_modifyInstance_of_ne h _

theorem getElem?_shown {inst : Instance} (h : s.instances[i]? = some inst) (o : Output)
    (forest : Forest Handler) :
    (shown i o forest s).instances[i]? =
      some { inst with output := some o, renders := inst.renders + 1 } :=
  getElem?_modifyInstance_self (s := { s with document := { s.document with forest } }) h _

theorem getElem?_shown_of_ne (h : j ≠ i) (o : Output) (forest : Forest Handler) :
    (shown i o forest s).instances[j]? = s.instances[j]? :=
  getElem?_modifyInstance_of_ne (s := { s with document := { s.document with forest } }) h _

/-! Evaluation in the scope of an instance. -/

/-- Evaluation goes together in sessions if reading and writing the scope, telling the host and the
given notification do. -/
theorem hostWith_agree {E : Scope → Scope → Prop} {R : Session → Session → Prop}
    {notify : String → Run Session Unit} (hE : Scope.Congruence E)
    (hscope : ∀ {s t}, R s t → E (scopeOf i s) (scopeOf i t))
    (hstore : ∀ {s t a b}, R s t → E a b → R (withScopeOf i a s) (withScopeOf i b t))
    (htell : ∀ {s t} e, R s t →
      R { s with events := e :: s.events } { t with events := e :: t.events })
    (hnatives : ∀ {s t}, R s t → t.natives = s.natives)
    (hnotify : ∀ x, Related R (notify x) (notify x)) :
    Host.Agree E R (hostWith i notify) (hostWith i notify) := by
  have hplain : Host.Agree E R (plainHost i notify) (plainHost i notify) :=
    ⟨hE, hscope, hstore, hnotify, fun _ _ => .pure _⟩
  refine ⟨hE, hscope, hstore, hnotify, fun id args => .get_bind fun s t hst => ?_⟩
  rw [hnatives hst]
  split
  · refine Procedure.run_related (fun s t hst => hE.get? (hscope hst)) hplain.set (fun vs => ?_) _
    exact .modify fun s t h => htell (.values vs) h
  · exact .pure _

/-- Evaluation keeps what writing to the scope, telling the host and the given notification keep. -/
theorem hostWith_keeps {P : Session → Prop} {notify : String → Run Session Unit}
    (hscope : ∀ scope s, P s → P (withScopeOf i scope s))
    (htell : ∀ e (s : Session), P s → P { s with events := e :: s.events })
    (hnotify : ∀ x, Keeps P (notify x)) : (hostWith i notify).Keeps P := by
  have h : Host.Agree Eq (fun s t => s = t ∧ P s) (hostWith i notify) (hostWith i notify) := by
    refine hostWith_agree .eq ?_ ?_ ?_ ?_ fun x => Run.keeps_iff_related.1 (hnotify x)
    · rintro s _ ⟨rfl, -⟩
      rfl
    · rintro s _ scope _ ⟨rfl, hs⟩ rfl
      exact ⟨rfl, hscope scope s hs⟩
    · rintro s _ e ⟨rfl, hs⟩
      exact ⟨rfl, htell e s hs⟩
    · rintro s _ ⟨rfl, -⟩
      rfl
  exact ⟨hscope, hnotify, fun id args => Run.keeps_iff_related.2 (h.native id args)⟩

/-- What an instance is doing once it has taken note of a dirty write. -/
def noted : Phase → Phase
  | .rendering _ => .rendering true
  | phase => phase

theorem noteWrite_eq (i : InstanceId) :
    noteWrite i = modify fun s => s.modifyInstance i fun inst => { inst with phase := noted inst.phase } := by
  refine congrArg (fun change => (modify fun s => s.modifyInstance i change : Run Session Unit))
    (funext fun inst => ?_)
  obtain ⟨definition, scope, discipline, escaped, output, renders, pending, phase, alive⟩ := inst
  cases phase <;> rfl

/-- Rendering reaches only what is aside. -/
private theorem renderHost_keeps (i : InstanceId) (s : Session) :
    (renderHost i).Keeps fun t => ∃ scope phase events, t = aside i scope phase events s := by
  refine hostWith_keeps ?_ ?_ fun x => noteWrite_eq i ▸ .modify ?_
  · rintro scope _ ⟨scope', phase, events, rfl⟩
    exact ⟨scope, phase, events, withScopeOf_aside ..⟩
  · rintro e _ ⟨scope, phase, events, rfl⟩
    exact ⟨scope, phase, e :: events, rfl⟩
  · rintro _ ⟨scope, phase, events, rfl⟩
    refine ⟨scope, noted phase, events, ?_⟩
    simp only [aside, modifyInstance, modify_modify]

def materialize (i : InstanceId) (inst : Instance) : Run Session (List (Html Handler)) := do
  let d := inst.definition
  let rendered ← Eval.template (renderHost i) d.markupSource d.template
  let (markup, functions) := Slot.fill inst.escaped rendered
  match Html.parse markup with
  | .error e => Run.fail (.document (.malformed e.message))
  | .ok trees => return Slot.stampAll d.attr? (functions.map fun f => ⟨f, i⟩) trees

/-- Trees are made of the output of the program, as it is read and stamped. -/
theorem materialize_eq_ok_iff {inst : Instance} {trees : List (Html Handler)} :
    materialize i inst s = .ok trees t ↔
      ∃ rendered parsed, Eval.template (renderHost i) inst.definition.markupSource inst.definition.template s =
          .ok rendered t ∧
        Html.parse (Slot.fill inst.escaped rendered).1 = .ok parsed ∧
        Slot.stampAll inst.definition.attr? ((Slot.fill inst.escaped rendered).2.map fun f => ⟨f, i⟩) parsed =
          trees := by
  have hm : materialize i inst =
      Eval.template (renderHost i) inst.definition.markupSource inst.definition.template >>= _ := rfl
  rw [hm, Run.bind_eq_ok]
  constructor
  · rintro ⟨rendered, u, he, h⟩
    dsimp only at h
    cases hparse : Html.parse (Slot.fill inst.escaped rendered).1 with
    | error e =>
      rw [hparse] at h
      cases h
    | ok parsed =>
      rw [hparse] at h
      cases h
      exact ⟨rendered, parsed, he, hparse, rfl⟩
  · rintro ⟨rendered, parsed, he, hparse, rfl⟩
    refine ⟨rendered, t, he, ?_⟩
    dsimp only
    rw [hparse]
    rfl

/-- Only evaluation changes anything. -/
theorem left_materialize (inst : Instance) (s : Session) :
    Run.left (materialize i inst) s =
      Run.left (Eval.template (renderHost i) inst.definition.markupSource inst.definition.template) s := by
  have hm : materialize i inst =
      Eval.template (renderHost i) inst.definition.markupSource inst.definition.template >>= _ := rfl
  cases he : Eval.template (renderHost i) inst.definition.markupSource inst.definition.template s with
  | error e t => rw [hm, Run.left_of_error he, Run.left_of_error (Run.bind_of_error he)]
  | ok rendered t =>
    rw [hm, Run.left_of_ok he, Run.left_congr (Run.bind_of_ok he)]
    dsimp only
    split
    · exact Run.left_of_error rfl
    · exact Run.left_of_ok rfl

/-- Only the view itself and what evaluation can tell apart matter. -/
theorem materialize_related {E : Scope → Scope → Prop} {R : Session → Session → Prop}
    (a : Host.Agree E R (renderHost i) (renderHost i)) {inst inst' : Instance}
    (hd : inst'.definition = inst.definition) (he : inst'.escaped = inst.escaped) :
    Related R (materialize i inst) (materialize i inst') := by
  unfold materialize
  rw [hd, he]
  refine .bind (Eval.template_related a _ _) fun rendered => ?_
  dsimp only
  split
  · exact .fail _
  · exact .pure _

theorem materialize_keeps {P : Session → Prop} (h : (renderHost i).Keeps P) (inst : Instance) :
    Keeps P (materialize i inst) :=
  Run.keeps_iff_related.2 (materialize_related h.agree rfl rfl)

theorem materialize_aside {inst : Instance} (h : s.instances[i]? = some inst) :
    ∃ scope phase events, Run.left (materialize i inst) s = aside i scope phase events s :=
  materialize_keeps (renderHost_keeps i s) inst s ⟨_, _, _, (aside_self h s.events).symm⟩

def dress (d : Definition) (document : Document Handler) : Document Handler :=
  match d.stylesheet with
  | some sheet => document.addStylesheet sheet.attr sheet.css
  | none => document

/-- The nodes are those of the stylesheet of a view: one style element, or none. -/
def StylesOf (d : Definition) (forest : Forest Handler) (styles : List NodeId) : Prop :=
  styles.length ≤ 1 ∧ ∀ n ∈ styles, ∃ sheet, d.stylesheet = some sheet ∧
    forest.kind? n = some (.element "style" [(sheet.attr, "")] [])

theorem dress_styled (d : Definition) (document : Document Handler) :
    ∃ styles, Document.Styled document (dress d document) styles ∧
      StylesOf d (dress d document).forest styles := by
  unfold dress
  split
  · next sheet hs =>
    obtain ⟨styles, h, hlen, hkind⟩ := Document.addStylesheet_styled document sheet.attr sheet.css
    exact ⟨styles, h, hlen, fun n hn => ⟨sheet, hs, hkind n hn⟩⟩
  · exact ⟨[], .refl _, Nat.zero_le _, by simp⟩

theorem dress_linked {document : Document Handler} (hf : document.forest.Linked)
    (hh : document.forest.Has document.head) (d : Definition) : (dress d document).forest.Linked := by
  unfold dress
  split
  · exact Document.addStylesheet_linked hf hh ..
  · exact hf

/-- The second half of a pass: what becomes of the trees. -/
def present (i : InstanceId) (inst : Instance) (trees : List (Html Handler)) :
    Run Session (Option NodeId) := do
  modify fun s => { s with document := dress inst.definition s.document }
  let fragment ← place i inst trees
  keeping fragment.toList (modify settle)
  return fragment

/-- A pass has two halves, and only the second one touches the document. -/
theorem render_eq {inst : Instance} (h : s.instances[i]? = some inst) :
    render i s = (materialize i inst >>= present i inst) s := by
  have hread : render i s = _ := Run.bind_of_ok (rfl : (get : Run Session Session) s = .ok s s)
  rw [hread, h]
  simp only [materialize, bind_assoc]
  refine congrFun (congrArg _ (funext fun rendered => ?_)) s
  cases Html.parse (Slot.fill inst.escaped rendered).1 with
  | error e => rfl
  | ok trees =>
    unfold present dress
    cases inst.definition.stylesheet with
    | some sheet => rfl
    | none => rfl

def holding (nodes : List NodeId) (s : Session) : Session := { s with held := nodes ++ s.held }

theorem keeping_eq {α : Type} (nodes : List NodeId) (m : Run Session α) (s : Session) :
    keeping nodes m s =
      match m (holding nodes s) with
      | .ok a t => .ok a { t with held := s.held }
      | .error e t => .error e { t with held := s.held } := rfl

theorem left_keeping {α : Type} (nodes : List NodeId) (m : Run Session α) (s : Session) :
    Run.left (keeping nodes m) s = { Run.left m (holding nodes s) with held := s.held } := by
  have he := keeping_eq nodes m s
  cases h : m (holding nodes s) with
  | ok a t =>
    rw [h] at he
    rw [Run.left_of_ok he, Run.left_of_ok h]
  | error e t =>
    rw [h] at he
    rw [Run.left_of_error he, Run.left_of_error h]

/-- What is kept by nobody but further nodes while the session lets go. -/
def settleWith (nodes : List NodeId) (s : Session) : Session :=
  { settle { s with held := nodes ++ s.held } with held := s.held }

def dressed (d : Definition) (s : Session) : Session := { s with document := dress d s.document }

theorem place_first {inst : Instance} (ho : inst.output = none) (trees : List (Html Handler))
    (s : Session) :
    place i inst trees s =
      let r := Output.first s.document.forest trees
      .ok (some r.1) (shown i r.2.1 r.2.2 s) := by
  have hread : place i inst trees s = _ :=
    Run.bind_of_ok (rfl : (get : Run Session Session) s = .ok s s)
  rw [hread, ho]
  rfl

theorem place_again {inst : Instance} {o : Output} (ho : inst.output = some o)
    (trees : List (Html Handler)) (s : Session) :
    place i inst trees s =
      match o.replace s.document.forest trees with
      | .error e => .error (.error (.document e)) s
      | .ok (o', forest) => .ok none (shown i o' forest s) := by
  have hread : place i inst trees s = _ :=
    Run.bind_of_ok (rfl : (get : Run Session Session) s = .ok s s)
  rw [hread, ho]
  dsimp only
  generalize o.replace s.document.forest trees = r
  cases r <;> rfl

def finish (fragment : Option NodeId) : Run Session (Option NodeId) := do
  keeping fragment.toList (modify settle)
  return fragment

private theorem present_eq (i : InstanceId) (inst : Instance) (trees : List (Html Handler))
    (s : Session) :
    present i inst trees s = (place i inst trees >>= finish) (dressed inst.definition s) := rfl

theorem present_first {inst : Instance} (ho : inst.output = none) (trees : List (Html Handler))
    (s : Session) :
    present i inst trees s =
      let r := Output.first (dress inst.definition s.document).forest trees
      .ok (some r.1) (settleWith [r.1] (shown i r.2.1 r.2.2 (dressed inst.definition s))) := by
  rw [present_eq, Run.bind_of_ok (place_first ho trees _)]
  rfl

theorem present_again {inst : Instance} {o o' : Output} {forest : Forest Handler}
    {trees : List (Html Handler)} (ho : inst.output = some o)
    (h : o.replace (dress inst.definition s.document).forest trees = .ok (o', forest)) :
    present i inst trees s =
      .ok none (settle (shown i o' forest (dressed inst.definition s))) := by
  have hplace := place_again (i := i) ho trees (dressed inst.definition s)
  rw [show (dressed inst.definition s).document = dress inst.definition s.document from rfl, h]
    at hplace
  rw [present_eq, Run.bind_of_ok hplace]
  rfl

theorem present_error {inst : Instance} {o : Output} {e : DocumentError}
    {trees : List (Html Handler)} (ho : inst.output = some o)
    (h : o.replace (dress inst.definition s.document).forest trees = .error e) :
    present i inst trees s = .error (.error (.document e)) (dressed inst.definition s) := by
  have hplace := place_again (i := i) ho trees (dressed inst.definition s)
  rw [show (dressed inst.definition s).document = dress inst.definition s.document from rfl, h]
    at hplace
  rw [present_eq, Run.bind_of_error hplace]

/-! What a pass leaves. -/

/-- A pass that fails leaves everything as it is but what is aside and the stylesheet. -/
theorem render_error {inst : Instance} {e : Stop} (h : s.instances[i]? = some inst)
    (hr : render i s = .error e s') :
    ∃ scope phase events document, s' = { aside i scope phase events s with document } ∧
      (document = s.document ∨ document = dress inst.definition s.document) := by
  rw [render_eq h, Run.bind_eq_error] at hr
  obtain hm | ⟨trees, t, hm, hp⟩ := hr
  · obtain ⟨scope, phase, events, he⟩ := materialize_aside h
    obtain rfl := (Run.left_of_error hm).symm.trans he
    exact ⟨scope, phase, events, s.document, rfl, .inl rfl⟩
  · obtain ⟨scope, phase, events, he⟩ := materialize_aside h
    obtain rfl := (Run.left_of_ok hm).symm.trans he
    refine ⟨scope, phase, events, dress inst.definition s.document, ?_, .inr rfl⟩
    cases ho : inst.output with
    | none => simp [present_first ho] at hp
    | some o =>
      cases hreplace : o.replace (dress inst.definition s.document).forest trees with
      | error e' =>
        cases (present_error (s := aside i scope phase events s) ho hreplace).symm.trans hp
        rfl
      | ok r =>
        cases (present_again (s := aside i scope phase events s) ho hreplace).symm.trans hp

/-- A pass that succeeds has put the trees of the program in the place of the earlier output. -/
theorem render_ok {inst : Instance} {o : Output} {fragment : Option NodeId}
    (h : s.instances[i]? = some inst) (ho : inst.output = some o)
    (hr : render i s = .ok fragment s') :
    fragment = none ∧ ∃ scope phase events trees o' forest,
      materialize i inst s = .ok trees (aside i scope phase events s) ∧
      o.replace (dress inst.definition s.document).forest trees = .ok (o', forest) ∧
      s' = settle (shown i o' forest (dressed inst.definition (aside i scope phase events s))) := by
  rw [render_eq h, Run.bind_eq_ok] at hr
  obtain ⟨trees, t, hm, hp⟩ := hr
  obtain ⟨scope, phase, events, he⟩ := materialize_aside h
  obtain rfl := (Run.left_of_ok hm).symm.trans he
  cases hreplace : o.replace (dress inst.definition s.document).forest trees with
  | error e =>
    cases (present_error (s := aside i scope phase events s) ho hreplace).symm.trans hp
  | ok r =>
    cases (present_again (s := aside i scope phase events s) ho hreplace).symm.trans hp
    exact ⟨rfl, scope, phase, events, trees, r.1, r.2, hm, hreplace, rfl⟩

/-- The first pass puts the trees of the program and the marker into a new fragment. -/
theorem render_first {inst : Instance} {fragment : Option NodeId} (h : s.instances[i]? = some inst)
    (ho : inst.output = none) (hr : render i s = .ok fragment s') :
    ∃ scope phase events trees,
      materialize i inst s = .ok trees (aside i scope phase events s) ∧
      let r := Output.first (dress inst.definition s.document).forest trees
      fragment = some r.1 ∧ s' = settleWith [r.1] (shown i r.2.1 r.2.2
        (dressed inst.definition (aside i scope phase events s))) := by
  rw [render_eq h, Run.bind_eq_ok] at hr
  obtain ⟨trees, t, hm, hp⟩ := hr
  obtain ⟨scope, phase, events, he⟩ := materialize_aside h
  obtain rfl := (Run.left_of_ok hm).symm.trans he
  cases (present_first (i := i) ho trees (aside i scope phase events s)).symm.trans hp
  exact ⟨scope, phase, events, trees, hm, rfl, rfl⟩

theorem render_of_missing (h : s.instances[i]? = none) : render i s = .ok none s := by
  have hread : render i s = _ := Run.bind_of_ok (rfl : (get : Run Session Session) s = .ok s s)
  rw [hread, h]
  rfl

/-! Updates. -/

def written (i : InstanceId) (s : Session) : Bool :=
  (s.instances[i]?).any fun inst => inst.phase == .rendering true

def orIdle {α : Type} (i : InstanceId) (m : Run Session α) : Run Session α :=
  tryCatch m fun e => do
    setPhase i .idle
    throw e

private theorem orIdle_of_ok {α : Type} {m : Run Session α} {a : α} (h : m s = .ok a t) :
    orIdle i m s = .ok a t := Run.tryCatch_of_ok h

private theorem orIdle_of_error {α : Type} {m : Run Session α} {e : Stop} (h : m s = .error e t) :
    orIdle i m s = .error e (inPhase i .idle t) := Run.tryCatch_of_error h

def follow (i : InstanceId) (fragment : Option NodeId) : Run Session (Option NodeId) := do
  if written i (← get) then
    setPhase i .following
    let _ ← orIdle i (keeping fragment.toList (render i))
  setPhase i .idle
  return fragment

/-- An update is a pass and, if properties changed meanwhile, another one. The instance is idle
afterwards, however it ends. -/
theorem update_eq (i : InstanceId) (s : Session) :
    update i s =
      match render i (inPhase i (.rendering false) s) with
      | .error e t => .error e (inPhase i .idle t)
      | .ok fragment t =>
        if written i t then
          match keeping fragment.toList (render i) (inPhase i .following t) with
          | .error e t => .error e (inPhase i .idle t)
          | .ok _ t => .ok fragment (inPhase i .idle t)
        else .ok fragment (inPhase i .idle t) := by
  have hupdate : update i s =
      (orIdle i (render i) >>= follow i) (inPhase i (.rendering false) s) := rfl
  rw [hupdate]
  cases h : render i (inPhase i (.rendering false) s) with
  | error e t => exact Run.bind_of_error (orIdle_of_error h)
  | ok fragment t =>
    rw [Run.bind_of_ok (orIdle_of_ok h)]
    have hread : follow i fragment t = _ :=
      Run.bind_of_ok (rfl : (get : Run Session Session) t = .ok t t)
    rw [hread]
    dsimp only
    split
    · have hphase : setPhase i .following t = .ok () (inPhase i .following t) := rfl
      rw [Run.bind_of_ok hphase]
      cases hr : keeping fragment.toList (render i) (inPhase i .following t) with
      | error e t => exact Run.bind_of_error (orIdle_of_error hr)
      | ok a t => exact Run.bind_of_ok (orIdle_of_ok hr)
    · rfl

end LiveMarkup.Session
