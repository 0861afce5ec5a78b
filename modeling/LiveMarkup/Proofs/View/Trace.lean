import LiveMarkup.Proofs.View.Closed

/-! Rendering with a record of its passes and writes. Here a dirty write takes the way of a write from
outside: it goes back into the instance, which may start another update or ask for a frame. An instance
that is being rendered does neither, so that the record is one of the update as it is. -/

namespace LiveMarkup

open Run (Related)

namespace Session

def treesFrom (i : InstanceId) (inst : Instance) (rendered : Rendered) :
    Except DocumentError (List (Html Handler)) :=
  let (markup, functions) := Slot.fill inst.escaped rendered
  match Html.parse markup with
  | .error e => .error (.malformed e.message)
  | .ok trees => .ok (Slot.stampAll inst.definition.attr? (functions.map fun f => ⟨f, i⟩) trees)

variable {i : InstanceId} {inst inst' : Instance} {s : Session}

/-- A pass evaluates the program, makes trees of its output and presents them. -/
theorem render_evaluates (hi : s.instances[i]? = some inst) :
    render i s =
      match Eval.template (renderHost i) inst.definition.markupSource inst.definition.template s with
      | .error e t => .error e t
      | .ok rendered t =>
        match treesFrom i inst rendered with
        | .error e => .error (.error (.document e)) t
        | .ok trees => present i inst trees t := by
  have hm : materialize i inst =
      Eval.template (renderHost i) inst.definition.markupSource inst.definition.template >>= _ := rfl
  rw [render_eq hi, hm, bind_assoc]
  cases he : Eval.template (renderHost i) inst.definition.markupSource inst.definition.template s with
  | error e t => exact Run.bind_of_error he
  | ok rendered t =>
    rw [Run.bind_of_ok he]
    unfold treesFrom
    dsimp only
    cases Html.parse (Slot.fill inst.escaped rendered).1 <;> rfl

theorem materialize_of_ok {rendered : Rendered} {t : Session} {trees : List (Html Handler)}
    (he : Eval.template (renderHost i) inst.definition.markupSource inst.definition.template s =
      .ok rendered t) (ht : treesFrom i inst rendered = .ok trees) :
    materialize i inst s = .ok trees t := by
  unfold treesFrom at ht
  dsimp only at ht
  split at ht
  · cases ht
  · next parsed hparse =>
    cases ht
    exact materialize_eq_ok_iff.2 ⟨rendered, parsed, he, hparse, rfl⟩

/-- What becomes of the instance when trees are presented: it has an output and has been rendered once
more, or it is what it was. -/
theorem present_self (hi : s.instances[i]? = some inst') (inst : Instance)
    (trees : List (Html Handler)) :
    match present i inst trees s with
    | .ok _ t => ∃ o, t.instances[i]? = some { inst' with output := some o, renders := inst'.renders + 1 }
    | .error _ t => t.instances[i]? = some inst' := by
  have hi : (dressed inst.definition s).instances[i]? = some inst' := hi
  cases ho : inst.output with
  | none =>
    rw [present_first ho]
    exact ⟨_, getElem?_shown hi _ _⟩
  | some o =>
    cases hr : o.replace (dress inst.definition s.document).forest trees with
    | error e =>
      rw [present_error ho hr]
      exact hi
    | ok r =>
      rw [present_again ho hr]
      exact ⟨_, getElem?_shown hi _ _⟩

end Session

inductive Mark where
  /-- A pass begins. -/
  | pass
  /-- Evaluation stores a scope. -/
  | stored (scope : Scope)
  /-- A dirty write sets off what listens to the scope. -/
  | wrote (x : String)
  /-- What the program has made is in its place. -/
  | shown (rendered : Rendered)

namespace Mark

def isPass : Mark → Bool
  | pass => true
  | _ => false

def isWrite : Mark → Bool
  | wrote _ => true
  | _ => false

def isShown : Mark → Bool
  | shown _ => true
  | _ => false

end Mark

structure Traced where
  session : Session
  marks : List Mark

namespace Traced

variable {α : Type} {i : InstanceId} {inst inst' : Instance} {s t : Session} {marks e : List Mark}
  {p : Phase}

def under (marks : List Mark) : EStateM.Result Stop Session α → EStateM.Result Stop Traced α
  | .ok a s => .ok a ⟨s, marks⟩
  | .error e s => .error e ⟨s, marks⟩

def isOk {σ α : Type} : EStateM.Result Stop σ α → Bool
  | .ok _ _ => true
  | .error _ _ => false

def marksOf : EStateM.Result Stop Traced α → List Mark
  | .ok _ r => r.marks
  | .error _ r => r.marks

def lift (m : Run Session α) : Run Traced α := fun r => under r.marks (m r.session)

def mark (m : Mark) : Run Traced Unit := modify fun r => { r with marks := m :: r.marks }

def keeping (nodes : List NodeId) (m : Run Traced α) : Run Traced α := fun r =>
  let back (t : Traced) : Traced := { t with session := { t.session with held := r.session.held } }
  match m { r with session := Session.holding nodes r.session } with
  | .ok a t => .ok a (back t)
  | .error e t => .error e (back t)

def plainHost (i : InstanceId) (listener : Run Traced Unit) : Host Traced where
  scope r := Session.scopeOf i r.session
  withScope scope r := ⟨Session.withScopeOf i scope r.session, .stored scope :: r.marks⟩
  notify x := do
    mark (.wrote x)
    listener
  native _ _ := pure .null

/-- Evaluation in the scope of an instance whose dirty writes set off a listener. -/
def host (i : InstanceId) (listener : Run Traced Unit) : Host Traced :=
  let plain := plainHost i listener
  { plain with
    native := fun id args => do
      match (← get).session.natives[id]? with
      | some f => (f args).run plain.scope plain.set fun vs => lift (Session.tell (.values vs))
      | none => return .null }

def evaluate (i : InstanceId) (d : Definition) (listener : Run Traced Unit) : Run Traced Rendered :=
  Eval.template (host i listener) d.markupSource d.template

def render (i : InstanceId) (listener : Run Traced Unit) : Run Traced (Option NodeId) := do
  mark .pass
  match (← get).session.instances[i]? with
  | none => return none
  | some inst =>
    let rendered ← evaluate i inst.definition listener
    match Session.treesFrom i inst rendered with
    | .error e => Run.fail (.document e)
    | .ok trees =>
      let fragment ← lift (Session.present i inst trees)
      mark (.shown rendered)
      return fragment

def orIdle (i : InstanceId) (m : Run Traced α) : Run Traced α :=
  tryCatch m fun e => do
    lift (Session.setPhase i .idle)
    throw e

def follow (i : InstanceId) (pass : Run Traced (Option NodeId)) (fragment : Option NodeId) :
    Run Traced (Option NodeId) := do
  if Session.written i (← get).session then
    lift (Session.setPhase i .following)
    let _ ← orIdle i (keeping fragment.toList pass)
  lift (Session.setPhase i .idle)
  return fragment

def update (i : InstanceId) (pass : Run Traced (Option NodeId)) : Run Traced (Option NodeId) := do
  lift (Session.setPhase i (.rendering false))
  let fragment ← orIdle i pass
  follow i pass fragment

def changed (i : InstanceId) (update : Run Traced (Option NodeId)) : Run Traced Unit := do
  match (← get).session.instance? i with
  | none => pure ()
  | some inst =>
    if inst.phase ≠ .idle then lift (Session.noteWrite i)
    else match inst.discipline with
      | .sync =>
        let _ ← update
      | .batched =>
        if !inst.pending then
          lift (modify fun s => s.modifyInstance i fun inst => { inst with pending := true })
          lift (Session.frameHost.request (.act (.render i) .done))

/-- An update whose dirty writes go back into the instance. Updates that they start in turn are followed
down to a depth. -/
def updateWithin (i : InstanceId) : Nat → Run Traced (Option NodeId)
  | 0 => throw (.fault .outOfFuel)
  | depth + 1 => update i (render i (changed i (updateWithin i depth)))

/-! An evaluation and its record. -/

/-- What a record shows of an evaluation: it stores scopes and sets off what listens to them. -/
def Inner (e : List Mark) : Prop := ∀ m ∈ e, m.isPass = false ∧ m.isShown = false

/-- What an instance is doing after the dirty writes in a record. -/
def heard (e : List Mark) (p : Phase) : Phase := if e.any Mark.isWrite then Session.noted p else p

theorem heard_ne_idle (hp : p ≠ .idle) (e : List Mark) : heard e p ≠ .idle := by
  unfold heard
  split
  · cases p with
    | idle => exact absurd rfl hp
    | rendering written => exact Phase.noConfusion
    | following => exact Phase.noConfusion
  · exact hp

private theorem heard_wrote (x : String) (e : List Mark) (p : Phase) :
    heard (.wrote x :: e) p = Session.noted (heard e p) := by
  unfold heard
  rw [List.any_cons, show Mark.isWrite (.wrote x) = true from rfl, Bool.true_or, if_pos rfl]
  split
  · cases p <;> rfl
  · rfl

/-- What an instance has become: it is doing what the dirty writes in a record call for, and its scope is
the one it had or has been stored. -/
structure Tracks (inst : Instance) (e : List Mark) (inst' : Instance) : Prop where
  same : inst' = { inst with scope := inst'.scope, phase := heard e inst.phase }
  scope : inst'.scope = inst.scope ∨ .stored inst'.scope ∈ e

private theorem Tracks.phase (h : Tracks inst e inst') : inst'.phase = heard e inst.phase :=
  congrArg Instance.phase h.same

theorem Tracks.renders (h : Tracks inst e inst') : inst'.renders = inst.renders := by rw [h.same]

/-- A record goes along with a session: since it began, an instance has become what it says. -/
structure Along (i : InstanceId) (inst : Instance) (marks : List Mark) (r : Traced) (s : Session) :
    Prop where
  session : r.session = s
  record : ∃ e inst', r.marks = e ++ marks ∧ Inner e ∧ s.instance? i = some inst' ∧ Tracks inst e inst'

theorem Along.refl (hi : s.instance? i = some inst) (marks : List Mark) :
    Along i inst marks ⟨s, marks⟩ s :=
  ⟨rfl, [], inst, rfl, by simp [Inner], hi, rfl, .inl rfl⟩

/-- A change of the instance that leaves it alive. -/
private theorem Along.modifyInstance {r : Traced} {change : Instance → Instance} {m : Mark}
    (h : Along i inst marks r s) (hm : m.isPass = false ∧ m.isShown = false)
    (ha : ∀ inst, (change inst).alive = inst.alive)
    (hc : ∀ e inst', Tracks inst e inst' → Tracks inst (m :: e) (change inst')) :
    Along i inst marks ⟨s.modifyInstance i change, m :: r.marks⟩ (s.modifyInstance i change) := by
  obtain ⟨-, e, inst', hmarks, hinner, hi, htracks⟩ := h
  obtain ⟨hi, halive⟩ := Session.instance?_eq_some.1 hi
  refine ⟨rfl, m :: e, change inst', by rw [hmarks, List.cons_append], ?_, ?_, hc e inst' htracks⟩
  · exact List.forall_mem_cons.2 ⟨hm, hinner⟩
  · exact Session.instance?_eq_some.2
      ⟨Session.getElem?_modifyInstance_self hi _, (ha inst').trans halive⟩

/-- An instance that is being rendered takes note of a dirty write, wherever the write comes from. -/
theorem changed_of_busy (hi : s.instance? i = some inst) (hp : inst.phase ≠ .idle)
    (update : Run Traced (Option NodeId)) (marks : List Mark) :
    changed i update ⟨s, marks⟩ = lift (Session.noteWrite i) ⟨s, marks⟩ := by
  have hread : changed i update ⟨s, marks⟩ = _ :=
    Run.bind_of_ok (rfl : (get : Run Traced Traced) ⟨s, marks⟩ = .ok ⟨s, marks⟩ ⟨s, marks⟩)
  rw [hread, hi]
  dsimp only
  rw [if_pos hp]

/-- Evaluation cannot tell whether dirty writes go back into the instance. -/
private theorem host_agree (hp : inst.phase ≠ .idle) (marks : List Mark)
    (update : Run Traced (Option NodeId)) :
    Host.Agree Eq (Along i inst marks) (host i (changed i update)) (Session.renderHost i) := by
  have hscope {r : Traced} {s : Session} (h : Along i inst marks r s) :
      Session.scopeOf i r.session = Session.scopeOf i s := by rw [h.session]
  have hstore {r : Traced} {s : Session} {a b : Scope} (h : Along i inst marks r s) (hab : a = b) :
      Along i inst marks ⟨Session.withScopeOf i a r.session, .stored a :: r.marks⟩
        (Session.withScopeOf i b s) := by
    rw [h.session, hab]
    refine h.modifyInstance ⟨rfl, rfl⟩ (fun _ => rfl) fun e inst' ht => ?_
    exact ⟨congrArg (fun inst => { inst with scope := b }) ht.same, .inr List.mem_cons_self⟩
  have hnotify (x : String) : Related (Along i inst marks)
      (mark (.wrote x) >>= fun _ => changed i update) (Session.noteWrite i) := by
    rintro ⟨r, ms⟩ s h
    obtain ⟨e, inst', -, -, hi, htracks⟩ := h.record
    obtain rfl : r = s := h.session
    have hbusy : inst'.phase ≠ .idle := htracks.phase ▸ heard_ne_idle hp e
    have hread : (mark (.wrote x) >>= fun _ => changed i update) ⟨r, ms⟩ =
        changed i update ⟨r, .wrote x :: ms⟩ := rfl
    rw [hread, changed_of_busy hi hbusy, Session.noteWrite_eq]
    refine .ok () (h.modifyInstance (m := .wrote x) ⟨rfl, rfl⟩ (fun _ => rfl) fun e inst' ht => ?_)
    refine ⟨?_, ht.scope.imp_right (List.mem_cons_of_mem _)⟩
    rw [heard_wrote, ← ht.phase]
    exact congrArg (fun inst => { inst with phase := Session.noted inst'.phase }) ht.same
  have hplain : Host.Agree Eq (Along i inst marks) (plainHost i (changed i update))
      (Session.plainHost i fun _ => Session.noteWrite i) :=
    ⟨.eq, hscope, hstore, hnotify, fun _ _ => .pure _⟩
  refine ⟨.eq, hscope, hstore, hnotify, fun id args => .get_bind fun r s h => ?_⟩
  rw [h.session]
  cases s.natives[id]? with
  | none => exact .pure _
  | some f =>
    refine Procedure.run_related (fun r s h x => congrArg (Scope.get? x) (hscope h)) hplain.set
      (fun vs r s h => ?_) _
    obtain ⟨rfl, hrecord⟩ := h
    exact .ok () ⟨rfl, hrecord⟩

/-- Runs that end alike and leave one session. -/
private theorem eq_under {m : Run Traced α} {n : Run Session α} {r : Traced}
    (he : Run.ending m r = Run.ending n s) (hl : (Run.left m r).session = Run.left n s) :
    m r = under (Run.left m r).marks (n s) := by
  unfold Run.ending at he
  unfold Run.left at hl ⊢
  cases hm : m r with
  | ok a r' =>
    cases hn : n s with
    | ok b t =>
      simp only [hm, hn, Except.ok.injEq] at he hl
      rw [he, under, ← hl]
    | error e t => simp [hm, hn] at he
  | error e r' =>
    cases hn : n s with
    | ok b t => simp [hm, hn] at he
    | error e' t =>
      simp only [hm, hn, Except.error.injEq] at he hl
      rw [he, under, ← hl]

/-- The record of an evaluation of an instance that is being rendered. -/
private theorem evaluate_eq (hi : s.instance? i = some inst) (hp : inst.phase ≠ .idle)
    (update : Run Traced (Option NodeId)) (marks : List Mark) (d : Definition) :
    ∃ e inst', Inner e ∧ Tracks inst e inst' ∧
      evaluate i d (changed i update) ⟨s, marks⟩ = under (e ++ marks)
        (Eval.template (Session.renderHost i) d.markupSource d.template s) ∧
      (Run.left (Eval.template (Session.renderHost i) d.markupSource d.template) s).instance? i =
        some inst' := by
  have ha : Related (Along i inst marks) (evaluate i d (changed i update))
      (Eval.template (Session.renderHost i) d.markupSource d.template) :=
    Eval.template_related (host_agree hp marks update) _ _
  have hleft := ha.left (Along.refl hi marks)
  obtain ⟨e, inst', hmarks, hinner, hi', htracks⟩ := hleft.record
  refine ⟨e, inst', hinner, htracks, ?_, hi'⟩
  rw [← hmarks]
  exact eq_under (ha.ending (Along.refl hi marks)) hleft.session

/-! A pass and its record. -/

/-- A pass, part by part. -/
theorem render_evaluates (hi : s.instances[i]? = some inst) (listener : Run Traced Unit)
    (marks : List Mark) :
    render i listener ⟨s, marks⟩ =
      match evaluate i inst.definition listener ⟨s, .pass :: marks⟩ with
      | .error e r => .error e r
      | .ok rendered r =>
        match Session.treesFrom i inst rendered with
        | .error e => .error (.error (.document e)) r
        | .ok trees =>
          match Session.present i inst trees r.session with
          | .error e t => .error e ⟨t, r.marks⟩
          | .ok fragment t => .ok fragment ⟨t, .shown rendered :: r.marks⟩ := by
  have hmark : mark .pass ⟨s, marks⟩ = .ok () ⟨s, .pass :: marks⟩ := rfl
  have hread : (get : Run Traced Traced) ⟨s, .pass :: marks⟩ = .ok _ _ := rfl
  rw [render, Run.bind_of_ok hmark, Run.bind_of_ok hread, hi]
  dsimp only
  cases he : evaluate i inst.definition listener ⟨s, .pass :: marks⟩ with
  | error e r => exact Run.bind_of_error he
  | ok rendered r =>
    rw [Run.bind_of_ok he]
    dsimp only
    cases Session.treesFrom i inst rendered with
    | error e => rfl
    | ok trees =>
      dsimp only
      have hlift : lift (Session.present i inst trees) r =
        under r.marks (Session.present i inst trees r.session) := rfl
      cases hp : Session.present i inst trees r.session with
      | error e t =>
        rw [hp] at hlift
        exact Run.bind_of_error hlift
      | ok fragment t =>
        rw [hp] at hlift
        exact Run.bind_of_ok hlift

/-- A pass of an instance that is being rendered ends with a result, and its record tells of the
evaluation `e`. -/
structure Succeeds (i : InstanceId) (inst : Instance) (update : Run Traced (Option NodeId))
    (marks e : List Mark) (rendered : Rendered) (fragment : Option NodeId) (s t : Session) : Prop where
  passed : Session.render i s = .ok fragment t
  inner : Inner e
  evaluated : ∃ u, evaluate i inst.definition (changed i update) ⟨s, .pass :: marks⟩ =
    .ok rendered ⟨u, e ++ .pass :: marks⟩ ∧ Session.scopeOf i u = Session.scopeOf i t
  trees : ∃ trees u, Session.treesFrom i inst rendered = .ok trees ∧
    Session.materialize i inst s = .ok trees u
  recorded : render i (changed i update) ⟨s, marks⟩ =
    .ok fragment ⟨t, .shown rendered :: (e ++ .pass :: marks)⟩
  self : ∃ inst' o, Tracks inst e inst' ∧
    t.instance? i = some { inst' with output := some o, renders := inst.renders + 1 }

private theorem render_ok {fragment : Option NodeId} (hi : s.instance? i = some inst)
    (hp : inst.phase ≠ .idle) (update : Run Traced (Option NodeId)) (marks : List Mark)
    (hr : Session.render i s = .ok fragment t) :
    ∃ e rendered, Succeeds i inst update marks e rendered fragment s t := by
  have hinst := (Session.instance?_eq_some.1 hi).1
  have hpassed := hr
  obtain ⟨e, inst', he, htracks, heval, hi'⟩ :=
    evaluate_eq hi hp update (.pass :: marks) inst.definition
  rw [Session.render_evaluates hinst] at hr
  cases hs : Eval.template (Session.renderHost i) inst.definition.markupSource
      inst.definition.template s with
  | error err u =>
    rw [hs] at hr
    cases hr
  | ok rendered u =>
    rw [hs] at hr heval
    rw [Run.left_of_ok hs] at hi'
    cases ht : Session.treesFrom i inst rendered with
    | error err =>
      simp only [ht] at hr
      cases hr
    | ok trees =>
      simp only [ht] at hr
      obtain ⟨hi', ha⟩ := Session.instance?_eq_some.1 hi'
      have hself := Session.present_self hi' inst trees
      rw [hr] at hself
      obtain ⟨o, hself⟩ := hself
      refine ⟨e, rendered, hpassed, he, ⟨u, heval, ?_⟩, ⟨trees, u, ht, Session.materialize_of_ok hs ht⟩, ?_,
        inst', o, htracks, ?_⟩
      · rw [Session.scopeOf_eq hi', Session.scopeOf_eq hself]
      · rw [render_evaluates hinst, heval, under]
        simp only [ht, hr]
      · rw [← htracks.renders]
        exact Session.instance?_eq_some.2 ⟨hself, ha⟩

/-- The record of a pass that fails. -/
private theorem render_error {err : Stop} (hi : s.instance? i = some inst) (hp : inst.phase ≠ .idle)
    (update : Run Traced (Option NodeId)) (marks : List Mark) (hr : Session.render i s = .error err t) :
    ∃ e inst', Inner e ∧ Tracks inst e inst' ∧ t.instance? i = some inst' ∧
      render i (changed i update) ⟨s, marks⟩ = .error err ⟨t, e ++ .pass :: marks⟩ := by
  have hinst := (Session.instance?_eq_some.1 hi).1
  obtain ⟨e, inst', he, htracks, heval, hi'⟩ :=
    evaluate_eq hi hp update (.pass :: marks) inst.definition
  refine ⟨e, inst', he, htracks, ?_⟩
  rw [Session.render_evaluates hinst] at hr
  rw [render_evaluates hinst, heval]
  cases hs : Eval.template (Session.renderHost i) inst.definition.markupSource
      inst.definition.template s with
  | error err u =>
    rw [hs] at hr
    rw [Run.left_of_error hs] at hi'
    cases hr
    exact ⟨hi', rfl⟩
  | ok rendered u =>
    rw [hs] at hr
    rw [Run.left_of_ok hs] at hi'
    dsimp only [under] at hr ⊢
    cases ht : Session.treesFrom i inst rendered with
    | error err =>
      rw [ht] at hr
      cases hr
      exact ⟨hi', rfl⟩
    | ok trees =>
      rw [ht] at hr
      dsimp only at hr ⊢
      obtain ⟨hi', ha⟩ := Session.instance?_eq_some.1 hi'
      have hself := Session.present_self hi' inst trees
      rw [hr] at hself ⊢
      exact ⟨Session.instance?_eq_some.2 ⟨hself, ha⟩, rfl⟩

/-! An update and its record. -/

def inPhase (i : InstanceId) (phase : Phase) (r : Traced) : Traced :=
  { r with session := Session.inPhase i phase r.session }

/-- An update is a pass and, if properties changed meanwhile, another one. -/
private theorem update_eq (i : InstanceId) (pass : Run Traced (Option NodeId)) (r : Traced) :
    update i pass r =
      match pass (inPhase i (.rendering false) r) with
      | .error e t => .error e (inPhase i .idle t)
      | .ok fragment t =>
        if Session.written i t.session then
          match keeping fragment.toList pass (inPhase i .following t) with
          | .error e t => .error e (inPhase i .idle t)
          | .ok _ t => .ok fragment (inPhase i .idle t)
        else .ok fragment (inPhase i .idle t) := by
  have hupdate : update i pass r = (orIdle i pass >>= follow i pass) (inPhase i (.rendering false) r) :=
    rfl
  have hok {m : Run Traced (Option NodeId)} {a : Option NodeId} {r t : Traced} (h : m r = .ok a t) :
      orIdle i m r = .ok a t := Run.tryCatch_of_ok h
  have herror {m : Run Traced (Option NodeId)} {e : Stop} {r t : Traced} (h : m r = .error e t) :
      orIdle i m r = .error e (inPhase i .idle t) := Run.tryCatch_of_error h
  rw [hupdate]
  cases h : pass (inPhase i (.rendering false) r) with
  | error e t => exact Run.bind_of_error (herror h)
  | ok fragment t =>
    have hget : (get : Run Traced Traced) t = .ok t t := rfl
    rw [Run.bind_of_ok (hok h), follow, Run.bind_of_ok hget]
    dsimp only
    split
    · have hphase : lift (Session.setPhase i .following) t = .ok () (inPhase i .following t) := rfl
      rw [Run.bind_of_ok hphase]
      cases hr : keeping fragment.toList pass (inPhase i .following t) with
      | error e u => exact Run.bind_of_error (herror hr)
      | ok a u => exact Run.bind_of_ok (hok hr)
    · rfl

/-- The instance is rendered, and no property has changed meanwhile. -/
def begun (inst : Instance) : Instance := { inst with phase := .rendering false }

def ended (i : InstanceId) (held : List NodeId) (s : Session) : Session :=
  Session.inPhase i .idle { s with held }

/-- How an update of an instance goes, and its record. What the first of two passes returns is held until
the second one is over. -/
inductive Updates (i : InstanceId) (inst : Instance) (again : Run Traced (Option NodeId)) (s : Session) :
    EStateM.Result Stop Session (Option NodeId) → List Mark → Prop where
  | failed {err : Stop} {t : Session} {e : List Mark} {inst' : Instance} (he : Inner e)
    (ht : Tracks (begun inst) e inst') (hi : t.instance? i = some inst') :
    Updates i inst again s (.error err (Session.inPhase i .idle t)) (e ++ [.pass])
  | once {fragment : Option NodeId} {t : Session} {e : List Mark} {rendered : Rendered}
    (h : Succeeds i (begun inst) again [] e rendered fragment
      (Session.inPhase i (.rendering false) s) t)
    (hq : e.any Mark.isWrite = false) :
    Updates i inst again s (.ok fragment (Session.inPhase i .idle t)) (.shown rendered :: (e ++ [.pass]))
  | failedAgain {err : Stop} {fragment : Option NodeId} {t u : Session} {e e' : List Mark}
    {rendered : Rendered} {inst' inst'' : Instance}
    (h : Succeeds i (begun inst) again [] e rendered fragment
      (Session.inPhase i (.rendering false) s) t)
    (hw : e.any Mark.isWrite = true)
    (ht : Session.instance? (Session.inPhase i .following t) i = some inst') (he : Inner e')
    (ht' : Tracks inst' e' inst'') (hi : u.instance? i = some inst'') :
    Updates i inst again s (.error err (ended i t.held u))
      (e' ++ .pass :: .shown rendered :: (e ++ [.pass]))
  | twice {fragment fragment' : Option NodeId} {t u : Session} {e e' : List Mark}
    {rendered rendered' : Rendered} {inst' : Instance}
    (h : Succeeds i (begun inst) again [] e rendered fragment
      (Session.inPhase i (.rendering false) s) t)
    (hw : e.any Mark.isWrite = true)
    (ht : Session.instance? (Session.inPhase i .following t) i = some inst')
    (h' : Succeeds i inst' again (.shown rendered :: (e ++ [.pass])) e' rendered' fragment'
      (Session.holding fragment.toList (Session.inPhase i .following t)) u) :
    Updates i inst again s (.ok fragment (ended i t.held u))
      (.shown rendered' :: (e' ++ .pass :: .shown rendered :: (e ++ [.pass])))

/-- Whether properties have changed is what the record says. -/
private theorem written_eq (hi : t.instance? i = some inst')
    (hp : inst'.phase = heard e (.rendering false)) :
    Session.written i t = e.any Mark.isWrite := by
  rw [Session.written, (Session.instance?_eq_some.1 hi).1, Option.any_some, hp, heard]
  cases e.any Mark.isWrite <;> rfl

/-- How an update goes, whatever its dirty writes would start. -/
theorem updates (hi : s.instance? i = some inst) (again : Run Traced (Option NodeId)) :
    ∃ marks, Updates i inst again s (Session.update i s) marks ∧
      update i (render i (changed i again)) ⟨s, []⟩ = under marks (Session.update i s) := by
  have hi₁ := Session.instance?_inPhase (.rendering false) hi
  rw [Session.update_eq, update_eq, inPhase]
  cases hr : Session.render i (Session.inPhase i (.rendering false) s) with
  | error err t =>
    obtain ⟨e, inst', he, htracks, hi', hrec⟩ := render_error hi₁ Phase.noConfusion again [] hr
    rw [hrec]
    exact ⟨_, .failed he htracks hi', rfl⟩
  | ok fragment t =>
    obtain ⟨e, rendered, h⟩ := render_ok hi₁ Phase.noConfusion again [] hr
    obtain ⟨inst₁, o, htracks, hself⟩ := h.self
    rw [h.recorded]
    dsimp only
    rw [written_eq hself htracks.phase]
    cases hw : e.any Mark.isWrite with
    | false => exact ⟨_, .once h hw, rfl⟩
    | true =>
      have hi₂ := Session.instance?_inPhase .following hself
      rw [if_pos rfl, if_pos rfl, Session.keeping_eq, keeping, inPhase]
      dsimp only
      cases hr' : Session.render i
          (Session.holding fragment.toList (Session.inPhase i .following t)) with
      | error err u =>
        obtain ⟨e', inst₂, he', htracks', hi', hrec⟩ := render_error
          (s := Session.holding fragment.toList (Session.inPhase i .following t)) hi₂
          Phase.noConfusion again (.shown rendered :: (e ++ [.pass])) hr'
        rw [hrec]
        exact ⟨_, .failedAgain (t := t) h hw hi₂ he' htracks' hi', rfl⟩
      | ok fragment' u =>
        obtain ⟨e', rendered', h'⟩ := render_ok
          (s := Session.holding fragment.toList (Session.inPhase i .following t)) hi₂
          Phase.noConfusion again (.shown rendered :: (e ++ [.pass])) hr'
        rw [h'.recorded]
        exact ⟨_, .twice (t := t) h hw hi₂ h', rfl⟩

end Traced

end LiveMarkup
