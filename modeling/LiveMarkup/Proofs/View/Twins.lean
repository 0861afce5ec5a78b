import LiveMarkup.Proofs.View.Mount

/-! Twins: sessions that differ only in what the host has been told and in the discipline of one
instance. Nothing that renders the instance can tell them apart. -/

namespace LiveMarkup.Session

open Run (Alike Related)

variable {s t : Session} {i : InstanceId} {d : Discipline → Discipline}

/-- The session with another discipline of an instance, and with the host told other events. -/
def twin (i : InstanceId) (d : Discipline → Discipline) (events : List Event) (s : Session) :
    Session :=
  { s.modifyInstance i fun inst => { inst with discipline := d inst.discipline } with events }

/-- The sessions differ only in the events and the discipline of an instance. -/
def Twins (i : InstanceId) (d : Discipline → Discipline) (s t : Session) : Prop :=
  ∃ events, t = twin i d events s

/-- A change of an instance that has nothing to do with its discipline. -/
private theorem Twins.modifyInstance {change : Instance → Instance}
    (hc : ∀ inst e, change { inst with discipline := e } = { change inst with discipline := e })
    (hd : ∀ inst, (change inst).discipline = inst.discipline) (h : Twins i d s t) :
    Twins i d (s.modifyInstance i change) (t.modifyInstance i change) := by
  obtain ⟨events, rfl⟩ := h
  refine ⟨events, ?_⟩
  have hfun : (fun inst => change { inst with discipline := d inst.discipline }) =
      fun inst => { change inst with discipline := d (change inst).discipline } :=
    funext fun inst => by rw [hc, hd]
  simp only [twin, Session.modifyInstance, modify_modify]
  rw [hfun]

private theorem Twins.tell (h : Twins i d s t) (e : Event) :
    Twins i d { s with events := e :: s.events } { t with events := e :: t.events } := by
  obtain ⟨events, rfl⟩ := h
  exact ⟨e :: events, rfl⟩

theorem Twins.getElem? (h : Twins i d s t) :
    t.instances[i]? =
      (s.instances[i]?).map fun inst => { inst with discipline := d inst.discipline } := by
  obtain ⟨events, rfl⟩ := h
  exact (getElem?_modifyInstance _).trans (if_pos rfl)

private theorem Twins.scopeOf (h : Twins i d s t) : scopeOf i s = scopeOf i t := by
  rw [Session.scopeOf, Session.scopeOf, h.getElem?, Option.map_map]
  rfl

private theorem Twins.withScopeOf (h : Twins i d s t) (scope : Scope) :
    Twins i d (withScopeOf i scope s) (withScopeOf i scope t) :=
  h.modifyInstance (fun _ _ => rfl) fun _ => rfl

/-- Evaluation goes together in twins if notification does. -/
private theorem twins_agree {notify : String → Run Session Unit}
    (hn : ∀ x, Related (Twins i d) (notify x) (notify x)) :
    Host.Agree Eq (Twins i d) (hostWith i notify) (hostWith i notify) := by
  refine hostWith_agree .eq (fun h => h.scopeOf) (fun h he => he ▸ h.withScopeOf _)
    (fun e h => h.tell e) ?_ hn
  rintro s _ ⟨events, rfl⟩
  rfl

private theorem setPhase_related (phase : Phase) :
    Related (Twins i d) (setPhase i phase) (setPhase i phase) :=
  .modify fun _ _ h => h.modifyInstance (fun _ _ => rfl) fun _ => rfl

private theorem noteWrite_related : Related (Twins i d) (noteWrite i) (noteWrite i) := by
  rw [noteWrite_eq]
  exact .modify fun s t h => h.modifyInstance (fun _ _ => rfl) fun _ => rfl

private theorem keeping_related {α : Type} {m : Run Session α} (hm : Related (Twins i d) m m)
    (nodes : List NodeId) : Related (Twins i d) (keeping nodes m) (keeping nodes m) := by
  intro s t hst
  have hheld : t.held = s.held := by
    obtain ⟨events, rfl⟩ := hst
    rfl
  have hback {s' t' : Session} (h : Twins i d s' t') :
      Twins i d { s' with held := s.held } { t' with held := t.held } := by
    obtain ⟨events, rfl⟩ := h
    rw [hheld]
    exact ⟨events, rfl⟩
  have ha : Alike (Twins i d) (m (holding nodes s)) (m (holding nodes t)) := by
    refine hm _ _ ?_
    obtain ⟨events, rfl⟩ := hst
    exact ⟨events, rfl⟩
  rw [keeping_eq, keeping_eq]
  generalize m (holding nodes s) = r at ha
  generalize m (holding nodes t) = q at ha
  cases ha with
  | ok a h => exact .ok a (hback h)
  | error e h => exact .error e (hback h)

private theorem document_related (change : Document Handler → Document Handler) :
    Related (Twins i d) (modify fun s => { s with document := change s.document })
      (modify fun s => { s with document := change s.document }) := by
  refine .modify ?_
  rintro s _ ⟨events, rfl⟩
  exact ⟨events, rfl⟩

private theorem kept_twin (events : List Event) : kept (twin i d events s) = kept s :=
  kept_modifyInstance (s := s) (i := i) fun inst =>
    (rfl : keptBy { inst with discipline := d inst.discipline } = keptBy inst)

private theorem settle_related : Related (Twins i d) (modify settle) (modify settle) := by
  refine .modify ?_
  rintro s _ ⟨events, rfl⟩
  refine ⟨events, ?_⟩
  rw [settle, settle, kept_twin]
  rfl

private theorem place_related {inst inst' : Instance} (he : inst'.output = inst.output)
    (trees : List (Html Handler)) :
    Related (Twins i d) (place i inst trees) (place i inst' trees) := by
  intro s t h
  have hshown (o : Output) (forest : Forest Handler) :
      Twins i d (shown i o forest s) (shown i o forest t) := by
    obtain ⟨events, rfl⟩ := h
    exact Twins.modifyInstance (fun _ _ => rfl) (fun _ => rfl) ⟨events, rfl⟩
  have hdoc : t.document = s.document := by
    obtain ⟨events, rfl⟩ := h
    rfl
  cases ho : inst.output with
  | none =>
    rw [place_first ho trees s, place_first (he.trans ho) trees t, hdoc]
    exact .ok _ (hshown _ _)
  | some o =>
    rw [place_again ho trees s, place_again (he.trans ho) trees t, hdoc]
    cases o.replace s.document.forest trees with
    | error e => exact .error _ h
    | ok r => exact .ok _ (hshown _ _)

private theorem render_related : Related (Twins i d) (render i) (render i) := by
  intro s t h
  have hi := h.getElem?
  cases hs : s.instances[i]? with
  | none =>
    rw [hs] at hi
    rw [render_of_missing hs, render_of_missing hi]
    exact .ok _ h
  | some inst =>
    rw [hs] at hi
    rw [render_eq hs, render_eq hi]
    have heval : Related (Twins i d) (materialize i inst)
        (materialize i { inst with discipline := d inst.discipline }) :=
      materialize_related (twins_agree fun _ => noteWrite_related) rfl rfl
    refine Related.bind heval (fun trees => ?_) s t h
    refine .bind (document_related _) fun _ => .bind (place_related rfl trees) fun fragment => ?_
    exact .bind (keeping_related settle_related _) fun _ => .pure _

/-- Twins are updated alike. -/
private theorem update_related : Related (Twins i d) (update i) (update i) := by
  have hidle {m : Run Session (Option NodeId)} (hm : Related (Twins i d) m m) :
      Related (Twins i d) (orIdle i m) (orIdle i m) :=
    .tryCatch hm fun _ => .bind (setPhase_related _) fun _ => .throw _
  have hupdate : update i = (do
      setPhase i (.rendering false)
      let fragment ← orIdle i (render i)
      follow i fragment) := rfl
  rw [hupdate]
  refine .bind (setPhase_related _) fun _ => .bind (hidle render_related) fun fragment => ?_
  have hlast : Related (Twins i d) (do setPhase i .idle; return fragment)
      (do setPhase i .idle; return fragment) := .bind (setPhase_related _) fun _ => .pure _
  refine .get_bind fun s t h => ?_
  have hw : written i t = written i s := by
    rw [written, written, h.getElem?]
    cases s.instances[i]? <;> rfl
  rw [hw]
  split
  · exact .bind (setPhase_related _) fun _ => .bind (hidle (keeping_related render_related _)) fun _ =>
      hlast
  · exact hlast

/-! Mounting. -/

section Mount

variable {r r' : Recipe} {props : Bindings} {isPublic : Bool}
  {natives : List (String × (List Value → Procedure))} {target : NodeId}

private theorem setAlive_related (alive : Bool) :
    Related (Twins i d) (setAlive i alive) (setAlive i alive) :=
  .modify fun _ _ h => h.modifyInstance (fun _ _ => rfl) fun _ => rfl

private theorem firstUpdate_related : Related (Twins i d) (firstUpdate i) (firstUpdate i) := by
  refine .tryCatch (.bind update_related fun fragment => ?_) fun e => ?_
  · split
    · exact .pure _
    · exact .fail _
  · exact .bind (setAlive_related false) fun _ => .bind settle_related fun _ => .throw _

private theorem bring_related (hr : r'.definition = r.definition) :
    Related (Twins i d) (bring r isPublic natives i) (bring r' isPublic natives i) := by
  have hhost : Host.Agree Eq (Twins i d) (scriptHost i) (scriptHost i) :=
    twins_agree fun _ => .pure _
  rw [bring, bring, prepare, prepare, hr]
  refine .bind (.bind (install_related hhost ?_ ?_ isPublic natives) fun _ => ?_) fun _ =>
    .bind (setAlive_related true) fun _ => firstUpdate_related
  · rintro s _ ⟨events, rfl⟩
    rfl
  · rintro s _ natives ⟨events, rfl⟩
    exact ⟨events, rfl⟩
  · exact Eval.script_related hhost _ _

private theorem edit_related (change : Forest Handler → Except DocumentError (Forest Handler)) :
    Related (Twins i d) (edit change) (edit change) := by
  intro s t h
  have hforest : t.document.forest = s.document.forest := by
    obtain ⟨events, rfl⟩ := h
    rfl
  have he := edit_eq change s
  have he' := edit_eq change t
  rw [hforest] at he'
  cases hc : change s.document.forest with
  | error e =>
    rw [hc] at he he'
    rw [he, he']
    exact .error _ h
  | ok forest =>
    rw [hc] at he he'
    rw [he, he']
    exact .ok _ (settle_related.left ((document_related fun d => { d with forest }).left h))

private theorem joined_twins (hr : r' = { r with discipline := d r.discipline }) (s : Session) :
    Twins s.instances.size d (joined (unborn r props) s) (joined (unborn r' props) s) := by
  refine ⟨s.events, ?_⟩
  have hpush : (s.instances.push (unborn r' props)) =
      (s.instances.push (unborn r props)).modify s.instances.size fun inst =>
        { inst with discipline := d inst.discipline } := by
    refine Array.ext_getElem? fun k => ?_
    rw [Array.getElem?_modify, Array.getElem?_push, Array.getElem?_push, hr]
    by_cases hk : k = s.instances.size
    · simp [hk, unborn]
    · simp [hk, Ne.symm hk]
  simp only [twin, joined, modifyInstance, hpush]

/-- Instances that differ in their disciplines are mounted alike. -/
theorem mount_twins (hr : r' = { r with discipline := d r.discipline }) {p : InstanceId × NodeId}
    (hm : mount r props isPublic natives target s = .ok p t) :
    ∃ t', mount r' props isPublic natives target s = .ok p t' ∧ Twins s.instances.size d t t' := by
  have hrel : Related (Twins s.instances.size d)
      (bring r isPublic natives s.instances.size >>= fun p => do
        edit fun f => f.append target p.2
        return p)
      (bring r' isPublic natives s.instances.size >>= fun p => do
        edit fun f => f.append target p.2
        return p) :=
    .bind (bring_related (by rw [hr])) fun p => .bind (edit_related _) fun _ => .pure _
  have hjoined : Twins s.instances.size d (joined (unborn r props) s) (joined (unborn r' props) s) :=
    joined_twins hr s
  have ha := hrel _ _ hjoined
  rw [← mount_eq, ← mount_eq, hm] at ha
  cases hm' : mount r' props isPublic natives target s with
  | ok p' t' =>
    rw [hm'] at ha
    cases ha with
    | ok _ h => exact ⟨t', rfl, h⟩
  | error e t' =>
    rw [hm'] at ha
    cases ha

end Mount

/-! Twins of one discipline. -/

private theorem Twins.getElem?_id (h : Twins i id s t) : t.instances[i]? = s.instances[i]? :=
  h.getElem?.trans (by cases s.instances[i]? <;> rfl)

private theorem request_related (job : Job Action) :
    Related (Twins i d) (frameHost.request job) (frameHost.request job) := by
  refine .get_bind fun s t h => ?_
  have hframe : frameHost.frame t = frameHost.frame s := by
    obtain ⟨events, rfl⟩ := h
    rfl
  rw [hframe]
  refine .bind (.modify ?_) fun _ => ?_
  · rintro s _ ⟨events, rfl⟩
    exact ⟨events, rfl⟩
  · split
    · exact .modify fun s t h => h.tell _
    · exact .pure _

private theorem changed_related : Related (Twins i id) (changed i) (changed i) := by
  refine .get_bind fun s t h => ?_
  rw [instance?, instance?, h.getElem?_id]
  split
  · exact .pure _
  · split
    · exact noteWrite_related
    · split
      · exact .bind update_related fun _ => .pure _
      · split
        · refine .bind (.modify fun s t h => ?_) fun _ => request_related _
          exact h.modifyInstance (fun _ _ => rfl) fun _ => rfl
        · exact .pure _

/-- A user who writes to an instance cannot tell twins of one discipline apart. -/
private theorem host_agree : Host.Agree Eq (Twins i id) (host i) (host i) :=
  twins_agree fun _ => changed_related

theorem setPublic_related (x : String) (v : Value) :
    Related (Twins i id) (setPublic i x v) (setPublic i x v) :=
  .bind (host_agree.write (fun he _ _ => by rw [he]) x v) fun _ => .pure _

theorem updatePublic_related (x : String) (c : Change) :
    Related (Twins i id) (updatePublic i x c) (updatePublic i x c) := by
  refine .get_bind fun s t h => ?_
  rw [h.scopeOf]
  split
  · refine .get_bind fun s t h => ?_
    have hscope : (host i).scope s = (host i).scope t := h.scopeOf
    rw [hscope]
    dsimp only
    split
    · exact .fail _
    · exact .bind (.modify fun s t h => h.withScopeOf _) fun _ => changed_related
  · exact .fail _

theorem callPublic_related (x : String) (args : List Value) :
    Related (Twins i id) (callPublic i x args) (callPublic i x args) := by
  refine .get_bind fun s t h => ?_
  rw [getPublic?, getPublic?, h.scopeOf]
  split
  · exact .fail _
  · split
    · exact Eval.callFunction_related host_agree _ args
    · exact .fail _

end LiveMarkup.Session
