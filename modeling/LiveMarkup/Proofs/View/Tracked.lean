import LiveMarkup.Proofs.View.Current
import LiveMarkup.Proofs.View.Turns

/-! An instance that nobody else writes to. Whatever its discipline, it shows what its program makes of
its properties, or a job that renders it waits. -/

namespace LiveMarkup.Session

variable {s t u : Session} {i : InstanceId} {inst : Instance} {scope : Scope}

/-- In the session `s` the instance has the given properties, and the view and the native functions that
it has in `u`. Its marker is attached, and no job waits but one that renders the instance if it is
pending. -/
structure Followed (i : InstanceId) (u : Session) (scope : Scope) (s : Session) (inst : Instance) :
    Prop where
  whole : Whole s
  attached : Attached i s
  live : s.instance? i = some inst
  scope : inst.scope = scope
  idle : inst.phase = .idle
  view : ∃ inst₀, u.instances[i]? = some inst₀ ∧ SameView inst₀ inst
  natives : s.natives = u.natives
  jobs : s.frame.jobs = if inst.pending then [.act (.render i) .done] else []
  sync : inst.discipline = .sync → inst.pending = false

/-- If it is not pending, it shows what its program makes of the properties. -/
structure Tracked (i : InstanceId) (u : Session) (scope : Scope) (s : Session) (inst : Instance) :
    Prop extends Followed i u scope s inst where
  current : inst.pending = false → Current i s

theorem Followed.getElem? (h : Followed i u scope s inst) : s.instances[i]? = some inst :=
  (instance?_eq_some.1 h.live).1

theorem Followed.alive (h : Followed i u scope s inst) : inst.alive := (instance?_eq_some.1 h.live).2

/-- The program does not write if it does not with the same properties in `u`. -/
private theorem Followed.silent (h : Followed i u scope s inst)
    (hq : Silent i (withScopeOf i scope u)) :
    Silent i s := by
  obtain ⟨inst₀, hi₀, hv⟩ := h.view
  exact hq.congr (getElem?_modifyInstance_self hi₀ _) h.getElem? ⟨hv.definition, hv.escaped⟩ h.natives
    h.scope

/-- An update that no job waits for. -/
private theorem Followed.update (h : Followed i u scope s inst) (hp : inst.pending = false)
    (hq : Silent i (withScopeOf i scope u)) :
    ∃ inst', Tracked i u scope (Run.left (update i) s) inst' ∧ inst'.pending = false := by
  have hr := update_refreshed h.whole h.live h.attached (h.silent hq)
  obtain ⟨output, renders, hi⟩ := hr.self
  obtain ⟨inst₀, hi₀, hv⟩ := h.view
  have hjobs := h.jobs
  rw [← hr.frame] at hjobs
  exact ⟨_, ⟨⟨hr.whole, hr.attached, instance?_eq_some.2 ⟨hi, h.alive⟩, h.scope, rfl,
    ⟨inst₀, hi₀, hv.definition, hv.escaped⟩, hr.natives.trans h.natives, hjobs, h.sync⟩,
    fun _ => hr.current⟩, hp⟩

/-! Writes. -/

/-- The properties change, and nothing else does. -/
private theorem Followed.stored (h : Followed i u scope s inst) (scope' : Scope) :
    Followed i u scope' (withScopeOf i scope' s) { inst with scope := scope' } := by
  obtain ⟨inst₀, hi₀, hv⟩ := h.view
  exact ⟨h.whole.congr (skeleton_withScopeOf ..), h.attached.congr (skeleton_withScopeOf ..),
    instance?_eq_some.2 ⟨getElem?_modifyInstance_self h.getElem? _, h.alive⟩, rfl, h.idle,
    ⟨inst₀, hi₀, hv.definition, hv.escaped⟩, h.natives, h.jobs, h.sync⟩

/-- A job that renders the instance waits from now on. -/
private theorem Followed.wait (h : Followed i u scope s inst) (hp : inst.pending = false)
    (hd : inst.discipline = .batched) :
    Tracked i u scope (Run.left (frameHost.request (.act (.render i) .done))
      (s.modifyInstance i fun inst => { inst with pending := true })) { inst with pending := true } := by
  obtain ⟨events, hr⟩ := left_request (.act (.render i) .done)
    (s.modifyInstance i fun inst => { inst with pending := true })
  obtain ⟨inst₀, hi₀, hv⟩ := h.view
  have hskeleton : skeleton (s.modifyInstance i fun inst => { inst with pending := true }) = skeleton s :=
    skeleton_modifyInstance fun _ => rfl
  have hjobs : s.frame.jobs = [] := by rw [h.jobs, hp, if_neg Bool.false_ne_true]
  rw [hr]
  refine ⟨⟨h.whole.congr hskeleton, h.attached.congr hskeleton,
    instance?_eq_some.2 ⟨getElem?_modifyInstance_self h.getElem? _, h.alive⟩, h.scope, h.idle,
    ⟨inst₀, hi₀, hv.definition, hv.escaped⟩, h.natives, ?_, fun hs => ?_⟩, nofun⟩
  · rw [if_pos rfl]
    exact congrArg (· ++ [.act (.render i) .done]) hjobs
  · cases hd.symm.trans hs

/-- After a write the instance shows what it should, or a job that renders it waits. -/
theorem Tracked.write (h : Tracked i u scope s inst) (w : Write) (hs : scope.Floatless)
    (ht : (w.apply scope).Floatless) (hq : Silent i (withScopeOf i (w.apply scope) u)) :
    ∃ inst', Tracked i u (w.apply scope) (Run.left (w.run i) s) inst' := by
  have hstored := h.stored (w.apply scope)
  rw [left_write, scopeOf_eq h.getElem?, h.scope]
  dsimp only
  cases hd : w.dirty scope with
  | false =>
    refine ⟨_, hstored, fun hp => (h.current hp).congr (skeleton_withScopeOf ..) ?_⟩
    refine treesOf_congr h.getElem? hstored.getElem? ⟨rfl, rfl⟩ rfl ?_
    rw [h.scope]
    exact w.apply_agrees hs ht hd
  | true =>
    rw [if_pos rfl, left_changed hstored.getElem? h.alive h.idle]
    dsimp only
    cases hdisc : inst.discipline with
    | sync =>
      obtain ⟨inst', ht, -⟩ := hstored.update (h.sync hdisc) hq
      exact ⟨inst', ht⟩
    | batched =>
      cases hp : inst.pending with
      | true => exact ⟨_, hstored, fun hf => by cases hp.symm.trans hf⟩
      | false => exact ⟨_, hstored.wait hp hdisc⟩

/-! Flushes. -/

private theorem left_flush (s : Session) :
    Run.left flush s =
      Run.left (s.frame.jobs.forM (scheduler.attempt (scheduler.flushTo (s.frame.rank + 1))))
        { s with frame := .empty } := by
  have hread : flush s = (do
      s.frame.jobs.forM (scheduler.attempt (scheduler.flushTo (s.frame.rank + 1)))
      return s.frame.jobs.length : Run Session Nat) { s with frame := .empty } := rfl
  rw [Run.left_congr hread]
  exact Run.left_bind_pure ..

/-- An action by itself leaves what it leaves, and the host may be told of its failure. -/
private theorem left_attempt (flush : Run Session Nat) (a : Action) (s : Session) :
    ∃ events, Run.left (scheduler.attempt flush (.act a .done)) s =
      { Run.left (perform a) s with events } := by
  have hread : scheduler.runJob flush (.act a .done) = (do perform a; pure ()) := rfl
  rw [Scheduler.attempt, hread]
  cases h : perform a s with
  | ok r t =>
    have hjob : (do perform a; pure () : Run Session Unit) s = .ok () t := Run.bind_of_ok h
    rw [Run.left_of_ok h, Run.left_of_ok (Run.tryCatch_of_ok hjob)]
    exact ⟨t.events, rfl⟩
  | error e t =>
    have hjob : (do perform a; pure () : Run Session Unit) s = .error e t := Run.bind_of_error h
    rw [Run.left_of_error h, Run.left_congr (Run.tryCatch_of_error hjob)]
    cases e with
    | error e => exact ⟨_, rfl⟩
    | fault f => exact ⟨t.events, rfl⟩

/-- What the host has been told and whether it has been asked for a frame do not matter. -/
theorem Tracked.congr (h : Tracked i u scope s inst) (hskeleton : skeleton t = skeleton s)
    (hi : t.instances[i]? = s.instances[i]?) (hn : t.natives = s.natives)
    (hj : t.frame.jobs = s.frame.jobs) : Tracked i u scope t inst := by
  have hinst : t.instances[i]? = some inst := hi.trans h.getElem?
  refine ⟨⟨h.whole.congr hskeleton, h.attached.congr hskeleton, instance?_eq_some.2 ⟨hinst, h.alive⟩,
    h.scope, h.idle, h.view, hn.trans h.natives, hj.trans h.jobs, h.sync⟩, fun hp => ?_⟩
  exact (h.current hp).congr hskeleton (treesOf_congr h.getElem? hinst ⟨rfl, rfl⟩ hn fun _ => rfl)

/-- The job that renders the instance has left the frame. -/
private theorem Followed.start (h : Followed i u scope s inst) :
    Followed i u scope
      ({ s with frame := .empty }.modifyInstance i fun inst => { inst with pending := false })
      { inst with pending := false } := by
  obtain ⟨inst₀, hi₀, hv⟩ := h.view
  have hskeleton : skeleton ({ s with frame := .empty }.modifyInstance i fun inst =>
      { inst with pending := false }) = skeleton s :=
    skeleton_modifyInstance (s := { s with frame := .empty }) fun _ => rfl
  exact ⟨h.whole.congr hskeleton, h.attached.congr hskeleton,
    instance?_eq_some.2 ⟨getElem?_modifyInstance_self (s := { s with frame := .empty }) h.getElem? _,
      h.alive⟩, h.scope, h.idle, ⟨inst₀, hi₀, hv.definition, hv.escaped⟩, h.natives, rfl, fun _ => rfl⟩

/-- After a flush the instance shows what it should. -/
theorem Tracked.flush (h : Tracked i u scope s inst) (hq : Silent i (withScopeOf i scope u)) :
    ∃ inst', Tracked i u scope (Run.left flush s) inst' ∧ inst'.pending = false := by
  have hjobs := h.jobs
  rw [left_flush]
  cases hp : inst.pending with
  | false =>
    rw [hp, if_neg Bool.false_ne_true] at hjobs
    rw [hjobs]
    have hnone : Tracked i u scope { s with frame := .empty } inst := h.congr rfl rfl rfl hjobs.symm
    exact ⟨inst, hnone, hp⟩
  | true =>
    rw [hp, if_pos rfl] at hjobs
    have hlive : { s with frame := .empty }.instance? i = some inst := h.live
    obtain ⟨inst', ht, hp'⟩ := h.start.update rfl hq
    have hone (f : Job Action → Run Session Unit) (job : Job Action) :
        [job].forM f = (do f job; pure ()) := rfl
    rw [hjobs, hone, Run.left_bind_pure]
    obtain ⟨events, he⟩ := left_attempt (scheduler.flushTo (s.frame.rank + 1)) (.render i)
      { s with frame := .empty }
    rw [he, left_perform_render hlive]
    exact ⟨inst', ht.congr rfl rfl rfl rfl, hp'⟩

end LiveMarkup.Session
