import LiveMarkup.Proofs.Schedule.Moments
import LiveMarkup.Proofs.View.Sound
import LiveMarkup.Proofs.View.Write

/-! What updates keep, writes, calls and frames keep: apart from updates they change scopes, notes of
writes, what has been told, and what waits. What passes of rendering keep, updates keep. -/

namespace LiveMarkup.Session

open Run (Keeps)

variable {P : Session → Prop}

/-- A property that updates of living instances keep, and that does not depend on scopes, on notes of
writes, on what has been told, or on what waits. -/
structure Upheld (P : Session → Prop) : Prop where
  scope : ∀ {s} i scope, P s → P (withScopeOf i scope s)
  tell : ∀ {s} e, P s → P { s with events := e :: s.events }
  frame : ∀ {s} frame, P s → P { s with frame }
  note : ∀ i, Keeps P (noteWrite i)
  pending : ∀ {s} i pending, P s → P (s.modifyInstance i fun inst => { inst with pending })
  update : ∀ {s} i, (s.instance? i).isSome → P s → P (Run.left (update i) s)

namespace Upheld

variable (hP : Upheld P)

include hP

theorem request (job : Job Action) : Keeps P (frameHost.request job) :=
  Scheduler.request_keeps (s := scheduler) (fun frame _ hs => hP.frame frame hs)
    (fun e => .modify fun _ hs => hP.tell e hs) job

private theorem changed (i : InstanceId) : Keeps P (changed i) := by
  intro s hs
  have hread : Session.changed i s = _ :=
    Run.bind_of_ok (rfl : (get : Run Session Session) s = .ok s s)
  rw [Run.left_congr hread]
  cases hi : s.instance? i with
  | none => exact hs
  | some inst =>
    dsimp only
    split
    · exact hP.note i s hs
    · split
      · rw [Run.left_bind_pure]
        exact hP.update i (Option.isSome_of_eq_some hi) hs
      · split
        · exact Keeps.bind (.modify fun _ hs => hP.pending i true hs) (fun _ => hP.request _) s hs
        · exact hs

/-- Evaluation in the scope of an instance from outside. -/
theorem host (i : InstanceId) : (host i).Keeps P :=
  hostWith_keeps (fun scope _ => hP.scope i scope) (fun e _ => hP.tell e) fun _ => hP.changed i

theorem perform (a : Action) : Keeps P (perform a) := by
  cases a with
  | write i x v => exact .bind ((hP.host i).write _ x v) fun _ => .pure _
  | render i =>
    intro s hs
    cases hi : s.instance? i with
    | none =>
      rw [left_perform_dead hi]
      exact hs
    | some inst =>
      obtain ⟨hinst, ha⟩ := instance?_eq_some.1 hi
      rw [left_perform_render hi]
      have hlive := instance?_eq_some.2
        ⟨getElem?_modifyInstance_self hinst fun inst => { inst with pending := false }, ha⟩
      exact hP.update i (Option.isSome_of_eq_some hlive) (hP.pending i false hs)

theorem flush : Keeps P flush :=
  Scheduler.flush_keeps (s := scheduler) (fun frame _ hs => hP.frame frame hs)
    (fun e => .modify fun _ hs => hP.tell e hs) hP.perform

theorem write (i : InstanceId) (w : Write) : Keeps P (w.run i) := by
  intro s hs
  have hstored : P (withScopeOf i (w.apply (scopeOf i s)) s) := hP.scope i _ hs
  rw [left_write]
  dsimp only
  split
  · exact hP.changed i _ hstored
  · exact hstored

theorem callPublic (i : InstanceId) (x : String) (args : List Value) :
    Keeps P (callPublic i x args) := by
  refine .get_bind fun t _ => ?_
  split
  · exact .throw _
  · split
    · exact (hP.host i).callFunction _ args
    · exact .throw _

end Upheld

variable {s t : Session} {i : InstanceId} {inst : Instance} {o : Output}

/-- A property that depends on the document and on what there is of the instances in it, that has
everyone alive rendered, and that passes keep. -/
structure Closed (P : Session → Prop) : Prop where
  congr : ∀ {s t}, skeleton t = skeleton s → P s → P t
  mounted : ∀ {s}, P s → ∀ i inst, s.instance? i = some inst → inst.output.isSome
  pass : ∀ {s i inst}, P s → s.instance? i = some inst → P (Run.left (render i) s)

theorem skeleton_inPhase (phase : Phase) (s : Session) : skeleton (inPhase i phase s) = skeleton s :=
  skeleton_modifyInstance fun _ => rfl

theorem instance?_inPhase (phase : Phase) (hi : s.instance? i = some inst) :
    (inPhase i phase s).instance? i = some { inst with phase } := by
  obtain ⟨hi, ha⟩ := instance?_eq_some.1 hi
  exact instance?_eq_some.2 ⟨getElem?_modifyInstance_self hi _, ha⟩

/-- What a pass of an instance that has an output leaves in any case. -/
theorem left_render (hi : s.instance? i = some inst) (ho : inst.output = some o) :
    (Run.left (render i) s).held = s.held ∧ ((Run.left (render i) s).instance? i).isSome ∧
      ∀ r t, render i s = .ok r t → r = none := by
  obtain ⟨hinst, ha⟩ := instance?_eq_some.1 hi
  cases hr : render i s with
  | ok r t =>
    obtain ⟨rfl, scope, phase, events, trees, o', forest, -, -, rfl⟩ := render_ok hinst ho hr
    have hself := getElem?_shown (getElem?_aside hinst scope phase events) o' forest
    rw [Run.left_of_ok hr, shown_dressed]
    refine ⟨rfl, ?_, fun r t he => ?_⟩
    · have hlive := instance?_eq_some.2 ⟨hself, ha⟩
      exact Option.isSome_of_eq_some hlive
    · cases he
      rfl
  | error e t =>
    obtain ⟨scope, phase, events, document, rfl, -⟩ := render_error hinst hr
    have hself := getElem?_aside hinst scope phase events
    rw [Run.left_of_error hr]
    exact ⟨rfl, Option.isSome_of_eq_some (instance?_eq_some.2 ⟨hself, ha⟩), fun r t he => by cases he⟩

/-- An update of an instance that has an output. -/
private theorem Closed.update (hP : Closed P) (hs : P s) (hi : s.instance? i = some inst) :
    P (Run.left (update i) s) := by
  obtain ⟨o, ho⟩ := Option.isSome_iff_exists.1 (hP.mounted hs i inst hi)
  have hphase (phase : Phase) {u : Session} (hu : P u) : P (inPhase i phase u) :=
    hP.congr (skeleton_inPhase ..) hu
  have h₁ := hP.pass (hphase (.rendering false) hs) (instance?_inPhase _ hi)
  obtain ⟨-, hlive, hnone⟩ := left_render (instance?_inPhase (.rendering false) hi) ho
  have hu := update_eq i s
  cases hr : render i (inPhase i (.rendering false) s) with
  | error e t =>
    rw [hr] at hu
    rw [Run.left_of_error hr] at h₁
    rw [Run.left_of_error hu]
    exact hphase _ h₁
  | ok r t =>
    rw [hr] at hu
    rw [Run.left_of_ok hr] at h₁ hlive
    obtain rfl := hnone r t hr
    dsimp only at hu
    split at hu
    · obtain ⟨inst₁, hi₁⟩ := Option.isSome_iff_exists.1 hlive
      obtain ⟨o₁, ho₁⟩ := Option.isSome_iff_exists.1 (hP.mounted h₁ i inst₁ hi₁)
      have h₂ := hP.pass (hphase .following h₁) (instance?_inPhase _ hi₁)
      obtain ⟨hheld, -⟩ := left_render (instance?_inPhase .following hi₁) ho₁
      rw [keeping_eq, show holding (none : Option NodeId).toList (inPhase i .following t) =
        inPhase i .following t from rfl] at hu
      have hback {u : Session} (hu : u.held = (inPhase i .following t).held) :
          { u with held := (inPhase i .following t).held } = u := by
        rw [← hu]
      cases hk : render i (inPhase i .following t) with
      | error e u =>
        rw [hk] at hu
        rw [Run.left_of_error hk] at h₂ hheld
        dsimp only at hu
        rw [hback hheld] at hu
        rw [Run.left_of_error hu]
        exact hphase _ h₂
      | ok r u =>
        rw [hk] at hu
        rw [Run.left_of_ok hk] at h₂ hheld
        dsimp only at hu
        rw [hback hheld] at hu
        rw [Run.left_of_ok hu]
        exact hphase _ h₂
    · rw [Run.left_of_ok hu]
      exact hphase _ h₁

/-- So it is kept by writes, calls and frames. -/
theorem Closed.upheld (hP : Closed P) : Upheld P where
  scope _ scope hs := hP.congr (skeleton_withScopeOf scope _) hs
  tell _ hs := by
    refine hP.congr ?_ hs
    rfl
  frame _ hs := by
    refine hP.congr ?_ hs
    rfl
  note i := by
    rw [noteWrite_eq]
    exact .modify fun s hs => hP.congr (skeleton_modifyInstance fun _ => rfl) hs
  pending _ _ hs := hP.congr (skeleton_modifyInstance fun _ => rfl) hs
  update _ hi hs := by
    obtain ⟨inst, hi⟩ := Option.isSome_iff_exists.1 hi
    exact hP.update hs hi

end LiveMarkup.Session
