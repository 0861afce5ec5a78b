import LiveMarkup.Proofs.View.Pass
import LiveMarkup.View.Handle

/-! What an update cannot reach: the frame, the other instances, and whether its own instance is alive
and a job waits for it. -/

namespace LiveMarkup.Session

open Run (Keeps)

variable {s t k : Session} {i j : InstanceId}

def calm (i : InstanceId) (s : Session) : Session :=
  { s.modifyInstance i fun inst =>
      { inst with scope := .empty, output := none, renders := 0, phase := .idle } with
    document := .empty, events := [], held := [] }

/-- A change of an instance that `calm` does not show. -/
private theorem calm_modifyInstance (change : Instance → Instance)
    (h : ∀ inst, { change inst with scope := .empty, output := none, renders := 0, phase := .idle } =
      { inst with scope := .empty, output := none, renders := 0, phase := .idle }) :
    calm i (s.modifyInstance i change) = calm i s := by
  simp only [calm, modifyInstance, modify_modify, h]

theorem calm_frame (h : calm i t = calm i s) : t.frame = s.frame := by
  have he : (calm i t).frame = (calm i s).frame := by rw [h]
  exact he

theorem calm_natives (h : calm i t = calm i s) : t.natives = s.natives := by
  have he : (calm i t).natives = (calm i s).natives := by rw [h]
  exact he

theorem calm_getElem?_of_ne (h : calm i t = calm i s) (hj : j ≠ i) :
    t.instances[j]? = s.instances[j]? := by
  have he : (calm i t).instances[j]? = (calm i s).instances[j]? := by rw [h]
  simpa only [calm, getElem?_modifyInstance_of_ne hj] using he

/-- What remains of the instance itself. -/
theorem calm_getElem? (h : calm i t = calm i s) {inst : Instance} (hi : t.instances[i]? = some inst) :
    ∃ inst', s.instances[i]? = some inst' ∧ inst.discipline = inst'.discipline ∧
      inst.pending = inst'.pending ∧ inst.alive = inst'.alive := by
  have he : (calm i t).instances[i]? = (calm i s).instances[i]? := by rw [h]
  simp only [calm, getElem?_modifyInstance_self hi, getElem?_modifyInstance, if_pos] at he
  obtain ⟨inst', hi', heq⟩ := Option.map_eq_some_iff.1 he.symm
  refine ⟨inst', hi', ?_, ?_, ?_⟩
  · exact (congrArg Instance.discipline heq).symm
  · exact (congrArg Instance.pending heq).symm
  · exact (congrArg Instance.alive heq).symm

theorem calm_size (h : calm i t = calm i s) : t.instances.size = s.instances.size := by
  have he : (calm i t).instances.size = (calm i s).instances.size := by rw [h]
  simpa only [calm, modifyInstance, Array.size_modify] using he

/-- A run that changes of an instance only what `calm` does not show, and nothing else. -/
def Calm {α : Type} (i : InstanceId) (m : Run Session α) : Prop :=
  ∀ k, Keeps (fun s => calm i s = k) m

theorem Calm.left {α : Type} {m : Run Session α} (h : Calm i m) (s : Session) :
    calm i (Run.left m s) = calm i s := h _ s rfl

private theorem hostWith_calm {notify : String → Run Session Unit} (hn : ∀ x, Calm i (notify x))
    (k : Session) : (hostWith i notify).Keeps fun s => calm i s = k :=
  hostWith_keeps
    (fun scope _ h => (calm_modifyInstance (fun inst => { inst with scope }) fun _ => rfl).trans h)
    (fun _ _ h => h) fun x => hn x k

private theorem setPhase_calm (phase : Phase) : Calm i (setPhase i phase) := fun _ =>
  .modify fun _ h => (calm_modifyInstance (fun inst => { inst with phase }) fun _ => rfl).trans h

private theorem noteWrite_calm : Calm i (noteWrite i) := by
  rw [noteWrite_eq]
  exact fun k => .modify fun s h =>
    (calm_modifyInstance (fun inst => { inst with phase := noted inst.phase }) fun _ => rfl).trans h

private theorem keeping_calm {α : Type} {m : Run Session α} (hm : Calm i m) (nodes : List NodeId) :
    Calm i (keeping nodes m) := by
  intro k s hs
  rw [left_keeping]
  exact hm k (holding nodes s) hs

private theorem place_calm (inst : Instance) (trees : List (Html Handler)) :
    Calm i (place i inst trees) := by
  intro k s hs
  have hshown (o : Output) (forest : Forest Handler) : calm i (shown i o forest s) = k :=
    (calm_modifyInstance (s := { s with document := { s.document with forest } })
      (fun inst => { inst with output := some o, renders := inst.renders + 1 }) fun _ => rfl).trans hs
  cases ho : inst.output with
  | none =>
    rw [Run.left_of_ok (place_first ho trees s)]
    exact hshown _ _
  | some o =>
    have hp := place_again (i := i) ho trees s
    cases hr : o.replace s.document.forest trees with
    | error e =>
      rw [hr] at hp
      rw [Run.left_of_error hp]
      exact hs
    | ok r =>
      rw [hr] at hp
      rw [Run.left_of_ok hp]
      exact hshown _ _

theorem render_calm : Calm i (render i) := by
  intro k s hs
  cases hi : s.instances[i]? with
  | none =>
    rw [Run.left_of_ok (render_of_missing hi)]
    exact hs
  | some inst =>
    rw [Run.left_congr (render_eq hi)]
    have heval : Keeps (fun s => calm i s = k) (materialize i inst) :=
      materialize_keeps (hostWith_calm (fun _ => noteWrite_calm) k) inst
    refine Keeps.bind heval (fun trees => ?_) s hs
    refine .bind (.modify fun _ h => h) fun _ => .bind (place_calm inst trees k) fun fragment => ?_
    exact .bind (keeping_calm (fun _ => .modify fun _ h => h) fragment.toList k) fun _ => .pure _

/-- An update changes nothing but the document and its own instance, of which it leaves whether it is
alive and whether a job waits for it. -/
theorem update_calm : Calm i (update i) := by
  have hidle {m : Run Session (Option NodeId)} (hm : Calm i m) : Calm i (orIdle i m) := fun k =>
    .tryCatch (hm k) fun _ => .bind (setPhase_calm _ k) fun _ => .throw _
  have hupdate : update i = (do
      setPhase i (.rendering false)
      let fragment ← orIdle i (render i)
      follow i fragment) := rfl
  intro k
  rw [hupdate]
  refine .bind (setPhase_calm _ k) fun _ => .bind (hidle render_calm k) fun fragment => ?_
  have hlast : Keeps (fun s => calm i s = k) (do setPhase i .idle; return fragment) :=
    .bind (setPhase_calm _ k) fun _ => .pure _
  refine .get_bind fun s _ => ?_
  split
  · exact .bind (setPhase_calm _ k) fun _ =>
      .bind (hidle (keeping_calm render_calm _) k) fun _ => hlast
  · exact hlast

/-- An update is over when it ends. -/
private theorem update_idle (i : InstanceId) (s : Session) :
    ∃ t, Run.left (update i) s = inPhase i .idle t := by
  have hu := update_eq i s
  cases hr : render i (inPhase i (.rendering false) s) with
  | error e t =>
    rw [hr] at hu
    exact ⟨t, Run.left_of_error hu⟩
  | ok fragment t =>
    rw [hr] at hu
    dsimp only at hu
    split at hu
    · cases hk : keeping fragment.toList (render i) (inPhase i .following t) with
      | error e u =>
        rw [hk] at hu
        exact ⟨u, Run.left_of_error hu⟩
      | ok a u =>
        rw [hk] at hu
        exact ⟨u, Run.left_of_ok hu⟩
    · exact ⟨t, Run.left_of_ok hu⟩

theorem phase_of_update {inst : Instance}
    (h : (Run.left (update i) s).instances[i]? = some inst) : inst.phase = .idle := by
  obtain ⟨t, ht⟩ := update_idle i s
  rw [ht] at h
  exact phase_of_inPhase h

end LiveMarkup.Session
