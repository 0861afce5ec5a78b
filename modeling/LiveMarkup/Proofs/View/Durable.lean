import LiveMarkup.Proofs.View.Shows

/-! Properties of the document, the outputs and the views of all instances, whether they live or not.
What passes keep and what letting go keeps, all uses keep, from the first pass of an instance on. -/

namespace LiveMarkup.Session

open Run (Keeps)

variable {P : Session → Prop} {s t : Session} {i : InstanceId} {nodes : List NodeId}

/-- What is read of an instance to put its output into the document. -/
def shape (inst : Instance) : Definition × Option Output := (inst.definition, inst.output)

/-- The sessions differ at most in scopes, in what instances are doing and whether they live, in what
has been told, and in what waits. -/
structure Alike (s t : Session) : Prop where
  document : t.document = s.document
  held : t.held = s.held
  shapes : t.instances.map shape = s.instances.map shape

private theorem alike_modifyInstance {change : Instance → Instance}
    (h : ∀ inst, shape (change inst) = shape inst) : Alike s (s.modifyInstance i change) := by
  refine ⟨rfl, rfl, Array.ext_getElem? fun k => ?_⟩
  rw [Array.getElem?_map, Array.getElem?_map, getElem?_modifyInstance]
  split
  · rw [Option.map_map]
    exact congrFun (congrArg Option.map (funext h)) _
  · rfl

private theorem Alike.shape? (h : Alike s t) (i : InstanceId) :
    (t.instances[i]?).map shape = (s.instances[i]?).map shape := by
  rw [← Array.getElem?_map, ← Array.getElem?_map, h.shapes]

theorem Alike.outputOf (h : Alike s t) (i : InstanceId) : outputOf t i = outputOf s i := by
  have hshape := congrArg (Option.bind · Prod.snd) (h.shape? i)
  rw [Option.bind_map, Option.bind_map] at hshape
  exact hshape

theorem Alike.definition {inst : Instance} (h : Alike s t) (hi : t.instances[i]? = some inst) :
    ∃ inst', s.instances[i]? = some inst' ∧ inst'.definition = inst.definition := by
  have hshape := h.shape? i
  rw [hi, Option.map_some] at hshape
  obtain ⟨inst', hi', he⟩ := Option.map_eq_some_iff.1 hshape.symm
  exact ⟨inst', hi', congrArg Prod.fst he⟩

/-- Others may be kept. -/
theorem Sound.with_held (h : Sound s) {held : List NodeId}
    (hheld : ∀ n ∈ held, s.document.forest.Has n) : Sound { s with held } := by
  refine h.of_eq rfl (fun _ => rfl) fun n hn => ?_
  rcases mem_kept.1 hn with hn | hn | hn | hn | hn
  · exact h.kept n (mem_kept.2 (.inl hn))
  · exact h.kept n (mem_kept.2 (.inr (.inl hn)))
  · exact h.kept n (mem_kept.2 (.inr (.inr (.inl hn))))
  · exact hheld n hn
  · exact h.kept n (mem_kept.2 (.inr (.inr (.inr (.inr hn)))))

theorem Sound.has_held (h : Sound s) {n : NodeId} (hn : n ∈ s.held) : s.document.forest.Has n :=
  h.kept n (mem_kept.2 (.inr (.inr (.inr (.inl hn)))))

theorem Sound.of_alike (h : Sound s) (ha : Alike s t) : Sound t := by
  refine h.of_eq (by rw [ha.document]) ha.outputOf fun n hn => ?_
  rcases mem_kept.1 hn with hn | hn | hn | hn | ⟨i, inst, o, hi, ho, hmem⟩
  · exact h.kept n (mem_kept.2 (.inl (ha.document ▸ hn)))
  · exact h.kept n (mem_kept.2 (.inr (.inl (ha.document ▸ hn))))
  · exact h.kept n (mem_kept.2 (.inr (.inr (.inl (ha.document ▸ hn)))))
  · exact h.has_held (ha.held ▸ hn)
  · refine h.outputs i o ?_ n hmem
    rw [← ha.outputOf, outputOf_eq (instance?_eq_some.1 hi).1, ho]

/-- A pass that fails changes nothing that matters, but it may have added the stylesheet. -/
theorem alike_render_error {inst : Instance} {e : Stop} (hi : s.instances[i]? = some inst)
    (hr : render i s = .error e t) : Alike s t ∨ Alike (dressed inst.definition s) t := by
  obtain ⟨scope, phase, events, document, rfl, rfl | rfl⟩ := render_error hi hr
  · have ha : Alike s (s.modifyInstance i fun inst => { inst with scope, phase }) :=
      alike_modifyInstance fun _ => rfl
    exact .inl ⟨rfl, rfl, ha.shapes⟩
  · have ha : Alike (dressed inst.definition s)
        ((dressed inst.definition s).modifyInstance i fun inst => { inst with scope, phase }) :=
      alike_modifyInstance fun _ => rfl
    exact .inr ⟨rfl, rfl, ha.shapes⟩

/-- What holds at the end of a run that gives out nodes, as long as these are kept. -/
def Leaves {α : Type} (P : Session → Prop) (given : α → List NodeId) :
    EStateM.Result Stop Session α → Prop
  | .ok a t => P (holding (given a) t)
  | .error _ t => P t

/-- A property that passes of any instance keep, and letting go. -/
structure Durable (P : Session → Prop) : Prop where
  congr : ∀ {s t}, Alike s t → P s → P t
  forget : ∀ {s} nodes, P (holding nodes s) → P s
  settle : ∀ {s}, P s → P (settle s)
  pass : ∀ {s} i, P s → Leaves P Option.toList (render i s)

/-- A pass keeps what it is told to keep. -/
private theorem render_held (i : InstanceId) (s : Session) :
    (Run.left (render i) s).held = s.held := by
  cases hi : s.instances[i]? with
  | none => rw [Run.left_of_ok (render_of_missing hi)]
  | some inst =>
    cases hr : render i s with
    | error e t =>
      obtain ⟨scope, phase, events, document, rfl, -⟩ := render_error hi hr
      rw [Run.left_of_error hr]
      rfl
    | ok fragment t =>
      rw [Run.left_of_ok hr]
      cases ho : inst.output with
      | none =>
        obtain ⟨scope, phase, events, trees, -, -, rfl⟩ := render_first hi ho hr
        rfl
      | some o =>
        obtain ⟨-, scope, phase, events, trees, o', forest, -, -, rfl⟩ := render_ok hi ho hr
        rfl

namespace Durable

variable (hP : Durable P)

include hP

private theorem modifyInstance {change : Instance → Instance}
    (h : ∀ inst, shape (change inst) = shape inst) (hs : P s) :
    P (s.modifyInstance i change) := hP.congr (alike_modifyInstance h) hs

theorem left_of_leaves {α : Type} {given : α → List NodeId} {m : Run Session α}
    (h : Leaves P given (m s)) : P (Run.left m s) := by
  cases hm : m s with
  | ok a t =>
    rw [hm] at h
    rw [Run.left_of_ok hm]
    exact hP.forget _ h
  | error e t =>
    rw [hm] at h
    rw [Run.left_of_error hm]
    exact h

/-- A pass while further nodes are kept leaves them kept. -/
theorem keeping_render (hs : P (holding nodes s)) :
    P (holding nodes (Run.left (keeping nodes (render i)) s)) := by
  have hpass := hP.left_of_leaves (hP.pass i hs)
  have hheld := render_held i (holding nodes s)
  rw [left_keeping]
  generalize Run.left (render i) (holding nodes s) = t at *
  have hback : holding nodes { t with held := s.held } = t := by
    have hsame : nodes ++ s.held = t.held := hheld.symm
    rw [holding, hsame]
  rw [hback]
  exact hpass

private theorem update (i : InstanceId) (hs : P s) : Leaves P Option.toList (update i s) := by
  have hphase (phase : Phase) {t : Session} (ht : P t) : P (inPhase i phase t) :=
    hP.modifyInstance (fun _ => rfl) ht
  have hfirst := hP.pass i (hphase (.rendering false) hs)
  rw [update_eq]
  cases hr : render i (inPhase i (.rendering false) s) with
  | error e t =>
    rw [hr] at hfirst
    exact hphase .idle hfirst
  | ok fragment t =>
    rw [hr] at hfirst
    dsimp only
    split
    · have hsecond := hP.keeping_render (i := i) (s := inPhase i .following t)
        (hphase .following hfirst)
      cases hk : keeping fragment.toList (render i) (inPhase i .following t) with
      | error e u =>
        rw [Run.left_of_error hk] at hsecond
        exact hphase .idle (hP.forget _ hsecond)
      | ok a u =>
        rw [Run.left_of_ok hk] at hsecond
        exact hphase .idle hsecond
    · exact hphase .idle hfirst

theorem upheld : Upheld P where
  scope _ _ hs := hP.modifyInstance (fun _ => rfl) hs
  tell _ hs := by
    refine hP.congr ?_ hs
    exact ⟨rfl, rfl, rfl⟩
  frame _ hs := by
    refine hP.congr ?_ hs
    exact ⟨rfl, rfl, rfl⟩
  note i := by
    rw [noteWrite_eq]
    exact .modify fun s hs => hP.modifyInstance (fun _ => rfl) hs
  pending _ _ hs := hP.modifyInstance (fun _ => rfl) hs
  update i _ hs := hP.left_of_leaves (hP.update i hs)

private theorem prepare (r : Recipe) (isPublic : Bool)
    (natives : List (String × (List Value → Procedure))) (i : InstanceId) :
    Keeps P (prepare r isPublic natives i) := by
  refine prepare_keeps (fun scope _ => hP.upheld.scope i scope) (fun e _ => hP.upheld.tell e)
    fun s natives hs => ?_
  refine hP.congr ?_ hs
  exact ⟨rfl, rfl, rfl⟩

private theorem firstUpdate (i : InstanceId) (hs : P s) :
    Leaves P (fun p => [p.2]) (firstUpdate i s) := by
  have hdies {t : Session} (ht : P t) :
      P (Session.settle (t.modifyInstance i fun inst => { inst with alive := false })) :=
    hP.settle (hP.modifyInstance (fun _ => rfl) ht)
  have hu := hP.update i hs
  cases h : Session.update i s with
  | error e t =>
    have hfirst : Session.firstUpdate i s = .error e
        (Session.settle (t.modifyInstance i fun inst => { inst with alive := false })) :=
      Run.tryCatch_of_error (Run.bind_of_error h)
    rw [h] at hu
    rw [hfirst]
    exact hdies hu
  | ok fragment t =>
    rw [h] at hu
    cases fragment with
    | none =>
      have hfirst : Session.firstUpdate i s = .error (.error .alreadyRendered)
          (Session.settle (t.modifyInstance i fun inst => { inst with alive := false })) :=
        Run.tryCatch_of_error ((Run.bind_of_ok h).trans rfl)
      rw [hfirst]
      exact hdies (hP.forget _ hu)
    | some fragment =>
      have hfirst : Session.firstUpdate i s = .ok (i, fragment) t :=
        Run.tryCatch_of_ok ((Run.bind_of_ok h).trans rfl)
      rw [hfirst]
      exact hu

/-- An instance that is in the session already is made and rendered for the first time. -/
theorem bring (r : Recipe) (isPublic : Bool) (natives : List (String × (List Value → Procedure)))
    (i : InstanceId) (hs : P s) : Leaves P (fun p => [p.2]) (bring r isPublic natives i s) := by
  have hp := hP.prepare r isPublic natives i s hs
  rw [Session.bring]
  cases h : Session.prepare r isPublic natives i s with
  | error e t =>
    rw [Run.left_of_error h] at hp
    rw [Run.bind_of_error h]
    exact hp
  | ok a t =>
    rw [Run.left_of_ok h] at hp
    rw [Run.bind_of_ok h]
    exact hP.firstUpdate i (hP.modifyInstance (fun _ => rfl) hp)

/-- A new instance is made, and its fragment is kept. -/
theorem instantiate (r : Recipe) (props : Bindings) (isPublic : Bool)
    (natives : List (String × (List Value → Procedure))) (hjoined : P (joined (unborn r props) s)) :
    P (Run.left (do let p ← instantiate r props isPublic natives; hold p.2) s) := by
  have hbring := hP.bring r isPublic natives s.instances.size hjoined
  have hmade := instantiate_eq r props isPublic natives s
  cases h : Session.bring r isPublic natives s.instances.size (joined (unborn r props) s) with
  | error e t =>
    rw [h] at hbring
    rw [Run.left_of_error (Run.bind_of_error (hmade.trans h))]
    exact hbring
  | ok p t =>
    rw [h] at hbring
    rw [Run.left_congr (Run.bind_of_ok (hmade.trans h))]
    exact hbring

/-- A new instance is mounted, if the session with it may have the output of one appended to the
target. -/
theorem mount (r : Recipe) (props : Bindings) (isPublic : Bool)
    (natives : List (String × (List Value → Procedure))) {target : NodeId}
    (hjoined : P (joined (unborn r props) s))
    (happend : ∀ t fragment forest, P (holding [fragment] t) →
      t.document.forest.append target fragment = .ok forest →
      P { t with document := { t.document with forest } }) :
    P (Run.left (mount r props isPublic natives target) s) := by
  have hbring := hP.bring r isPublic natives s.instances.size hjoined
  rw [Run.left_congr (mount_eq r props isPublic natives target s)]
  cases h : Session.bring r isPublic natives s.instances.size (joined (unborn r props) s) with
  | error e t =>
    rw [h] at hbring
    rw [Run.left_of_error (Run.bind_of_error h)]
    exact hbring
  | ok p t =>
    rw [h] at hbring
    have hedit := edit_eq (fun f => f.append target p.2) t
    rw [Run.left_congr (Run.bind_of_ok h), Run.left_bind_pure]
    cases hf : t.document.forest.append target p.2 with
    | error e =>
      rw [hf] at hedit
      rw [Run.left_of_error hedit]
      exact hP.forget _ hbring
    | ok forest =>
      rw [hf] at hedit
      rw [Run.left_of_ok hedit]
      exact hP.settle (happend t p.2 forest hbring hf)

end Durable

end LiveMarkup.Session
