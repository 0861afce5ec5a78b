import LiveMarkup.Proofs.View.Siblings
import LiveMarkup.Proofs.View.Trace

/-! Writes of a view in the midst of its own rendering. Between operations no instance is being rendered,
and an update has one pass or two: the second one follows a first one that succeeded and wrote. -/

namespace LiveMarkup

open Run (Keeps)

namespace Session

variable {s t : Session} {i : InstanceId} {inst : Instance}

/-! Between operations. -/

def Resting (s : Session) : Prop :=
  ∀ (i : InstanceId) (inst : Instance), s.instances[i]? = some inst → inst.phase = .idle

private theorem Resting.modifyInstance (h : Resting s) {change : Instance → Instance}
    (hc : ∀ inst, inst.phase = .idle → (change inst).phase = .idle) :
    Resting (s.modifyInstance i change) := by
  intro j inst hj
  rw [getElem?_modifyInstance] at hj
  split at hj
  · obtain ⟨inst', hj', rfl⟩ := Option.map_eq_some_iff.1 hj
    exact hc inst' (h j inst' hj')
  · exact h j inst hj

private theorem Resting.joined (h : Resting s) (r : Recipe) (props : Bindings) :
    Resting (joined (unborn r props) s) := by
  intro j inst hj
  rw [Session.joined, Array.getElem?_push] at hj
  split at hj
  · cases hj
    rfl
  · exact h j inst hj

/-- An update is over when it ends, and no other instance takes part in it. -/
private theorem update_resting (i : InstanceId) : Keeps Resting (update i) := by
  intro s hs j inst hj
  by_cases hji : j = i
  · subst hji
    exact phase_of_update hj
  · rw [calm_getElem?_of_ne (update_calm.left s) hji] at hj
    exact hs j inst hj

private theorem resting_upheld : Upheld Resting where
  scope _ _ hs := hs.modifyInstance fun _ h => h
  tell _ hs := hs
  frame _ hs := hs
  note i := by
    rw [noteWrite_eq]
    exact .modify fun s hs => hs.modifyInstance fun inst hp => by rw [hp]; rfl
  pending _ _ hs := hs.modifyInstance fun _ h => h
  update i _ hs := update_resting i _ hs

private theorem keeping_resting {α : Type} {m : Run Session α} (hm : Keeps Resting m)
    (nodes : List NodeId) :
    Keeps Resting (keeping nodes m) := by
  intro s hs
  rw [left_keeping]
  exact hm (holding nodes s) hs

private theorem bring_resting (r : Recipe) (isPublic : Bool)
    (natives : List (String × (List Value → Procedure))) (i : InstanceId) :
    Keeps Resting (bring r isPublic natives i) :=
  bring_keeps (fun scope _ => resting_upheld.scope i scope) (fun e _ => resting_upheld.tell e)
    (fun _ _ h => h) (fun _ => .modify fun _ h => h.modifyInstance fun _ h => h) (update_resting i)
    fun _ h => h

private theorem Resting.use (h : Resting s) (u : Use) : Resting (u.run s) := by
  cases u with
  | mount r props isPublic natives target =>
    rw [Use.run, Run.left_congr (mount_eq r props isPublic natives target s)]
    refine Keeps.bind (bring_resting r isPublic natives _) (fun p => ?_) _ (h.joined r props)
    exact .bind (edit_keeps fun _ _ h => h) fun _ => .pure _
  | instantiate r props isPublic natives =>
    rw [Use.run, Run.left_congr (Run.bind_of_eq (instantiate_eq r props isPublic natives s))]
    have hhold (p : InstanceId × NodeId) : Keeps Resting (hold p.2) := fun _ h => h
    exact Keeps.bind (bring_resting r isPublic natives _) hhold _ (h.joined r props)
  | write i w => exact resting_upheld.write i w s h
  | call i x args => exact resting_upheld.callPublic i x args s h
  | request job => exact resting_upheld.request job s h
  | flush => exact resting_upheld.flush s h

private theorem dispatch_resting (event : String) (target : NodeId) :
    Keeps Resting (dispatch event target) := by
  have hsettle : Keeps Resting (modify settle) := .modify fun _ h => h
  have hrespond (l : NodeId × Handler) : Keeps Resting (respond event l) :=
    keeping_resting (.bind ((resting_upheld.host _).callFunction _ _) fun _ => hsettle) _
  have hbubble : Keeps Resting (bubble event target) := fun s h =>
    Document.climb_keeps (Q := fun _ => True) (fun _ _ _ _ _ _ => trivial)
      (fun n _ l => hrespond (n, l)) _ trivial s h
  intro s h
  rw [left_dispatch]
  exact keeping_resting hbubble [target] s h

private theorem Resting.edit (h : Resting s) (e : Edit) : Resting (e.run s) := by
  have hedit (change : Forest Handler → Except DocumentError (Forest Handler)) :
      Keeps Resting (Session.edit change) := edit_keeps fun _ _ h => h
  cases e with
  | appendElement tag => exact Keeps.get_bind (fun _ _ => hedit _) s h
  | insertElement tag reference => exact hedit _ s h
  | attach node => exact Keeps.get_bind (fun _ _ => hedit _) s h
  | remove node => exact hedit _ s h
  | clear => exact Keeps.get_bind (fun _ _ => hedit _) s h
  | operation op => exact h
  | dispatch event target => exact dispatch_resting event target s h
  | hold node => exact h
  | letGo node => exact h
  | drop i =>
    refine Keeps.modify (f := fun s => settle (s.modifyInstance i _)) (fun s h => ?_) s h
    exact h.modifyInstance (s := s) fun _ h => h

/-- A session between operations: what users do, what happens to the document from outside, and the jobs
of a frame. -/
inductive Between : Session → Prop where
  | empty : Between empty
  | use {s : Session} (h : Between s) (u : Use) : Between (u.run s)
  | edit {s : Session} (h : Between s) (e : Edit) : Between (e.run s)
  | instantiate {s : Session} (h : Between s) (r : Recipe) (props : Bindings) (isPublic : Bool)
    (natives : List (String × (List Value → Procedure))) :
    Between (Run.left (instantiate r props isPublic natives) s)
  | job {s : Session} (h : Between s) (a : Action) : Between (Run.left (perform a) s)

private theorem Between.resting (h : Between s) : Resting s := by
  induction h with
  | empty => exact fun i inst hi => by simp [Session.empty] at hi
  | use _ u ih => exact ih.use u
  | edit _ e ih => exact ih.edit e
  | instantiate _ r props isPublic natives ih =>
    rw [Run.left_congr (instantiate_eq r props isPublic natives _)]
    exact bring_resting r isPublic natives _ _ (ih.joined r props)
  | job _ a ih => exact resting_upheld.perform a _ ih

end Session

namespace Traced

variable {i : InstanceId} {inst : Instance} {s : Session} {again : Run Traced (Option NodeId)}
  {r : EStateM.Result Stop Session (Option NodeId)} {e marks : List Mark}

/-! Passes. -/

def stateOf {σ α : Type} : EStateM.Result Stop σ α → σ
  | .ok _ s => s
  | .error _ s => s

/-- The records of updates, latest first, and whether the updates succeed. A pass that fails is the last
one, as is a pass without a dirty write; after one with a dirty write comes another, which is the last
one whatever it writes. -/
inductive Passes : Bool → List Mark → Prop where
  | failed {e : List Mark} (he : Inner e) : Passes false (e ++ [.pass])
  | once {e : List Mark} {rendered : Rendered} (he : Inner e) (hq : e.any Mark.isWrite = false) :
    Passes true (.shown rendered :: (e ++ [.pass]))
  | failedAgain {e e' : List Mark} {rendered : Rendered} (he : Inner e)
    (hw : e.any Mark.isWrite = true) (he' : Inner e') :
    Passes false (e' ++ .pass :: .shown rendered :: (e ++ [.pass]))
  | twice {e e' : List Mark} {rendered rendered' : Rendered} (he : Inner e)
    (hw : e.any Mark.isWrite = true) (he' : Inner e') :
    Passes true (.shown rendered' :: (e' ++ .pass :: .shown rendered :: (e ++ [.pass])))

private theorem Updates.passes (h : Updates i inst again s r marks) : Passes (isOk r) marks := by
  cases h with
  | failed he _ _ => exact .failed he
  | once h hq => exact .once h.inner hq
  | failedAgain h hw _ he _ _ => exact .failedAgain h.inner hw he
  | twice h hw _ h' => exact .twice h.inner hw h'.inner

private theorem Inner.countP_isPass (h : Inner e) : e.countP Mark.isPass = 0 :=
  List.countP_eq_zero.2 fun m hm => by rw [(h m hm).1]; exact Bool.false_ne_true

private theorem Inner.countP_isShown (h : Inner e) : e.countP Mark.isShown = 0 :=
  List.countP_eq_zero.2 fun m hm => by rw [(h m hm).2]; exact Bool.false_ne_true

/-- No update has a third pass. -/
private theorem Passes.countP_isPass {b : Bool} (h : Passes b marks) :
    marks.countP Mark.isPass ≤ 2 := by
  cases h with
  | failed he => simp [he.countP_isPass, Mark.isPass]
  | once he _ => simp [List.countP_cons, he.countP_isPass, Mark.isPass]
  | failedAgain he _ he' => simp [List.countP_cons, he.countP_isPass, he'.countP_isPass, Mark.isPass]
  | twice he _ he' => simp [List.countP_cons, he.countP_isPass, he'.countP_isPass, Mark.isPass]

private theorem rendersOf_inPhase {t : Session} {inst' : Instance} (hi : t.instance? i = some inst')
    (phase : Phase) : Session.rendersOf (Session.inPhase i phase t) i = inst'.renders := by
  rw [Session.rendersOf_eq (Session.getElem?_inPhase (Session.instance?_eq_some.1 hi).1 phase)]

private theorem Succeeds.renders {e : List Mark} {rendered : Rendered} {fragment : Option NodeId}
    {t : Session} (h : Succeeds i inst again marks e rendered fragment s t) (phase : Phase) :
    Session.rendersOf (Session.inPhase i phase t) i = inst.renders + 1 := by
  obtain ⟨inst', o, -, hi⟩ := h.self
  exact rendersOf_inPhase hi phase

private theorem Succeeds.following {e : List Mark} {rendered : Rendered} {fragment : Option NodeId}
    {t : Session} {inst' : Instance} (h : Succeeds i inst again marks e rendered fragment s t)
    (ht : Session.instance? (Session.inPhase i .following t) i = some inst') :
    inst'.renders = inst.renders + 1 := by
  obtain ⟨inst₁, o, -, hi⟩ := h.self
  cases (Session.instance?_inPhase .following hi).symm.trans ht
  rfl

/-- Every pass that succeeds counts. -/
private theorem Updates.renders (h : Updates i inst again s r marks) :
    Session.rendersOf (stateOf r) i = inst.renders + marks.countP Mark.isShown := by
  cases h with
  | failed he ht hi =>
    rw [stateOf, rendersOf_inPhase hi, ht.renders]
    simp [begun, he.countP_isShown, Mark.isShown]
  | once h hq =>
    rw [stateOf, h.renders]
    simp [begun, List.countP_cons, h.inner.countP_isShown, Mark.isShown]
  | @failedAgain _ _ t u _ _ _ inst' inst'' h _ ht he ht' hi =>
    have hlast : Session.rendersOf (ended i t.held u) i = inst''.renders :=
      rendersOf_inPhase (t := { u with held := t.held }) hi .idle
    rw [stateOf, hlast, ht'.renders, h.following ht]
    simp [begun, List.countP_cons, h.inner.countP_isShown, he.countP_isShown, Mark.isShown]
  | @twice _ _ t u _ _ _ _ inst' h _ ht h' =>
    obtain ⟨inst'', o, -, hi⟩ := h'.self
    have hlast : Session.rendersOf (ended i t.held u) i = inst'.renders + 1 :=
      rendersOf_inPhase (t := { u with held := t.held }) hi .idle
    rw [stateOf, hlast, h.following ht]
    simp [begun, List.countP_cons, h.inner.countP_isShown, h'.inner.countP_isShown, Mark.isShown]

end Traced

namespace Session

/-- Between operations no instance is being rendered. An update of an instance, whatever its dirty writes
would start if they could, has one pass or two: the second one comes exactly if the first one succeeded
and made a dirty write, and no write starts a third one or asks for a frame. Every pass that succeeds
counts. -/
theorem updates_bounded :
    (∀ s, Between s → Resting s) ∧
    ∀ (s : Session) (i : InstanceId) (depth : Nat), (s.instance? i).isSome →
      ∃ marks, Traced.updateWithin i (depth + 1) ⟨s, []⟩ = Traced.under marks (update i s) ∧
        Traced.Passes (Traced.isOk (update i s)) marks ∧
        marks.countP Mark.isPass ≤ 2 ∧
        rendersOf (Run.left (update i) s) i = rendersOf s i + marks.countP Mark.isShown ∧
        (Run.left (update i) s).frame = s.frame ∧
        ((Run.left (update i) s).instances[i]?.map (·.phase)) = some .idle := by
  refine ⟨fun s h => h.resting, fun s i depth hi => ?_⟩
  obtain ⟨inst, hi⟩ := Option.isSome_iff_exists.1 hi
  have hinst := (instance?_eq_some.1 hi).1
  obtain ⟨marks, hu, heq⟩ := Traced.updates hi (Traced.updateWithin i depth)
  refine ⟨marks, heq, hu.passes, hu.passes.countP_isPass, ?_, calm_frame (update_calm.left s), ?_⟩
  · rw [rendersOf_eq hinst]
    exact hu.renders
  obtain ⟨inst', hi', -⟩ := calm_getElem? (update_calm.left (i := i) s).symm hinst
  rw [hi', Option.map_some, phase_of_update hi']

/-- A view that counts how often it is evaluated, and so writes in every pass. -/
def ticking : Recipe :=
  ⟨⟨0, ⟨"{{ ticks += 1 }}", none, none⟩, ⟨[.value (.assign "ticks" (some .add) (.literal (.int 1)))]⟩,
    .empty, none⟩, .sync, false⟩

def ticked : Session := (Use.mount ticking [("ticks", .int 0)] true [] 2).run empty

/-- Such a view has two passes, not more. -/
theorem ticking_updates_bounded :
    Between ticked ∧ Resting ticked ∧ (ticked.instance? 0).isSome ∧
      ∃ marks, Traced.updateWithin 0 1 ⟨ticked, []⟩ = Traced.under marks (update 0 ticked) ∧
        Traced.Passes (Traced.isOk (update 0 ticked)) marks ∧ marks.countP Mark.isPass = 2 ∧
        rendersOf ticked 0 = 2 ∧ rendersOf (Run.left (update 0) ticked) 0 = 4 := by
  have hbetween : Between ticked := .use .empty _
  have halive : (ticked.instance? 0).isSome := by decide +kernel
  obtain ⟨hrest, hupdates⟩ := updates_bounded
  obtain ⟨marks, heq, hpasses, -, -, -, -⟩ := hupdates ticked 0 0 halive
  have hmarks : Traced.marksOf (Traced.updateWithin 0 1 ⟨ticked, []⟩) = marks := by
    rw [heq]
    cases update 0 ticked <;> rfl
  refine ⟨hbetween, hrest ticked hbetween, halive, marks, heq, hpasses, ?_, ?_, ?_⟩
  · rw [← hmarks]
    decide +kernel
  · decide +kernel
  · decide +kernel

end Session

end LiveMarkup
