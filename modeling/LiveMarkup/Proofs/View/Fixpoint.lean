import LiveMarkup.Proofs.Eval.Whole
import LiveMarkup.Proofs.Scope.Clean
import LiveMarkup.Proofs.View.Shows
import LiveMarkup.Proofs.View.Siblings
import LiveMarkup.Proofs.View.Trace

/-! Passes that settle. If a pass makes no dirty write, evaluating the program once more makes the same
of the properties and leaves them as they are: what is shown is up to date. -/

namespace LiveMarkup

open Run (Keeps Related)

namespace Session

private theorem scopeOf_withScopeOf {s : Session} {i : InstanceId} (h : (s.instances[i]?).isSome)
    (scope : Scope) : scopeOf i (withScopeOf i scope s) = scope := by
  obtain ⟨inst, hi⟩ := Option.isSome_iff_exists.1 h
  rw [withScopeOf, scopeOf_eq (getElem?_modifyInstance_self hi _)]

end Session

namespace Traced

variable {i : InstanceId} {inst : Instance} {s t : Session} {again : Run Traced (Option NodeId)}
  {e marks base base' : List Mark} {rendered : Rendered} {fragment : Option NodeId}

/-! Evaluating once more. -/

/-- Two records that have gone on alike: the second session has the same properties and native functions,
and the first one is being rendered. -/
structure Alike (i : InstanceId) (base base' : List Mark) (r r' : Traced) : Prop where
  natives : r'.session.natives = r.session.natives
  scope : Session.scopeOf i r.session = Session.scopeOf i r'.session
  busy : ∃ inst, r.session.instance? i = some inst ∧ inst.phase ≠ .idle
  present : (r'.session.instances[i]?).isSome
  marks : ∃ e, r.marks = e ++ base ∧ r'.marks = e ++ base'

private theorem isSome_modifyInstance {change : Instance → Instance} (h : (s.instances[i]?).isSome) :
    ((s.modifyInstance i change).instances[i]?).isSome := by
  obtain ⟨inst, hi⟩ := Option.isSome_iff_exists.1 h
  rw [Session.getElem?_modifyInstance_self hi, Option.isSome_some]

/-- Evaluation cannot tell whether dirty writes are only recorded. -/
private theorem recording_agree (i : InstanceId) (again : Run Traced (Option NodeId))
    (base base' : List Mark) :
    Host.Agree Eq (Alike i base base') (host i (changed i again)) (host i (pure ())) := by
  have hstore {r r' : Traced} {a b : Scope} (h : Alike i base base' r r') (hab : a = b) :
      Alike i base base' ⟨Session.withScopeOf i a r.session, .stored a :: r.marks⟩
        ⟨Session.withScopeOf i b r'.session, .stored b :: r'.marks⟩ := by
    obtain ⟨inst, hi, hp⟩ := h.busy
    obtain ⟨hi, ha⟩ := Session.instance?_eq_some.1 hi
    obtain ⟨e, hm, hm'⟩ := h.marks
    refine ⟨h.natives, ?_, ⟨_, Session.instance?_eq_some.2
      ⟨Session.getElem?_modifyInstance_self hi _, ha⟩, hp⟩, isSome_modifyInstance h.present,
      .stored a :: e, by rw [hm, List.cons_append], by rw [hm', hab, List.cons_append]⟩
    rw [Session.scopeOf_withScopeOf (Option.isSome_of_eq_some hi),
      Session.scopeOf_withScopeOf h.present, hab]
  have hnotify (x : String) : Related (Alike i base base')
      (mark (.wrote x) >>= fun _ => changed i again) (mark (.wrote x) >>= fun _ => pure ()) := by
    rintro ⟨r, ms⟩ ⟨r', ms'⟩ h
    obtain ⟨inst, hi, hp⟩ := h.busy
    obtain ⟨e, hm, hm'⟩ := h.marks
    have hread : (mark (.wrote x) >>= fun _ => changed i again) ⟨r, ms⟩ =
        changed i again ⟨r, .wrote x :: ms⟩ := rfl
    rw [hread, changed_of_busy hi hp, Session.noteWrite_eq]
    obtain ⟨hi, ha⟩ := Session.instance?_eq_some.1 hi
    have hself := Session.getElem?_modifyInstance_self hi fun inst =>
      { inst with phase := Session.noted inst.phase }
    refine .ok () ⟨h.natives, ?_, ⟨_, Session.instance?_eq_some.2 ⟨hself, ha⟩, ?_⟩, h.present,
      .wrote x :: e, congrArg _ hm, congrArg _ hm'⟩
    · rw [← h.scope, Session.scopeOf_eq hself, Session.scopeOf_eq hi]
    · exact heard_ne_idle hp [.wrote x]
  have hplain : Host.Agree Eq (Alike i base base') (plainHost i (changed i again))
      (plainHost i (pure ())) := ⟨.eq, fun h => h.scope, hstore, hnotify, fun _ _ => .pure _⟩
  refine ⟨.eq, fun h => h.scope, hstore, hnotify, fun id args => .get_bind fun r r' h => ?_⟩
  rw [h.natives]
  cases r.session.natives[id]? with
  | none => exact .pure _
  | some f =>
    refine Procedure.run_related (fun r r' h x => congrArg (Scope.get? x) h.scope) hplain.set
      (fun vs r r' h => ?_) _
    exact .ok () ⟨h.natives, h.scope, h.busy, h.present, h.marks⟩

/-! Records without dirty writes. -/

/-- No write is dirty, and no scope with a double among its properties is stored. -/
structure Clean (e : List Mark) : Prop where
  quiet : ∀ m ∈ e, m.isWrite = false
  floatless : ∀ scope, .stored scope ∈ e → scope.Floatless

private theorem Clean.of_cons {m : Mark} (h : Clean (m :: e)) : Clean e :=
  ⟨fun m hm => h.quiet m (List.mem_cons_of_mem _ hm),
    fun scope hm => h.floatless scope (List.mem_cons_of_mem _ hm)⟩

/-- As long as the record is clean, the session is what it was but for what the host has been told. -/
def Untouched (s : Session) (base : List Mark) (r : Traced) : Prop :=
  ∃ e, r.marks = e ++ base ∧ (Clean e → ∃ events, r.session = { s with events })

private theorem set_untouched (hs : (Session.scopeOf i s).Floatless) (base : List Mark) (x : String)
    (v : Value) : Keeps (Untouched s base) ((host i (pure ())).set x v) := by
  rintro r ⟨e, hmarks, hclean⟩
  have hw := (host i (pure ())).write_eq Scope.put x v r
  rw [Host.set, Run.left_congr hw]
  have hscope : (host i (pure ())).scope r = Session.scopeOf i r.session := rfl
  split
  · refine ⟨.wrote x :: .stored ((Session.scopeOf i r.session).put x v) :: e, ?_, fun h => ?_⟩
    · exact congrArg (fun ms => Mark.wrote x :: Mark.stored _ :: ms) hmarks
    · exact absurd (h.quiet _ List.mem_cons_self) (by simp [Mark.isWrite])
  · next hd =>
    refine ⟨.stored ((Session.scopeOf i r.session).put x v) :: e, ?_, fun h => ?_⟩
    · exact congrArg (Mark.stored _ :: ·) hmarks
    · obtain ⟨events, hsame⟩ := hclean h.of_cons
      rw [hscope] at hd
      have hput := h.floatless _ List.mem_cons_self
      have hold : (Session.scopeOf i r.session).Floatless := by
        rw [hsame]
        exact hs
      obtain ⟨u, hu⟩ := Scope.exists_of_clean (Bool.eq_false_iff.2 hd)
      rw [hu] at hd
      have hv (f : Float) : v ≠ .float f := fun he =>
        hput x f (by rw [Scope.get?_put, if_pos rfl, he])
      have heq := Scope.eq_of_clean (fun f he => hold x f (by rw [hu, he])) hv (Bool.eq_false_iff.2 hd)
      refine ⟨events, ?_⟩
      rw [← hsame]
      show Session.withScopeOf i ((Session.scopeOf i r.session).put x v) r.session = r.session
      rw [Scope.put_of_get? (heq ▸ hu), Session.withScopeOf_scopeOf]

private theorem recording_sustains (hs : (Session.scopeOf i s).Floatless) (base : List Mark) :
    (host i (pure ())).Sustains (Untouched s base) where
  set := set_untouched hs base
  native id args := by
    refine .get_bind fun r _ => ?_
    split
    · refine Procedure.run_keeps (set_untouched hs base) (fun vs r h => ?_) _
      obtain ⟨e, hmarks, hclean⟩ := h
      refine ⟨e, hmarks, fun hc => ?_⟩
      obtain ⟨events, hsame⟩ := hclean hc
      exact ⟨.values vs :: events,
        congrArg (fun t : Session => { t with events := .values vs :: t.events }) hsame⟩
    · exact .pure _

/-- An evaluation with a clean record changes nothing. -/
private theorem evaluate_untouched (hs : (Session.scopeOf i s).Floatless) {d : Definition}
    (h : evaluate i d (pure ()) ⟨s, base⟩ = .ok rendered ⟨t, e ++ base⟩) (hc : Clean e) :
    ∃ events, t = { s with events } := by
  have hkeeps := Eval.template_sustained (recording_sustains hs base) d.markupSource d.template
  obtain ⟨e', hmarks, hclean⟩ := hkeeps.of_ok ⟨[], rfl, fun _ => ⟨s.events, rfl⟩⟩ h
  rw [List.append_cancel_right hmarks] at hc
  exact hclean hc

/-! The last pass. -/

/-- What a pass without a dirty write has made of the properties is what evaluating the program again
makes of them. -/
private theorem Succeeds.evaluates_again (h : Succeeds i inst again marks e rendered fragment s t)
    (hi : s.instance? i = some inst) (hp : inst.phase ≠ .idle) (hf : inst.scope.Floatless)
    (hc : Clean e) :
    Session.scopeOf i t = inst.scope ∧ ∀ u : Session, u.natives = s.natives →
      (u.instances[i]?).isSome → Session.scopeOf i u = inst.scope → ∃ events,
        evaluate i inst.definition (pure ()) ⟨u, []⟩ = .ok rendered ⟨{ u with events }, e⟩ := by
  have hinst := (Session.instance?_eq_some.1 hi).1
  obtain ⟨v, heval, hscope⟩ := h.evaluated
  have hself : Session.scopeOf i s = inst.scope := Session.scopeOf_eq hinst
  have hagain (u : Session) (hn : u.natives = s.natives) (hu : (u.instances[i]?).isSome)
      (hus : Session.scopeOf i u = inst.scope) : ∃ events,
      evaluate i inst.definition (pure ()) ⟨u, []⟩ = .ok rendered ⟨{ u with events }, e⟩ ∧
        Session.scopeOf i v = Session.scopeOf i u := by
    have hstart : Alike i (.pass :: marks) [] ⟨s, .pass :: marks⟩ ⟨u, []⟩ :=
      ⟨hn, hself.trans hus.symm, ⟨inst, hi, hp⟩, hu, [], rfl, rfl⟩
    have ha : Run.Alike (Alike i (.pass :: marks) [])
        (evaluate i inst.definition (changed i again) ⟨s, .pass :: marks⟩)
        (evaluate i inst.definition (pure ()) ⟨u, []⟩) :=
      Eval.template_related (recording_agree i again _ _) _ _ _ _ hstart
    rw [heval] at ha
    cases hr : evaluate i inst.definition (pure ()) ⟨u, []⟩ with
    | error err r =>
      rw [hr] at ha
      cases ha
    | ok rendered' r =>
      rw [hr] at ha
      cases ha with
      | ok _ h =>
        obtain ⟨e', hm, hm'⟩ := h.marks
        obtain rfl := List.append_cancel_right hm
        obtain ⟨u', ms⟩ := r
        obtain rfl : ms = e ++ [] := hm'
        obtain ⟨events, rfl⟩ := evaluate_untouched (hus ▸ hf) hr hc
        exact ⟨events, by rw [List.append_nil], h.scope⟩
  refine ⟨?_, fun u hn hu hus => ?_⟩
  · obtain ⟨events, -, hv⟩ := hagain s rfl (Option.isSome_of_eq_some hinst) hself
    rw [← hscope, hv, hself]
  · obtain ⟨events, hu, -⟩ := hagain u hn hu hus
    exact ⟨events, hu⟩

/-- What a record holds since the last pass began. -/
private theorem Inner.since_pass (h : Inner e) (rendered : Rendered) (rest : List Mark) :
    (.shown rendered :: (e ++ .pass :: rest)).takeWhile (fun m => !m.isPass) = .shown rendered :: e := by
  have hall : ∀ m ∈ e, (!m.isPass) = true := fun m hm => by rw [(h m hm).1]; rfl
  rw [List.takeWhile_cons_of_pos rfl, List.takeWhile_append_of_pos hall,
    List.takeWhile_cons_of_neg (by simp [Mark.isPass]), List.append_nil]

/-- A pass without a dirty write has brought what is shown up to date. -/
private theorem Succeeds.settles (h : Succeeds i inst again marks e rendered fragment s t)
    (hi : s.instance? i = some inst) (hp : inst.phase ≠ .idle) (hs : Session.Sound s)
    (hf : inst.scope.Floatless) (hc : Clean e) (held : List NodeId) :
    ∃ inst' trees events, (ended i held t).instances[i]? = some inst' ∧
      Session.treesFrom i inst' rendered = .ok trees ∧
      Session.outputTrees i (ended i held t) = trees ∧
      evaluate i inst'.definition (pure ()) ⟨ended i held t, []⟩ =
        .ok rendered ⟨{ ended i held t with events }, e⟩ := by
  have hinst := (Session.instance?_eq_some.1 hi).1
  obtain ⟨inst₁, o, htracks, hself⟩ := h.self
  have hself := (Session.instance?_eq_some.1 hself).1
  have hended : (ended i held t).instances[i]? = some _ :=
    Session.getElem?_inPhase (s := { t with held }) hself .idle
  obtain ⟨hscope, hagain⟩ := h.evaluates_again hi hp hf hc
  -- the trees of the pass are those that are shown
  obtain ⟨trees, u, htrees, hm⟩ := h.trees
  obtain ⟨-, trees', u', hm', hshown⟩ := hs.render_shows hinst h.passed
  cases hm.symm.trans hm'
  have hshown : Session.outputTrees i (ended i held t) = trees := by
    rw [← hshown]
    exact Session.outputTrees_congr (Session.skeleton_inPhase .idle { t with held }) i
  have hnatives : t.natives = s.natives := by
    have hcalm := Session.render_calm.left (i := i) s
    rw [Run.left_of_ok h.passed] at hcalm
    exact Session.calm_natives hcalm
  have hinst₁ : inst₁.scope = inst.scope := by
    rw [← hscope, Session.scopeOf_eq hself]
  obtain ⟨events, heval⟩ := hagain (ended i held t) hnatives (Option.isSome_of_eq_some hended)
    ((Session.scopeOf_eq hended).trans hinst₁)
  have hdefinition : inst₁.definition = inst.definition := by rw [htracks.same]
  have hescaped : inst₁.escaped = inst.escaped := by rw [htracks.same]
  refine ⟨_, trees, events, hended, ?_, hshown, ?_⟩
  · rw [← htrees]
    unfold Session.treesFrom
    rw [hdefinition, hescaped]
  · rw [← heval, hdefinition]

/-- An update that succeeds ends with a pass that does. That pass starts from a sound session, and from the
properties that were there at first or that have been stored meanwhile. -/
private theorem Updates.last_pass (h : Updates i inst again s (.ok fragment t) marks)
    (hi : s.instance? i = some inst) (hs : Session.Sound s) :
    ∃ s' u inst' rest e rendered fragment' held, marks = .shown rendered :: (e ++ .pass :: rest) ∧
      t = ended i held u ∧ Succeeds i inst' again rest e rendered fragment' s' u ∧
      s'.instance? i = some inst' ∧ inst'.phase ≠ .idle ∧ Session.Sound s' ∧
      (inst'.scope = inst.scope ∨ .stored inst'.scope ∈ rest) := by
  have hs₁ : Session.Sound (Session.inPhase i (.rendering false) s) := hs.congr (Session.skeleton_inPhase ..)
  have hi₁ := Session.instance?_inPhase (.rendering false) hi
  cases h with
  | @once fragment t e rendered h =>
    exact ⟨_, t, _, [], e, rendered, fragment, t.held, rfl, rfl, h, hi₁, Phase.noConfusion, hs₁, .inl rfl⟩
  | @twice fragment fragment' t u e e' rendered rendered' inst' h hw ht h' =>
    obtain ⟨hsound, -⟩ := hs₁.render_shows (Session.instance?_eq_some.1 hi₁).1 h.passed
    have hs₂ : Session.Sound (Session.holding fragment.toList (Session.inPhase i .following t)) :=
      hsound.congr (Session.skeleton_inPhase .following (Session.holding fragment.toList t))
    obtain ⟨inst₁, o, htracks, hself⟩ := h.self
    cases (Session.instance?_inPhase .following hself).symm.trans ht
    refine ⟨_, u, _, _, e', rendered', fragment', t.held, rfl, rfl, h', ht, Phase.noConfusion, hs₂, ?_⟩
    exact htracks.scope.imp_right fun hm => List.mem_cons_of_mem _ (List.mem_append_left _ hm)

end Traced

namespace Session

/-- An update that succeeds, with no dirty write in its last pass, settles, if no scope on the way has a
double among its properties: the last pass has shown what the program makes of the properties as they are
now. Evaluating it once more makes the same, with no dirty write, and leaves every property as it is. The
session has to be sound, as all are that are reached. -/
theorem settled_update_is_fixpoint {s t : Session} {i : InstanceId} {depth : Nat}
    {fragment : Option NodeId} {marks : List Mark} (hs : Sound s) (hi : (s.instance? i).isSome)
    (hf : (scopeOf i s).Floatless)
    (hu : Traced.updateWithin i (depth + 1) ⟨s, []⟩ = .ok fragment ⟨t, marks⟩)
    (hstored : ∀ scope, .stored scope ∈ marks → scope.Floatless)
    (hq : ∀ m ∈ marks.takeWhile fun m => !m.isPass, m.isWrite = false) :
    ∃ rendered rest inst trees e t', marks = .shown rendered :: rest ∧
      t.instances[i]? = some inst ∧ treesFrom i inst rendered = .ok trees ∧
      outputTrees i t = trees ∧
      Traced.evaluate i inst.definition (pure ()) ⟨t, []⟩ = .ok rendered ⟨t', e⟩ ∧
      (∀ m ∈ e, m.isWrite = false) ∧ scopeOf i t' = scopeOf i t := by
  obtain ⟨inst, hi⟩ := Option.isSome_iff_exists.1 hi
  rw [scopeOf_eq (instance?_eq_some.1 hi).1] at hf
  obtain ⟨marks', hupdates, heq⟩ := Traced.updates hi (Traced.updateWithin i depth)
  rw [Traced.updateWithin, heq] at hu
  generalize update i s = r at hu hupdates
  cases r with
  | error => cases hu
  | ok =>
    cases hu
    obtain ⟨s', u, inst', rest, e, rendered, fragment', held, rfl, rfl, h, hi', hp, hs', hscope⟩ :=
      hupdates.last_pass hi hs
    rw [h.inner.since_pass] at hq
    have hc : Traced.Clean e :=
      ⟨fun m hm => hq m (List.mem_cons_of_mem _ hm), fun scope hm => hstored scope (by simp [hm])⟩
    have hf' : inst'.scope.Floatless := by
      rcases hscope with hsame | hmem
      · rwa [hsame]
      · exact hstored _ (by simp [hmem])
    obtain ⟨inst'', trees, events, hi'', htrees, hshown, heval⟩ := h.settles hi' hp hs' hf' hc held
    exact ⟨rendered, _, inst'', trees, e, _, rfl, hi'', htrees, hshown, heval, hc.quiet, rfl⟩

/-! A view that settles in its second pass. -/

end Session

def Scope.hasDouble (s : Scope) : Bool := (s.shown ++ s.internal).any fun p => p.2 matches .float _

private theorem Scope.floatless_of_hasDouble {s : Scope} (h : s.hasDouble = false) : s.Floatless := by
  have hget (bs : Bindings) (hb : ∀ p ∈ bs, ¬ (p.2 matches .float _)) (x : String) (f : Float) :
      bs.get? x ≠ some (.float f) := by
    induction bs with
    | nil => exact nofun
    | cons b bs ih =>
      rw [Bindings.get?]
      split
      · intro he
        have hfloat := hb b List.mem_cons_self
        rw [Option.some.inj he] at hfloat
        exact hfloat rfl
      · exact ih fun p hp => hb p (List.mem_cons_of_mem _ hp)
  rw [hasDouble, List.any_eq_false] at h
  intro x f he
  have hshown := hget s.shown (fun p hp => h p (List.mem_append_left _ hp)) x f
  have hinternal := hget s.internal (fun p hp => h p (List.mem_append_right _ hp)) x f
  rw [Scope.get?] at he
  cases hg : s.shown.get? x with
  | some v =>
    rw [hg, Option.orElse_some] at he
    exact hshown (hg.trans he)
  | none =>
    rw [hg, Option.orElse_none] at he
    exact hinternal he

def Mark.scope? : Mark → Option Scope
  | stored scope => some scope
  | _ => none

namespace Session

def copying : Recipe :=
  ⟨⟨0, ⟨"{{ seen = n }}", none, none⟩, ⟨[.value (.assign "seen" none (.name "n"))]⟩, .empty, none⟩,
    .batched, false⟩

def uncopied : Session :=
  (Use.write 0 (.set "n" (.int 5))).run ((Use.mount copying [("n", .int 1)] false [] 2).run empty)

private theorem uncopied_reachable : Reachable uncopied :=
  .use (.use .empty (.mount copying [("n", .int 1)] false [] 2) (by decide +kernel : 2 < _))
    (.write 0 (.set "n" (.int 5))) trivial

/-- The first pass writes, the second one does not any more, and shows the properties as they are. -/
theorem settled_update_is_fixpoint_of_copying :
    ∃ fragment t marks rendered rest inst trees e t', Reachable uncopied ∧
      Traced.updateWithin 0 1 ⟨uncopied, []⟩ = .ok fragment ⟨t, marks⟩ ∧
      marks.countP Mark.isPass = 2 ∧ marks = .shown rendered :: rest ∧
      t.instances[0]? = some inst ∧ treesFrom 0 inst rendered = .ok trees ∧ outputTrees 0 t = trees ∧
      Traced.evaluate 0 inst.definition (pure ()) ⟨t, []⟩ = .ok rendered ⟨t', e⟩ ∧
      (∀ m ∈ e, m.isWrite = false) ∧ scopeOf 0 t' = scopeOf 0 t := by
  have hok : Traced.isOk (Traced.updateWithin 0 1 ⟨uncopied, []⟩) = true := by decide +kernel
  have halive : (uncopied.instance? 0).isSome := by decide +kernel
  have hstart : (scopeOf 0 uncopied).hasDouble = false := by decide +kernel
  have hpasses : (Traced.marksOf (Traced.updateWithin 0 1 ⟨uncopied, []⟩)).countP Mark.isPass = 2 := by
    decide +kernel
  have hstored : ((Traced.marksOf (Traced.updateWithin 0 1 ⟨uncopied, []⟩)).any fun m =>
      m.scope?.any Scope.hasDouble) = false := by decide +kernel
  have hquiet : (((Traced.marksOf (Traced.updateWithin 0 1 ⟨uncopied, []⟩)).takeWhile fun m =>
      !m.isPass).any Mark.isWrite) = false := by decide +kernel
  cases hu : Traced.updateWithin 0 1 ⟨uncopied, []⟩ with
  | error e r =>
    rw [hu] at hok
    cases hok
  | ok fragment r =>
    obtain ⟨t, marks⟩ := r
    rw [hu] at hpasses hstored hquiet
    rw [Traced.marksOf, List.any_eq_false] at hstored hquiet
    obtain ⟨rendered, rest, inst, trees, e, t', hmarks, hi, htrees, hshown, heval, hq, hscope⟩ :=
      settled_update_is_fixpoint uncopied_reachable.wellFormed.toSound halive
        (Scope.floatless_of_hasDouble hstart) hu
        (fun scope hm => Scope.floatless_of_hasDouble (by simpa [Mark.scope?] using hstored _ hm))
        fun m hm => by simpa using hquiet m hm
    exact ⟨fragment, t, marks, rendered, rest, inst, trees, e, t', uncopied_reachable, rfl, hpasses,
      hmarks, hi, htrees, hshown, heval, hq, hscope⟩

end Session

end LiveMarkup
