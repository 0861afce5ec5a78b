import LiveMarkup.Proofs.View.Debut
import LiveMarkup.Proofs.View.Siblings

/-! The two disciplines converge: whether an instance is rendered at every dirty write or when the
frame is flushed, after the last flush it shows what its program makes of the last properties. -/

namespace LiveMarkup.Session

variable {s t u : Session} {i : InstanceId} {inst : Instance} {scope : Scope} {target : NodeId}

/-- What happens to an instance that is followed: a user writes to it, or the frame is flushed. -/
inductive Step where
  | write (w : Write)
  | flush

namespace Step

def run (i : InstanceId) : Step → Session → Session
  | write w => Run.left (w.run i)
  | flush => Run.left Session.flush

def apply : Step → Scope → Scope
  | write w, scope => w.apply scope
  | flush, scope => scope

end Step

def flushedAfter (i : InstanceId) (steps : List Step) (s : Session) : Session :=
  Run.left flush (steps.foldl (fun s step => step.run i s) s)

def lastScope (steps : List Step) (scope : Scope) : Scope :=
  steps.foldl (fun scope step => step.apply scope) scope

def scopesAlong : List Step → Scope → List Scope
  | [], scope => [scope]
  | step :: steps, scope => scope :: scopesAlong steps (step.apply scope)

private theorem first_mem_scopesAlong (steps : List Step) (scope : Scope) :
    scope ∈ scopesAlong steps scope := by
  cases steps with
  | nil => exact List.mem_cons_self
  | cons step steps => exact List.mem_cons_self

private theorem last_mem_scopesAlong (steps : List Step) (scope : Scope) :
    lastScope steps scope ∈ scopesAlong steps scope := by
  induction steps generalizing scope with
  | nil => exact List.mem_cons_self
  | cons step steps ih => exact List.mem_cons_of_mem scope (ih (step.apply scope))

def outputMarkup (i : InstanceId) (s : Session) : String :=
  ((outputOf s i).map fun o => String.join (o.nodes.map s.document.forest.outerMarkup)).getD ""

private theorem join_outerMarkup (f : Forest Handler) (nodes : List NodeId) :
    String.join (nodes.map f.outerMarkup) = Html.markupOf (nodes.flatMap f.trees) := by
  induction nodes with
  | nil => rfl
  | cons n nodes ih =>
    rw [List.map_cons, String.join_cons, ih, List.flatMap_cons, Html.markupOf_append, Forest.outerMarkup]

private theorem outputMarkup_eq (i : InstanceId) (s : Session) :
    outputMarkup i s = Html.markupOf (outputTrees i s) := by
  rw [outputMarkup, outputTrees]
  cases outputOf s i with
  | none => rfl
  | some o => exact join_outerMarkup s.document.forest o.nodes

/-! One run. -/

/-- The scopes of a run that the instance is followed through: its program does not write, and no
property is a double. -/
def Fair (i : InstanceId) (u : Session) (scopes : List Scope) : Prop :=
  ∀ scope ∈ scopes, Silent i (withScopeOf i scope u) ∧ scope.Floatless

/-- Whether a step succeeds or not, the instance shows what it should, or a job that renders it
waits. -/
private theorem Tracked.step (h : Tracked i u scope s inst) (step : Step) (hs : scope.Floatless)
    (ht : (step.apply scope).Floatless) (hq : Silent i (withScopeOf i (step.apply scope) u)) :
    ∃ inst', Tracked i u (step.apply scope) (step.run i s) inst' := by
  cases step with
  | write w => exact h.write w hs ht hq
  | flush =>
    obtain ⟨inst', hflush, -⟩ := h.flush hq
    exact ⟨inst', hflush⟩

private theorem Tracked.steps (h : Tracked i u scope s inst) (steps : List Step)
    (hfair : Fair i u (scopesAlong steps scope)) :
    ∃ inst', Tracked i u (lastScope steps scope) (steps.foldl (fun s step => step.run i s) s) inst' := by
  induction steps generalizing s scope inst with
  | nil => exact ⟨inst, h⟩
  | cons step steps ih =>
    have hrest : Fair i u (scopesAlong steps (step.apply scope)) := fun scope' hmem =>
      hfair scope' (List.mem_cons_of_mem scope hmem)
    obtain ⟨-, hs⟩ := hfair scope List.mem_cons_self
    obtain ⟨hq, ht⟩ := hrest (step.apply scope) (first_mem_scopesAlong steps _)
    obtain ⟨inst', hstep⟩ := h.step step hs ht hq
    exact ih hstep hrest

/-- After the last flush the instance shows what its program makes of the last properties. -/
private theorem Tracked.finish (h : Tracked i u scope s inst) (steps : List Step)
    (hfair : Fair i u (scopesAlong steps scope)) :
    scopeOf i (flushedAfter i steps s) = lastScope steps scope ∧
      ∀ trees, treesOf i (withScopeOf i (lastScope steps scope) u) = some trees →
        outputTrees i (flushedAfter i steps s) = trees := by
  obtain ⟨inst', hsteps⟩ := h.steps steps hfair
  obtain ⟨inst₁, hflush, hp⟩ := hsteps.flush (hfair _ (last_mem_scopesAlong steps scope)).1
  refine ⟨(scopeOf_eq hflush.getElem?).trans hflush.scope, fun trees htrees => ?_⟩
  obtain ⟨inst₀, hi₀, hv⟩ := hflush.view
  apply hflush.current hp
  rw [← htrees]
  exact treesOf_congr (getElem?_modifyInstance_self hi₀ _) hflush.getElem? ⟨hv.definition, hv.escaped⟩
    hflush.natives fun x => by rw [hflush.scope]

/-! Two runs. -/

/-- An instance that no job waits for may just as well have the other discipline. -/
private theorem Tracked.twin {d : Discipline → Discipline} (h : Tracked i u scope s inst)
    (hp : inst.pending = false) (ht : Twins i d s t) :
    Tracked i u scope t { inst with discipline := d inst.discipline } := by
  have hi : t.instances[i]? = some { inst with discipline := d inst.discipline } := by
    rw [ht.getElem?, h.getElem?, Option.map_some]
  obtain ⟨events, rfl⟩ := ht
  obtain ⟨inst₀, hi₀, hv⟩ := h.view
  have hchanged : skeleton (s.modifyInstance i fun inst =>
      { inst with discipline := d inst.discipline }) = skeleton s := skeleton_modifyInstance fun _ => rfl
  have hskeleton : skeleton (twin i d events s) = skeleton s := hchanged
  refine ⟨⟨h.whole.congr hskeleton, h.attached.congr hskeleton, instance?_eq_some.2 ⟨hi, h.alive⟩,
    h.scope, h.idle, ⟨inst₀, hi₀, hv.definition, hv.escaped⟩, h.natives, h.jobs, fun _ => hp⟩, fun _ => ?_⟩
  exact (h.current hp).congr hskeleton (treesOf_congr h.getElem? hi ⟨rfl, rfl⟩ rfl fun _ => rfl)

/-- A view is mounted below a node that is in use, while no job waits. If it is rendered at once, and
it is mounted as well if it is rendered when the frame is flushed, the same writes and flushes lead to
the same properties. In the end, if its program does not fail on these, both instances show what it
makes of them, whichever passes have failed before. -/
theorem disciplines_converge (hs : Reachable s) (hjobs : s.frame.jobs = [])
    (htarget : s.document.forest.inUse s.kept target) {d : Definition} {escaped isPublic : Bool}
    {props : Bindings} {natives : List (String × (List Value → Procedure))} {fragment : NodeId}
    (hm : mount ⟨d, .sync, escaped⟩ props isPublic natives target s = .ok (i, fragment) t)
    (hu : u = prepared ⟨d, .sync, escaped⟩ props isPublic natives s) (steps : List Step)
    (hfair : Fair i u (scopesAlong steps (scopeOf i u))) :
    ∃ t', mount ⟨d, .batched, escaped⟩ props isPublic natives target s = .ok (i, fragment) t' ∧
      scopeOf i (flushedAfter i steps t) = lastScope steps (scopeOf i u) ∧
      scopeOf i (flushedAfter i steps t') = lastScope steps (scopeOf i u) ∧
      ∀ trees, treesOf i (withScopeOf i (lastScope steps (scopeOf i u)) u) = some trees →
        outputMarkup i (flushedAfter i steps t) = Html.markupOf trees ∧
        outputMarkup i (flushedAfter i steps t') = Html.markupOf trees := by
  subst hu
  have hbatched : (⟨d, .batched, escaped⟩ : Recipe) =
      { (⟨d, .sync, escaped⟩ : Recipe) with discipline := .batched } := rfl
  obtain ⟨t', hm', htwins⟩ := mount_twins (d := fun _ => .batched) hbatched hm
  have hsilent := (hfair _ (first_mem_scopesAlong steps _)).1
  rw [withScopeOf_scopeOf] at hsilent
  obtain ⟨rfl, inst, htracked, hp⟩ := mount_tracked hs.wellFormed.toWhole hjobs htarget hm hsilent
  obtain ⟨hscope, htrees⟩ := htracked.finish steps hfair
  obtain ⟨hscope', htrees'⟩ := (htracked.twin hp htwins).finish steps hfair
  refine ⟨t', hm', hscope, hscope', fun trees he => ?_⟩
  rw [outputMarkup_eq, outputMarkup_eq, htrees trees he, htrees' trees he]
  exact ⟨rfl, rfl⟩

def rules : Definition :=
  ⟨0, ⟨"{{ each x as y }}<hr>{{ /each }}", none, none⟩,
    ⟨[.each (.name "x") "y" none [.text "<hr>"]]⟩, .empty, none⟩

/-- A write after which the view fails, a flush, and a write of a list with two elements. -/
def detour : List Step := [.write (.set "x" (.bool true)), .flush, .write (.set "x" (.list [.null, .null]))]

def oneRule : Session := prepared ⟨rules, .sync, false⟩ [("x", .list [.null])] false [] empty

private theorem oneRule_fair : Fair 0 oneRule (scopesAlong detour (scopeOf 0 oneRule)) := by
  have hread : ∀ st ∈ rules.template.statements, st.ReadOnly := by
    intro st hst
    rw [List.mem_singleton.1 hst]
    refine .each "y" none (.name "x") fun st hst => ?_
    rw [List.mem_singleton.1 hst]
    exact .text _
  have hinst (scope : Scope) (inst : Instance)
      (hi : (withScopeOf 0 scope oneRule).instances[0]? = some inst) : inst.definition = rules := by
    cases hi
    rfl
  have hscopes : scopesAlong detour (scopeOf 0 oneRule) =
      [⟨[("x", .list [.null])], []⟩, ⟨[("x", .bool true)], []⟩, ⟨[("x", .bool true)], []⟩,
        ⟨[("x", .list [.null, .null])], []⟩] := rfl
  intro scope hmem
  refine ⟨silent_of_readOnly fun inst hi st hst => hread st (hinst scope inst hi ▸ hst), ?_⟩
  rw [hscopes] at hmem
  intro x f
  simp only [List.mem_cons, List.not_mem_nil, or_false] at hmem
  rcases hmem with rfl | rfl | rfl | rfl <;> by_cases hx : "x" = x <;>
    simp [Scope.get?, Bindings.get?, hx]

def isFirst {α : Type} : EStateM.Result Stop Session (InstanceId × α) → Bool
  | .ok (0, _) _ => true
  | _ => false

/-- Both instances end with two rules, although a pass of each of them has failed before. -/
theorem disciplines_converge_on_rules :
    ∃ i fragment t t', Reachable empty ∧ empty.frame.jobs = [] ∧
      empty.document.forest.inUse empty.kept 2 ∧
      mount ⟨rules, .sync, false⟩ [("x", .list [.null])] false [] 2 empty = .ok (i, fragment) t ∧
      mount ⟨rules, .batched, false⟩ [("x", .list [.null])] false [] 2 empty = .ok (i, fragment) t' ∧
      Fair i oneRule (scopesAlong detour (scopeOf i oneRule)) ∧
      outputMarkup i (flushedAfter i detour t) = "<hr><hr>" ∧
      outputMarkup i (flushedAfter i detour t') = "<hr><hr>" := by
  have hok : isFirst (mount ⟨rules, .sync, false⟩ [("x", .list [.null])] false [] 2 empty) = true := by
    decide +kernel
  have htarget : empty.document.forest.inUse empty.kept 2 := by decide +kernel
  have hmarkup : (treesOf 0 (withScopeOf 0 (lastScope detour (scopeOf 0 oneRule)) oneRule)).map
      Html.markupOf = some "<hr><hr>" := by decide +kernel
  obtain ⟨trees, htrees, hmarkup⟩ := Option.map_eq_some_iff.1 hmarkup
  cases hm : mount ⟨rules, .sync, false⟩ [("x", .list [.null])] false [] 2 empty with
  | error e t => simp [hm, isFirst] at hok
  | ok p t =>
    obtain ⟨i, fragment⟩ := p
    rw [hm] at hok
    cases i with
    | succ i => cases hok
    | zero =>
      obtain ⟨t', hm', -, -, hout⟩ :=
        disciplines_converge .empty rfl htarget hm rfl detour oneRule_fair
      obtain ⟨hsync, hbatched⟩ := hout trees htrees
      exact ⟨0, fragment, t, t', .empty, rfl, htarget, rfl, hm', oneRule_fair,
        hsync.trans hmarkup, hbatched.trans hmarkup⟩

end LiveMarkup.Session
