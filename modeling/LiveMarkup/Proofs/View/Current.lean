import LiveMarkup.Proofs.View.Calm
import LiveMarkup.Proofs.View.Lasting
import LiveMarkup.Proofs.View.Quiet

/-! Instances that show what their programs make of the properties. If a program does not write and
the marker is attached, an update brings the output up to date or the program fails. -/

namespace LiveMarkup.Session

open Forest

variable {s s' t : Session} {i : InstanceId} {inst inst' : Instance} {o o' : Output} {p : NodeId}
  {styles : List NodeId} {trees : List (Html Handler)}

def outputTrees (i : InstanceId) (s : Session) : List (Html Handler) :=
  ((outputOf s i).map fun o => o.nodes.flatMap s.document.forest.trees).getD []

/-- The marker of an instance has a parent, which is not below the output. -/
def Attached (i : InstanceId) (s : Session) : Prop :=
  ∃ o p, outputOf s i = some o ∧ s.document.forest.parent? o.marker = some p ∧
    s.document.forest.Outside o.nodes p

/-- The instance shows what its program makes of its properties, unless the program fails. -/
def Current (i : InstanceId) (s : Session) : Prop :=
  ∀ trees, treesOf i s = some trees → outputTrees i s = trees

theorem outputTrees_congr (h : skeleton t = skeleton s) (i : InstanceId) :
    outputTrees i t = outputTrees i s := by
  rw [outputTrees, outputTrees, outputOf_congr h, skeleton_document h]

theorem Attached.congr (h : skeleton t = skeleton s) (ha : Attached i s) : Attached i t := by
  rw [Attached, outputOf_congr h, skeleton_document h]
  exact ha

theorem Current.congr (h : skeleton t = skeleton s) (ht : treesOf i t = treesOf i s)
    (hc : Current i s) : Current i t := by
  intro trees he
  rw [outputTrees_congr h]
  exact hc trees (ht ▸ he)

/-! Passes. -/

private theorem Passed.outputTrees_eq (h : Passed i inst o o' p styles trees s s')
    (hi : s.instances[i]? = some inst) : outputTrees i s' = trees := by
  rw [outputTrees, h.outputOf_self hi]
  exact h.patched.shows.trees h.patched.depth

/-- The marker stays where it is. -/
private theorem Passed.attached (h : Passed i inst o o' p styles trees s s') (hs : Whole s)
    (hi : s.instances[i]? = some inst) (ho : inst.output = some o)
    (hout : s.document.forest.Outside o.nodes p) : Attached i s' := by
  have hself : outputOf s i = some o := (outputOf_eq hi).trans ho
  have hmarker := h.patched.attached
  have hnot : o.marker ∉ o.nodes := (List.nodup_cons.1 (hs.nodup i o hself)).1
  refine ⟨o', p, h.outputOf_self hi, ?_, fun m hm hu => ?_⟩
  · rw [h.marker, h.patched.stays _ (has_of_parent? hmarker) hnot, hmarker]
    rintro ⟨-, q, hq, hin, -⟩
    cases hmarker.symm.trans hq
    exact hin hout
  · have hlasts := h.patched.lasts hs.linked
    exact h.patched.fresh m hm (hlasts.under hs.linked hu (hs.linked.has_parent hmarker) hout).2

/-- If the marker has a parent, a further pass fails only if the program does. -/
theorem Sound.render_again (hs : Sound s) (hi : s.instances[i]? = some inst) (ho : inst.output = some o)
    (hp : s.document.forest.parent? o.marker = some p) (hm : materialize i inst s = .ok trees t) :
    ∃ s', render i s = .ok none s' := by
  have hd := renewed_dressed hs inst.definition
  have hp' : (dress inst.definition s.document).forest.parent? o.marker = some p := by
    rw [← hp]
    exact (hd.parent? _ (has_of_parent? hp)).trans (if_neg List.not_mem_nil)
  have hold : ∀ n ∈ o.nodes, (dress inst.definition s.document).forest.Has n := fun n hn =>
    hd.has (hs.outputs i o ((outputOf_eq hi).trans ho) n (List.mem_cons_of_mem _ hn))
  obtain ⟨o', forest, hreplace, -⟩ := Output.replace_ok hd.linked hp' hold trees
  obtain ⟨scope, phase, events, he⟩ := materialize_aside hi
  obtain rfl := (Run.left_of_ok hm).symm.trans he
  rw [render_eq hi, Run.bind_of_ok hm]
  exact ⟨_, present_again (s := aside i scope phase events s) ho hreplace⟩

private theorem render_attached (hs : Whole s) (hi : s.instances[i]? = some inst) (ha : Attached i s)
    (hm : materialize i inst s = .ok trees t) : ∃ s', render i s = .ok none s' := by
  obtain ⟨o, p, ho, hp, -⟩ := ha
  exact hs.toSound.render_again hi ((outputOf_eq hi).symm.trans ho) hp hm

/-! Updates. -/

/-- The session `t` is `s` after an update of an instance that has not written and now shows what it
should, unless its program fails. -/
structure Refreshed (i : InstanceId) (inst : Instance) (s t : Session) : Prop where
  whole : Whole t
  attached : Attached i t
  current : Current i t
  natives : t.natives = s.natives
  frame : t.frame = s.frame
  self : ∃ output renders,
    t.instances[i]? = some { inst with output, renders, phase := .idle }

/-- One pass is enough for a program that does not write. -/
theorem update_refreshed (hs : Whole s) (hi : s.instance? i = some inst) (ha : Attached i s)
    (hq : Silent i s) : Refreshed i inst s (Run.left (update i) s) := by
  obtain ⟨hinst, hlive⟩ := instance?_eq_some.1 hi
  have hcalm := update_calm.left (i := i) s
  have hu := update_eq i s
  have hinst₁ := getElem?_inPhase hinst (.rendering false)
  have hs₁ : Whole (inPhase i (.rendering false) s) := hs.congr (skeleton_inPhase ..)
  have ha₁ : Attached i (inPhase i (.rendering false) s) := ha.congr (skeleton_inPhase ..)
  -- whatever the host has been told, the program makes the same of the properties
  have hnews (events : List Event) : treesOf i { inPhase i (.rendering false) s with events } =
      treesOf i (inPhase i (.rendering false) s) :=
    treesOf_congr hinst₁ hinst₁ ⟨rfl, rfl⟩ rfl fun _ => rfl
  cases hm : materialize i { inst with phase := .rendering false } (inPhase i (.rendering false) s) with
  | error e t =>
    obtain ⟨scope, phase, events, he⟩ := materialize_aside hinst₁
    obtain ⟨rfl, rfl⟩ := hq.aside hinst₁ he
    rw [aside_self hinst₁] at he
    obtain rfl := (Run.left_of_error hm).symm.trans he
    rw [(render_eq hinst₁).trans (Run.bind_of_error hm)] at hu
    have hleft := Run.left_of_error hu
    have hskeleton : skeleton (Run.left (update i) s) = skeleton (inPhase i (.rendering false) s) := by
      rw [hleft]
      exact skeleton_inPhase .idle { inPhase i (.rendering false) s with events }
    refine ⟨hs₁.congr hskeleton, ha₁.congr hskeleton, fun trees ht => ?_, calm_natives hcalm,
      calm_frame hcalm, inst.output, inst.renders, ?_⟩
    · rw [hleft, treesOf_inPhase, hnews, treesOf_of_error hinst₁ hm] at ht
      cases ht
    · rw [hleft]
      exact getElem?_inPhase (s := { inPhase i (.rendering false) s with events }) hinst₁ .idle
  | ok trees t =>
    obtain ⟨s', hr⟩ := render_attached hs₁ hinst₁ ha₁ hm
    obtain ⟨o, p, ho, hp, hout⟩ := ha₁
    have ho : inst.output = some o := (outputOf_eq hinst₁).symm.trans ho
    obtain ⟨-, o', p', styles, trees', hpass⟩ :=
      hs₁.toSound.render_passed hs₁.settled (instance?_inPhase (.rendering false) hi) ho hr
    cases hp.symm.trans hpass.patched.attached
    obtain ⟨scope, phase, events, hm', he⟩ := hpass.evaluated
    obtain ⟨rfl, rfl⟩ := hq.aside hinst₁ (Run.left_of_ok hm')
    rw [aside_self hinst₁] at he
    have hself : s'.instances[i]? = some { inst with
        phase := .rendering false, output := some o', renders := inst.renders + 1 } := by
      rw [he]
      exact getElem?_shown (s := { inPhase i (.rendering false) s with events }) hinst₁ o' _
    have hwritten : ¬ written i s' := by
      rw [written, hself, Option.any_some]
      exact Bool.false_ne_true
    rw [hr] at hu
    dsimp only at hu
    rw [if_neg hwritten] at hu
    have hleft := Run.left_of_ok hu
    have hskeleton : skeleton (Run.left (update i) s) = skeleton s' := by
      rw [hleft]
      exact skeleton_inPhase ..
    have hs' : Whole s' := (hs₁.toStanding.pass hinst₁ ho hr).1
    have hnatives : s'.natives = (inPhase i (.rendering false) s).natives := by
      rw [he]
      rfl
    refine ⟨hs'.congr hskeleton, (hpass.attached hs₁ hinst₁ ho hout).congr hskeleton,
      fun trees ht => ?_, calm_natives hcalm, calm_frame hcalm, some o', inst.renders + 1, ?_⟩
    · have hsame : treesOf i s' = treesOf i (inPhase i (.rendering false) s) :=
        treesOf_congr hinst₁ hself ⟨rfl, rfl⟩ hnatives fun _ => rfl
      rw [hleft, treesOf_inPhase, hsame, treesOf_of_ok hinst₁ hm', Option.some.injEq] at ht
      rw [outputTrees_congr hskeleton, hpass.outputTrees_eq hinst₁, ht]
    · rw [hleft]
      exact getElem?_inPhase hself .idle

end LiveMarkup.Session
