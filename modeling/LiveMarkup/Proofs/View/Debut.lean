import LiveMarkup.Proofs.View.Arrival
import LiveMarkup.Proofs.View.Tracked
import LiveMarkup.Proofs.View.Twins

/-! A view is mounted. If its program does not write, the instance shows what the program has made of
the properties, and its marker is attached. -/

namespace LiveMarkup.Session

open Forest
open Run (Keeps Related)

variable {s t u v : Session} {i : InstanceId} {inst : Instance} {o : Output} {r : Recipe}
  {props : Bindings} {isPublic : Bool} {natives : List (String × (List Value → Procedure))}
  {target fragment : NodeId} {trees : List (Html Handler)}

/-- The session in which a new instance has got its native functions and its script has been run. -/
def prepared (r : Recipe) (props : Bindings) (isPublic : Bool)
    (natives : List (String × (List Value → Procedure))) (s : Session) : Session :=
  Run.left (prepare r isPublic natives s.instances.size) (joined (unborn r props) s)

/-- The first update of an instance that does not write. -/
private theorem update_begun (ht : Sound t) (hi : t.instances[i]? = some inst)
    (ho : inst.output = none) (hq : Silent i t) (hu : update i t = .ok (some fragment) v) :
    ∃ o trees w events,
      Begun i { inst with phase := .rendering false } fragment o trees (inPhase i (.rendering false) t) w ∧
      treesOf i t = some trees ∧
      w = { shown i o w.document.forest (inPhase i (.rendering false) t) with events } ∧
      v = inPhase i .idle (settleWith [fragment] w) := by
  have hi₁ := getElem?_inPhase hi (.rendering false)
  have ht₁ : Sound (inPhase i (.rendering false) t) := ht.congr (skeleton_inPhase ..)
  have he := update_eq i t
  rw [hu] at he
  cases hr : render i (inPhase i (.rendering false) t) with
  | error e v' =>
    rw [hr] at he
    cases he
  | ok r v' =>
    obtain ⟨fragment', o, trees, w, rfl, hb, rfl⟩ := render_begun ht₁ hi₁ ho hr
    obtain ⟨scope, phase, events, hm, hw⟩ := hb.evaluated
    obtain ⟨rfl, rfl⟩ := hq.aside hi₁ (Run.left_of_ok hm)
    rw [aside_self hi₁] at hw
    have hself : (settleWith [fragment'] w).instances[i]? = some { inst with
        phase := .rendering false, output := some o, renders := inst.renders + 1 } := by
      show w.instances[i]? = _
      rw [hw]
      exact getElem?_shown (s := { inPhase i (.rendering false) t with events }) hi₁ o _
    have hwritten : ¬ written i (settleWith [fragment'] w) := by
      rw [written, hself, Option.any_some]
      exact Bool.false_ne_true
    rw [hr] at he
    dsimp only at he
    rw [if_neg hwritten] at he
    cases he
    refine ⟨o, trees, w, events, hb, ?_, hw, rfl⟩
    rw [← treesOf_inPhase (.rendering false), treesOf_of_ok hi₁ hm]

/-- Where the first output has been appended to a node in use, its nodes show the trees, and the marker
hangs from that node. -/
private theorem Begun.displayed (hs : Whole s) {w : Session}
    (hb : Begun s.instances.size inst fragment o trees t w) (hi : t.instances[s.instances.size]? = some inst)
    (hw : Arriving s w) (hv : Arrived s v fragment)
    (hvw : skeleton v = skeleton (settleWith [fragment] w)) (ht : s.document.forest.Has target)
    (hu : s.document.forest.inUse s.kept target) :
    ∃ forest, v.document.forest.append target fragment = .ok forest ∧
      outputTrees s.instances.size (settle { v with document := { v.document with forest } }) = trees ∧
      Attached s.instances.size (settle { v with document := { v.document with forest } }) := by
  obtain ⟨forest, hok, hm, harr⟩ := hv.moved hs ht
  refine ⟨forest, hok, ?_⟩
  have hvforest : v.document.forest = w.document.forest.release (kept (holding [fragment] w)) := by
    rw [skeleton_document hvw]
    rfl
  have hout : outputOf w s.instances.size = some o := hb.outputOf_self hi
  have houtv : outputOf v s.instances.size = some o := (outputOf_congr hvw _).trans hout
  have hmine {n : NodeId} : n ∈ o.nodes ++ [o.marker] ↔ n ∈ o.marker :: o.nodes :=
    (List.perm_append_singleton o.marker o.nodes).mem_iff
  have hlt {n : NodeId} (hn : s.document.forest.Has n) : n < fragment + 1 :=
    Nat.lt_succ_of_lt (Nat.lt_of_lt_of_le hn (Nat.le_of_not_lt hv.fresh))
  have r := hw.sound.linked.release (kept (holding [fragment] w))
  rw [hvforest] at hm
  -- whoever is kept hangs from nodes above those that show the trees, all the time
  have habove {n q : NodeId} (hn : n = fragment ∨ n ∈ kept s ∨ n ∈ o.marker :: o.nodes)
      (hq : w.document.forest.parent? n = some q) : q < fragment + 1 := by
    rcases hn with rfl | hn | hn
    · cases hb.root.symm.trans hq
    · rw [hw.renewed.parent? n (hs.kept n hn), if_neg List.not_mem_nil] at hq
      exact hlt (hs.linked.has_parent hq)
    · have hmem : n ∈ w.document.forest.children fragment := by
        rw [hb.children]
        exact hmine.2 hn
      cases (hw.sound.linked.mem_children.1 hmem).symm.trans hq
      exact Nat.lt_succ_self _
  have hwho {n : NodeId} (hn : n ∈ kept (holding [fragment] w)) :
      n = fragment ∨ n ∈ kept s ∨ n ∈ o.marker :: o.nodes := by
    rcases mem_kept_holding.1 hn with hn | hn
    · exact .inl (List.mem_singleton.1 hn)
    · rcases hw.kept_cases hn with hn | ⟨o', ho', hn⟩
      · exact .inr (.inl hn)
      · cases hout.symm.trans ho'
        exact .inr (.inr hn)
  have hchildren : (w.document.forest.release (kept (holding [fragment] w))).children fragment =
      o.nodes ++ [o.marker] := by
    rw [r.children, hb.children, List.filter_eq_self]
    intro n hn
    have hpar := hw.sound.linked.mem_children.1 (hb.children ▸ hn)
    rw [decide_eq_true_iff, r.kept n, hpar]
    rintro ⟨-, -, q, hq, huse⟩
    cases hpar.symm.trans hq
    rw [inUse_of_mem (hb.has fragment List.mem_cons_self)
      (mem_kept_holding.2 (.inl List.mem_cons_self))] at huse
    cases huse
  have hmoving : (w.document.forest.release (kept (holding [fragment] w))).moving fragment =
      o.nodes ++ [o.marker] := by
    rw [moving, if_pos (by rw [isFragment, r.kind, hb.kind]), hchildren]
  rw [hmoving] at hm
  have hshows := hm.shows r.linked
    (r.shows hw.sound.linked hb.shows fun n hn q => habove (hwho hn)) (hlt ht)
    fun n hn q hq => habove (.inr (.inr (hmine.1 hn))) (r.parent?_of_some hq)
  have r' := harr.sound.linked.release (kept { v with document := { v.document with forest } })
  have hshows' := r'.shows harr.sound.linked hshows fun n hn q hq => by
    have hn : n ∈ kept s ∨ n ∈ o.marker :: o.nodes := by
      rcases harr.kept_cases hn with hn | ⟨o', ho', hn⟩
      · exact .inl hn
      · cases houtv.symm.trans ho'
        exact .inr hn
    have hq : forest.parent? n = some q := hq
    rw [hm.parent?] at hq
    split at hq
    · cases hq
      exact hlt ht
    · exact habove (.inr hn) (r.parent?_of_some hq)
  have hsize : w.document.forest.nodes.size = (settle { v with
      document := { v.document with forest } }).document.forest.nodes.size :=
    (r'.size.trans (hm.size.trans r.size)).symm
  refine ⟨?_, o, target, houtv, ?_, fun m hmem hunder => ?_⟩
  · have htrees : outputTrees s.instances.size (settle { v with
        document := { v.document with forest } }) = ((outputOf v s.instances.size).map fun o =>
          o.nodes.flatMap (settle { v with document := { v.document with forest } }).document.forest.trees).getD [] :=
      rfl
    rw [htrees, houtv]
    exact hshows'.trees (Nat.le_trans hb.depth (Nat.le_of_eq hsize))
  · have hmarker : forest.parent? o.marker = some target := by
      rw [hm.parent?, if_pos (hmine.2 List.mem_cons_self)]
    refine (r'.kept o.marker ?_).trans hmarker
    rintro ⟨-, -, q, hq, huse⟩
    cases hmarker.symm.trans hq
    have hstill := harr.renewed.inUse hs.linked (fun n hn hhas _ => (harr.mem_kept hhas).2 hn) ht
      (fun m hm => absurd hm List.not_mem_nil) hu
    cases huse.symm.trans hstill
  · have hlast := (harr.settleWith hs fun _ hn => absurd hn List.not_mem_nil).renewed.lasts_nil
    have hm' := (hlast.under hs.linked hunder ht fun m hm => absurd hm List.not_mem_nil).2
    exact harr.new houtv m (List.mem_cons_of_mem _ hmem) hm'

private theorem firstUpdate_ok {p : InstanceId × NodeId} (h : firstUpdate i t = .ok p v) :
    p.1 = i ∧ update i t = .ok (some p.2) v := by
  cases hu : update i t with
  | ok r u =>
    cases r with
    | some fragment =>
      have hfirst : firstUpdate i t = .ok (i, fragment) u :=
        Run.tryCatch_of_ok ((Run.bind_of_ok hu).trans rfl)
      cases hfirst.symm.trans h
      exact ⟨rfl, rfl⟩
    | none =>
      have hfirst : firstUpdate i t = .error (.error .alreadyRendered)
          (settle (u.modifyInstance i fun inst => { inst with alive := false })) :=
        Run.tryCatch_of_error ((Run.bind_of_ok hu).trans rfl)
      cases hfirst.symm.trans h
  | error e u =>
    have hfirst : firstUpdate i t = .error e
        (settle (u.modifyInstance i fun inst => { inst with alive := false })) :=
      Run.tryCatch_of_error (Run.bind_of_error hu)
    cases hfirst.symm.trans h

private theorem has_of_inUse (hs : Sound s) {n : NodeId} (h : s.document.forest.inUse s.kept n) :
    s.document.forest.Has n := by
  obtain ⟨k, hk, hkept⟩ := inUse_iff.1 h
  cases under_of_mem_pathUp hk with
  | self => exact hs.kept _ hkept
  | up hp _ => exact has_of_parent? hp

/-- A new instance shows what it should. -/
theorem mount_tracked (hs : Whole s) (hjobs : s.frame.jobs = [])
    (htarget : s.document.forest.inUse s.kept target)
    (hm : mount r props isPublic natives target s = .ok (i, fragment) t)
    (hq : Silent i (prepared r props isPublic natives s)) :
    i = s.instances.size ∧ ∃ inst, Tracked i (prepared r props isPublic natives s)
      (scopeOf i (prepared r props isPublic natives s)) t inst ∧ inst.pending = false := by
  have ht := has_of_inUse hs.toSound htarget
  have hwhole := (mount_onward hs r props isPublic natives ht).whole
  have hnew := mount_newborn r props isPublic natives target s
  rw [Run.left_of_ok hm] at hwhole hnew
  rw [mount_eq, Run.bind_eq_ok] at hm
  obtain ⟨p, v, hb, hedit⟩ := hm
  have hv := (bring_arrived hs r props isPublic natives).1 p v hb
  rw [bring, Run.bind_eq_ok] at hb
  obtain ⟨_, u, hp, hb⟩ := hb
  obtain rfl : prepared r props isPublic natives s = u := Run.left_of_ok hp
  have hu : skeleton (prepared r props isPublic natives s) = skeleton (joined (unborn r props) s) :=
    Keeps.of_ok (prepare_skeleton _) rfl hp
  generalize prepared r props isPublic natives s = u at *
  obtain ⟨harr, inst, hi, ho⟩ := Arriving.prepared hs hu
  have hfirst : firstUpdate s.instances.size
      (u.modifyInstance s.instances.size fun inst => { inst with alive := true }) = .ok p v := hb
  obtain ⟨hp, hupdate⟩ := firstUpdate_ok hfirst
  obtain ⟨i', fragment'⟩ := p
  obtain rfl : i' = s.instances.size := hp
  have hlive := harr.setAlive true
  have hi₁ := getElem?_modifyInstance_self hi fun inst => { inst with alive := true }
  obtain ⟨_, w, he, hpure⟩ := Run.bind_eq_ok.1 hedit
  cases hpure
  refine ⟨rfl, ?_⟩
  have hq₁ := hq.congr hi hi₁ ⟨rfl, rfl⟩ rfl rfl
  obtain ⟨o, trees, w, events, hbegun, htrees, hw, rfl⟩ := update_begun hlive.sound hi₁ ho hq₁ hupdate
  have hi₂ := getElem?_inPhase hi₁ (.rendering false)
  have hlive₂ := hlive.congr (skeleton_inPhase (i := s.instances.size) (.rendering false) _)
  obtain ⟨forest, hforest, hshows, hattached⟩ := hbegun.displayed hs hi₂
    (hbegun.arriving hs hlive₂ hi₂ ho) hv (skeleton_inPhase ..) ht htarget
  rw [edit_eq, hforest, EStateM.Result.ok.injEq] at he
  rw [he.2] at hshows hattached
  have hself : w.instances[s.instances.size]? = some { inst with
      phase := .rendering false, output := some o, renders := inst.renders + 1, alive := true } := by
    rw [hw]
    exact getElem?_shown (s := inPhase s.instances.size (.rendering false) _) hi₂ o _
  have hnow : t.instances[s.instances.size]? = some { inst with
      phase := .idle, output := some o, renders := inst.renders + 1, alive := true } := by
    rw [← he.2]
    exact getElem?_inPhase (s := settleWith [fragment] w) hself .idle
  obtain ⟨inst', hi', hpending, -, hidle⟩ := hnew.self
  cases hnow.symm.trans hi'
  have hnatives : t.natives = u.natives := by
    rw [← he.2]
    show w.natives = u.natives
    rw [hw]
    rfl
  refine ⟨_, ⟨⟨hwhole, hattached, instance?_eq_some.2 ⟨hnow, rfl⟩, (scopeOf_eq hi).symm, rfl,
    ⟨inst, hi, rfl, rfl⟩, hnatives, ?_, fun _ => hpending⟩, fun _ trees' h => ?_⟩, hpending⟩
  · rw [hnew.frame, hjobs, hpending, if_neg Bool.false_ne_true]
  · rw [treesOf_congr hi₁ hnow ⟨rfl, rfl⟩ hnatives fun _ => rfl, htrees, Option.some.injEq] at h
    exact hshows.trans h

end LiveMarkup.Session
