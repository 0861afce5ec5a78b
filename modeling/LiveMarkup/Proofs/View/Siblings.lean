import LiveMarkup.Proofs.View.Climbing

/-! Whatever users do, an instance that is rendered again replaces its own nodes and no others, and
what is not below them stays where it is. -/

namespace LiveMarkup.Session

open Forest

variable {s t u v : Session} {i : InstanceId} {inst : Instance} {o : Output}

/-! What users do. -/

/-- What a user does with live views. The fragment of an instance that is not mounted is kept. -/
inductive Use where
  | mount (r : Recipe) (props : Bindings) (isPublic : Bool)
    (natives : List (String × (List Value → Procedure))) (target : NodeId)
  | instantiate (r : Recipe) (props : Bindings) (isPublic : Bool)
    (natives : List (String × (List Value → Procedure)))
  | write (i : InstanceId) (w : Write)
  | call (i : InstanceId) (x : String) (args : List Value)
  | request (job : Job Action)
  | flush

/-- What happens to the document from outside, and to what is kept. -/
inductive Edit where
  | appendElement (tag : String)
  | insertElement (tag : String) (reference : NodeId)
  | attach (node : NodeId)
  | remove (node : NodeId)
  | clear
  | operation (op : Operation Handler)
  | dispatch (event : String) (target : NodeId)
  | hold (node : NodeId)
  | letGo (node : NodeId)
  | drop (i : InstanceId)

def Use.run : Use → Session → Session
  | mount r props isPublic natives target =>
    Run.left (Session.mount r props isPublic natives target)
  | instantiate r props isPublic natives =>
    Run.left (do let p ← Session.instantiate r props isPublic natives; Session.hold p.2)
  | write i w => Run.left (w.run i)
  | call i x args => Run.left (callPublic i x args)
  | request job => Run.left (frameHost.request job)
  | flush => Run.left Session.flush

/-- The nodes that a user names are nodes. -/
def Use.Fits (s : Session) : Use → Prop
  | mount _ _ _ _ target => s.document.forest.Has target
  | _ => True

/-- An operation on the nodes of the document. Whoever has made a node keeps it. -/
def operate (op : Operation Handler) (s : Session) : Session :=
  let forest := op.after s.document.forest
  let made := if s.document.forest.nodes.size < forest.nodes.size then [s.document.forest.nodes.size]
    else []
  settle { s with document := { s.document with forest }, held := made ++ s.held }

def Edit.run : Edit → Session → Session
  | appendElement tag => Run.left (Session.appendElement tag)
  | insertElement tag reference => Run.left (Session.insertElement tag reference)
  | attach node => Run.left (Session.attach node)
  | remove node => Run.left (Session.remove node)
  | clear => Run.left Session.clear
  | operation op => operate op
  | dispatch event target => Run.left (Session.dispatch event target)
  | hold node => Run.left (Session.hold node)
  | letGo node => fun s => settle { s with held := s.held.erase node }
  | drop i => Run.left (Session.drop i)

/-- The nodes that a user names are nodes, and one that is kept from now on hangs from nothing that is
out of use. -/
def Edit.Fits (s : Session) : Edit → Prop
  | attach node => s.document.forest.Has node
  | operation op => ∀ n ∈ op.operands, s.document.forest.Has n
  | dispatch _ target => s.document.forest.Has target
  | hold node => s.document.forest.Has node ∧
    ∀ p, s.document.forest.parent? node = some p → s.document.forest.inUse s.kept p
  | _ => True

def newborn (r : Recipe) (props : Bindings) (s : Session) : Session :=
  (joined (unborn r props) s).modifyInstance s.instances.size fun inst => { inst with alive := true }

/-- A session that uses of live views lead to from another one, also in the midst of an update:
evaluation and the frame may have changed what they may change, and each pass of rendering counts. The
first pass of an instance leaves its output in a fragment, which is kept while a second one follows. -/
inductive Later (s : Session) : Session → Prop where
  | refl : Later s s
  | use {t : Session} (h : Later s t) (u : Use) (hu : u.Fits t) : Later s (u.run t)
  | listener {t : Session} (h : Later s t) (i : InstanceId) (f : Value) (args : List Value) :
    Later s (Run.left (Eval.callFunction (host i) f args) t)
  | evaluation {t u : Session} (h : Later s t) (hu : skeleton u = skeleton t) : Later s u
  | pass {t : Session} {i : InstanceId} (h : Later s t) (hi : (t.instance? i).isSome) :
    Later s (Run.left (render i) t)
  | first {t u v : Session} {r : Recipe} {props : Bindings} {fragment : NodeId} (h : Later s t)
    (hu : skeleton u = skeleton (newborn r props t))
    (hv : render t.instances.size u = .ok (some fragment) v) : Later s (holding [fragment] v)

/-- A session that uses of live views and edits of the document lead to from another one. -/
inductive Sequel (s : Session) : Session → Prop where
  | refl : Sequel s s
  | later {t u : Session} (h : Sequel s t) (hu : Later t u) : Sequel s u
  | edit {t : Session} (h : Sequel s t) (e : Edit) (he : e.Fits t) : Sequel s (e.run t)

/-- A session that users bring about, also in the midst of an update. -/
def Reachable : Session → Prop := Sequel empty

theorem Reachable.empty : Reachable empty := .refl

theorem Reachable.use (h : Reachable s) (u : Use) (hu : u.Fits s) : Reachable (u.run s) :=
  h.later (.use .refl u hu)

/-! Uses. -/

private theorem forest_settle (h : s.document.forest.Proper) : (settle s).document.forest.Proper :=
  h.release _

private theorem joined_rooted (h : Rooted s) (r : Recipe) (props : Bindings) :
    Rooted (joined (unborn r props) s) :=
  ⟨h.toSound.joined r props, h.proper⟩

private theorem mount_proper (hs : WellFormed s) (r : Recipe) (props : Bindings) (isPublic : Bool)
    (natives : List (String × (List Value → Procedure))) {target : NodeId}
    (ht : s.document.forest.Has target) :
    (Run.left (mount r props isPublic natives target) s).document.forest.Proper := by
  have hbring := rooted_durable.bring r isPublic natives s.instances.size (joined_rooted hs.rooted r props)
  obtain ⟨hok, -⟩ := bring_arrived hs.toWhole r props isPublic natives
  rw [Run.left_congr (mount_eq r props isPublic natives target s)]
  cases hb : bring r isPublic natives s.instances.size (joined (unborn r props) s) with
  | error e u =>
    rw [hb] at hbring
    rw [Run.left_of_error (Run.bind_of_error hb)]
    exact hbring.proper
  | ok p u =>
    rw [hb] at hbring
    have ha : Arrived s u p.2 := hok p u hb
    have hedit := edit_eq (fun f => f.append target p.2) u
    rw [Run.left_congr (Run.bind_of_ok hb), Run.left_bind_pure]
    cases hf : u.document.forest.append target p.2 with
    | error e =>
      rw [hf] at hedit
      rw [Run.left_of_error hedit]
      exact hbring.proper
    | ok forest =>
      rw [hf] at hedit
      rw [Run.left_of_ok hedit]
      exact forest_settle (hbring.proper.append_ok (ha.arriving.renewed.has ht) ha.has hf).1

private theorem instantiate_onward (hs : Whole s) (r : Recipe) (props : Bindings) (isPublic : Bool)
    (natives : List (String × (List Value → Procedure))) :
    Onward s (Run.left (do let p ← instantiate r props isPublic natives; hold p.2) s) := by
  obtain ⟨hok, herror⟩ := bring_arrived hs r props isPublic natives
  have hmade := instantiate_eq r props isPublic natives s
  cases hb : bring r isPublic natives s.instances.size (joined (unborn r props) s) with
  | error e u =>
    rw [Run.left_of_error (Run.bind_of_error (hmade.trans hb))]
    exact herror e u hb
  | ok p u =>
    rw [Run.left_congr (Run.bind_of_ok (hmade.trans hb))]
    exact (hok p u hb).onward

private theorem wellFormed_of_onward (h : Onward s t) (hr : Rooted t) : WellFormed t ∧ Lasting s t :=
  ⟨⟨h.whole, hr.proper⟩, h.lasting⟩

/-- Every use of live views leads on. -/
private theorem Use.lasting (hs : WellFormed s) (u : Use) (hu : u.Fits s) :
    WellFormed (u.run s) ∧ Lasting s (u.run s) := by
  have hc := (onward_closed hs.linked).upheld
  have hr := rooted_durable.upheld
  have hrefl := Onward.refl hs.toWhole
  cases u with
  | mount r props isPublic natives target =>
    have hm := mount_onward hs.toWhole r props isPublic natives hu
    exact ⟨⟨hm.whole, mount_proper hs r props isPublic natives hu⟩, hm.lasting⟩
  | instantiate r props isPublic natives =>
    exact wellFormed_of_onward (instantiate_onward hs.toWhole r props isPublic natives)
      (rooted_durable.instantiate r props isPublic natives (joined_rooted hs.rooted r props))
  | write i w => exact wellFormed_of_onward (hc.write i w s hrefl) (hr.write i w s hs.rooted)
  | call i x args =>
    exact wellFormed_of_onward (hc.callPublic i x args s hrefl) (hr.callPublic i x args s hs.rooted)
  | request job => exact wellFormed_of_onward (hc.request job s hrefl) (hr.request job s hs.rooted)
  | flush => exact wellFormed_of_onward (hc.flush s hrefl) (hr.flush s hs.rooted)

private theorem first_lasting {r : Recipe} {props : Bindings} {fragment : NodeId} (hs : WellFormed s)
    (hu : skeleton u = skeleton (newborn r props s))
    (hv : render s.instances.size u = .ok (some fragment) v) :
    WellFormed (holding [fragment] v) ∧ Lasting s (holding [fragment] v) := by
  have harr : Arriving s u := ((joined_arriving hs.toWhole r props).setAlive true).congr hu
  have hself : (newborn r props s).instance? s.instances.size =
      some { unborn r props with alive := true } :=
    instance?_eq_some.2 ⟨getElem?_modifyInstance_self (getElem?_joined ..) _, rfl⟩
  obtain ⟨inst, hi, ho⟩ := instance?_of_bones (skeleton_bones hu.symm s.instances.size) hself
  obtain ⟨_, he, ha, -⟩ := harr.first hs.toWhole hi ho hv
  cases he
  have hpass := Rooted.pass ⟨harr.sound, skeleton_document hu ▸ hs.proper⟩ s.instances.size
  rw [hv] at hpass
  exact wellFormed_of_onward ha.onward hpass

/-- Whatever instances do in the document, they keep their markers, and what is not below an output
that has been replaced is where it was. -/
private theorem Later.lasting (h : Later s t) (hs : WellFormed s) : WellFormed t ∧ Lasting s t := by
  have hgo {t u : Session} (h : WellFormed t ∧ Lasting s t) (h' : WellFormed u ∧ Lasting t u) :
      WellFormed u ∧ Lasting s u := ⟨h'.1, h.2.trans hs.linked h'.2⟩
  induction h with
  | refl => exact ⟨hs, .refl hs.linked⟩
  | use _ u hu ih => exact hgo ih (u.lasting ih.1 hu)
  | listener _ i f args ih =>
    have hrefl := Onward.refl ih.1.toWhole
    have hon := ((onward_closed ih.1.linked).upheld.host i).callFunction f args _ hrefl
    exact hgo ih (wellFormed_of_onward hon ((rooted_durable.upheld.host i).callFunction f args _ ih.1.rooted))
  | evaluation _ hu ih =>
    have hdocument := skeleton_document hu
    exact hgo ih ⟨⟨ih.1.toWhole.congr hu, hdocument ▸ ih.1.proper⟩, (Lasting.refl ih.1.linked).congr hu⟩
  | pass _ hi ih =>
    obtain ⟨inst, hi⟩ := Option.isSome_iff_exists.1 hi
    have hon := (onward_closed ih.1.linked).pass (.refl ih.1.toWhole) hi
    exact hgo ih (wellFormed_of_onward hon (rooted_durable.left_of_leaves (ih.1.rooted.pass _)))
  | first _ hu hv ih => exact hgo ih (first_lasting ih.1 hu hv)

/-! Edits. -/

/-- The forest and what is kept may change as long as nodes stay and no cycle comes about. -/
private theorem settle_wellFormed (hs : WellFormed s) {forest : Forest Handler} {held : List NodeId}
    (hf : forest.Proper) (hle : s.document.forest.nodes.size ≤ forest.nodes.size)
    (hheld : ∀ n ∈ held, forest.Has n) :
    WellFormed (settle { s with document := { s.document with forest }, held }) := by
  have hsound := (hs.toSound.with_forest hf.linked hle).with_held hheld
  exact ⟨Standing.settle ⟨hsound, hs.mounted⟩, forest_settle hf⟩

private theorem edit_wellFormed (hs : WellFormed s)
    {change : Forest Handler → Except DocumentError (Forest Handler)}
    (h : ∀ forest, change s.document.forest = .ok forest →
      forest.Proper ∧ s.document.forest.nodes.size ≤ forest.nodes.size) :
    WellFormed (Run.left (edit change) s) ∧ Marked s (Run.left (edit change) s) := by
  have he := edit_eq change s
  cases hc : change s.document.forest with
  | error e =>
    rw [hc] at he
    rw [Run.left_of_error he]
    exact ⟨hs, .of_eq fun _ => rfl⟩
  | ok forest =>
    rw [hc] at he
    rw [Run.left_of_ok he]
    obtain ⟨hf, hle⟩ := h forest hc
    have hheld : ∀ n ∈ s.held, forest.Has n := fun n hn => Nat.lt_of_lt_of_le (hs.has_held hn) hle
    exact ⟨settle_wellFormed hs hf hle hheld, .of_eq fun _ => rfl⟩

private theorem operate_wellFormed (hs : WellFormed s) (op : Operation Handler)
    (hop : ∀ n ∈ op.operands, s.document.forest.Has n) : WellFormed (operate op s) := by
  have hle := op.size_le_after hs.linked hop
  refine settle_wellFormed hs (op.after_proper hs.proper hop) hle fun n hn => ?_
  rcases List.mem_append.1 hn with hn | hn
  · split at hn
    · next hlt => exact List.mem_singleton.1 hn ▸ hlt
    · cases hn
  · exact Nat.lt_of_lt_of_le (hs.has_held hn) hle

private theorem hold_whole (hs : Whole s) {node : NodeId} (hn : (Edit.hold node).Fits s) :
    Whole (Run.left (hold node) s) := by
  have hleft : Run.left (Session.hold node) s = holding [node] s := rfl
  have hkept {n : NodeId} : n ∈ kept (holding [node] s) ↔ n = node ∨ n ∈ kept s := by
    rw [mem_kept_holding, List.mem_singleton]
  rw [hleft]
  refine ⟨⟨hs.toSound.of_eq rfl (fun _ => rfl) fun n hn' => ?_, hs.mounted⟩, fun n hstray => ?_⟩
  · rcases hkept.1 hn' with rfl | hn'
    · exact hn.1
    · exact hs.kept n hn'
  · obtain ⟨hmem, p, hp, hu⟩ := hstray
    have huse : s.document.forest.inUse s.kept p := by
      rcases hkept.1 hmem with rfl | hmem
      · exact hn.2 p hp
      · exact hs.settled.inUse_parent hmem hp
    have hmono : s.document.forest.inUse (kept (holding [node] s)) p :=
      inUse_mono (Nat.le_refl _) (fun _ _ => rfl) (fun m _ hm => hkept.2 (.inr hm)) huse
    cases hu.symm.trans hmono

private theorem drop_whole (hs : Whole s) (i : InstanceId) : Whole (Run.left (drop i) s) := by
  have hdead : Standing (s.modifyInstance i fun inst => { inst with alive := false }) := by
    refine ⟨hs.toSound.of_eq rfl (outputOf_modifyInstance fun _ => rfl) fun n hn => ?_,
      fun j inst hj => ?_⟩
    · rcases kept_setAlive hn with hn | ⟨o, ho, hn⟩
      · exact hs.kept n hn
      · exact hs.outputs i o ho n hn
    · by_cases hji : j = i
      · obtain ⟨hj, ha⟩ := instance?_eq_some.1 hj
        rw [hji, getElem?_modifyInstance, if_pos rfl, Option.map_eq_some_iff] at hj
        obtain ⟨inst', -, rfl⟩ := hj
        cases ha
      · rw [instance?, getElem?_modifyInstance_of_ne hji, ← instance?] at hj
        exact hs.mounted j inst hj
  exact hdead.settle

/-- Every edit leaves a session well formed, and nobody loses a marker. -/
private theorem Edit.wellFormed (hs : WellFormed s) (e : Edit) (he : e.Fits s) :
    WellFormed (e.run s) ∧ Marked s (e.run s) := by
  have hbody : s.document.forest.Has s.document.body :=
    hs.kept _ (mem_kept.2 (.inr (.inr (.inl rfl))))
  have hnew (tag : String) : (s.document.forest.createElement tag).2.Has
      (s.document.forest.createElement tag).1 := by simp [Has, createElement]
  have hsize (tag : String) : s.document.forest.nodes.size ≤
      (s.document.forest.createElement tag).2.nodes.size := by simp [createElement]
  cases e with
  | appendElement tag =>
    have hread : (Edit.appendElement tag).run s = Run.left (edit fun f =>
        (f.createElement tag).2.append s.document.body (f.createElement tag).1) s := rfl
    rw [hread]
    refine edit_wellFormed hs fun forest h => ?_
    have hbody' := Nat.lt_of_lt_of_le hbody (hsize tag)
    exact ⟨((hs.proper.create _).append_ok hbody' (hnew tag) h).1, size_append h ▸ hsize tag⟩
  | insertElement tag reference =>
    have hread : (Edit.insertElement tag reference).run s = Run.left (edit fun f =>
        (f.createElement tag).2.insertBefore reference (f.createElement tag).1) s := rfl
    rw [hread]
    refine edit_wellFormed hs fun forest h => ?_
    exact ⟨((hs.proper.create _).insertBefore_ok (hnew tag) h).1, size_insertBefore h ▸ hsize tag⟩
  | attach node =>
    have hread : (Edit.attach node).run s =
        Run.left (edit fun f => f.append s.document.body node) s := rfl
    rw [hread]
    refine edit_wellFormed hs fun forest h => ?_
    exact ⟨(hs.proper.append_ok hbody he h).1, Nat.le_of_eq (size_append h).symm⟩
  | remove node =>
    have hread : (Edit.remove node).run s = Run.left (edit fun f => .ok (f.remove node)) s := rfl
    rw [hread]
    refine edit_wellFormed hs fun forest h => ?_
    cases h
    exact ⟨hs.proper.remove node, Nat.le_of_eq (size_remove node).symm⟩
  | clear =>
    have hclear : Session.clear s =
        edit (fun f => .ok ((f.children s.document.body).foldl Forest.remove f)) s := Run.bind_of_ok rfl
    have hread : Edit.clear.run s = Run.left (edit fun f =>
        .ok ((f.children s.document.body).foldl Forest.remove f)) s := by
      rw [Edit.run, Run.left, Run.left, hclear]
    rw [hread]
    refine edit_wellFormed hs fun forest h => ?_
    cases h
    obtain ⟨-, hsize, -⟩ := hs.linked.removeAll (s.document.forest.children s.document.body)
    exact ⟨hs.proper.removeAll _, Nat.le_of_eq hsize.symm⟩
  | operation op => exact ⟨operate_wellFormed hs op he, .of_eq fun _ => rfl⟩
  | dispatch event target => exact hs.dispatch event he
  | hold node => exact ⟨⟨hold_whole hs.toWhole he, hs.proper⟩, .of_eq fun _ => rfl⟩
  | letGo node =>
    have hheld : ∀ n ∈ s.held.erase node, s.document.forest.Has n := fun n hn =>
      hs.has_held (List.mem_of_mem_erase hn)
    exact ⟨settle_wellFormed hs hs.proper (Nat.le_refl _) hheld, .of_eq fun _ => rfl⟩
  | drop i =>
    refine ⟨⟨drop_whole hs.toWhole i, forest_settle hs.proper⟩, .of_eq fun j => ?_⟩
    have hsame : outputOf (s.modifyInstance i fun inst => { inst with alive := false }) j =
        outputOf s j := by
      apply outputOf_modifyInstance
      exact fun _ => rfl
    exact hsame

theorem empty_wellFormed : WellFormed empty := by
  have hforest : empty.document.forest = ((Forest.empty : Forest Handler).plant
      (.element "html" [] [] [.element "head" [] [] [], .element "body" [] [] []])).2 := rfl
  have hproper : empty.document.forest.Proper := by
    rw [hforest]
    exact empty_proper.plant _
  have hlinked := hproper.linked
  have hsize : empty.document.forest.nodes.size = 3 := by decide +kernel
  have hkept : kept empty = [0, 1, 2] := by decide +kernel
  have hhas {n : NodeId} : empty.document.forest.Has n ↔ n ∈ kept empty := by
    have hlt (k : Nat) : k < 3 ↔ k ∈ [0, 1, 2] := by
      simp only [List.mem_cons, List.not_mem_nil, or_false]
      omega
    rw [Has, hsize, hkept]
    exact hlt n
  have hnone (i : InstanceId) : outputOf empty i = none := rfl
  refine ⟨⟨⟨⟨hlinked, fun n hn => hhas.2 hn, fun i o ho => ?_, fun i o ho => ?_,
    fun i j o o' _ ho => ?_⟩, fun i inst hi => ?_⟩, ?_⟩, hproper⟩
  · cases (hnone i).symm.trans ho
  · cases (hnone i).symm.trans ho
  · cases (hnone i).symm.trans ho
  · cases (instance?_eq_some.1 hi).1
  · rintro n ⟨-, p, hp, hu⟩
    have hmem := hlinked.has_parent hp
    have huse := inUse_of_mem hmem (hhas.1 hmem)
    cases hu.symm.trans huse

/-- Whatever happens leaves a session well formed, and nobody loses a marker. -/
private theorem Sequel.wellFormed (h : Sequel s t) (hs : WellFormed s) :
    WellFormed t ∧ Marked s t := by
  induction h with
  | refl => exact ⟨hs, .of_eq fun _ => rfl⟩
  | later _ hu ih =>
    obtain ⟨hu, hl⟩ := hu.lasting ih.1
    exact ⟨hu, ih.2.trans hl.marker⟩
  | edit _ e he ih =>
    obtain ⟨hu, hm⟩ := e.wellFormed ih.1 he
    exact ⟨hu, ih.2.trans hm⟩

theorem Reachable.wellFormed (h : Reachable s) : WellFormed s :=
  (Sequel.wellFormed h empty_wellFormed).1

/-! What a pass replaces. -/

/-- In every sound session in which nobody who is kept hangs from something that is out of use, a pass
of an instance that has an output, if it succeeds, replaces the nodes of this output: it makes them
roots, puts the new ones right before the marker, and leaves all other nodes as they are, but for those
below the earlier ones that are severed. Whatever users do, all sessions are such sessions, also in the
midst of an update, and whoever has an output keeps its marker. As long as they only use live views,
outputs are apart, and whatever is not below an output that has been replaced is where it was. -/
theorem pass_replaces_only_own_output :
    (∀ (s : Session) (i : InstanceId) (inst : Instance) (o : Output) r s', Sound s →
      s.document.forest.Settled s.kept → s.instance? i = some inst → inst.output = some o →
      render i s = .ok r s' →
      r = none ∧ ∃ o' p styles trees, Passed i inst o o' p styles trees s s') ∧
    WellFormed empty ∧
    ∀ s t, WellFormed s → Sequel s t → WellFormed t ∧ Marked s t ∧
      ∀ u, Later t u → WellFormed u ∧ Lasting t u := by
  refine ⟨fun s i inst o r s' hs hsettled hi ho hr => hs.render_passed hsettled hi ho hr,
    empty_wellFormed, fun s t hs ht => ?_⟩
  obtain ⟨hwell, hmarked⟩ := ht.wellFormed hs
  exact ⟨hwell, hmarked, fun u hu => hu.lasting hwell⟩

def paragraph : Recipe := ⟨⟨0, ⟨"<p></p>", none, none⟩, ⟨[.text "<p></p>"]⟩, .empty, none⟩, .sync, false⟩

def nothing : Recipe := ⟨⟨1, ⟨"", none, none⟩, ⟨[]⟩, .empty, none⟩, .sync, false⟩

def mounted : Session := (Use.mount paragraph [] false [] 2).run empty

def nested : Session := (Use.mount nothing [] false [] 4).run mounted

private theorem mounted_reachable : Reachable mounted :=
  .use .empty (.mount paragraph [] false [] 2) (by decide +kernel : 2 < _)

private theorem nested_reachable : Reachable nested :=
  mounted_reachable.use _ (by decide +kernel : 4 < _)

private theorem renders_again (hlive : ((s.instance? 0).bind (·.output)).isSome = true)
    (hok : Run.succeedsWith (render 0) s (fun r _ => r.isNone) = true) :
    ∃ inst o s', s.instance? 0 = some inst ∧ inst.output = some o ∧ render 0 s = .ok none s' := by
  obtain ⟨o, ho⟩ := Option.isSome_iff_exists.1 hlive
  obtain ⟨inst, hi, ho⟩ := Option.bind_eq_some_iff.1 ho
  obtain ⟨r, s', hr, hnone⟩ := Run.succeedsWith_iff.1 hok
  cases Option.isNone_iff_eq_none.1 hnone
  exact ⟨inst, o, s', hi, ho, hr⟩

/-- The paragraph is replaced in the body, and also before it is mounted, in its fragment. -/
theorem pass_replaces_only_own_paragraph :
    (∃ inst o s', Reachable nested ∧ nested.instance? 0 = some inst ∧ inst.output = some o ∧
      render 0 nested = .ok none s' ∧
      (∃ o' p styles trees, Passed 0 inst o o' p styles trees nested s') ∧ Lasting nested s') ∧
    ∃ v inst o s', render 0 (newborn paragraph [] empty) = .ok (some 3) v ∧
      Reachable (holding [3] v) ∧ v.instance? 0 = some inst ∧ inst.output = some o ∧
      render 0 (holding [3] v) = .ok none s' ∧
      ∃ o' styles trees, Passed 0 inst o o' 3 styles trees (holding [3] v) s' := by
  obtain ⟨hpass, hempty, hsequel⟩ := pass_replaces_only_own_output
  constructor
  · obtain ⟨hwell, -, hlater⟩ := hsequel empty nested hempty nested_reachable
    obtain ⟨inst, o, s', hi, ho, hr⟩ := renders_again (s := nested) (by decide +kernel)
      (by decide +kernel)
    obtain ⟨-, hp⟩ := hpass nested 0 inst o none s' hwell.toSound hwell.settled hi ho hr
    have ht : Later nested s' := by
      rw [← Run.left_of_ok hr]
      exact .pass .refl (Option.isSome_of_eq_some hi)
    exact ⟨inst, o, s', nested_reachable, hi, ho, hr, hp, (hlater s' ht).2⟩
  · have hfirst : Run.succeedsWith (render 0) (newborn paragraph [] empty) (fun r v => r = some 3 &&
        ((v.instance? 0).bind (·.output)).isSome &&
        ((outputOf v 0).bind fun o => v.document.forest.parent? o.marker) = some 3 &&
        Run.succeedsWith (render 0) (holding [3] v) (fun r _ => r.isNone)) = true := by
      decide +kernel
    obtain ⟨r, v, hv, hfirst⟩ := Run.succeedsWith_iff.1 hfirst
    simp only [Bool.and_eq_true, decide_eq_true_iff] at hfirst
    obtain ⟨⟨⟨rfl, hlive⟩, hparent⟩, hok⟩ := hfirst
    have hreach : Reachable (holding [3] v) := .later .refl (.first .refl rfl hv)
    obtain ⟨hwell, -, -⟩ := hsequel empty _ hempty hreach
    obtain ⟨inst, o, s', hi, ho, hr⟩ := renders_again (s := holding [3] v) hlive hok
    obtain ⟨-, o', p, styles, trees, hp⟩ :=
      hpass _ 0 inst o none s' hwell.toSound hwell.settled hi ho hr
    have hout : outputOf v 0 = some o := (outputOf_eq (instance?_eq_some.1 hi).1).trans ho
    rw [hout, Option.bind_some] at hparent
    cases hparent.symm.trans hp.patched.attached
    exact ⟨v, inst, o, s', hv, hreach, hi, ho, hr, o', styles, trees, hp⟩

def tucked : Session := (Edit.operation (.append 4 5)).run mounted

private theorem tucked_reachable : Reachable tucked := by
  refine .edit mounted_reachable (.operation (.append 4 5)) fun n hn => ?_
  have hsize : 5 < mounted.document.forest.nodes.size := by decide +kernel
  simp only [Operation.operands, List.mem_cons, List.not_mem_nil, or_false] at hn
  rcases hn with rfl | rfl
  · exact Nat.lt_of_succ_lt hsize
  · exact hsize

/-- The marker in the paragraph is none of its nodes, but loses its parent with it. If it is the one of
the paragraph itself, the new paragraph is not put anywhere. -/
theorem nested_marker_is_severed :
    (∃ o s', Reachable nested ∧ outputOf nested 0 = some o ∧ render 0 nested = .ok none s' ∧
      nested.document.forest.Has 7 ∧ 7 ∉ o.nodes ∧
      s'.document.forest.parent? 7 ≠ nested.document.forest.parent? 7) ∧
    ∃ o o' s', Reachable tucked ∧ outputOf tucked 0 = some o ∧
      tucked.document.forest.parent? o.marker = some 4 ∧ render 0 tucked = .ok none s' ∧
      outputOf s' 0 = some o' ∧ o'.nodes ≠ [] ∧
      ∀ n ∈ o'.nodes, s'.document.forest.parent? n = none := by
  constructor
  · have hout : (outputOf nested 0).any (fun o => 7 ∉ o.nodes) = true := by decide +kernel
    have hok : Run.succeedsWith (render 0) nested (fun r s' => r.isNone &&
        s'.document.forest.parent? 7 ≠ nested.document.forest.parent? 7) = true := by
      decide +kernel
    obtain ⟨r, s', hr, hok⟩ := Run.succeedsWith_iff.1 hok
    simp only [Bool.and_eq_true, decide_eq_true_iff] at hok
    cases Option.isNone_iff_eq_none.1 hok.1
    obtain ⟨o, ho, hout⟩ := (Option.any_eq_true _ _).1 hout
    exact ⟨o, s', nested_reachable, ho, hr, (by decide +kernel : 7 < _),
      decide_eq_true_iff.1 hout, hok.2⟩
  · have hout : (outputOf tucked 0).any (fun o => tucked.document.forest.parent? o.marker = some 4) =
        true := by decide +kernel
    have hok : Run.succeedsWith (render 0) tucked (fun r s' => r.isNone &&
        (outputOf s' 0).any fun o' => o'.nodes ≠ [] &&
          o'.nodes.all fun n => s'.document.forest.parent? n = none) = true := by decide +kernel
    obtain ⟨r, s', hr, hok⟩ := Run.succeedsWith_iff.1 hok
    rw [Bool.and_eq_true] at hok
    cases Option.isNone_iff_eq_none.1 hok.1
    obtain ⟨o, ho, hout⟩ := (Option.any_eq_true _ _).1 hout
    obtain ⟨o', ho', hok⟩ := (Option.any_eq_true _ _).1 hok.2
    simp only [Bool.and_eq_true, decide_eq_true_iff, List.all_eq_true] at hok
    exact ⟨o, o', s', tucked_reachable, ho, decide_eq_true_iff.1 hout, hr, ho', hok.1, hok.2⟩

end LiveMarkup.Session
