import LiveMarkup.Proofs.View.Lasting
import LiveMarkup.Proofs.View.Mount

/-! A new instance arrives: while it is made and when its output is put into the document, all nodes
and outputs that were there stay as they are. -/

namespace LiveMarkup.Session

open Forest
open Run (Keeps)

variable {s t u : Session} {i j : InstanceId} {inst : Instance} {o : Output} {r : Recipe}
  {props : Bindings} {isPublic : Bool} {natives : List (String × (List Value → Procedure))}
  {target fragment : NodeId} {nodes : List NodeId} {trees : List (Html Handler)}

/-- The session `t` is `s` while a new instance is made: the others are as they were. -/
structure Arriving (s t : Session) : Prop where
  sound : Sound t
  lasting : Lasting s t
  held : t.held = s.held
  others : ∀ j ≠ s.instances.size, (t.instances[j]?).map bones = (s.instances[j]?).map bones

private theorem outputOf_none (h : s.instances.size ≤ i) : outputOf s i = none := by
  rw [outputOf, Array.getElem?_eq_none h, Option.bind_none]

theorem Arriving.congr (h : skeleton u = skeleton t) (ht : Arriving s t) : Arriving s u :=
  ⟨ht.sound.congr h, ht.lasting.congr h, (congrArg (·.2.1) h).trans ht.held,
    fun j hj => (skeleton_bones h j).trans (ht.others j hj)⟩

/-- No node has been replaced. -/
theorem Arriving.renewed (h : Arriving s t) : Renewed s.document.forest t.document.forest [] := by
  have hnone : replaced s t = [] := by
    rw [List.eq_nil_iff_forall_not_mem]
    intro n hn
    obtain ⟨j, o, ho, hr, -⟩ := mem_replaced.1 hn
    have hb := congrArg (fun b => (b.map (·.2.1)).getD 0) (h.others j (Nat.ne_of_lt (lt_of_outputOf ho)))
    rw [Option.map_map, Option.map_map] at hb
    exact hr hb
  have hl := h.lasting.nodes
  rw [hnone] at hl
  have hout (n : NodeId) : s.document.forest.Outside [] n := fun m hm => absurd hm List.not_mem_nil
  refine ⟨h.sound.linked, hl.size_le, hl.kind, fun n hn => ?_, fun q hq => ?_⟩
  · rw [hl.parent? n hn (hout n), if_neg List.not_mem_nil]
  · simpa using hl.children q hq (hout q)

/-- All there is of the new instance is new. -/
theorem Arriving.new (h : Arriving s t) (ho : outputOf t s.instances.size = some o) :
    ∀ n ∈ o.marker :: o.nodes, ¬ s.document.forest.Has n := by
  have hnone : outputOf s s.instances.size = none := outputOf_none (Nat.le_refl _)
  intro n hn
  rcases List.mem_cons.1 hn with rfl | hn
  · exact h.lasting.born _ o ho hnone
  · refine h.lasting.fresh _ o ho (fun hr => ?_) n hn
    cases ho.symm.trans ((h.lasting.same _ hr).trans hnone)

/-- Whoever is kept was kept before or belongs to the new instance. -/
theorem Arriving.kept_cases (h : Arriving s t) {n : NodeId} (hn : n ∈ kept t) :
    n ∈ kept s ∨ ∃ o, outputOf t s.instances.size = some o ∧ n ∈ o.marker :: o.nodes := by
  rw [Session.mem_kept, h.lasting.root, h.lasting.head, h.lasting.body, h.held] at hn
  rw [Session.mem_kept]
  rcases hn with hn | hn | hn | hn | ⟨j, inst, o, hj, ho, hmem⟩
  · exact .inl (.inl hn)
  · exact .inl (.inr (.inl hn))
  · exact .inl (.inr (.inr (.inl hn)))
  · exact .inl (.inr (.inr (.inr (.inl hn))))
  · by_cases hne : j = s.instances.size
    · exact .inr ⟨o, hne ▸ (outputOf_eq (instance?_eq_some.1 hj).1).trans ho, hmem⟩
    · obtain ⟨inst', hj', ho'⟩ := instance?_of_bones (h.others j hne) hj
      exact .inl (.inr (.inr (.inr (.inr ⟨j, inst', o, hj', ho'.trans ho, hmem⟩))))

/-- Of the nodes that were there before, the same are kept. -/
theorem Arriving.mem_kept (h : Arriving s t) {n : NodeId} (hn : s.document.forest.Has n) :
    n ∈ kept t ↔ n ∈ kept s := by
  constructor
  · intro hk
    rcases h.kept_cases hk with hk | ⟨o, ho, hmem⟩
    · exact hk
    · exact absurd hn (h.new ho n hmem)
  · intro hk
    rw [Session.mem_kept] at hk
    rw [Session.mem_kept, h.lasting.root, h.lasting.head, h.lasting.body, h.held]
    refine hk.imp_right (.imp_right (.imp_right (.imp_right ?_)))
    rintro ⟨j, inst, o, hj, ho, hmem⟩
    have hlt : j < s.instances.size :=
      (Array.getElem?_eq_some_iff.1 (instance?_eq_some.1 hj).1).1
    obtain ⟨inst', hj', ho'⟩ := instance?_of_bones (h.others j (Nat.ne_of_lt hlt)).symm hj
    exact ⟨j, inst', o, hj', ho'.trans ho, hmem⟩

/-! Steps on the way. -/

theorem mem_kept_holding {n : NodeId} : n ∈ kept (holding nodes t) ↔ n ∈ nodes ∨ n ∈ kept t := by
  simp only [Session.mem_kept, holding, List.mem_append]
  tauto

section Steps

variable (hs : Whole s)

include hs in
/-- What the forest of an arriving session may be replaced by. -/
private theorem Arriving.with_forest (h : Arriving s t) {forest : Forest Handler}
    (hr : Renewed s.document.forest forest [])
    (hle : t.document.forest.nodes.size ≤ forest.nodes.size) :
    Arriving s { t with document := { t.document with forest } } where
  sound := h.sound.with_forest hr.linked hle
  lasting :=
    ⟨hr.lasts_nil.mono hs.linked (by simp), h.lasting.renders, h.lasting.same, h.lasting.marker,
      h.lasting.fresh, h.lasting.born, h.lasting.root, h.lasting.head, h.lasting.body⟩
  held := h.held
  others := h.others

include hs in
/-- Letting go while new nodes are kept. -/
theorem Arriving.settleWith (h : Arriving s t) (hnodes : ∀ n ∈ nodes, ¬ s.document.forest.Has n) :
    Arriving s (settleWith nodes t) := by
  have hr : Renewed s.document.forest (t.document.forest.release (kept (holding nodes t))) [] :=
    h.renewed.settle hs.linked hs.settled
    (fun n hn hk => (h.mem_kept hn).1 ((mem_kept_holding.1 hk).resolve_left fun hm => hnodes n hm hn))
    fun n hn hhas => mem_kept_holding.2 (.inr ((h.mem_kept hhas).2 hn))
  refine h.with_forest hs hr ?_
  exact Nat.le_of_eq (h.sound.linked.release _).size.symm

theorem outputOf_joined (r : Recipe) (props : Bindings) (s : Session) (i : InstanceId) :
    outputOf (joined (unborn r props) s) i = outputOf s i := by
  rw [outputOf, joined, Array.getElem?_push]
  split
  · next h => exact (outputOf_none (Nat.le_of_eq h.symm)).symm
  · rfl

private theorem rendersOf_joined (r : Recipe) (props : Bindings) (s : Session) (i : InstanceId) :
    rendersOf (joined (unborn r props) s) i = rendersOf s i := by
  rw [rendersOf, joined, Array.getElem?_push]
  split
  · next h => rw [rendersOf, Array.getElem?_eq_none (Nat.le_of_eq h.symm)]; rfl
  · rfl

theorem kept_joined (r : Recipe) (props : Bindings) (s : Session) :
    kept (joined (unborn r props) s) = kept s := by
  simp [kept, joined, keptBy, unborn]

theorem Sound.joined (h : Sound s) (r : Recipe) (props : Bindings) :
    Sound (Session.joined (unborn r props) s) :=
  h.of_eq rfl (outputOf_joined r props s) (kept_joined r props s ▸ h.kept)

include hs in
/-- An instance without output is no news. -/
theorem joined_arriving (r : Recipe) (props : Bindings) :
    Arriving s (joined (unborn r props) s) where
  sound := hs.toSound.joined r props
  lasting := (Lasting.refl hs.linked).of_eq rfl (outputOf_joined r props s) (rendersOf_joined r props s)
  held := rfl
  others j hj := by rw [joined, Array.getElem?_push, if_neg hj]

theorem kept_setAlive {alive : Bool} {n : NodeId}
    (hn : n ∈ kept (t.modifyInstance i fun inst => { inst with alive })) :
    n ∈ kept t ∨ ∃ o, outputOf t i = some o ∧ n ∈ o.marker :: o.nodes := by
  rcases Session.mem_kept.1 hn with h | h | h | h | ⟨j, inst, o, hj, ho, hmem⟩
  · exact .inl (Session.mem_kept.2 (.inl h))
  · exact .inl (Session.mem_kept.2 (.inr (.inl h)))
  · exact .inl (Session.mem_kept.2 (.inr (.inr (.inl h))))
  · exact .inl (Session.mem_kept.2 (.inr (.inr (.inr (.inl h)))))
  · by_cases hji : j = i
    · subst hji
      have hsame : outputOf (t.modifyInstance j fun inst => { inst with alive }) j = outputOf t j := by
        apply outputOf_modifyInstance
        exact fun _ => rfl
      have hout := (outputOf_eq (instance?_eq_some.1 hj).1).trans ho
      exact .inr ⟨o, hsame.symm.trans hout, hmem⟩
    · rw [instance?, getElem?_modifyInstance_of_ne hji, ← instance?] at hj
      exact .inl (Session.mem_kept.2 (.inr (.inr (.inr (.inr ⟨j, inst, o, hj, ho, hmem⟩)))))

/-- The new instance begins or ceases to live. -/
theorem Arriving.setAlive (h : Arriving s t) (alive : Bool) :
    Arriving s (t.modifyInstance s.instances.size fun inst => { inst with alive }) where
  sound := by
    refine h.sound.of_eq rfl (outputOf_modifyInstance fun _ => rfl) fun n hn => ?_
    rcases kept_setAlive hn with hn | ⟨o, ho, hn⟩
    · exact h.sound.kept n hn
    · exact h.sound.outputs _ o ho n hn
  lasting := h.lasting.of_eq rfl (outputOf_modifyInstance fun _ => rfl)
    (rendersOf_modifyInstance fun _ => rfl)
  held := h.held
  others j hj := by rw [getElem?_modifyInstance_of_ne hj, h.others j hj]

/-! The first pass. -/

/-- The session with the first output of an instance, whose fragment nobody keeps yet. -/
structure Begun (i : InstanceId) (inst : Instance) (fragment : NodeId) (o : Output)
    (trees : List (Html Handler)) (t u : Session) : Prop where
  evaluated : ∃ scope phase events,
    materialize i inst t = .ok trees (aside i scope phase events t) ∧
      u = shown i o u.document.forest (aside i scope phase events t)
  renewed : Renewed t.document.forest u.document.forest []
  has : ∀ n ∈ fragment :: o.marker :: o.nodes, u.document.forest.Has n
  fresh : ∀ n ∈ fragment :: o.marker :: o.nodes, ¬ t.document.forest.Has n
  nodup : (o.marker :: o.nodes).Nodup
  root : u.document.forest.parent? fragment = none
  kind : u.document.forest.kind? fragment = some .fragment
  children : u.document.forest.children fragment = o.nodes ++ [o.marker]
  shows : ShowsAll u.document.forest (fragment + 1) u.document.forest.nodes.size trees o.nodes
  depth : Html.depthOf trees ≤ u.document.forest.nodes.size

theorem render_begun {r : Option NodeId} (ht : Sound t) (hi : t.instances[i]? = some inst)
    (ho : inst.output = none) (hr : render i t = .ok r u) :
    ∃ fragment o trees v, r = some fragment ∧ Begun i inst fragment o trees t v ∧
      u = Session.settleWith [fragment] v := by
  obtain ⟨scope, phase, events, trees, hm, rfl, rfl⟩ := render_first hi ho hr
  have hd : Renewed t.document.forest (dress inst.definition t.document).forest [] :=
    renewed_dressed ht inst.definition
  have hfirst := Output.first_spec hd.linked trees
  generalize Output.first (dress inst.definition t.document).forest trees = first at *
  obtain ⟨fragment, o, forest⟩ := first
  have hg := hfirst.grown 0
  have hn : Renewed (dress inst.definition t.document).forest forest [] :=
    hg.toExtended.renewed hd.linked hg.linked
  have hmem (n : NodeId) (hn : n ∈ o.marker :: o.nodes) : n ∈ o.nodes ++ [o.marker] :=
    (List.perm_append_singleton o.marker o.nodes).mem_iff.2 hn
  refine ⟨fragment, o, trees, _, rfl, ⟨⟨scope, phase, events, hm, shown_dressed ..⟩, hd.trans hn,
    fun n hn => ?_, fun n hn => ?_, ?_, hfirst.root, hfirst.kind, hfirst.children, ?_, hfirst.depth⟩, rfl⟩
  · rcases List.mem_cons.1 hn with rfl | hn
    · exact has_of_mem_children (hfirst.children ▸ hmem o.marker List.mem_cons_self)
    · exact hg.linked.has_child (hfirst.children ▸ hmem n hn)
  · intro hhas
    have hlt : n < (dress inst.definition t.document).forest.nodes.size := hd.has hhas
    rcases List.mem_cons.1 hn with rfl | hn
    · exact absurd hfirst.fragment_eq (Nat.ne_of_lt hlt)
    · exact absurd (hfirst.fresh n (hmem n hn)) (Nat.lt_asymm hlt)
  · rw [← (List.perm_append_singleton o.marker o.nodes).nodup_iff, ← hfirst.children]
    exact hg.linked.nodup fragment
  · have hshows := hfirst.shows
    rw [← hfirst.fragment_eq] at hshows
    exact hshows

theorem Begun.outputOf_self (h : Begun i inst fragment o trees t u) (hi : t.instances[i]? = some inst) :
    outputOf u i = some o := by
  obtain ⟨scope, phase, events, -, he⟩ := h.evaluated
  rw [he]
  exact outputOf_eq (getElem?_shown (getElem?_aside hi scope phase events) o _)

private theorem Begun.rendersOf_self (h : Begun i inst fragment o trees t u)
    (hi : t.instances[i]? = some inst) :
    rendersOf u i = rendersOf t i + 1 := by
  obtain ⟨scope, phase, events, -, he⟩ := h.evaluated
  rw [he, rendersOf_eq hi]
  exact rendersOf_eq (getElem?_shown (getElem?_aside hi scope phase events) o _)

private theorem Begun.others (h : Begun i inst fragment o trees t u) (hj : j ≠ i) :
    u.instances[j]? = t.instances[j]? := by
  obtain ⟨scope, phase, events, -, he⟩ := h.evaluated
  rw [he, getElem?_shown_of_ne hj, getElem?_aside_of_ne hj]

private theorem Begun.outputOf_of_ne (h : Begun i inst fragment o trees t u) (hj : j ≠ i) :
    outputOf u j = outputOf t j := by
  rw [outputOf, h.others hj, outputOf]

theorem Begun.sound (h : Begun i inst fragment o trees t u) (ht : Sound t)
    (hi : t.instances[i]? = some inst) : Sound u := by
  obtain ⟨scope, phase, events, -, he⟩ := h.evaluated
  have hi₁ : (aside i scope phase events t).instances[i]? = some { inst with scope, phase } :=
    getElem?_aside hi scope phase events
  rw [he]
  refine Sound.shown (ht.congr (skeleton_aside scope phase events)) hi₁ h.renewed.linked
    h.renewed.size_le h.nodup fun n hn => .inr ⟨?_, ?_⟩
  · exact h.fresh n (List.mem_cons_of_mem _ hn)
  · exact h.has n (List.mem_cons_of_mem _ hn)

private theorem Begun.lasting (h : Begun i inst fragment o trees t u) (ht : Sound t)
    (hi : t.instances[i]? = some inst) (ho : inst.output = none) : Lasting t u := by
  obtain ⟨scope, phase, events, -, he⟩ := h.evaluated
  have hself := h.rendersOf_self hi
  have hother {j : InstanceId} (hj : j ≠ i) : rendersOf u j = rendersOf t j := by
    rw [rendersOf, h.others hj, rendersOf]
  have hnone : outputOf t i = none := (outputOf_eq hi).trans ho
  refine ⟨h.renewed.lasts_nil.mono ht.linked (by simp), fun j => ?_, fun j hj => ?_,
    fun j o₁ ho₁ => ?_, fun j o₁ ho₁ hne => ?_, fun j o₁ ho₁ hn => ?_, by rw [he]; rfl,
    by rw [he]; rfl, by rw [he]; rfl⟩
  · by_cases hj : j = i
    · subst hj
      omega
    · exact Nat.le_of_eq (hother hj).symm
  · have hji : j ≠ i := by
      rintro rfl
      omega
    exact h.outputOf_of_ne hji
  · have hji : j ≠ i := by
      rintro rfl
      cases ho₁.symm.trans hnone
    exact ⟨o₁, (h.outputOf_of_ne hji).trans ho₁, rfl⟩
  · by_cases hj : j = i
    · subst hj
      cases (h.outputOf_self hi).symm.trans ho₁
      exact fun n hn => h.fresh n (List.mem_cons_of_mem _ (List.mem_cons_of_mem _ hn))
    · exact absurd (hother hj) hne
  · by_cases hj : j = i
    · subst hj
      cases (h.outputOf_self hi).symm.trans ho₁
      exact h.fresh _ (List.mem_cons_of_mem _ List.mem_cons_self)
    · cases ho₁.symm.trans ((h.outputOf_of_ne hj).trans hn)

include hs in
/-- The first output belongs to what arrives. -/
theorem Begun.arriving (h : Begun s.instances.size inst fragment o trees t u) (ht : Arriving s t)
    (hi : t.instances[s.instances.size]? = some inst) (ho : inst.output = none) : Arriving s u where
  sound := h.sound ht.sound hi
  lasting := ht.lasting.trans hs.linked (h.lasting ht.sound hi ho)
  held := by
    obtain ⟨scope, phase, events, -, he⟩ := h.evaluated
    rw [he]
    exact ht.held
  others j hj := by rw [h.others hj, ht.others j hj]

/-- Whoever else lives has an output. -/
private theorem Arriving.mounted (h : Arriving s t) (hs : Whole s)
    (hi : ∀ inst, t.instance? s.instances.size = some inst → inst.output.isSome) :
    ∀ i inst, t.instance? i = some inst → inst.output.isSome := by
  intro j inst hj
  by_cases hne : j = s.instances.size
  · exact hi inst (hne ▸ hj)
  · obtain ⟨inst', hj', ho⟩ := instance?_of_bones (h.others j hne) hj
    exact ho ▸ hs.mounted j inst' hj'

/-- Letting go of what nobody keeps leaves a session sound, and so does keeping further nodes. -/
theorem Sound.settleWith (hs : Sound s) (hn : ∀ n ∈ nodes, s.document.forest.Has n) :
    Sound (holding nodes (Session.settleWith nodes s)) := by
  have r := hs.linked.release (Session.kept (holding nodes s))
  refine hs.of_grown r.linked (Nat.le_of_eq r.size.symm) (fun _ => rfl) fun n hk => ?_
  rcases mem_kept_holding.1 hk with hk | hk
  · exact hn n hk
  · exact hs.kept n hk

/-- What has arrived is whole as soon as what nobody keeps is let go of. -/
private theorem Arriving.whole (h : Arriving s t) (hs : Whole s)
    (hi : ∀ inst, t.instance? s.instances.size = some inst → inst.output.isSome)
    (hnodes : ∀ n ∈ nodes, t.document.forest.Has n) :
    Whole (holding nodes (Session.settleWith nodes t)) :=
  ⟨⟨h.sound.settleWith hnodes, h.mounted hs hi⟩,
    (h.sound.linked.release (kept (holding nodes t))).settled⟩

private theorem holding_settleWith_nil (s : Session) : holding [] (settleWith [] s) = settle s := rfl

/-- What has arrived goes on from what was there as soon as what nobody keeps is let go of. -/
private theorem Arriving.onward (h : Arriving s t) (hs : Whole s)
    (hi : ∀ inst, t.instance? s.instances.size = some inst → inst.output.isSome) :
    Onward s (settle t) := by
  have hwhole : Whole (holding [] (Session.settleWith [] t)) := h.whole hs hi nofun
  have hlasting : Lasting s (Session.settleWith [] t) :=
    (h.settleWith hs fun _ hn => absurd hn List.not_mem_nil).lasting
  rw [holding_settleWith_nil] at hwhole
  exact ⟨hwhole, hlasting⟩

private theorem dressed_arriving (hs : Whole s) (h : Arriving s t) (d : Definition) :
    Arriving s (dressed d t) :=
  ⟨sound_dressed h.sound d, h.lasting.trans hs.linked (lasting_dressed h.sound d), h.held, h.others⟩

/-- A new instance that has been rendered for the first time, whose fragment nobody keeps yet. -/
structure Arrived (s u : Session) (fragment : NodeId) : Prop where
  arriving : Arriving s u
  fresh : ¬ s.document.forest.Has fragment
  whole : Whole (holding [fragment] u)

theorem Arrived.has (h : Arrived s u fragment) : u.document.forest.Has fragment :=
  h.whole.kept fragment (mem_kept_holding.2 (.inl List.mem_cons_self))

private theorem Arrived.mounted (h : Arrived s u fragment) (inst : Instance)
    (hi : u.instance? s.instances.size = some inst) : inst.output.isSome :=
  h.whole.mounted _ inst hi

theorem Arrived.onward (h : Arrived s u fragment) : Onward s (holding [fragment] u) :=
  ⟨h.whole, h.arriving.lasting.of_eq rfl (fun _ => rfl) fun _ => rfl⟩

private theorem skeleton_holding (h : skeleton u = skeleton t) (nodes : List NodeId) :
    skeleton (holding nodes u) = skeleton (holding nodes t) :=
  congrArg (fun k => (k.1, nodes ++ k.2.1, k.2.2)) h

theorem Arrived.congr (h : skeleton u = skeleton t) (ht : Arrived s t fragment) :
    Arrived s u fragment :=
  ⟨ht.arriving.congr h, ht.fresh, ht.whole.congr (skeleton_holding h _)⟩

/-- A first pass that succeeds. -/
theorem Arriving.first {r : Option NodeId} (hs : Whole s) (h : Arriving s t)
    (hi : t.instance? s.instances.size = some inst) (ho : inst.output = none)
    (hr : render s.instances.size t = .ok r u) :
    ∃ fragment, r = some fragment ∧ Arrived s u fragment ∧
      (u.instance? s.instances.size).isSome := by
  obtain ⟨hinst, ha⟩ := instance?_eq_some.1 hi
  obtain ⟨fragment, o, trees, w, rfl, hb, rfl⟩ := render_begun h.sound hinst ho hr
  have hw : Arriving s w := hb.arriving hs h hinst ho
  have hfresh : ¬ s.document.forest.Has fragment := fun hhas =>
    hb.fresh fragment List.mem_cons_self (h.renewed.has hhas)
  have hhas : w.document.forest.Has fragment := hb.has fragment List.mem_cons_self
  have hout : ∀ inst, w.instance? s.instances.size = some inst → inst.output.isSome := by
    intro inst' hi'
    rw [← outputOf_eq (instance?_eq_some.1 hi').1, hb.outputOf_self hinst]
    rfl
  refine ⟨fragment, rfl, ⟨hw.settleWith hs fun n hn => ?_, hfresh, hw.whole hs hout fun n hn => ?_⟩, ?_⟩
  · rw [List.mem_singleton.1 hn]
    exact hfresh
  · rw [List.mem_singleton.1 hn]
    exact hhas
  · obtain ⟨scope, phase, events, -, he⟩ := hb.evaluated
    have hself : w.instances[s.instances.size]? =
        some { inst with scope, phase, output := some o, renders := inst.renders + 1 } := by
      rw [he]
      exact getElem?_shown (getElem?_aside hinst scope phase events) o _
    have hlive : (Session.settleWith [fragment] w).instance? s.instances.size = _ :=
      instance?_eq_some.2 ⟨hself, ha⟩
    exact Option.isSome_of_eq_some hlive

/-- A pass that fails leaves the new instance on its way. -/
private theorem Arriving.render_error {e : Stop} (hs : Whole s) (h : Arriving s t)
    (hi : t.instances[s.instances.size]? = some inst) (hr : render s.instances.size t = .error e u) :
    Arriving s u := by
  rcases skeleton_render_error hi hr with hsk | hsk
  · exact h.congr hsk
  · exact (dressed_arriving hs h _).congr hsk

/-- A further pass, while the fragment is kept. -/
private theorem Arrived.follow (hs : Whole s) (h : Arrived s t fragment)
    (hi : t.instance? s.instances.size = some inst) :
    Arrived s (Run.left (keeping [fragment] (render s.instances.size)) t) fragment := by
  have hi' : (holding [fragment] t).instance? s.instances.size = some inst := hi
  obtain ⟨o, ho⟩ := Option.isSome_iff_exists.1 (h.whole.mounted _ inst hi')
  obtain ⟨hheld, -, -⟩ := left_render hi' ho
  have hu := (onward_closed h.whole.linked).pass (.refl h.whole) hi'
  have hcalm := render_calm.left (i := s.instances.size) (holding [fragment] t)
  rw [left_keeping]
  generalize Run.left (render s.instances.size) (holding [fragment] t) = u at *
  have hlast : Lasting t u :=
    ⟨hu.lasting.nodes, hu.lasting.renders, hu.lasting.same, hu.lasting.marker, hu.lasting.fresh,
      hu.lasting.born, hu.lasting.root, hu.lasting.head, hu.lasting.body⟩
  have hback : holding [fragment] { u with held := t.held } = u := by
    have hsame : u.held = [fragment] ++ t.held := hheld
    simp only [holding, ← hsame]
  have hwhole : Whole (holding [fragment] { u with held := t.held }) := hback.symm ▸ hu.whole
  refine ⟨⟨hu.whole.toSound.of_eq rfl (fun _ => rfl) fun n hn => ?_, ?_, h.arriving.held,
    fun j hj => ?_⟩, h.fresh, hwhole⟩
  · exact hwhole.kept n (mem_kept_holding.2 (.inr hn))
  · exact (h.arriving.lasting.trans hs.linked hlast).of_eq rfl (fun _ => rfl) fun _ => rfl
  · have hsame : u.instances[j]? = t.instances[j]? := calm_getElem?_of_ne hcalm hj
    exact (congrArg (Option.map bones) hsame).trans (h.arriving.others j hj)

private theorem update_arriving (hs : Whole s) (ht : Arriving s t)
    (hi : t.instance? s.instances.size = some inst) (ho : inst.output = none) :
    (∀ r u, update s.instances.size t = .ok r u → ∃ fragment, r = some fragment ∧
      Arrived s u fragment) ∧
    ∀ e u, update s.instances.size t = .error e u → Arriving s u := by
  have hphase (phase : Phase) {u : Session} (hu : Arriving s u) :
      Arriving s (inPhase s.instances.size phase u) := hu.congr (skeleton_inPhase ..)
  have hphase' (phase : Phase) {u : Session} {fragment : NodeId} (hu : Arrived s u fragment) :
      Arrived s (inPhase s.instances.size phase u) fragment := hu.congr (skeleton_inPhase ..)
  have hi₁ := instance?_inPhase (.rendering false) hi
  have hu := update_eq s.instances.size t
  cases hr : render s.instances.size (inPhase s.instances.size (.rendering false) t) with
  | error e u =>
    rw [hr] at hu
    rw [hu]
    refine ⟨nofun, fun e u he => ?_⟩
    cases he
    exact hphase _ ((hphase _ ht).render_error hs (instance?_eq_some.1 hi₁).1 hr)
  | ok r v =>
    rw [hr] at hu
    dsimp only at hu
    obtain ⟨fragment, rfl, hv, hlive⟩ := (hphase _ ht).first hs hi₁ ho hr
    obtain ⟨inst', hi'⟩ := Option.isSome_iff_exists.1 hlive
    split at hu
    · have hnext := (hphase' .following hv).follow hs (instance?_inPhase _ hi')
      rw [show (some fragment).toList = [fragment] from rfl] at hu
      cases hk : keeping [fragment] (render s.instances.size)
          (inPhase s.instances.size .following v) with
      | error e u =>
        rw [hk] at hu
        rw [Run.left_of_error hk] at hnext
        rw [hu]
        refine ⟨nofun, fun e u he => ?_⟩
        cases he
        exact hphase _ hnext.arriving
      | ok a u =>
        rw [hk] at hu
        rw [Run.left_of_ok hk] at hnext
        rw [hu]
        refine ⟨fun r u he => ?_, nofun⟩
        cases he
        exact ⟨fragment, rfl, hphase' _ hnext⟩
    · rw [hu]
      refine ⟨fun r u he => ?_, nofun⟩
      cases he
      exact ⟨fragment, rfl, hphase' _ hv⟩

/-! Making and mounting. -/

/-- What has died before it has arrived leaves nothing behind. -/
private theorem Arriving.dies (hs : Whole s) (h : Arriving s t) :
    Onward s (settle (t.modifyInstance s.instances.size fun inst => { inst with alive := false })) := by
  have hd := h.setAlive false
  have hdead (inst : Instance)
      (hi : (t.modifyInstance s.instances.size fun inst => { inst with alive := false }).instance?
        s.instances.size = some inst) : inst.output.isSome := by
    obtain ⟨hi, ha⟩ := instance?_eq_some.1 hi
    rw [getElem?_modifyInstance, if_pos rfl, Option.map_eq_some_iff] at hi
    obtain ⟨inst', -, rfl⟩ := hi
    cases ha
  exact hd.onward hs hdead

include hs in
/-- The first rendering of an instance that has no output. -/
private theorem firstUpdate_arriving (ht : Arriving s t)
    (hi : t.instance? s.instances.size = some inst) (ho : inst.output = none) :
    (∀ p u, firstUpdate s.instances.size t = .ok p u → Arrived s u p.2) ∧
    ∀ e u, firstUpdate s.instances.size t = .error e u → Onward s u := by
  obtain ⟨hok, herror⟩ := update_arriving hs ht hi ho
  cases hu : update s.instances.size t with
  | ok r u =>
    obtain ⟨fragment, rfl, ha⟩ := hok r u hu
    have hfirst : firstUpdate s.instances.size t = .ok (s.instances.size, fragment) u :=
      Run.tryCatch_of_ok ((Run.bind_of_ok hu).trans rfl)
    rw [hfirst]
    refine ⟨fun p u he => ?_, nofun⟩
    cases he
    exact ha
  | error e u =>
    have hfirst : firstUpdate s.instances.size t =
        .error e (settle (u.modifyInstance s.instances.size fun inst => { inst with alive := false })) :=
      Run.tryCatch_of_error (Run.bind_of_error hu)
    rw [hfirst]
    refine ⟨nofun, fun e u he => ?_⟩
    cases he
    exact (herror e u hu).dies hs

/-- Nothing that precedes the life of an instance shows. -/
theorem prepare_skeleton (k : Document Handler × List NodeId × Array (Option Output × Nat × Bool)) :
    Keeps (fun t => skeleton t = k) (prepare r isPublic natives i) :=
  prepare_keeps (fun scope t ht => (skeleton_withScopeOf scope t).trans ht) (fun _ _ ht => ht)
    fun _ _ ht => ht

include hs in
/-- An instance that has been made but has not lived yet. -/
theorem Arriving.prepared (hu : skeleton u = skeleton (joined (unborn r props) s)) :
    Arriving s u ∧ ∃ inst, u.instances[s.instances.size]? = some inst ∧ inst.output = none := by
  have hself := getElem?_joined (unborn r props) s
  obtain ⟨inst, hi, hbones⟩ := getElem?_of_bones (skeleton_bones hu.symm s.instances.size) hself
  exact ⟨(joined_arriving hs r props).congr hu, inst, hi, congrArg Prod.fst hbones⟩

include hs in
theorem bring_arrived (r : Recipe) (props : Bindings) (isPublic : Bool)
    (natives : List (String × (List Value → Procedure))) :
    (∀ p u, bring r isPublic natives s.instances.size (joined (unborn r props) s) = .ok p u →
      Arrived s u p.2) ∧
    ∀ e u, bring r isPublic natives s.instances.size (joined (unborn r props) s) = .error e u →
      Onward s u := by
  have harr : Arriving s (joined (unborn r props) s) := joined_arriving hs r props
  have hwhole : Whole (joined (unborn r props) s) := by
    refine ⟨⟨harr.sound, harr.mounted hs fun inst hi => ?_⟩, ?_⟩
    · rw [instance?, getElem?_joined] at hi
      cases hi
    · rw [kept_joined]
      exact hs.settled
  have hprepare : Keeps (fun t => skeleton t = skeleton (joined (unborn r props) s))
      (prepare r isPublic natives s.instances.size) := prepare_skeleton _
  rw [bring]
  cases h : prepare r isPublic natives s.instances.size (joined (unborn r props) s) with
  | error e t =>
    rw [Run.bind_of_error h]
    refine ⟨fun p u hp => (by cases hp), fun e u he => ?_⟩
    cases he
    have ht := hprepare.of_error rfl h
    exact ⟨hwhole.congr ht, harr.lasting.congr ht⟩
  | ok a u =>
    rw [Run.bind_of_ok h]
    obtain ⟨hu, inst, hi, ho⟩ := Arriving.prepared hs (hprepare.of_ok rfl h)
    exact firstUpdate_arriving hs (hu.setAlive true)
      (instance?_eq_some.2 ⟨getElem?_modifyInstance_self hi _, rfl⟩) ho

include hs in
/-- The output goes where the user wants it. -/
theorem Arrived.moved (h : Arrived s u fragment) (ht : s.document.forest.Has target) :
    ∃ forest, u.document.forest.append target fragment = .ok forest ∧
      Moved u.document.forest forest target (u.document.forest.moving fragment)
        (· ++ u.document.forest.moving fragment) ∧
      Arriving s { u with document := { u.document with forest } } := by
  have hr := h.arriving.renewed
  have hout : s.document.forest.Outside [] target := fun m hm => absurd hm List.not_mem_nil
  have hc : u.document.forest.contains fragment target = false := by
    by_contra hc
    have hm : fragment ∈ u.document.forest.path target := by simpa [contains] using hc
    exact h.fresh (hr.lasts_nil.under hs.linked (under_of_mem_pathUp hm) ht hout).2
  obtain ⟨forest, hok, hm⟩ := h.arriving.sound.linked.append (hr.has ht) h.has hc
  have hids : ∀ n ∈ u.document.forest.moving fragment, ¬ s.document.forest.Has n := by
    intro n hn hhas
    unfold moving at hn
    split at hn
    · have hp := hr.linked.mem_children.1 hn
      rw [hr.parent? n hhas, if_neg List.not_mem_nil] at hp
      exact h.fresh (hs.linked.has_parent hp)
    · exact h.fresh (List.mem_singleton.1 hn ▸ hhas)
  have hmoved := hr.moved hm hids fun l => by
    rw [List.filter_append, List.append_right_eq_self, List.filter_eq_nil_iff]
    intro n hn
    simpa [Has] using hids n hn
  exact ⟨forest, hok, hm, h.arriving.with_forest hs hmoved (Nat.le_of_eq hm.size.symm)⟩

include hs in
private theorem Arrived.append (h : Arrived s u fragment) (ht : s.document.forest.Has target) :
    ∃ forest, u.document.forest.append target fragment = .ok forest ∧
      Onward s (settle { u with document := { u.document with forest } }) := by
  obtain ⟨forest, hok, -, harr⟩ := h.moved hs ht
  exact ⟨forest, hok, harr.onward hs h.mounted⟩

include hs in
/-- Mounting leaves all nodes and outputs as they are, whether it succeeds or not. -/
theorem mount_onward (r : Recipe) (props : Bindings) (isPublic : Bool)
    (natives : List (String × (List Value → Procedure))) (ht : s.document.forest.Has target) :
    Onward s (Run.left (mount r props isPublic natives target) s) := by
  obtain ⟨hok, herror⟩ := bring_arrived hs r props isPublic natives
  rw [Run.left_congr (mount_eq r props isPublic natives target s)]
  cases hb : bring r isPublic natives s.instances.size (joined (unborn r props) s) with
  | error e u =>
    rw [Run.left_of_error (Run.bind_of_error hb)]
    exact herror e u hb
  | ok p u =>
    obtain ⟨forest, hf, hon⟩ := (hok p u hb).append hs ht
    have hedit : edit (fun f => f.append target p.2) u =
        .ok () (settle { u with document := { u.document with forest } }) := by
      simp only [edit_eq, hf]
    rw [Run.left_congr (Run.bind_of_ok hb), Run.left_bind_pure, Run.left_of_ok hedit]
    exact hon

end Steps

end LiveMarkup.Session
