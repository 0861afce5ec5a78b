import LiveMarkup.Proofs.View.Patch
import LiveMarkup.Proofs.View.Write

/-! Sound sessions: the forest is linked, and the outputs of the instances are distinct nodes of it. A
pass of rendering replaces the nodes of one output and keeps the session sound. -/

namespace LiveMarkup.Session

open Forest

variable {s s' t : Session} {i j : InstanceId} {inst : Instance} {o o' : Output}

def outputOf (s : Session) (i : InstanceId) : Option Output := (s.instances[i]?).bind (·.output)

def rendersOf (s : Session) (i : InstanceId) : Nat := ((s.instances[i]?).map (·.renders)).getD 0

/-- The forest is linked, whoever is kept is a node, and no node belongs to two outputs or twice to
one. -/
structure Sound (s : Session) : Prop where
  linked : s.document.forest.Linked
  kept : ∀ n ∈ kept s, s.document.forest.Has n
  outputs : ∀ i o, outputOf s i = some o → ∀ n ∈ o.marker :: o.nodes, s.document.forest.Has n
  nodup : ∀ i o, outputOf s i = some o → (o.marker :: o.nodes).Nodup
  disjoint : ∀ i j o o', i ≠ j → outputOf s i = some o → outputOf s j = some o' →
    ∀ n ∈ o.marker :: o.nodes, n ∉ o'.marker :: o'.nodes

/-- A sound session in which whoever is alive has been rendered. -/
structure Standing (s : Session) : Prop extends Sound s where
  mounted : ∀ i inst, s.instance? i = some inst → inst.output.isSome

/-- A sound session between the things that users do: nobody who is kept has a parent that is out of
use. -/
structure Whole (s : Session) : Prop extends Standing s where
  settled : s.document.forest.Settled s.kept

theorem outputOf_eq (hi : s.instances[i]? = some inst) : outputOf s i = inst.output := by
  rw [outputOf, hi, Option.bind_some]

theorem rendersOf_eq (hi : s.instances[i]? = some inst) : rendersOf s i = inst.renders := by
  rw [rendersOf, hi, Option.map_some, Option.getD_some]

theorem outputOf_modifyInstance {change : Instance → Instance}
    (h : ∀ inst, (change inst).output = inst.output) (j : InstanceId) :
    outputOf (s.modifyInstance i change) j = outputOf s j := by
  rw [outputOf, getElem?_modifyInstance, outputOf]
  split
  · rw [Option.bind_map]
    exact congrArg _ (funext h)
  · rfl

theorem rendersOf_modifyInstance {change : Instance → Instance}
    (h : ∀ inst, (change inst).renders = inst.renders) (j : InstanceId) :
    rendersOf (s.modifyInstance i change) j = rendersOf s j := by
  rw [rendersOf, getElem?_modifyInstance, rendersOf]
  split
  · rw [Option.map_map]
    exact congrArg (fun f => (Option.map f _).getD 0) (funext h)
  · rfl

theorem lt_of_outputOf (h : outputOf s i = some o) : i < s.instances.size := by
  obtain ⟨inst, hi, -⟩ := Option.bind_eq_some_iff.1 h
  exact (Array.getElem?_eq_some_iff.1 hi).1

theorem mem_kept {n : NodeId} :
    n ∈ kept s ↔ n = s.document.root ∨ n = s.document.head ∨ n = s.document.body ∨ n ∈ s.held ∨
      ∃ (i : InstanceId) (inst : Instance) (o : Output), s.instance? i = some inst ∧
        inst.output = some o ∧ n ∈ o.marker :: o.nodes := by
  have hby : n ∈ s.instances.toList.flatMap keptBy ↔
      ∃ (i : InstanceId) (inst : Instance) (o : Output), s.instance? i = some inst ∧
        inst.output = some o ∧ n ∈ o.marker :: o.nodes := by
    rw [List.mem_flatMap]
    constructor
    · rintro ⟨inst, hi, hn⟩
      obtain ⟨i, hi⟩ := Array.mem_iff_getElem?.1 (Array.mem_toList_iff.1 hi)
      unfold keptBy at hn
      split at hn
      · next o ho =>
        split at hn
        · next ha => exact ⟨i, inst, o, instance?_eq_some.2 ⟨hi, ha⟩, ho, hn⟩
        · cases hn
      · cases hn
    · rintro ⟨i, inst, o, hi, ho, hn⟩
      obtain ⟨hi, ha⟩ := instance?_eq_some.1 hi
      refine ⟨inst, Array.mem_toList_iff.2 (Array.mem_iff_getElem?.2 ⟨i, hi⟩), ?_⟩
      rw [keptBy, ho]
      dsimp only
      rw [if_pos ha]
      exact hn
  simp only [kept, List.mem_cons, List.mem_append, hby, List.cons_append]

/-! What evaluation and the frame leave alone. -/

def bones (inst : Instance) : Option Output × Nat × Bool := (inst.output, inst.renders, inst.alive)

def skeleton (s : Session) : Document Handler × List NodeId × Array (Option Output × Nat × Bool) :=
  (s.document, s.held, s.instances.map bones)

theorem skeleton_modifyInstance {change : Instance → Instance}
    (h : ∀ inst, bones (change inst) = bones inst) :
    skeleton (s.modifyInstance i change) = skeleton s := by
  have hmap : (s.instances.modify i change).map bones = s.instances.map bones := by
    refine Array.ext_getElem? fun k => ?_
    rw [Array.getElem?_map, Array.getElem?_map, Array.getElem?_modify]
    split
    · rw [Option.map_map]
      exact congrFun (congrArg _ (funext h)) _
    · rfl
  simp only [skeleton, modifyInstance, hmap]

theorem skeleton_aside (scope : Scope) (phase : Phase) (events : List Event) :
    skeleton (aside i scope phase events s) = skeleton s :=
  skeleton_modifyInstance (s := s) (i := i) fun inst => (rfl : bones { inst with scope, phase } = bones inst)

theorem skeleton_withScopeOf (scope : Scope) (s : Session) :
    skeleton (withScopeOf i scope s) = skeleton s :=
  skeleton_modifyInstance (s := s) (i := i) fun inst => (rfl : bones { inst with scope } = bones inst)

theorem skeleton_document (h : skeleton t = skeleton s) : t.document = s.document :=
  congrArg Prod.fst h

theorem skeleton_bones (h : skeleton t = skeleton s) (i : InstanceId) :
    (t.instances[i]?).map bones = (s.instances[i]?).map bones := by
  have hmap : t.instances.map bones = s.instances.map bones := congrArg (·.2.2) h
  have hi := congrArg (·[i]?) hmap
  simpa only [Array.getElem?_map] using hi

theorem outputOf_congr (h : skeleton t = skeleton s) (i : InstanceId) :
    outputOf t i = outputOf s i := by
  have hi := congrArg (Option.bind · Prod.fst) (skeleton_bones h i)
  rw [Option.bind_map, Option.bind_map] at hi
  exact hi

theorem rendersOf_congr (h : skeleton t = skeleton s) (i : InstanceId) :
    rendersOf t i = rendersOf s i := by
  have hi := congrArg (fun b => (b.map (·.2.1)).getD 0) (skeleton_bones h i)
  rw [Option.map_map, Option.map_map] at hi
  exact hi

theorem kept_congr (h : skeleton t = skeleton s) : kept t = kept s := by
  have hdocument := skeleton_document h
  have hheld : t.held = s.held := congrArg (·.2.1) h
  have hmap : t.instances.map bones = s.instances.map bones := congrArg (·.2.2) h
  have hby (u : Session) : u.instances.toList.flatMap keptBy =
      (u.instances.map bones).toList.flatMap fun b =>
        b.1.elim [] fun o => if b.2.2 then o.marker :: o.nodes else [] := by
    rw [Array.toList_map, List.flatMap_map]
    refine congrArg (List.flatMap · u.instances.toList) (funext fun inst => ?_)
    rw [keptBy, bones]
    cases inst.output <;> rfl
  rw [kept, kept, hby t, hby s, hdocument, hheld, hmap]

theorem getElem?_of_bones (h : (t.instances[i]?).map bones = (s.instances[i]?).map bones)
    (hi : t.instances[i]? = some inst) :
    ∃ inst', s.instances[i]? = some inst' ∧ bones inst' = bones inst := by
  rw [hi, Option.map_some] at h
  exact Option.map_eq_some_iff.1 h.symm

theorem instance?_of_bones (h : (t.instances[i]?).map bones = (s.instances[i]?).map bones)
    (hi : t.instance? i = some inst) :
    ∃ inst', s.instance? i = some inst' ∧ inst'.output = inst.output := by
  obtain ⟨hi, ha⟩ := instance?_eq_some.1 hi
  obtain ⟨inst', hi', he⟩ := getElem?_of_bones h hi
  refine ⟨inst', instance?_eq_some.2 ⟨hi', ?_⟩, congrArg Prod.fst he⟩
  have halive : inst'.alive = inst.alive := congrArg (·.2.2) he
  rw [halive, ha]

/-- Further nodes do not matter, nor who else is kept as long as it was a node before. -/
theorem Sound.of_grown (hs : Sound s) (hl : t.document.forest.Linked)
    (hle : s.document.forest.nodes.size ≤ t.document.forest.nodes.size)
    (ho : ∀ i, outputOf t i = outputOf s i)
    (hk : ∀ n ∈ Session.kept t, s.document.forest.Has n) : Sound t where
  linked := hl
  kept n hn := Nat.lt_of_lt_of_le (hk n hn) hle
  outputs i o h n hn := Nat.lt_of_lt_of_le (hs.outputs i o (ho i ▸ h) n hn) hle
  nodup i o h := hs.nodup i o (ho i ▸ h)
  disjoint i j o o' hij h h' := hs.disjoint i j o o' hij (ho i ▸ h) (ho j ▸ h')

theorem Sound.of_eq (hs : Sound s) (hd : t.document.forest = s.document.forest)
    (ho : ∀ i, outputOf t i = outputOf s i)
    (hk : ∀ n ∈ Session.kept t, s.document.forest.Has n) : Sound t :=
  hs.of_grown (hd ▸ hs.linked) (Nat.le_of_eq (by rw [hd])) ho hk

theorem Sound.congr (h : skeleton t = skeleton s) (hs : Sound s) : Sound t :=
  hs.of_eq (by rw [skeleton_document h]) (outputOf_congr h) (kept_congr h ▸ hs.kept)

theorem Standing.congr (h : skeleton t = skeleton s) (hs : Standing s) : Standing t where
  toSound := hs.toSound.congr h
  mounted i inst hi := by
    obtain ⟨inst', hi', ho⟩ := instance?_of_bones (skeleton_bones h i) hi
    exact ho ▸ hs.mounted i inst' hi'

theorem Whole.congr (h : skeleton t = skeleton s) (hs : Whole s) : Whole t where
  toStanding := hs.toStanding.congr h
  settled := by
    rw [skeleton_document h, kept_congr h]
    exact hs.settled

/-- A forest with more nodes. -/
theorem Sound.with_forest (hs : Sound s) {forest : Forest Handler} (hl : forest.Linked)
    (hle : s.document.forest.nodes.size ≤ forest.nodes.size) :
    Sound { s with document := { s.document with forest } } :=
  hs.of_grown hl hle (fun _ => rfl) hs.kept

/-- Letting go makes a session whole. -/
theorem Standing.settle (hs : Standing s) : Whole (settle s) where
  toSound := hs.toSound.with_forest (hs.linked.release _).linked
    (Nat.le_of_eq (hs.linked.release _).size.symm)
  mounted := hs.mounted
  settled := (hs.linked.release _).settled

/-! Stylesheets. -/

private theorem kept_dressed (d : Definition) (s : Session) : kept (dressed d s) = kept s := by
  obtain ⟨styles, h, -⟩ := dress_styled d s.document
  simp only [kept, dressed, h.root_eq, h.head_eq, h.body_eq]

theorem shown_dressed (d : Definition) (o : Output) (forest : Forest Handler) (s : Session) :
    shown i o forest (dressed d s) = shown i o forest s := by
  obtain ⟨styles, h, -⟩ := dress_styled d s.document
  simp only [shown, dressed, modifyInstance, h.root_eq, h.head_eq, h.body_eq]

/-- Adding a stylesheet changes no node. -/
theorem renewed_dressed (hs : Sound s) (d : Definition) :
    Renewed s.document.forest (dressed d s).document.forest [] := by
  obtain ⟨styles, h, -⟩ := dress_styled d s.document
  have hhead : s.document.forest.Has s.document.head := hs.kept _ (mem_kept.2 (.inr (.inl rfl)))
  exact h.toExtended.renewed hs.linked (dress_linked hs.linked hhead d)

theorem sound_dressed (hs : Sound s) (d : Definition) : Sound (dressed d s) := by
  have h := renewed_dressed hs d
  refine ⟨h.linked, fun n hn => ?_, fun i o ho n hn => h.has (hs.outputs i o ho n hn), hs.nodup,
    hs.disjoint⟩
  rw [kept_dressed] at hn
  exact h.has (hs.kept n hn)

theorem standing_dressed (hs : Standing s) (d : Definition) : Standing (dressed d s) :=
  ⟨sound_dressed hs.toSound d, hs.mounted⟩

theorem whole_dressed (hs : Whole s) (d : Definition) : Whole (dressed d s) := by
  have h := renewed_dressed hs.toSound d
  refine ⟨standing_dressed hs.toStanding d, fun n hstray => ?_⟩
  rw [kept_dressed] at hstray
  obtain ⟨-, q, -, hin⟩ := h.stray hs.linked hs.settled (fun _ _ hn => hn) (fun _ hn _ _ => hn)
    (hs.kept n hstray.1) hstray
  exact hin fun m hm => absurd hm List.not_mem_nil

/-- A pass that fails adds no more than a stylesheet. -/
theorem skeleton_render_error {e : Stop} (hi : s.instances[i]? = some inst)
    (hr : render i s = .error e s') :
    skeleton s' = skeleton s ∨ skeleton s' = skeleton (dressed inst.definition s) := by
  obtain ⟨scope, phase, events, document, rfl, hd⟩ := render_error hi hr
  have hrest : (skeleton (aside i scope phase events s)).2 = (skeleton s).2 :=
    congrArg Prod.snd (skeleton_aside scope phase events)
  have hsame : skeleton { aside i scope phase events s with document } =
      (document, (skeleton s).2) := congrArg (Prod.mk document) hrest
  rw [hsame]
  rcases hd with rfl | rfl
  · exact .inl rfl
  · exact .inr rfl

/-! Passes. -/

theorem kept_of_shown {n : NodeId} {forest : Forest Handler} (hi : s.instances[i]? = some inst)
    (hn : n ∈ kept (shown i o forest s)) : n ∈ kept s ∨ n ∈ o.marker :: o.nodes := by
  rcases mem_kept.1 hn with h | h | h | h | ⟨j, inst', o', hj, ho', hmem⟩
  · exact .inl (mem_kept.2 (.inl h))
  · exact .inl (mem_kept.2 (.inr (.inl h)))
  · exact .inl (mem_kept.2 (.inr (.inr (.inl h))))
  · exact .inl (mem_kept.2 (.inr (.inr (.inr (.inl h)))))
  · by_cases hji : j = i
    · subst hji
      obtain ⟨hj, -⟩ := instance?_eq_some.1 hj
      rw [getElem?_shown hi, Option.some.injEq] at hj
      subst hj
      cases ho'
      exact .inr hmem
    · rw [instance?, getElem?_shown_of_ne hji, ← instance?] at hj
      exact .inl (mem_kept.2 (.inr (.inr (.inr (.inr ⟨j, inst', o', hj, ho', hmem⟩)))))

/-- New nodes in the place of an instance, whose marker is new or the earlier one. -/
theorem Sound.shown (hs : Sound s) (hi : s.instances[i]? = some inst) {forest : Forest Handler}
    (hl : forest.Linked) (hle : s.document.forest.nodes.size ≤ forest.nodes.size)
    (hnodup : (o.marker :: o.nodes).Nodup)
    (hnew : ∀ n ∈ o.marker :: o.nodes, (∃ o₁, inst.output = some o₁ ∧ n = o₁.marker) ∨
      ¬ s.document.forest.Has n ∧ forest.Has n) : Sound (shown i o forest s) := by
  have hself : outputOf (Session.shown i o forest s) i = some o := outputOf_eq (getElem?_shown hi o forest)
  have hhas {n : NodeId} (hn : s.document.forest.Has n) : forest.Has n := Nat.lt_of_lt_of_le hn hle
  have hout {j : InstanceId} {o₁ : Output} (ho : outputOf (Session.shown i o forest s) j = some o₁) :
      j = i ∧ o₁ = o ∨ j ≠ i ∧ outputOf s j = some o₁ := by
    by_cases hj : j = i
    · subst hj
      exact .inl ⟨rfl, Option.some.inj (ho.symm.trans hself)⟩
    · rw [outputOf, getElem?_shown_of_ne hj] at ho
      exact .inr ⟨hj, ho⟩
  have hmine (n : NodeId) (hn : n ∈ o.marker :: o.nodes) : forest.Has n := by
    rcases hnew n hn with ⟨o₁, ho₁, rfl⟩ | ⟨-, hn⟩
    · exact hhas (hs.outputs i o₁ ((outputOf_eq hi).trans ho₁) _ List.mem_cons_self)
    · exact hn
  have hapart {j : InstanceId} {o₁ : Output} (hj : j ≠ i) (ho : outputOf s j = some o₁) (n : NodeId)
      (hn : n ∈ o.marker :: o.nodes) : n ∉ o₁.marker :: o₁.nodes := by
    intro hm
    rcases hnew n hn with ⟨o₂, ho₂, rfl⟩ | ⟨hn, -⟩
    · exact hs.disjoint i j o₂ o₁ hj.symm ((outputOf_eq hi).trans ho₂) ho _ List.mem_cons_self hm
    · exact hn (hs.outputs j o₁ ho n hm)
  refine ⟨hl, fun n hn => ?_, fun j o₁ ho n hn => ?_, fun j o₁ ho => ?_,
    fun j k o₁ o₂ hjk ho ho' n hn hm => ?_⟩
  · rcases kept_of_shown hi hn with hn | hn
    · exact hhas (hs.kept n hn)
    · exact hmine n hn
  · rcases hout ho with ⟨-, rfl⟩ | ⟨-, ho⟩
    · exact hmine n hn
    · exact hhas (hs.outputs j o₁ ho n hn)
  · rcases hout ho with ⟨-, rfl⟩ | ⟨-, ho⟩
    · exact hnodup
    · exact hs.nodup j o₁ ho
  · rcases hout ho with ⟨rfl, rfl⟩ | ⟨hj, hj'⟩
    · rcases hout ho' with ⟨rfl, -⟩ | ⟨hk, hk'⟩
      · exact hjk rfl
      · exact hapart hk hk' n hn hm
    · rcases hout ho' with ⟨-, rfl⟩ | ⟨-, hk'⟩
      · exact hapart hj hj' n hm hn
      · exact hs.disjoint j k o₁ o₂ hjk hj' hk' n hn hm

private theorem Standing.shown (hs : Standing s) {forest : Forest Handler}
    (h : Sound (shown i o forest s)) (hi : s.instances[i]? = some inst) :
    Standing (shown i o forest s) where
  toSound := h
  mounted j inst' hj := by
    by_cases hji : j = i
    · subst hji
      have hself := (instance?_eq_some.1 hj).1
      rw [getElem?_shown hi, Option.some.injEq] at hself
      rw [← hself]
      rfl
    · rw [instance?, getElem?_shown_of_ne hji, ← instance?] at hj
      exact hs.mounted j inst' hj

private theorem kept_shown {n : NodeId} {forest : Forest Handler} (hn : n ∈ kept s)
    (hi : s.instances[i]? = some inst)
    (hold : ∀ o', inst.output = some o' → n ∈ o'.marker :: o'.nodes → n ∈ o.marker :: o.nodes) :
    n ∈ kept (shown i o forest s) := by
  rcases mem_kept.1 hn with h | h | h | h | ⟨j, inst', o', hj, ho', hmem⟩
  · exact mem_kept.2 (.inl h)
  · exact mem_kept.2 (.inr (.inl h))
  · exact mem_kept.2 (.inr (.inr (.inl h)))
  · exact mem_kept.2 (.inr (.inr (.inr (.inl h))))
  · refine mem_kept.2 (.inr (.inr (.inr (.inr ?_))))
    by_cases hji : j = i
    · subst hji
      obtain ⟨hj, ha⟩ := instance?_eq_some.1 hj
      cases hi.symm.trans hj
      exact ⟨j, _, o, instance?_eq_some.2 ⟨getElem?_shown hi o forest, ha⟩, rfl, hold o' ho' hmem⟩
    · refine ⟨j, inst', o', ?_, ho', hmem⟩
      rw [instance?, getElem?_shown_of_ne hji, ← instance?]
      exact hj

/-- A pass that succeeds replaces the nodes of its instance and then lets go of what nobody keeps. -/
theorem render_replaced {r : Option NodeId} (hs : Sound s) (hi : s.instances[i]? = some inst)
    (ho : inst.output = some o) (hr : render i s = .ok r s') :
    r = none ∧ ∃ o' p trees forest scope phase events,
      o'.marker = o.marker ∧ s.document.forest.parent? o.marker = some p ∧
      materialize i inst s = .ok trees (aside i scope phase events s) ∧
      Replaced (dress inst.definition s.document).forest forest o.marker p o.nodes o'.nodes trees ∧
      s' = settle (shown i o' forest (aside i scope phase events s)) := by
  obtain ⟨rfl, scope, phase, events, trees, o', forest, hm, hreplace, rfl⟩ := render_ok hi ho hr
  obtain ⟨styles, hstyled, hstyles⟩ := dress_styled inst.definition s.document
  have hl : (dress inst.definition s.document).forest.Linked :=
    (renewed_dressed hs inst.definition).linked
  have hout : outputOf s i = some o := (outputOf_eq hi).trans ho
  have hmarker : s.document.forest.Has o.marker := hs.outputs i o hout _ List.mem_cons_self
  have hold : ∀ n ∈ o.nodes, (dress inst.definition s.document).forest.Has n := fun n hn =>
    hstyled.has (hs.outputs i o hout n (List.mem_cons_of_mem _ hn))
  cases hp : (dress inst.definition s.document).forest.parent? o.marker with
  | none =>
    rw [Output.replace_detached hl (hstyled.has hmarker) hp] at hreplace
    cases hreplace
  | some p =>
    obtain ⟨o'', forest'', hreplace', hsame, hR⟩ := Output.replace_ok hl hp hold trees
    rw [hreplace'] at hreplace
    cases hreplace
    refine ⟨rfl, o', p, trees, forest, scope, phase, events, hsame, ?_, hm, hR, ?_⟩
    · rw [← hstyled.parent? _ hmarker, hp]
    · rw [shown_dressed]

/-- Replacing the nodes of an instance keeps a session sound. -/
theorem Sound.replaced {p : NodeId} {trees : List (Html Handler)} {forest : Forest Handler}
    (hs : Sound s) (hi : s.instances[i]? = some inst) (ho : inst.output = some o)
    (hsame : o'.marker = o.marker)
    (hR : Replaced (dress inst.definition s.document).forest forest o.marker p o.nodes o'.nodes trees)
    (scope : Scope) (phase : Phase) (events : List Event) :
    Sound (Session.shown i o' forest (aside i scope phase events s)) := by
  have hd := renewed_dressed hs inst.definition
  have hi₁ : (aside i scope phase events s).instances[i]? = some { inst with scope, phase } :=
    getElem?_aside hi scope phase events
  have hfresh : ∀ n ∈ o'.nodes, ¬ s.document.forest.Has n := fun n hn h => hR.fresh n hn (hd.has h)
  have hmarker : s.document.forest.Has o'.marker := by
    rw [hsame]
    exact hs.outputs i o ((outputOf_eq hi).trans ho) _ List.mem_cons_self
  refine Sound.shown (hs.congr (skeleton_aside scope phase events)) hi₁ hR.linked
    (Nat.le_trans hd.size_le hR.size_le) ?_ fun n hn => ?_
  · exact List.nodup_cons.2 ⟨fun hm => hfresh _ hm hmarker, hR.nodup⟩
  · rcases List.mem_cons.1 hn with rfl | hn
    · exact .inl ⟨o, ho, hsame⟩
    · exact .inr ⟨hfresh n hn, (hR.shows.range n hn).2⟩

/-- A pass that succeeds keeps a session standing. -/
theorem Standing.pass {r : Option NodeId} (hs : Standing s) (hi : s.instances[i]? = some inst)
    (ho : inst.output = some o) (hr : render i s = .ok r s') :
    Whole s' ∧ s.document.forest.nodes.size ≤ s'.document.forest.nodes.size := by
  obtain ⟨rfl, o', p, trees, forest, scope, phase, events, hsame, -, -, hR, rfl⟩ :=
    render_replaced hs.toSound hi ho hr
  have hle := Nat.le_trans (renewed_dressed hs.toSound inst.definition).size_le hR.size_le
  have hi₁ : (aside i scope phase events s).instances[i]? = some { inst with scope, phase } :=
    getElem?_aside hi scope phase events
  have hs₁ : Standing (aside i scope phase events s) := hs.congr (skeleton_aside scope phase events)
  have hshown := hs.toSound.replaced hi ho hsame hR scope phase events
  refine ⟨(hs₁.shown hshown hi₁).settle, ?_⟩
  exact Nat.le_trans hle (Nat.le_of_eq (hR.linked.release _).size.symm)

/-- The session `s'` is `s` after a pass of an instance: the program has been evaluated, and the nodes
that show its trees have taken the place of the earlier ones. -/
structure Passed (i : InstanceId) (inst : Instance) (o o' : Output) (p : NodeId)
    (styles : List NodeId) (trees : List (Html Handler)) (s s' : Session) : Prop where
  marker : o'.marker = o.marker
  evaluated : ∃ scope phase events,
    materialize i inst s = .ok trees (aside i scope phase events s) ∧
      s' = shown i o' s'.document.forest (aside i scope phase events s)
  patched : Patched s.document.forest s'.document.forest s.document.head o.marker p styles o.nodes
    o'.nodes (kept s') trees
  styles : StylesOf inst.definition s'.document.forest styles

/-- In every sound session in which nobody who is kept has a parent that is out of use, a pass replaces
the output of its instance and leaves everything else as it is. -/
theorem Sound.render_passed {r : Option NodeId} (hs : Sound s)
    (hsettled : s.document.forest.Settled s.kept) (hi : s.instance? i = some inst)
    (ho : inst.output = some o) (hr : render i s = .ok r s') :
    r = none ∧ ∃ o' p styles trees, Passed i inst o o' p styles trees s s' := by
  obtain ⟨hi, ha⟩ := instance?_eq_some.1 hi
  obtain ⟨rfl, o', p, trees, forest, scope, phase, events, hsame, hp, hm, hR, rfl⟩ :=
    render_replaced hs hi ho hr
  obtain ⟨styles, hstyled, hstyles⟩ := dress_styled inst.definition s.document
  have hl : (dress inst.definition s.document).forest.Linked :=
    (renewed_dressed hs inst.definition).linked
  have hhead : s.document.forest.Has s.document.head := hs.kept _ (mem_kept.2 (.inr (.inl rfl)))
  have hout : outputOf s i = some o := (outputOf_eq hi).trans ho
  have hold : ∀ n ∈ o.nodes, s.document.forest.Has n := fun n hn =>
    hs.outputs i o hout n (List.mem_cons_of_mem _ hn)
  have hmarker : o.marker ∈ Session.kept s := mem_kept.2 (.inr (.inr (.inr (.inr
    ⟨i, inst, o, instance?_eq_some.2 ⟨hi, ha⟩, ho, List.mem_cons_self⟩))))
  generalize hu : Session.shown i o' forest (aside i scope phase events s) = u
  have hi₁ : (aside i scope phase events s).instances[i]? = some { inst with scope, phase } :=
    getElem?_aside hi scope phase events
  have hkept : Session.kept (aside i scope phase events s) = Session.kept s :=
    kept_congr (skeleton_aside scope phase events)
  have hback {n : NodeId} (hn : n ∈ Session.kept u) : n ∈ Session.kept s ∨ n ∈ o'.nodes := by
    rw [← hu] at hn
    rcases kept_of_shown hi₁ hn with hn | hn
    · exact .inl (hkept ▸ hn)
    · rcases List.mem_cons.1 hn with rfl | hn
      · exact .inl (hsame ▸ hmarker)
      · exact .inr hn
  have hkeep {n : NodeId} (hn : n ∈ Session.kept s) (hnold : n ∉ o.nodes) : n ∈ Session.kept u := by
    rw [← hkept] at hn
    rw [← hu]
    refine kept_shown hn hi₁ fun o₁ ho₁ hmem => ?_
    cases ho.symm.trans ho₁
    rw [hsame]
    exact List.mem_cons.2 (.inl ((List.mem_cons.1 hmem).resolve_right hnold))
  have hfresh {n : NodeId} (hn : n ∈ o'.nodes) : ¬ s.document.forest.Has n := fun h =>
    hR.fresh n hn (hstyled.has h)
  have hnew : ∀ n ∈ o'.nodes, n ∈ Session.kept u := fun n hn => by
    rw [← hu]
    exact mem_kept.2 (.inr (.inr (.inr (.inr ⟨i, _, o',
      instance?_eq_some.2 ⟨getElem?_shown hi₁ o' forest, ha⟩, rfl, List.mem_cons_of_mem _ hn⟩))))
  have hmold : o.marker ∉ o.nodes := (List.nodup_cons.1 (hs.nodup i o hout)).1
  have hpatched := hstyled.toExtended.patched hs.linked hsettled hR hold
    (fun n hn hk => (hback hk).resolve_right fun hm => hfresh hm hn)
    (fun n hn _ hnold => hkeep hn hnold)
    (fun n hn => (hback hn).imp_left fun hn => hs.kept n hn) hnew hl hp hmarker hmold hhead
  have hforest : u.document.forest = forest := by rw [← hu]; rfl
  refine ⟨rfl, o', p, styles, trees, hsame, ⟨scope, phase, events, hm, ?_⟩, ?_, hstyles.1,
    fun n hn => ?_⟩
  · rw [← hu]
    rfl
  · rw [← hforest] at hpatched
    exact hpatched
  · obtain ⟨sheet, hsheet, hkind⟩ := hstyles.2 n hn
    have hn₁ : (dress inst.definition s.document).forest.Has n := by
      by_contra hnot
      rw [kind?, node?_eq_none.2 hnot] at hkind
      cases hkind
    refine ⟨sheet, hsheet, ?_⟩
    have hk := (hR.linked.release (Session.kept u)).kind n
    rw [hR.kind n hn₁, hkind, ← hforest] at hk
    exact hk

/-! What a pass has changed. -/

section Passed

variable {p : NodeId} {styles : List NodeId} {trees : List (Html Handler)}

private theorem Passed.self (h : Passed i inst o o' p styles trees s s')
    (hi : s.instances[i]? = some inst) :
    ∃ scope phase, s'.instances[i]? =
      some { inst with scope, phase, output := some o', renders := inst.renders + 1 } := by
  obtain ⟨scope, phase, events, -, he⟩ := h.evaluated
  rw [he]
  exact ⟨scope, phase, getElem?_shown (getElem?_aside hi scope phase events) o' _⟩

private theorem Passed.others (h : Passed i inst o o' p styles trees s s') (hj : j ≠ i) :
    s'.instances[j]? = s.instances[j]? := by
  obtain ⟨scope, phase, events, -, he⟩ := h.evaluated
  rw [he, getElem?_shown_of_ne hj, getElem?_aside_of_ne hj]

theorem Passed.outputOf_self (h : Passed i inst o o' p styles trees s s')
    (hi : s.instances[i]? = some inst) : outputOf s' i = some o' := by
  obtain ⟨scope, phase, hi'⟩ := h.self hi
  exact outputOf_eq hi'

theorem Passed.outputOf_of_ne (h : Passed i inst o o' p styles trees s s') (hj : j ≠ i) :
    outputOf s' j = outputOf s j := by
  rw [outputOf, h.others hj, outputOf]

theorem Passed.rendersOf_self (h : Passed i inst o o' p styles trees s s')
    (hi : s.instances[i]? = some inst) : rendersOf s' i = rendersOf s i + 1 := by
  obtain ⟨scope, phase, hi'⟩ := h.self hi
  rw [rendersOf_eq hi', rendersOf_eq hi]

theorem Passed.rendersOf_of_ne (h : Passed i inst o o' p styles trees s s') (hj : j ≠ i) :
    rendersOf s' j = rendersOf s j := by
  rw [rendersOf, h.others hj, rendersOf]

end Passed

end LiveMarkup.Session
