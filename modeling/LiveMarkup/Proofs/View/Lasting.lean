import LiveMarkup.Proofs.View.Closed

/-! What lasts over passes, updates and frames: all nodes that are not below the earlier output of an
instance that has been rendered again. -/

namespace LiveMarkup.Session

open Forest

variable {s s₁ s₂ s' t : Session} {i j : InstanceId} {inst : Instance} {o o' : Output}

/-- The nodes of the instances that have been rendered again since. -/
def replaced (s s' : Session) : List NodeId :=
  (List.range s.instances.size).flatMap fun i =>
    if rendersOf s' i = rendersOf s i then [] else ((outputOf s i).map (·.nodes)).getD []

/-- The session `s'` is a later one: all nodes have lasted that are outside those that have been
replaced, instances keep their markers, and those that have not been rendered again their nodes. All
other nodes of outputs are new. -/
structure Lasting (s s' : Session) : Prop where
  nodes : Lasts s.document.forest s'.document.forest (replaced s s')
  renders : ∀ i, rendersOf s i ≤ rendersOf s' i
  same : ∀ i, rendersOf s' i = rendersOf s i → outputOf s' i = outputOf s i
  marker : ∀ i o, outputOf s i = some o → ∃ o', outputOf s' i = some o' ∧ o'.marker = o.marker
  fresh : ∀ i o', outputOf s' i = some o' → rendersOf s' i ≠ rendersOf s i →
    ∀ n ∈ o'.nodes, ¬ s.document.forest.Has n
  born : ∀ i o', outputOf s' i = some o' → outputOf s i = none → ¬ s.document.forest.Has o'.marker
  root : s'.document.root = s.document.root
  head : s'.document.head = s.document.head
  body : s'.document.body = s.document.body

theorem mem_replaced {n : NodeId} :
    n ∈ replaced s s' ↔
      ∃ i o, outputOf s i = some o ∧ rendersOf s' i ≠ rendersOf s i ∧ n ∈ o.nodes := by
  rw [replaced, List.mem_flatMap]
  constructor
  · rintro ⟨i, -, hn⟩
    split at hn
    · cases hn
    · next hr =>
      cases ho : outputOf s i with
      | none => simp [ho] at hn
      | some o =>
        rw [ho] at hn
        exact ⟨i, o, ho, hr, hn⟩
  · rintro ⟨i, o, ho, hr, hn⟩
    refine ⟨i, List.mem_range.2 (lt_of_outputOf ho), ?_⟩
    rw [if_neg hr, ho]
    exact hn

/-- Only the document and the outputs matter. -/
theorem Lasting.of_eq (hs : Lasting s s') (hd : t.document = s'.document)
    (ho : ∀ i, outputOf t i = outputOf s' i) (hr : ∀ i, rendersOf t i = rendersOf s' i) :
    Lasting s t := by
  refine ⟨?_, fun i => hr i ▸ hs.renders i, fun i hi => ?_, fun i o hi => ?_, fun i o' hi hne => ?_,
    fun i o' hi hnone => hs.born i o' (ho i ▸ hi) hnone, hd ▸ hs.root, hd ▸ hs.head, hd ▸ hs.body⟩
  · have hold : replaced s t = replaced s s' := by simp only [replaced, hr]
    rw [hold, hd]
    exact hs.nodes
  · rw [hr] at hi
    rw [ho, hs.same i hi]
  · obtain ⟨o', ho', hm⟩ := hs.marker i o hi
    exact ⟨o', (ho i).trans ho', hm⟩
  · rw [ho] at hi
    rw [hr] at hne
    exact hs.fresh i o' hi hne

theorem Lasting.congr (h : skeleton t = skeleton s') (hs : Lasting s s') : Lasting s t :=
  hs.of_eq (skeleton_document h) (outputOf_congr h) (rendersOf_congr h)

theorem Lasting.refl (hs : s.document.forest.Linked) : Lasting s s :=
  ⟨.refl hs, fun _ => Nat.le_refl _, fun _ _ => rfl, fun _ o ho => ⟨o, ho, rfl⟩,
    fun _ _ _ h => absurd rfl h, fun _ _ ho hnone => (nomatch ho.symm.trans hnone), rfl, rfl, rfl⟩

theorem Lasting.trans (hs : s.document.forest.Linked) (h : Lasting s s₁) (h' : Lasting s₁ s₂) :
    Lasting s s₂ := by
  have hle (i : InstanceId) := h.renders i
  have hle' (i : InstanceId) := h'.renders i
  refine ⟨h.nodes.trans hs h'.nodes (fun n hn => ?_) (fun n hn hhas => ?_),
    fun i => Nat.le_trans (hle i) (hle' i), fun i hi => ?_, fun i o ho => ?_, fun i o' ho' hne => ?_,
    fun i o' ho' hnone hhas => ?_, h'.root.trans h.root, h'.head.trans h.head, h'.body.trans h.body⟩
  · obtain ⟨i, o, ho, hr, hn⟩ := mem_replaced.1 hn
    have := hle i
    have := hle' i
    exact mem_replaced.2 ⟨i, o, ho, by omega, hn⟩
  · obtain ⟨i, o, ho, hr, hn⟩ := mem_replaced.1 hn
    by_cases hr₁ : rendersOf s₁ i = rendersOf s i
    · exact mem_replaced.2 ⟨i, o, h.same i hr₁ ▸ ho, hr₁ ▸ hr, hn⟩
    · exact absurd hhas (h.fresh i o ho hr₁ n hn)
  · have := hle i
    have := hle' i
    rw [h'.same i (by omega), h.same i (by omega)]
  · obtain ⟨o₁, ho₁, hm⟩ := h.marker i o ho
    obtain ⟨o₂, ho₂, hm'⟩ := h'.marker i o₁ ho₁
    exact ⟨o₂, ho₂, hm'.trans hm⟩
  · intro n hn hhas
    by_cases hr : rendersOf s₂ i = rendersOf s₁ i
    · rw [h'.same i hr] at ho'
      exact h.fresh i o' ho' (hr ▸ hne) n hn hhas
    · exact h'.fresh i o' ho' hr n hn (h.nodes.has hhas)
  · cases ho₁ : outputOf s₁ i with
    | none => exact h'.born i o' ho' ho₁ (h.nodes.has hhas)
    | some o₁ =>
      obtain ⟨o₂, ho₂, hm⟩ := h'.marker i o₁ ho₁
      cases ho'.symm.trans ho₂
      exact h.born i o₁ ho₁ hnone (hm ▸ hhas)

/-- A pass replaces only the nodes of its own instance. -/
private theorem Passed.lasting {p : NodeId} {styles : List NodeId} {trees : List (Html Handler)}
    (h : Passed i inst o o' p styles trees s s') (hs : s.document.forest.Linked)
    (hi : s.instances[i]? = some inst) (ho : inst.output = some o) : Lasting s s' := by
  have hout : outputOf s i = some o := (outputOf_eq hi).trans ho
  have hself := h.rendersOf_self hi
  obtain ⟨scope, phase, events, -, he⟩ := h.evaluated
  refine ⟨(h.patched.lasts hs).mono hs fun n hn => ?_, fun j => ?_, fun j hj => ?_,
    fun j o₁ ho₁ => ?_, fun j o₁ ho₁ hne => ?_, fun j o₁ ho₁ hnone => ?_, by rw [he]; rfl,
    by rw [he]; rfl, by rw [he]; rfl⟩
  · exact mem_replaced.2 ⟨i, o, hout, by omega, hn⟩
  · by_cases hj : j = i
    · subst hj
      omega
    · exact Nat.le_of_eq (h.rendersOf_of_ne hj).symm
  · have hji : j ≠ i := by
      rintro rfl
      omega
    exact h.outputOf_of_ne hji
  · by_cases hj : j = i
    · subst hj
      cases hout.symm.trans ho₁
      exact ⟨o', h.outputOf_self hi, h.marker⟩
    · exact ⟨o₁, (h.outputOf_of_ne hj).trans ho₁, rfl⟩
  · by_cases hj : j = i
    · subst hj
      cases (h.outputOf_self hi).symm.trans ho₁
      exact h.patched.fresh
    · exact absurd (h.rendersOf_of_ne hj) hne
  · by_cases hj : j = i
    · subst hj
      cases hout.symm.trans hnone
    · cases ho₁.symm.trans ((h.outputOf_of_ne hj).trans hnone)

/-- Adding a stylesheet replaces nothing. -/
theorem lasting_dressed (hs : Sound s) (d : Definition) : Lasting s (dressed d s) := by
  obtain ⟨styles, h, -⟩ := dress_styled d s.document
  refine ⟨?_, fun _ => Nat.le_refl _, fun _ _ => rfl, fun _ o ho => ⟨o, ho, rfl⟩,
    fun _ _ _ h => absurd rfl h, fun _ _ ho hnone => (nomatch ho.symm.trans hnone), h.root_eq, h.head_eq,
    h.body_eq⟩
  exact (renewed_dressed hs d).lasts_nil.mono hs.linked (by simp)

/-! Later sessions. -/

/-- A later session that is whole. -/
structure Onward (s t : Session) : Prop where
  whole : Whole t
  lasting : Lasting s t

theorem Onward.refl (hs : Whole s) : Onward s s := ⟨hs, .refl hs.linked⟩

/-- Whatever renders keeps what lasts. -/
theorem onward_closed (hs : s.document.forest.Linked) : Closed (Onward s) where
  congr h ht := ⟨ht.whole.congr h, ht.lasting.congr h⟩
  mounted h := h.whole.mounted
  pass {t i inst} h hi := by
    obtain ⟨o, ho⟩ := Option.isSome_iff_exists.1 (h.whole.mounted i inst hi)
    obtain ⟨hinst, ha⟩ := instance?_eq_some.1 hi
    cases hr : render i t with
    | ok r t' =>
      obtain ⟨rfl, o', p, styles, trees, hp⟩ :=
        h.whole.toSound.render_passed h.whole.settled hi ho hr
      rw [Run.left_of_ok hr]
      refine ⟨(h.whole.toStanding.pass hinst ho hr).1, ?_⟩
      exact h.lasting.trans hs (hp.lasting h.whole.linked hinst ho)
    | error e t' =>
      rw [Run.left_of_error hr]
      rcases skeleton_render_error hinst hr with hsk | hsk
      · exact ⟨h.whole.congr hsk, h.lasting.congr hsk⟩
      · have hl := h.lasting.trans hs (lasting_dressed h.whole.toSound inst.definition)
        exact ⟨(whole_dressed h.whole _).congr hsk, hl.congr hsk⟩

end LiveMarkup.Session
