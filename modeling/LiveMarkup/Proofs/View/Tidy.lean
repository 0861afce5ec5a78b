import LiveMarkup.Proofs.Document.Head
import LiveMarkup.Proofs.View.Durable

/-! Tidy sessions: the head holds the stylesheets of views, one for each attribute, and all that instances
show is outside the head. Passes, whether they succeed or not, keep a session tidy, change no node that
was there, and put stylesheets behind those that were there. -/

namespace LiveMarkup

open Forest

/-! Documents. -/

namespace Document

variable {ds : List Definition} {d d' : Document Handler} {v : Definition} {forest : Forest Handler}

/-- The head wears stylesheets of the views, and none of two under one attribute. -/
structure Neat (ds : List Definition) (d : Document Handler) : Prop where
  linked : d.forest.Linked
  wearing : d.Wearing
  distinct : (d.stylesheets.map (·.1)).Nodup
  made : ∀ e ∈ d.stylesheets, ∃ v ∈ ds, v.stylesheet = some ⟨e.1, e.2⟩

private theorem Neat.steady (h : Neat ds d) (hs : Steady d d') (hl : d'.forest.Linked) :
    Neat ds d' := by
  obtain ⟨hw, he⟩ := hs.wearing h.linked h.wearing
  exact ⟨hl, hw, he ▸ h.distinct, he ▸ h.made⟩

/-- The stylesheet of a view is added under its attribute if it is missing. -/
private theorem Neat.dress (h : Neat ds d) (hv : v ∈ ds) :
    Neat ds (Session.dress v d) ∧ Grows d (Session.dress v d) := by
  unfold Session.dress
  split
  · next sheet hsheet =>
    have hl := addStylesheet_linked h.linked h.wearing.has sheet.attr sheet.css
    obtain ⟨hw, he⟩ := h.wearing.addStylesheet h.linked sheet.attr sheet.css
    refine ⟨⟨hl, hw, ?_, ?_⟩, h.wearing.addStylesheet_grows h.linked sheet.attr sheet.css⟩
    · rw [he]
      split
      · exact h.distinct
      · next hmissing =>
        rw [List.map_append, List.map_singleton, (List.perm_append_singleton _ _).nodup_iff]
        exact List.nodup_cons.2 ⟨hmissing, h.distinct⟩
    · rw [he]
      split
      · exact h.made
      · refine List.forall_mem_append.2 ⟨h.made, ?_⟩
        exact List.forall_mem_singleton.2 ⟨v, hv, hsheet⟩
  · exact ⟨h, .refl d⟩

/-- Under a key that stands once there is one entry. -/
theorem filter_key {l : List (String × String)} (h : (l.map (·.1)).Nodup) {e : String × String}
    (he : e ∈ l) : l.filter (·.1 == e.1) = [e] := by
  induction l with
  | nil => cases he
  | cons a l ih =>
    rw [List.map_cons, List.nodup_cons] at h
    rcases List.mem_cons.1 he with rfl | he
    · have hnil : l.filter (·.1 == e.1) = [] := by
        rw [List.filter_eq_nil_iff]
        intro a ha hkey
        exact h.1 (List.mem_map.2 ⟨a, ha, beq_iff_eq.1 hkey⟩)
      rw [List.filter_cons_of_pos (by simp), hnil]
    · have hne : a.1 ≠ e.1 := by
        intro hkey
        exact h.1 (hkey ▸ List.mem_map.2 ⟨e, he, rfl⟩)
      rw [List.filter_cons_of_neg (by simpa using hne), ih h.2 he]

/-- A view that has a stylesheet finds it in the head, and no other one under its attribute. -/
theorem Neat.mem_dress (h : Neat ds d) (hv : v ∈ ds) {sheet : Style.Stylesheet}
    (hsheet : v.stylesheet = some sheet)
    (hsame : ∀ v' ∈ ds, ∀ sheet', v'.stylesheet = some sheet' → sheet'.attr = sheet.attr →
      sheet' = sheet) : (sheet.attr, sheet.css) ∈ (Session.dress v d).stylesheets := by
  have hmem : sheet.attr ∈ (Session.dress v d).stylesheets.map (·.1) := by
    rw [Session.dress, hsheet]
    dsimp only
    rw [(h.wearing.addStylesheet h.linked sheet.attr sheet.css).2]
    split
    · next hmem => exact hmem
    · rw [List.map_append]
      exact List.mem_append_right _ (List.mem_singleton_self _)
  obtain ⟨e, he, hkey⟩ := List.mem_map.1 hmem
  obtain ⟨v', hv', hsheet'⟩ := (h.dress hv).1.made e he
  rw [← hsame v' hv' _ hsheet' hkey]
  exact he

/-- Replacing nodes outside the head leaves the head alone. -/
private theorem steady_replaced {marker p : NodeId} {old new : List NodeId}
    {trees : List (Html Handler)} (hl : d.forest.Linked) (hh : d.forest.Has d.head)
    (hR : Replaced d.forest forest marker p old new trees) (hout : ¬ d.forest.Under d.head p)
    (hold : ∀ n ∈ old, ¬ d.forest.Under d.head n) : Steady d { d with forest } where
  size_le := hR.size_le
  kind := hR.kind
  head_eq := rfl
  children q hq := by
    have hne : q ≠ p := by
      rintro rfl
      exact hout (hq.under hl)
    have hstay : (d.forest.children q).filter (· ∉ old) = d.forest.children q := by
      rw [List.filter_eq_self]
      intro n hn
      rw [decide_eq_true_iff]
      exact fun hmem => hold n hmem (.up (hl.mem_children.1 hn) (hq.under hl))
    rw [hR.children q (hq.has hl hh), if_neg hne, hstay]
  parent? n q hn hq := by
    have he := (hR.parent? n hn).symm.trans hq
    split at he
    · cases he
    · exact .inl he

end Document

namespace Session

open Document (Grows Neat Steady)

variable {ds : List Definition} {s t u : Session} {i : InstanceId} {inst : Instance} {o : Output}
  {v : Definition} {nodes : List NodeId} {n : NodeId}

/-! Sessions. -/

/-- The node is outside the head. -/
def Outdoors (s : Session) (n : NodeId) : Prop :=
  s.document.forest.Has n ∧ ¬ s.document.forest.Under s.document.head n

/-- The instances are instances of the views, the head wears stylesheets of these, and all that is kept
for others or shown by instances is outside it. -/
structure Tidy (ds : List Definition) (s : Session) : Prop extends Sound s where
  neat : Neat ds s.document
  views : ∀ (i : InstanceId) (inst : Instance), s.instances[i]? = some inst → inst.definition ∈ ds
  held : ∀ n ∈ s.held, ¬ s.document.forest.Under s.document.head n
  shown : ∀ i o, outputOf s i = some o → ∀ n ∈ o.marker :: o.nodes,
    ¬ s.document.forest.Under s.document.head n

private theorem Tidy.outdoors (h : Tidy ds s) (ho : outputOf s i = some o)
    (hn : n ∈ o.marker :: o.nodes) :
    s.Outdoors n := ⟨h.outputs i o ho n hn, h.shown i o ho n hn⟩

theorem Tidy.held_outdoors (h : Tidy ds s) (hn : n ∈ s.held) : s.Outdoors n :=
  ⟨h.has_held hn, h.held n hn⟩

/-- A later session is tidy if what it keeps and shows anew is outside the head. -/
private theorem tidy_later (ht : Sound t) (hneat : Neat ds t.document)
    (hg : Grows s.document t.document)
    (hviews : ∀ (i : InstanceId) (inst : Instance), t.instances[i]? = some inst → inst.definition ∈ ds)
    (hheld : ∀ n ∈ t.held, s.Outdoors n ∨ ¬ t.document.forest.Under t.document.head n)
    (hshown : ∀ i o, outputOf t i = some o → ∀ n ∈ o.marker :: o.nodes,
      s.Outdoors n ∨ ¬ t.document.forest.Under t.document.head n) : Tidy ds t where
  toSound := ht
  neat := hneat
  views := hviews
  held n hn := (hheld n hn).elim (fun hout => hg.outdoors n hout.1 hout.2) id
  shown i o ho n hn := (hshown i o ho n hn).elim (fun hout => hg.outdoors n hout.1 hout.2) id

/-- What instances do besides showing does not matter. -/
theorem Tidy.congr (ha : Alike s t) (h : Tidy ds s) : Tidy ds t := by
  have hout := ha.outputOf
  refine tidy_later (h.toSound.of_alike ha) (ha.document ▸ h.neat) (ha.document ▸ .refl _) (fun i inst hi => ?_)
    (fun n hn => .inl (h.held_outdoors (ha.held ▸ hn)))
    fun i o ho n hn => .inl (h.outdoors (hout i ▸ ho) hn)
  obtain ⟨inst', hi', hd⟩ := ha.definition hi
  exact hd ▸ h.views i inst' hi'

/-- Less may be kept, and more that is outside the head. -/
theorem Tidy.with_held (h : Tidy ds s) {held : List NodeId} (hheld : ∀ n ∈ held, s.Outdoors n) :
    Tidy ds { s with held } := by
  exact tidy_later (h.toSound.with_held fun n hn => (hheld n hn).1) h.neat (.refl _) h.views (fun n hn => .inl (hheld n hn))
    fun i o ho n hn => .inl (h.outdoors ho hn)

private theorem Tidy.forget (nodes : List NodeId) (h : Tidy ds (holding nodes s)) : Tidy ds s :=
  h.with_held fun _ hn => h.held_outdoors (List.mem_append_right nodes hn)

private theorem Tidy.dressed (h : Tidy ds s) (hv : v ∈ ds) : Tidy ds (dressed v s) := by
  obtain ⟨hneat, hg⟩ := h.neat.dress hv
  exact tidy_later (sound_dressed h.toSound v) hneat hg h.views
    (fun n hn => .inl (h.held_outdoors hn)) fun i o ho n hn => .inl (h.outdoors ho hn)

/-- What is done outside the head leaves a session tidy. -/
private theorem Tidy.with_forest (h : Tidy ds s) {forest : Forest Handler}
    (hs : Steady s.document { s.document with forest }) (hl : forest.Linked) :
    Tidy ds { s with document := { s.document with forest } } ∧
      Grows s.document { s.document with forest } := by
  have hg := hs.grows h.neat.linked h.neat.wearing
  refine ⟨tidy_later (h.toSound.with_forest hl hs.size_le) (h.neat.steady hs hl) hg h.views ?_ ?_, hg⟩
  · exact fun n hn => .inl (h.held_outdoors hn)
  · exact fun i o ho n hn => .inl (h.outdoors ho hn)

private theorem Tidy.settle (h : Tidy ds s) :
    Tidy ds (settle s) ∧ Grows s.document (settle s).document := by
  have hhead : s.document.head ∈ kept s := mem_kept.2 (.inr (.inl rfl))
  exact h.with_forest (Document.steady_release h.linked h.neat.wearing hhead) (h.linked.release _).linked

/-- Nodes that are not in the head move to a place outside it. -/
private theorem Tidy.append (h : Tidy ds s) {target id : NodeId} {forest : Forest Handler}
    (ht : s.Outdoors target) (hid : s.Outdoors id)
    (hok : s.document.forest.append target id = .ok forest) :
    Tidy ds { s with document := { s.document with forest } } ∧
      Grows s.document { s.document with forest } := by
  cases hc : s.document.forest.contains id target with
  | true => simp [Forest.append, hc] at hok
  | false =>
    obtain ⟨forest', hok', hm⟩ := h.linked.append ht.1 hid.1 hc
    cases hok'.symm.trans hok
    refine h.with_forest (Document.steady_moved h.linked hm ht.1 ht.2 fun n hn q hq hu => ?_) hm.linked
    unfold Forest.moving at hn
    split at hn
    · cases (h.linked.mem_children.1 hn).symm.trans hq
      exact hid.2 hu
    · rw [List.mem_singleton.1 hn] at hq
      exact hid.2 (.up hq hu)

/-! Passes. -/

section Shown

variable {forest : Forest Handler}

/-- What a pass leaves that has put nodes outside the head in the place of the earlier ones. -/
private theorem Tidy.presented (h : Tidy ds s) (hi : s.instances[i]? = some inst)
    (hs : Steady (dress inst.definition s.document) { dress inst.definition s.document with forest })
    (hl : forest.Linked)
    (hnew : ∀ n ∈ nodes ++ o.marker :: o.nodes, forest.Has n ∧
      ¬ forest.Under (dress inst.definition s.document).head n)
    (scope : Scope) (phase : Phase) (events : List Event)
    (hu : u = settleWith nodes
      (Session.shown i o forest (Session.dressed inst.definition (aside i scope phase events s))))
    (hsound : Sound (holding nodes u)) :
    Tidy ds (holding nodes u) ∧ Grows s.document u.document ∧
      (dress inst.definition s.document).stylesheets <+: u.document.stylesheets := by
  obtain ⟨hneat, hg⟩ := h.neat.dress (h.views i inst hi)
  have hneat₂ := hneat.steady hs hl
  have hg₂ := hs.grows hneat.linked hneat.wearing
  have hi₁ : (Session.dressed inst.definition (aside i scope phase events s)).instances[i]? =
      some { inst with scope, phase } := getElem?_aside hi scope phase events
  have hself := getElem?_shown hi₁ o forest
  have hother {j : InstanceId} (hj : j ≠ i) :
      (Session.shown i o forest
        (Session.dressed inst.definition (aside i scope phase events s))).instances[j]? =
        s.instances[j]? :=
    (getElem?_shown_of_ne hj o forest).trans (getElem?_aside_of_ne hj scope phase events)
  have hheld : (Session.shown i o forest
    (Session.dressed inst.definition (aside i scope phase events s))).held = s.held := rfl
  have hdocument : (Session.shown i o forest
    (Session.dressed inst.definition (aside i scope phase events s))).document =
      { dress inst.definition s.document with forest } := rfl
  subst hu
  generalize Session.shown i o forest
    (Session.dressed inst.definition (aside i scope phase events s)) = v at *
  have hsettled : Steady v.document (settleWith nodes v).document := by
    refine Document.steady_release (hdocument ▸ hl) (hdocument ▸ hneat₂.wearing) ?_
    exact mem_kept_holding.2 (.inr (mem_kept.2 (.inr (.inl rfl))))
  rw [hdocument] at hsettled
  have hg₃ := hsettled.grows hl hneat₂.wearing
  have hout (n : NodeId) (hn : n ∈ nodes ++ o.marker :: o.nodes) :
      ¬ (settleWith nodes v).document.forest.Under (settleWith nodes v).document.head n :=
    hg₃.outdoors n (hnew n hn).1 (hnew n hn).2
  have hgrows := (hg.trans hg₂).trans hg₃
  refine ⟨tidy_later hsound (hneat₂.steady hsettled hsound.linked) hgrows (fun j inst' hj => ?_)
    (fun n hn => ?_) fun j o' ho' n hn => ?_, hgrows, hg₂.sheets.trans hg₃.sheets⟩
  · have hj' : v.instances[j]? = some inst' := hj
    by_cases hji : j = i
    · rw [hji, hself] at hj'
      cases hj'
      exact h.views i inst hi
    · exact h.views j inst' ((hother hji).symm.trans hj')
  · rcases List.mem_append.1 (show n ∈ nodes ++ v.held from hn) with hn | hn
    · exact .inr (hout n (List.mem_append_left _ hn))
    · exact .inl (h.held_outdoors (hheld ▸ hn))
  · have ho' : outputOf v j = some o' := ho'
    by_cases hji : j = i
    · rw [hji, outputOf_eq hself] at ho'
      cases ho'
      exact .inr (hout n (List.mem_append_right _ hn))
    · rw [outputOf, hother hji] at ho'
      exact .inl (h.outdoors ho' hn)

/-- The nodes of a further pass stand where the marker stands. -/
private theorem Tidy.replaced {r : Option NodeId} (h : Tidy ds s) (hi : s.instances[i]? = some inst)
    (ho : inst.output = some o) (hr : render i s = .ok r t) :
    Tidy ds (holding r.toList t) ∧ Grows s.document t.document ∧
      (dress inst.definition s.document).stylesheets <+: t.document.stylesheets := by
  have hsound := (h.toSound.render_shows hi hr).1
  obtain ⟨rfl, o', p, trees, forest, scope, phase, events, hsame, hp, -, hR, rfl⟩ :=
    render_replaced h.toSound hi ho hr
  obtain ⟨hneat, hg⟩ := h.neat.dress (h.views i inst hi)
  obtain ⟨styles, hstyled, -⟩ := dress_styled inst.definition s.document
  have hout (n : NodeId) (hn : n ∈ o.marker :: o.nodes) :
      (dress inst.definition s.document).forest.Has n ∧
        ¬ (dress inst.definition s.document).forest.Under
          (dress inst.definition s.document).head n := by
    obtain ⟨hhas, hn⟩ := h.outdoors ((outputOf_eq hi).trans ho) hn
    exact ⟨hg.has hhas, hg.outdoors n hhas hn⟩
  obtain ⟨hmarker, hmarkerout⟩ := hout o.marker List.mem_cons_self
  have hp₁ : (dress inst.definition s.document).forest.parent? o.marker = some p := by
    rw [hstyled.parent? _ (h.outdoors ((outputOf_eq hi).trans ho) List.mem_cons_self).1, hp]
  have hpout : ¬ (dress inst.definition s.document).forest.Under
      (dress inst.definition s.document).head p := fun hu => hmarkerout (.up hp₁ hu)
  have hs := Document.steady_replaced hneat.linked hneat.wearing.has hR hpout fun n hn =>
    (hout n (List.mem_cons_of_mem _ hn)).2
  have hg₂ := hs.grows hneat.linked hneat.wearing
  refine h.presented (o := o') hi hs hR.linked (fun n hn => ?_) scope phase events
    (by rw [shown_dressed]; rfl) hsound
  rcases List.mem_cons.1 hn with rfl | hn
  · rw [hsame]
    exact ⟨hg₂.has hmarker, hg₂.outdoors _ hmarker hmarkerout⟩
  · refine ⟨(hR.shows.range n hn).2, not_under_of_parent? ?_ (hR.placed n hn) ?_⟩
    · rintro rfl
      exact hR.fresh _ hn hneat.wearing.has
    · exact hg₂.outdoors p (hneat.linked.has_parent hp₁) hpout

/-- The nodes of a first pass stand in a fragment of their own. -/
private theorem Tidy.begun {r : Option NodeId} (h : Tidy ds s) (hi : s.instances[i]? = some inst)
    (ho : inst.output = none) (hr : render i s = .ok r t) :
    Tidy ds (holding r.toList t) ∧ Grows s.document t.document ∧
      (dress inst.definition s.document).stylesheets <+: t.document.stylesheets := by
  have hsound := (h.toSound.render_shows hi hr).1
  obtain ⟨scope, phase, events, trees, -, rfl, ht⟩ := render_first hi ho hr
  obtain ⟨hneat, -⟩ := h.neat.dress (h.views i inst hi)
  have hfirst := Output.first_spec hneat.linked trees
  generalize Output.first (dress inst.definition s.document).forest trees = first at *
  obtain ⟨fragment, o, forest⟩ := first
  have hg := hfirst.grown 0
  have hhead : (dress inst.definition s.document).head <
    (dress inst.definition s.document).forest.nodes.size := hneat.wearing.has
  have hfragment : ¬ forest.Under (dress inst.definition s.document).head fragment := by
    intro hu
    cases hu with
    | self => exact absurd hfirst.fragment_eq (Nat.ne_of_lt hhead)
    | up hp _ => cases hfirst.root.symm.trans hp
  have hchild (n : NodeId) (hn : n ∈ o.nodes ++ [o.marker]) : forest.parent? n = some fragment :=
    hg.linked.mem_children.1 (hfirst.children ▸ hn)
  refine h.presented (o := o) hi (Document.steady_grown hneat.linked hneat.wearing.has hg) hg.linked
    (fun n hn => ?_) scope phase events ht hsound
  rcases List.mem_cons.1 hn with rfl | hn
  · exact ⟨hg.linked.has_parent (hchild o.marker (by simp)), hfragment⟩
  · have hn : n ∈ o.nodes ++ [o.marker] := (List.perm_append_singleton o.marker o.nodes).mem_iff.2 hn
    refine ⟨has_of_parent? (hchild n hn), not_under_of_parent? ?_ (hchild n hn) hfragment⟩
    exact Nat.ne_of_gt (Nat.lt_trans hhead (hfirst.fresh n hn))

end Shown

/-- A pass that succeeds leaves a session tidy, with the stylesheet of its view in the head. A fragment
that it gives out is outside the head. -/
theorem Tidy.render_ok {r : Option NodeId} (h : Tidy ds s) (hi : s.instances[i]? = some inst)
    (hr : render i s = .ok r t) :
    Tidy ds (holding r.toList t) ∧ Grows s.document t.document ∧
      (dress inst.definition s.document).stylesheets <+: t.document.stylesheets := by
  cases ho : inst.output with
  | none => exact h.begun hi ho hr
  | some o => exact h.replaced hi ho hr

/-- A pass leaves a session tidy, whether it succeeds or not. -/
private theorem Tidy.pass (h : Tidy ds s) (i : InstanceId) :
    Leaves (fun t => Tidy ds t ∧ Grows s.document t.document) Option.toList (render i s) := by
  cases hi : s.instances[i]? with
  | none =>
    rw [render_of_missing hi]
    exact ⟨h, .refl _⟩
  | some inst =>
    cases hr : render i s with
    | error e t =>
      rcases alike_render_error hi hr with ha | ha
      · exact ⟨h.congr ha, ha.document ▸ .refl _⟩
      · have hv := h.views i inst hi
        exact ⟨(h.dressed hv).congr ha, ha.document ▸ (h.neat.dress hv).2⟩
    | ok r t =>
      obtain ⟨htidy, hg, -⟩ := h.render_ok hi hr
      exact ⟨htidy, hg⟩

/-! Uses. -/

/-- A tidy session whose document is a later one. -/
structure Beyond (ds : List Definition) (d : Document Handler) (t : Session) : Prop where
  tidy : Tidy ds t
  grows : Grows d t.document

/-- Whatever renders keeps a session tidy and goes on from what was there. -/
theorem beyond_durable (ds : List Definition) (d : Document Handler) : Durable (Beyond ds d) where
  congr ha h := ⟨h.tidy.congr ha, ha.document ▸ h.grows⟩
  forget nodes h := ⟨h.tidy.forget nodes, h.grows⟩
  settle h := ⟨h.tidy.settle.1, h.grows.trans h.tidy.settle.2⟩
  pass {s} i h := by
    have hpass := h.tidy.pass i
    cases hr : render i s with
    | ok r t =>
      rw [hr] at hpass
      exact ⟨hpass.1, h.grows.trans hpass.2⟩
    | error e t =>
      rw [hr] at hpass
      exact ⟨hpass.1, h.grows.trans hpass.2⟩

theorem Tidy.joined (h : Tidy ds s) {r : Recipe} (hr : r.definition ∈ ds) (props : Bindings) :
    Tidy ds (joined (unborn r props) s) := by
  refine tidy_later (h.toSound.joined r props) h.neat (.refl _) (fun i inst hi => ?_) (fun n hn => .inl (h.held_outdoors hn))
    fun i o ho n hn => .inl (h.outdoors ((outputOf_joined r props s i).symm.trans ho) hn)
  rw [Session.joined, Array.getElem?_push] at hi
  split at hi
  · cases hi
    exact hr
  · exact h.views i inst hi

/-- Mounting keeps a session tidy if the target is outside the head. -/
theorem Beyond.mount {d : Document Handler} (h : Beyond ds d s) (r : Recipe) (props : Bindings)
    (isPublic : Bool) (natives : List (String × (List Value → Procedure))) {target : NodeId}
    (hr : r.definition ∈ ds) (ht : s.Outdoors target) :
    Beyond ds d (Run.left (mount r props isPublic natives target) s) := by
  have hjoined : Beyond ds s.document (Session.joined (unborn r props) s) :=
    ⟨h.tidy.joined hr props, .refl _⟩
  have hmount := (beyond_durable ds s.document).mount r props isPublic natives hjoined
    fun t fragment forest hheld hok => by
      have htarget : t.Outdoors target := ⟨hheld.grows.has ht.1, hheld.grows.outdoors target ht.1 ht.2⟩
      obtain ⟨htidy, hg⟩ := (hheld.tidy.forget [fragment]).append htarget
        (hheld.tidy.held_outdoors List.mem_cons_self) hok
      exact ⟨htidy, hheld.grows.trans hg⟩
  exact ⟨hmount.tidy, h.grows.trans hmount.grows⟩

end Session

end LiveMarkup
