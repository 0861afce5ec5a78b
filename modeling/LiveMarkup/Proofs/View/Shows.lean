import LiveMarkup.Proofs.View.Arrival
import LiveMarkup.Proofs.View.Current

/-! What an instance shows after a pass. In a sound session, whether or not the marker hangs from
something that is in use, the nodes of the output show the trees that the program has made. -/

namespace LiveMarkup.Session

open Forest

variable {s t u : Session} {i : InstanceId} {inst : Instance} {o : Output} {fragment : NodeId}
  {nodes : List NodeId} {trees : List (Html Handler)}

private theorem outputTrees_of_shows {lo : Nat} (ho : outputOf s i = some o)
    (h : ShowsAll s.document.forest lo s.document.forest.nodes.size trees o.nodes)
    (hd : Html.depthOf trees ≤ s.document.forest.nodes.size) : outputTrees i s = trees := by
  rw [outputTrees, ho]
  exact h.trees hd

private theorem forest_settleWith (nodes : List NodeId) (s : Session) :
    (settleWith nodes s).document.forest = s.document.forest.release (kept (holding nodes s)) := rfl

/-- After the first pass the fragment of an instance shows the trees. -/
private theorem Begun.shown (h : Begun i inst fragment o trees t u) (ht : Sound t)
    (hi : t.instances[i]? = some inst) :
    outputTrees i (settleWith [fragment] u) = trees ∧
      Sound (holding [fragment] (settleWith [fragment] u)) := by
  have hu : Sound u := h.sound ht hi
  have hself : outputOf (settleWith [fragment] u) i = some o := h.outputOf_self hi
  have r := hu.linked.release (kept (holding [fragment] u))
  -- whoever is kept hangs from an earlier node or from the fragment
  have habove : ∀ n ∈ kept (holding [fragment] u), ∀ q, u.document.forest.parent? n = some q →
      q < fragment + 1 := by
    intro n hn q hq
    obtain ⟨scope, phase, events, -, he⟩ := h.evaluated
    rcases mem_kept_holding.1 hn with hn | hn
    · rw [List.mem_singleton.1 hn, h.root] at hq
      cases hq
    · rw [he] at hn
      rcases kept_of_shown (getElem?_aside hi scope phase events) hn with hn | hn
      · rw [kept_congr (skeleton_aside scope phase events)] at hn
        rw [h.renewed.parent? n (ht.kept n hn), if_neg List.not_mem_nil] at hq
        have hlt : q < t.document.forest.nodes.size := ht.linked.has_parent hq
        have hle : t.document.forest.nodes.size ≤ fragment :=
          Nat.le_of_not_lt (h.fresh fragment List.mem_cons_self)
        exact Nat.lt_succ_of_lt (Nat.lt_of_lt_of_le hlt hle)
      · have hmem : n ∈ u.document.forest.children fragment := by
          rw [h.children]
          exact (List.perm_append_singleton o.marker o.nodes).mem_iff.2 hn
        cases (hu.linked.mem_children.1 hmem).symm.trans hq
        exact Nat.lt_succ_self _
  have hshows : ShowsAll (settleWith [fragment] u).document.forest (fragment + 1)
      (settleWith [fragment] u).document.forest.nodes.size trees o.nodes := by
    rw [forest_settleWith]
    exact (r.shows hu.linked h.shows habove).mono (fun _ _ _ => rfl) (fun _ _ _ => rfl)
      (Nat.le_refl _) (Nat.le_of_eq r.size.symm)
  have hdepth : Html.depthOf trees ≤ (settleWith [fragment] u).document.forest.nodes.size := by
    rw [forest_settleWith]
    exact Nat.le_trans h.depth (Nat.le_of_eq r.size.symm)
  refine ⟨outputTrees_of_shows hself hshows hdepth, hu.settleWith fun n hn => ?_⟩
  rw [List.mem_singleton.1 hn]
  exact h.has fragment List.mem_cons_self

/-- After a further pass the nodes before the marker show the trees. -/
private theorem Sound.shown_again {r : Option NodeId} (hs : Sound s)
    (hi : s.instances[i]? = some inst) (ho : inst.output = some o) (hr : render i s = .ok r t) :
    r = none ∧ Sound t ∧ ∃ trees u, materialize i inst s = .ok trees u ∧ outputTrees i t = trees := by
  obtain ⟨rfl, o', p, trees, forest, scope, phase, events, hsame, hp, hm, hR, rfl⟩ :=
    render_replaced hs hi ho hr
  obtain ⟨styles, hstyled, -⟩ := dress_styled inst.definition s.document
  have hi₁ : (aside i scope phase events s).instances[i]? = some { inst with scope, phase } :=
    getElem?_aside hi scope phase events
  have hshown := hs.replaced hi ho hsame hR scope phase events
  have hself := outputOf_eq (getElem?_shown hi₁ o' forest)
  have hl : (dress inst.definition s.document).forest.Linked :=
    (renewed_dressed hs inst.definition).linked
  have r := hR.linked.release (Session.kept (Session.shown i o' forest (aside i scope phase events s)))
  refine ⟨rfl, hshown.with_forest r.linked (Nat.le_of_eq r.size.symm), trees, _, hm, ?_⟩
  -- whoever is kept is a node that was there before, or shows one of the trees
  have hkept : ∀ n ∈ Session.kept (Session.shown i o' forest (aside i scope phase events s)),
      s.document.forest.Has n ∨ n ∈ o'.nodes := by
    intro n hn
    rcases kept_of_shown hi₁ hn with hn | hn
    · rw [kept_congr (skeleton_aside scope phase events)] at hn
      exact .inl (hs.kept n hn)
    · rcases List.mem_cons.1 hn with rfl | hn
      · rw [hsame]
        exact .inl (hs.outputs i o ((outputOf_eq hi).trans ho) _ List.mem_cons_self)
      · exact .inr hn
  have habove := hstyled.toExtended.held_above hs.linked hR hkept hl (hs.linked.has_parent hp)
  have hshows := (r.shows hR.linked hR.shows habove).mono (fun _ _ _ => rfl) (fun _ _ _ => rfl)
    (Nat.le_refl _) (Nat.le_of_eq r.size.symm)
  exact outputTrees_of_shows hself hshows (Nat.le_trans hR.depth (Nat.le_of_eq r.size.symm))

/-- What a pass that succeeds has made is what the instance shows. -/
theorem Sound.render_shows {r : Option NodeId} (hs : Sound s) (hi : s.instances[i]? = some inst)
    (hr : render i s = .ok r t) :
    Sound (holding r.toList t) ∧
      ∃ trees u, materialize i inst s = .ok trees u ∧ outputTrees i t = trees := by
  cases ho : inst.output with
  | some o =>
    obtain ⟨rfl, ht, hshows⟩ := hs.shown_again hi ho hr
    exact ⟨ht, hshows⟩
  | none =>
    obtain ⟨fragment, o, trees, u, rfl, hb, rfl⟩ := render_begun hs hi ho hr
    obtain ⟨htrees, hsound⟩ := hb.shown hs hi
    obtain ⟨scope, phase, events, hm, -⟩ := hb.evaluated
    exact ⟨hsound, trees, _, hm, htrees⟩

end LiveMarkup.Session
