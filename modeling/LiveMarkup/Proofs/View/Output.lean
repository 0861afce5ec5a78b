import LiveMarkup.Proofs.Forest.Release
import LiveMarkup.View.Output

/-! Replacing the output of a view in a forest: what becomes of the earlier nodes, of the new ones and
of all others. -/

namespace LiveMarkup

variable {α : Type} {f f' : Forest α}

namespace Forest

/-- A node that exists already is not below a new fragment. -/
private theorem Grown.not_contains {parent : NodeId} {new : List NodeId} (hf : f.Linked)
    (g : Grown f f' parent new) {id q : NodeId} (hid : ¬ f.Has id) (hq : f.Has q) :
    f'.contains id q = false := by
  have key (n : NodeId) (h : f'.Under n q) : f.Has n := by
    have hu : f.Under n q ∧ f.Has n := by
      induction h with
      | self => exact ⟨.self, hq⟩
      | up hp _ ih =>
        rw [g.parent? _ hq] at hp
        obtain ⟨hu, hn⟩ := ih (hf.has_parent hp)
        exact ⟨.up hp hu, hn⟩
    exact hu.2
  rw [contains]
  by_contra hc
  have hm : id ∈ f'.path q := by simpa using hc
  exact hid (key id (under_of_mem_pathUp hm))

/-- The forest `f'` is `f` with the nodes `old` taken out and the nodes `new`, which show the trees,
put before the marker, which is a child of `p`. -/
structure Replaced (f f' : Forest α) (marker p : NodeId) (old new : List NodeId)
    (trees : List (Html α)) : Prop where
  linked : f'.Linked
  size_le : f.nodes.size ≤ f'.nodes.size
  kind : ∀ n, f.Has n → f'.kind? n = f.kind? n
  parent? : ∀ n, f.Has n → f'.parent? n = if n ∈ old then none else f.parent? n
  children : ∀ q, f.Has q → f'.children q =
    (if q = p then putAllBefore marker new (f.children q) else f.children q).filter (· ∉ old)
  fresh : ∀ n ∈ new, ¬ f.Has n
  nodup : new.Nodup
  placed : ∀ n ∈ new, f'.parent? n = some p
  shows : ShowsAll f' f.nodes.size f'.nodes.size trees new
  depth : Html.depthOf trees ≤ f'.nodes.size

/-- A new fragment whose children have been moved before the marker, in a forest without links from
its nodes to them. -/
private theorem Linked.replaced (hf : f.Linked) {marker p : NodeId} (hp : f.parent? marker = some p)
    {old : List NodeId} (hold : ∀ n ∈ old, f.Has n) {trees : List (Html α)} {f₁ f₂ : Forest α}
    {fragment : NodeId} (hg : Grown f f₁ p [])
    (hs : ShowsAll f₁ (f.nodes.size + 1) f₁.nodes.size trees (f₁.children fragment))
    (hlt : fragment = f.nodes.size) (hd : Html.depthOf trees ≤ f₁.nodes.size)
    (hm : Moved f₁ f₂ p (f₁.children fragment) (putAllBefore marker (f₁.children fragment))) :
    Replaced f (old.foldl Forest.remove f₂) marker p old (f₁.children fragment) trees := by
  obtain ⟨hl, hsize, hk, hpar, hch⟩ := hm.linked.removeAll old
  have hfresh : ∀ n ∈ f₁.children fragment, ¬ f.Has n := by
    intro n hn hf
    exact absurd (hs.range n hn).1 (Nat.not_le_of_lt (Nat.lt_succ_of_lt hf))
  have hstay (q : NodeId) (hq : f.Has q) :
      (f.children q).filter (· ∉ f₁.children fragment) = f.children q := by
    rw [List.filter_eq_self]
    intro n hn
    simpa using fun hm => hfresh n hm (hf.has_child hn)
  have hsize₁ : (old.foldl Forest.remove f₂).nodes.size = f₁.nodes.size := hsize.trans hm.size
  refine ⟨hl, ?_, fun n hn => ?_, fun n hn => ?_, fun q hq => ?_, hfresh, hg.linked.nodup fragment,
    fun n hn => ?_, ?_, ?_⟩
  · rw [hsize₁]
    exact hg.size_le
  · rw [hk, hm.kind, hg.kind n hn]
  · rw [hpar, hm.parent?, hg.parent? n hn, if_neg (fun h => hfresh n h hn)]
  · have hc : f₁.children q = f.children q := by simpa using hg.children q hq
    rw [hch, hm.children, hc, hstay q hq]
  · rw [hpar, hm.parent?, if_pos hn, if_neg (fun h => hfresh n hn (hold n h))]
  · rw [hsize₁]
    refine hs.mono (fun n _ _ => by rw [hk, hm.kind]) (fun n hlo _ => ?_) (Nat.le_succ _)
      (Nat.le_refl _)
    -- what is below the new nodes neither moves nor is taken out
    have hn : ¬ f.Has n := Nat.not_lt_of_le (Nat.le_of_succ_le hlo)
    have hne : n ≠ fragment := hlt ▸ Nat.ne_of_gt (Nat.lt_of_succ_le hlo)
    have hnp : n ≠ p := by
      rintro rfl
      exact hn (hf.has_parent hp)
    have hinner (m : NodeId) (hmem : m ∈ f₁.children n) : m ∉ f₁.children fragment ∧ m ∉ old := by
      have hpm := hg.linked.mem_children.1 hmem
      constructor
      · intro hm'
        exact hne (Option.some.inj (hpm.symm.trans (hg.linked.mem_children.1 hm')))
      · intro hm'
        have hm'' := hold m hm'
        rw [hg.parent? m hm''] at hpm
        exact hn (hf.has_parent hpm)
    rw [hch, hm.children, if_neg hnp, List.filter_filter, List.filter_eq_self]
    intro m hmem
    simpa using (hinner m hmem).symm
  · rw [hsize₁]
    exact hd

end Forest

open Forest

/-- The output of a view is replaced if its marker has a parent. -/
theorem Output.replace_ok (hf : f.Linked) {o : Output} {p : NodeId} (hp : f.parent? o.marker = some p)
    (hold : ∀ n ∈ o.nodes, f.Has n) (trees : List (Html α)) :
    ∃ o' f', o.replace f trees = .ok (o', f') ∧ o'.marker = o.marker ∧
      Replaced f f' o.marker p o.nodes o'.nodes trees := by
  obtain ⟨hg, hid, hhas, -, hkind, hs, hd⟩ := plantFragment_spec hf trees
  rw [Output.replace]
  generalize f.plantFragment trees = planted at *
  obtain ⟨fragment, f₁⟩ := planted
  dsimp only at hg hid hhas hkind hs hd ⊢
  subst hid
  have hfragment : ¬ f.Has f.nodes.size := Nat.lt_irrefl _
  have hmarker : f.Has o.marker := has_of_parent? hp
  have hmoving : (f₁.moving f.nodes.size).filter (· != o.marker) = f₁.children f.nodes.size := by
    rw [moving, if_pos (by rw [isFragment, hkind]), List.filter_eq_self]
    intro n hn
    have := (hs.range n hn).1
    rw [bne_iff_ne]
    rintro rfl
    exact absurd hmarker (Nat.not_lt_of_le (Nat.le_of_succ_le this))
  have hp₁ : f₁.parent? o.marker = some p := ((hg p).parent? _ hmarker).trans hp
  obtain ⟨f₂, hf₂, hm⟩ := (hg p).linked.insertBefore hhas hp₁
    ((hg p).not_contains hf hfragment (hf.has_parent hp))
  rw [hmoving] at hm
  refine ⟨{ o with nodes := f₁.children f.nodes.size }, o.nodes.foldl Forest.remove f₂, ?_, rfl,
    hf.replaced hp hold (hg p) hs rfl hd hm⟩
  rw [hf₂]
  rfl

/-- The first output of a view: the nodes and the marker are the children of a new fragment. -/
structure Output.First (f f' : Forest α) (fragment : NodeId) (o : Output) (trees : List (Html α)) :
    Prop where
  grown : ∀ p, Grown f f' p []
  fragment_eq : fragment = f.nodes.size
  root : f'.parent? fragment = none
  kind : f'.kind? fragment = some .fragment
  children : f'.children fragment = o.nodes ++ [o.marker]
  fresh : ∀ n ∈ o.nodes ++ [o.marker], f.nodes.size < n
  shows : ShowsAll f' (f.nodes.size + 1) f'.nodes.size trees o.nodes
  depth : Html.depthOf trees ≤ f'.nodes.size

theorem Output.first_spec (hf : f.Linked) (trees : List (Html α)) :
    Output.First f (Output.first f trees).2.2 (Output.first f trees).1 (Output.first f trees).2.1
      trees := by
  obtain ⟨hg, hid, hhas, hroot, hkind, hs, hd⟩ := plantFragment_spec hf trees
  rw [Output.first]
  generalize f.plantFragment trees = planted at *
  obtain ⟨fragment, f₁⟩ := planted
  dsimp only at hg hid hhas hroot hkind hs hd ⊢
  subst hid
  have hfragment : ¬ f.Has f.nodes.size := Nat.lt_irrefl _
  have hnew : f₁.nodes.size ≠ f.nodes.size := Nat.ne_of_gt hhas
  have hc : Grown f₁ ((f₁.create (.text "")).2.attach f.nodes.size (· ++ [f₁.nodes.size])
      f₁.nodes.size) f.nodes.size [f₁.nodes.size] :=
    attach_grown (create_grown (hg 0).linked _ _) hhas (Nat.lt_irrefl _) (by simp [Has])
      (by rw [parent?_create, parent?_eq_none (Nat.lt_irrefl _)])
  have hle : f₁.nodes.size ≤ _ := hc.size_le
  refine ⟨fun p => (hg p).under_fresh hfragment hc, rfl, ?_, ?_, ?_, fun n hn => ?_, ?_,
    Nat.le_trans hd hle⟩
  · exact (hc.parent? _ hhas).trans hroot
  · exact (hc.kind _ hhas).trans hkind
  · exact (hc.children _ hhas).trans (if_pos rfl)
  · rcases List.mem_append.1 hn with hn | hn
    · exact (hs.range n hn).1
    · rw [List.mem_singleton.1 hn]
      exact hhas
  · refine hs.mono (fun n _ hlt => hc.kind n hlt) (fun n hlo hlt => ?_) (Nat.le_refl _) hle
    rw [hc.children n hlt, if_neg (Nat.ne_of_gt hlo)]

/-- The output of a view whose marker has no parent is not replaced. -/
theorem Output.replace_detached (hf : f.Linked) {o : Output} (hmarker : f.Has o.marker)
    (hp : f.parent? o.marker = none) (trees : List (Html α)) :
    o.replace f trees = .error .detached := by
  obtain ⟨hg, -⟩ := plantFragment_spec hf trees
  have hp₁ : (f.plantFragment trees).2.parent? o.marker = none :=
    ((hg 0).parent? _ hmarker).trans hp
  simp only [Output.replace, insertBefore, hp₁]
  rfl

end LiveMarkup
