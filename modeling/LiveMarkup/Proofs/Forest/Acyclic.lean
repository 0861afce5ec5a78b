import Mathlib.Data.List.Perm.Subperm
import LiveMarkup.Proofs.Forest.Release

/-! Forests without cycles. Going from parent to parent always ends at a root, so that a path shows
everything above a node; what is planted or moved keeps this as long as nothing moves below itself. -/

namespace LiveMarkup.Forest

variable {α : Type} {f f' : Forest α} {n p u : NodeId}

theorem Under.trans {t : NodeId} (h : f.Under u n) (ht : f.Under t u) : f.Under t n := by
  induction h with
  | self => exact ht
  | up hp _ ih => exact .up hp ih

private theorem Under.of_parent (h : f.parent? n = some p) : f.Under p n := .up h .self

/-- What is above a node stays there if no parent is a new one. -/
private theorem Under.of_parents (h : ∀ n p, f'.parent? n = some p → f.parent? n = some p)
    (hu : f'.Under u n) : f.Under u n := by
  induction hu with
  | self => exact .self
  | up hp _ ih => exact .up (h _ _ hp) ih

/-- Nobody lies below a child of its own. -/
def Acyclic (f : Forest α) : Prop := ∀ n p, f.parent? n = some p → ¬ f.Under n p

/-- Taking parents away makes no cycle. -/
private theorem Acyclic.of_parents (h : f.Acyclic)
    (hp : ∀ n p, f'.parent? n = some p → f.parent? n = some p) : f'.Acyclic :=
  fun n p hn hu => h n p (hp n p hn) (hu.of_parents hp)

/-! What a path shows. -/

/-- A path meets no node twice. -/
private theorem Acyclic.nodup_pathUp (h : f.Acyclic) (k : Nat) (n : NodeId) :
    (f.pathUp k n).Nodup := by
  induction k generalizing n with
  | zero => exact List.nodup_nil
  | succ k ih =>
    rw [pathUp]
    cases hp : f.parent? n with
    | none => simp
    | some p =>
      rw [List.nodup_cons]
      exact ⟨fun hmem => h n p hp (under_of_mem_pathUp hmem), ih p⟩

/-- A path that does not reach a node above its beginning is as long as it may be. -/
private theorem mem_pathUp_or_length (h : f.Under u n) (k : Nat) :
    u ∈ f.pathUp k n ∨ (f.pathUp k n).length = k := by
  induction k generalizing n with
  | zero => exact .inr rfl
  | succ k ih =>
    rw [pathUp]
    cases h with
    | self => exact .inl List.mem_cons_self
    | up hp hu =>
      rw [hp]
      rcases ih hu with hmem | hlength
      · exact .inl (List.mem_cons_of_mem _ hmem)
      · exact .inr (congrArg (· + 1) hlength)

/-- A path meets some of the nodes, each once. -/
private theorem Linked.subperm_pathUp (hf : f.Linked) (ha : f.Acyclic) (hn : f.Has n) (k : Nat) :
    (f.pathUp k n).Subperm (List.range f.nodes.size) :=
  List.subperm_of_subset (ha.nodup_pathUp k n) fun _ hm =>
    List.mem_range.2 (hf.has_of_under (under_of_mem_pathUp hm) hn)

/-- No path is longer than there are nodes. -/
theorem Linked.length_pathUp_le (hf : f.Linked) (ha : f.Acyclic) (hn : f.Has n) (k : Nat) :
    (f.pathUp k n).length ≤ f.nodes.size := by
  have hle := (hf.subperm_pathUp ha hn k).length_le
  rwa [List.length_range] at hle

/-- The path of a node shows everything above it. -/
private theorem Linked.contains_iff (hf : f.Linked) (ha : f.Acyclic) (hn : f.Has n) :
    f.contains u n = true ↔ f.Under u n := by
  rw [contains, List.contains_iff_mem]
  constructor
  · exact under_of_mem_pathUp
  · intro hu
    rcases mem_pathUp_or_length hu f.nodes.size with hmem | hlength
    · exact hmem
    · have hall : (f.path n).Perm (List.range f.nodes.size) := by
        refine (hf.subperm_pathUp ha hn f.nodes.size).perm_of_length_le ?_
        rw [List.length_range]
        exact Nat.le_of_eq hlength.symm
      exact hall.mem_iff.2 (List.mem_range.2 (hf.has_of_under hu hn))

/-! Nodes under a new parent. -/

section Reparent

variable {ids : List NodeId}

/-- A way up either avoids the nodes that have a new parent, or goes on from that parent. -/
private theorem Under.of_reparent (hp : ∀ n, f'.parent? n = if n ∈ ids then some p else f.parent? n)
    (hids : ∀ id ∈ ids, ¬ f.Under id p) (h : f'.Under u n) :
    f.Under u n ∨ (∃ id ∈ ids, f.Under id n) ∧ f.Under u p := by
  induction h with
  | self => exact .inl .self
  | @up n q hq _ ih =>
    rw [hp] at hq
    split at hq
    · next hn =>
      cases hq
      rcases ih with hu | ⟨⟨id, hid, hu⟩, -⟩
      · exact .inr ⟨⟨n, hn, .self⟩, hu⟩
      · exact absurd hu (hids id hid)
    · rcases ih with hu | ⟨⟨id, hid, hi⟩, hu⟩
      · exact .inl (.up hq hu)
      · exact .inr ⟨⟨id, hid, .up hq hi⟩, hu⟩

/-- Moving nodes under a node that is not below any of them makes no cycle. -/
private theorem Acyclic.reparent (h : f.Acyclic)
    (hp : ∀ n, f'.parent? n = if n ∈ ids then some p else f.parent? n)
    (hids : ∀ id ∈ ids, ¬ f.Under id p) : f'.Acyclic := by
  intro n q hq hu
  have hup := hu.of_reparent hp hids
  rw [hp] at hq
  split at hq
  · next hn =>
    cases hq
    rcases hup with hu | ⟨-, hu⟩
    · exact hids n hn hu
    · exact hids n hn hu
  · rcases hup with hu | ⟨⟨id, hid, hi⟩, hu⟩
    · exact h n q hq hu
    · exact hids id hid (hu.trans (.up hq hi))

end Reparent

/-! Forests as they are meant to be. -/

/-- The links of both directions agree, nobody lies below a child of its own, and fragments are
roots. -/
structure Proper (f : Forest α) : Prop where
  linked : f.Linked
  acyclic : f.Acyclic
  fragments : ∀ n, f.isFragment n = true → f.parent? n = none

private theorem isFragment_congr (h : f'.kind? n = f.kind? n) : f'.isFragment n = f.isFragment n := by
  rw [isFragment, isFragment, h]

theorem isFragment_iff : f.isFragment n = true ↔ f.kind? n = some .fragment := by
  unfold isFragment
  split
  · next h => simp [h]
  · next h => simpa using h

theorem empty_proper : (empty : Forest α).Proper where
  linked := empty_linked
  acyclic n p h := by simp [parent?, node?, empty] at h
  fragments n _ := by simp [parent?, node?, empty]

theorem Proper.contains_iff (h : f.Proper) (hn : f.Has n) : f.contains u n = true ↔ f.Under u n :=
  h.linked.contains_iff h.acyclic hn

theorem Proper.contains_eq_false_iff (h : f.Proper) (hn : f.Has n) :
    f.contains u n = false ↔ ¬ f.Under u n := by
  rw [← h.contains_iff hn, Bool.not_eq_true]

/-- No link to a parent is a new one, and fragments stay what they are. -/
theorem Proper.of_parents (h : f.Proper) (hl : f'.Linked)
    (hp : ∀ n p, f'.parent? n = some p → f.parent? n = some p)
    (hk : ∀ n, f'.isFragment n = true → f.isFragment n = true) : f'.Proper where
  linked := hl
  acyclic := h.acyclic.of_parents hp
  fragments n hn := by
    have hroot := h.fragments n (hk n hn)
    cases hq : f'.parent? n with
    | none => rfl
    | some q =>
      rw [hp n q hq] at hroot
      cases hroot

theorem Proper.create (h : f.Proper) (kind : NodeKind α) : (f.create kind).2.Proper where
  linked := h.linked.create kind
  acyclic := h.acyclic.of_parents fun n p hn => by rwa [parent?_create] at hn
  fragments n hn := by
    rw [parent?_create]
    by_cases hnew : n = f.nodes.size
    · exact parent?_eq_none (by simp [Has, hnew])
    · refine h.fragments n ?_
      rw [← hn]
      exact isFragment_congr (by rw [kind?_create, if_neg hnew]) |>.symm

theorem Proper.remove (h : f.Proper) (id : NodeId) : (f.remove id).Proper := by
  refine h.of_parents (h.linked.remove id) (fun n p hn => ?_) fun n hn => ?_
  · rw [parent?_remove] at hn
    split at hn
    · cases hn
    · exact hn
  · rwa [isFragment_congr (kind?_remove id n)] at hn

theorem Proper.release (h : f.Proper) (held : List NodeId) : (f.release held).Proper := by
  have r := h.linked.release held
  refine h.of_parents r.linked (fun n p hn => r.parent?_of_some hn) fun n hn => ?_
  rwa [isFragment_congr (r.kind n)] at hn

/-- Nodes that are no fragments move under a node that is not below any of them. -/
theorem Proper.moved {ids : List NodeId} {place : List NodeId → List NodeId} (h : f.Proper)
    (m : Moved f f' p ids place) (hids : ∀ id ∈ ids, ¬ f.Under id p)
    (hk : ∀ id ∈ ids, f.isFragment id = false) : f'.Proper where
  linked := m.linked
  acyclic := h.acyclic.reparent m.parent? hids
  fragments n hn := by
    rw [isFragment_congr (m.kind n)] at hn
    have hmem : n ∉ ids := fun hmem => by simp [hk n hmem] at hn
    rw [m.parent?, if_neg hmem, h.fragments n hn]

/-- The nodes that move are not above where the node itself may be put, and no fragments. -/
theorem Proper.moving (h : f.Proper) {id : NodeId} (hu : ¬ f.Under id p) :
    ∀ n ∈ f.moving id, ¬ f.Under n p ∧ f.isFragment n = false := by
  intro n hn
  unfold Forest.moving at hn
  split at hn
  · have hpar := h.linked.mem_children.1 hn
    refine ⟨fun hn => hu (hn.trans (.of_parent hpar)), ?_⟩
    cases hf : f.isFragment n with
    | false => rfl
    | true => simp [h.fragments n hf] at hpar
  · next hf =>
    cases List.mem_singleton.1 hn
    exact ⟨hu, Bool.eq_false_iff.2 hf⟩

/-! Planting. -/

/-- Nothing new is above what was there. -/
private theorem Grown.has_of_under {parent : NodeId} {new : List NodeId} (hf : f.Linked)
    (g : Grown f f' parent new) (hu : f'.Under u n) (hn : f.Has n) : f.Has u := by
  induction hu with
  | self => exact hn
  | up hp _ ih =>
    rw [g.parent? _ hn] at hp
    exact ih (hf.has_parent hp)

/-- A root that is no fragment becomes a child of a node that is not below it. -/
private theorem Proper.attach (h : f.Proper) {parent id : NodeId} {place : List NodeId → List NodeId}
    (hl : (f.attach parent place id).Linked) (hid : f.Has id) (hu : ¬ f.Under id parent)
    (hk : f.isFragment id = false) : (f.attach parent place id).Proper where
  linked := hl
  acyclic := by
    have hp (n : NodeId) : (f.attach parent place id).parent? n =
        if n ∈ [id] then some parent else f.parent? n := by
      simp only [parent?_attach hid, List.mem_singleton]
    exact h.acyclic.reparent hp fun n hn => List.mem_singleton.1 hn ▸ hu
  fragments n hn := by
    rw [isFragment_congr (kind?_attach ..)] at hn
    have hne : n ≠ id := by
      rintro rfl
      simp [hk] at hn
    rw [parent?_attach hid, if_neg hne, h.fragments n hn]

private theorem Shows.isFragment {lo hi : Nat} {t : Html α} (h : Shows f lo hi t n) :
    f.isFragment n = false := by
  cases t <;> rw [Shows] at h
  · rw [Forest.isFragment, h.2.2.1]
  · rw [Forest.isFragment, h.2.2]
  · rw [Forest.isFragment, h.2.2]

mutual

theorem Proper.plant {f : Forest α} (h : f.Proper) (t : Html α) : (f.plant t).2.Proper := by
  cases t with
  | element tag attributes listeners children =>
    exact Proper.plantAll (h.create _) (by simp [Has]) children
  | text s => exact h.create _
  | comment s => exact h.create _

theorem Proper.plantAll {f : Forest α} (h : f.Proper) {parent : NodeId} (hp : f.Has parent)
    (ts : List (Html α)) : (f.plantAll parent ts).Proper := by
  cases ts with
  | nil => exact h
  | cons t ts =>
    rw [Forest.plantAll]
    obtain ⟨hg, hid, hroot, -, hs⟩ := plant_spec h.linked t
    have ht := h.plant t
    generalize f.plant t = planted at *
    obtain ⟨id, f₁⟩ := planted
    dsimp only at hg hid hroot hs ht ⊢
    subst hid
    have ha := attach_grown (hg parent) hp (Nat.lt_irrefl _) hs.range.2 hroot
    have hu : ¬ f₁.Under f.nodes.size parent := fun hu =>
      Nat.lt_irrefl _ ((hg parent).has_of_under h.linked hu hp)
    exact Proper.plantAll (ht.attach ha.linked hs.range.2 hu hs.isFragment) (ha.has hp) ts

end

theorem Proper.plantFragment (h : f.Proper) (ts : List (Html α)) : (f.plantFragment ts).2.Proper :=
  (h.create .fragment).plantAll (by simp [Has]) ts

end LiveMarkup.Forest
