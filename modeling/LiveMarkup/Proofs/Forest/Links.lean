import Mathlib.Tactic.ByContra
import LiveMarkup.Document.Forest

/-! Links of a forest. Every operation is described by what it does to the parents, the children and
the kinds of all nodes; the links of the two directions agree before and after each. -/

namespace LiveMarkup.Forest

variable {α : Type} {f : Forest α}

def Has (f : Forest α) (n : NodeId) : Prop := n < f.nodes.size

/-- The links from children to parents and back agree, and nobody is a child twice. -/
structure Linked (f : Forest α) : Prop where
  mem_children : ∀ {n p}, n ∈ f.children p ↔ f.parent? n = some p
  nodup : ∀ p, (f.children p).Nodup

theorem node?_eq_none {n : NodeId} : f.node? n = none ↔ ¬ f.Has n := by
  simp [node?, Has]

theorem children_eq_nil {n : NodeId} (h : ¬ f.Has n) : f.children n = [] := by
  simp [children, node?_eq_none.2 h]

theorem parent?_eq_none {n : NodeId} (h : ¬ f.Has n) : f.parent? n = none := by
  simp [parent?, node?_eq_none.2 h]

theorem has_of_parent? {n p : NodeId} (h : f.parent? n = some p) : f.Has n := by
  by_contra hn
  simp [parent?_eq_none hn] at h

theorem has_of_mem_children {n p : NodeId} (h : n ∈ f.children p) : f.Has p := by
  by_contra hn
  simp [children_eq_nil hn] at h

theorem Linked.has_parent (h : f.Linked) {n p : NodeId} (hp : f.parent? n = some p) : f.Has p :=
  has_of_mem_children (h.mem_children.2 hp)

theorem Linked.has_child (h : f.Linked) {n p : NodeId} (hc : n ∈ f.children p) : f.Has n :=
  has_of_parent? (h.mem_children.1 hc)

theorem empty_linked : (empty : Forest α).Linked where
  mem_children := by simp [children, parent?, node?, empty]
  nodup := by simp [children, node?, empty]

/-! Changes of one node. -/

theorem node?_modify (id : NodeId) (change : Node α → Node α) (n : NodeId) :
    (f.modify id change).node? n = if n = id then (f.node? n).map change else f.node? n := by
  simp only [modify, node?, Array.getElem?_modify, eq_comm]

@[simp] theorem size_modify (id : NodeId) (change : Node α → Node α) :
    (f.modify id change).nodes.size = f.nodes.size := by
  simp [modify]

private theorem kind?_modify {id : NodeId} {change : Node α → Node α}
    (h : ∀ n, (change n).kind = n.kind) (n : NodeId) :
    (f.modify id change).kind? n = f.kind? n := by
  simp only [kind?, node?_modify]
  split
  · cases f.node? n <;> simp [h]
  · rfl

theorem children_modify {id : NodeId} {change : Node α → Node α}
    (h : ∀ n, (change n).children = n.children) (n : NodeId) :
    (f.modify id change).children n = f.children n := by
  simp only [children, node?_modify]
  split
  · cases f.node? n <;> simp [h]
  · rfl

/-! Creation. -/

private theorem node?_create (kind : NodeKind α) (n : NodeId) :
    (f.create kind).2.node? n = if n = f.nodes.size then some ⟨kind, none, []⟩ else f.node? n := by
  simp only [create, node?, Array.getElem?_push]

@[simp] theorem size_create (kind : NodeKind α) :
    (f.create kind).2.nodes.size = f.nodes.size + 1 := by
  simp [create]

@[simp] theorem create_fst (kind : NodeKind α) : (f.create kind).1 = f.nodes.size := rfl

theorem parent?_create (kind : NodeKind α) (n : NodeId) :
    (f.create kind).2.parent? n = f.parent? n := by
  simp only [parent?, node?_create]
  split
  · next h => simp [node?_eq_none.2 (show ¬ f.Has n by simp [Has, h])]
  · rfl

theorem children_create (kind : NodeKind α) (n : NodeId) :
    (f.create kind).2.children n = f.children n := by
  simp only [children, node?_create]
  split
  · next h => simp [node?_eq_none.2 (show ¬ f.Has n by simp [Has, h])]
  · rfl

theorem kind?_create (kind : NodeKind α) (n : NodeId) :
    (f.create kind).2.kind? n = if n = f.nodes.size then some kind else f.kind? n := by
  simp only [kind?, node?_create]
  split <;> rfl

theorem Linked.create (h : f.Linked) (kind : NodeKind α) : (f.create kind).2.Linked where
  mem_children := by
    intro n p
    rw [children_create, parent?_create]
    exact h.mem_children
  nodup p := by
    rw [children_create]
    exact h.nodup p

/-! Taking a node from its parent. -/

@[simp] theorem size_remove (id : NodeId) : (f.remove id).nodes.size = f.nodes.size := by
  unfold remove
  split <;> simp

theorem kind?_remove (id n : NodeId) : (f.remove id).kind? n = f.kind? n := by
  unfold remove
  split
  · rfl
  · simp only [kind?_modify, implies_true]

theorem parent?_remove (id n : NodeId) :
    (f.remove id).parent? n = if n = id then none else f.parent? n := by
  unfold remove
  split
  · next h =>
    split
    · next hn => rw [hn, h]
    · rfl
  · simp only [parent?, node?_modify]
    split
    · split <;> cases f.node? n <;> rfl
    · split
      · cases f.node? n <;> rfl
      · rfl

theorem Linked.children_remove (h : f.Linked) (id p : NodeId) :
    (f.remove id).children p = (f.children p).filter (· != id) := by
  have absent (hp : f.parent? id ≠ some p) : (f.children p).filter (· != id) = f.children p := by
    rw [List.filter_eq_self]
    intro n hn
    rw [bne_iff_ne]
    rintro rfl
    exact hp (h.mem_children.1 hn)
  unfold remove
  split
  · next hi => exact (absent (by simp [hi])).symm
  · next q hi =>
    simp only [children_modify, implies_true]
    simp only [children, node?_modify]
    split
    · cases f.node? p <;> rfl
    · next hpq => exact (absent (by simpa [hi] using Ne.symm hpq)).symm

theorem Linked.remove (h : f.Linked) (id : NodeId) : (f.remove id).Linked where
  mem_children := by
    intro n p
    rw [h.children_remove, parent?_remove, List.mem_filter, h.mem_children]
    split
    · next hn => simp [hn]
    · next hn => simp [hn]
  nodup p := by
    rw [h.children_remove]
    exact (h.nodup p).filter _

/-! Making a root a child. -/

@[simp] theorem size_attach (parent : NodeId) (place : List NodeId → List NodeId) (id : NodeId) :
    (f.attach parent place id).nodes.size = f.nodes.size := by
  simp [attach]

theorem kind?_attach (parent : NodeId) (place : List NodeId → List NodeId) (id n : NodeId) :
    (f.attach parent place id).kind? n = f.kind? n := by
  simp only [attach, kind?_modify, implies_true]

theorem parent?_attach {id : NodeId} (hid : f.Has id) (parent : NodeId)
    (place : List NodeId → List NodeId) (n : NodeId) :
    (f.attach parent place id).parent? n = if n = id then some parent else f.parent? n := by
  simp only [attach, parent?, node?_modify]
  by_cases hn : n = id
  · subst hn
    cases hnode : f.node? n with
    | none => exact absurd hid (node?_eq_none.1 hnode)
    | some node =>
      rw [if_pos rfl, if_pos rfl]
      split <;> rfl
  · rw [if_neg hn, if_neg hn]
    split
    · cases f.node? n <;> rfl
    · rfl

theorem children_attach {parent : NodeId} (hp : f.Has parent) (place : List NodeId → List NodeId)
    (id q : NodeId) :
    (f.attach parent place id).children q =
      if q = parent then place (f.children q) else f.children q := by
  simp only [attach, children_modify, implies_true]
  simp only [children, node?_modify]
  split
  · next hq =>
    subst hq
    cases hnode : f.node? q with
    | none => exact absurd hp (node?_eq_none.1 hnode)
    | some node => rfl
  · rfl

/-- A root can be put among the children of a node in any place. -/
theorem Linked.attach (h : f.Linked) {parent id : NodeId} (hid : f.Has id) (hp : f.Has parent)
    (root : f.parent? id = none) {place : List NodeId → List NodeId}
    (hplace : (place (f.children parent)).Perm (id :: f.children parent)) :
    (f.attach parent place id).Linked where
  mem_children := by
    intro n q
    rw [children_attach hp, parent?_attach hid]
    by_cases hq : q = parent
    · subst hq
      rw [if_pos rfl, hplace.mem_iff, List.mem_cons, h.mem_children]
      by_cases hn : n = id <;> simp [hn]
    · rw [if_neg hq, h.mem_children]
      by_cases hn : n = id
      · subst hn
        simp [root, Ne.symm hq]
      · simp [hn]
  nodup q := by
    rw [children_attach hp]
    split
    · next hq =>
      subst hq
      rw [hplace.nodup_iff, List.nodup_cons]
      refine ⟨fun hm => ?_, h.nodup q⟩
      simp [h.mem_children.1 hm] at root
    · exact h.nodup q

theorem perm_append_singleton (id : NodeId) (ids : List NodeId) : (ids ++ [id]).Perm (id :: ids) :=
  List.perm_append_singleton id ids

/-- The place before a reference is the last one if the reference is missing. -/
theorem perm_putBefore (reference id : NodeId) (ids : List NodeId) :
    (putBefore reference id ids).Perm (id :: ids) := by
  unfold putBefore
  refine List.perm_middle.trans ?_
  rw [List.takeWhile_append_dropWhile]

end LiveMarkup.Forest
