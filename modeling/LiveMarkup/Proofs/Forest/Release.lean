import LiveMarkup.Proofs.Forest.Move

/-! Letting go of what nobody holds. Only links from nodes that are held to parents that are not in
use are cut, and nothing in use is affected. -/

namespace LiveMarkup.Forest

variable {α : Type} {f f' : Forest α}

/-- A node is another one or lies below it. -/
inductive Under (f : Forest α) (upper : NodeId) : NodeId → Prop where
  | self : Under f upper upper
  | up {n p : NodeId} (h : f.parent? n = some p) (hp : Under f upper p) : Under f upper n

theorem under_of_mem_pathUp {u n : NodeId} {k : Nat} (h : u ∈ f.pathUp k n) : f.Under u n := by
  induction k generalizing n with
  | zero => simp [pathUp] at h
  | succ k ih =>
    rw [pathUp, List.mem_cons] at h
    rcases h with rfl | h
    · exact .self
    · cases hp : f.parent? n with
      | none => simp [hp] at h
      | some p =>
        rw [hp] at h
        exact .up hp (ih h)

/-- What is above a node that exists exists. -/
theorem Linked.has_of_under (hf : f.Linked) {u n : NodeId} (h : f.Under u n) (hn : f.Has n) :
    f.Has u := by
  induction h with
  | self => exact hn
  | up hp _ ih => exact ih (hf.has_parent hp)

/-- A path stays while the parents of the nodes along it do. -/
private theorem pathUp_subset {q : NodeId} (h : ∀ n, f.Under n q → f'.parent? n = f.parent? n)
    {k k' : Nat} (hk : k ≤ k') : f.pathUp k q ⊆ f'.pathUp k' q := by
  induction k generalizing q k' with
  | zero => exact List.nil_subset _
  | succ k ih =>
    obtain ⟨k', rfl⟩ : ∃ j, k' = j + 1 := ⟨k' - 1, by omega⟩
    rw [pathUp, pathUp, h q .self]
    cases hp : f.parent? q with
    | none => exact List.Subset.refl _
    | some p =>
      exact List.cons_subset_cons q (ih (fun n hn => h n (.up hp hn)) (Nat.le_of_succ_le_succ hk))

theorem inUse_iff {held : List NodeId} {n : NodeId} :
    f.inUse held n = true ↔ ∃ k ∈ f.path n, k ∈ held := by
  simp [inUse]

theorem inUse_of_mem {held : List NodeId} {n : NodeId} (hn : f.Has n) (h : n ∈ held) :
    f.inUse held n = true := by
  obtain ⟨k, hk⟩ : ∃ k, f.nodes.size = k + 1 := ⟨f.nodes.size - 1, (Nat.sub_add_cancel (Nat.zero_lt_of_lt hn)).symm⟩
  refine inUse_iff.2 ⟨n, ?_, h⟩
  rw [path, hk, pathUp]
  exact List.mem_cons_self

/-- A node stays in use while the parents above it stay and whoever holds one of them does. -/
theorem inUse_mono {held held' : List NodeId} {q : NodeId} (hs : f.nodes.size ≤ f'.nodes.size)
    (h : ∀ n, f.Under n q → f'.parent? n = f.parent? n)
    (hh : ∀ n, f.Under n q → n ∈ held → n ∈ held') (hq : f.inUse held q) : f'.inUse held' q := by
  obtain ⟨k, hk, hheld⟩ := inUse_iff.1 hq
  exact inUse_iff.2 ⟨k, pathUp_subset h hs hk, hh k (under_of_mem_pathUp hk) hheld⟩

/-- A node that is held may lose its parent without anything going out of use or coming into it. -/
private theorem inUse_remove {held : List NodeId} {id : NodeId} (hid : id ∈ held) (n : NodeId) :
    (f.remove id).inUse held n = f.inUse held n := by
  have key (k : Nat) (n : NodeId) : ((f.remove id).pathUp k n).any held.contains =
      (f.pathUp k n).any held.contains := by
    induction k generalizing n with
    | zero => rfl
    | succ k ih =>
      rw [pathUp, pathUp, parent?_remove]
      by_cases hn : n = id
      · subst hn
        simp [hid]
      · rw [if_neg hn, List.any_cons, List.any_cons]
        cases f.parent? n with
        | none => rfl
        | some p => rw [ih p]
  rw [inUse, inUse, path, path, size_remove]
  exact key _ n

/-- Whether a node is held and its parent is not in use. -/
def Stray (f : Forest α) (held : List NodeId) (n : NodeId) : Prop :=
  n ∈ held ∧ ∃ p, f.parent? n = some p ∧ f.inUse held p = false

/-- One node that is held is let go of if its parent is not in use. -/
def releaseOne (held : List NodeId) (f : Forest α) (id : NodeId) : Forest α :=
  match f.parent? id with
  | some p => if f.inUse held p then f else f.remove id
  | none => f

private theorem releaseOne_cases {held : List NodeId} {id : NodeId} (hid : id ∈ held) :
    (f.Stray held id ∧ f.releaseOne held id = f.remove id) ∨
      (¬ f.Stray held id ∧ f.releaseOne held id = f) := by
  unfold releaseOne Stray
  cases hp : f.parent? id with
  | none => exact .inr ⟨by simp, rfl⟩
  | some p =>
    cases hu : f.inUse held p with
    | true => exact .inr ⟨by simp [hu], by simp [hu]⟩
    | false => exact .inl ⟨⟨hid, p, rfl, hu⟩, by simp [hu]⟩

private theorem stray_remove {held : List NodeId} {id n : NodeId} (hid : id ∈ held) :
    (f.remove id).Stray held n ↔ n ≠ id ∧ f.Stray held n := by
  unfold Stray
  rw [parent?_remove]
  by_cases hn : n = id <;> simp [hn, inUse_remove hid]

/-- The forest `f'` is `f` without the links from stray nodes among `ids` to their parents. -/
structure Released (f f' : Forest α) (held ids : List NodeId) : Prop where
  linked : f'.Linked
  size : f'.nodes.size = f.nodes.size
  kind : ∀ n, f'.kind? n = f.kind? n
  cut : ∀ n ∈ ids, f.Stray held n → f'.parent? n = none
  kept : ∀ n, ¬ (n ∈ ids ∧ f.Stray held n) → f'.parent? n = f.parent? n
  children : ∀ q, f'.children q = (f.children q).filter fun n => f'.parent? n = some q
  inUse : ∀ n, f'.inUse held n = f.inUse held n

private theorem Linked.released_self (h : f.Linked) {held ids : List NodeId}
    (hs : ∀ n ∈ ids, ¬ f.Stray held n) : Released f f held ids where
  linked := h
  size := rfl
  kind _ := rfl
  cut n hn hstray := absurd hstray (hs n hn)
  kept _ _ := rfl
  children q := by
    rw [eq_comm, List.filter_eq_self]
    intro n hn
    simpa using h.mem_children.1 hn
  inUse _ := rfl

/-- Nodes that are let go of one after the other are those that were stray from the beginning. -/
private theorem Linked.releaseAll (h : f.Linked) {held ids : List NodeId} (hids : ids ⊆ held) :
    Released f (ids.foldl (releaseOne held) f) held ids := by
  induction ids generalizing f with
  | nil => exact h.released_self (by simp)
  | cons id ids ih =>
    have hid : id ∈ held := hids List.mem_cons_self
    have hsub : ids ⊆ held := fun n hn => hids (List.mem_cons_of_mem _ hn)
    rw [List.foldl_cons]
    rcases releaseOne_cases (f := f) hid with ⟨hstray, he⟩ | ⟨hstray, he⟩
    · rw [he]
      have r := ih (h.remove id) hsub
      have hcut : ((ids.foldl (releaseOne held) (f.remove id))).parent? id = none := by
        rw [r.kept id fun hs => (stray_remove hid).1 hs.2 |>.1 rfl, parent?_remove, if_pos rfl]
      refine ⟨r.linked, by simpa using r.size, fun n => ?_, fun n hn hs => ?_, fun n hn => ?_,
        fun q => ?_, fun n => ?_⟩
      · rw [r.kind, kind?_remove]
      · by_cases hne : n = id
        · rw [hne, hcut]
        · exact r.cut n ((List.mem_cons.1 hn).resolve_left hne) ((stray_remove hid).2 ⟨hne, hs⟩)
      · have hne : n ≠ id := by
          rintro rfl
          exact hn ⟨List.mem_cons_self, hstray⟩
        rw [r.kept n, parent?_remove, if_neg hne]
        exact fun hs => hn ⟨List.mem_cons_of_mem _ hs.1, ((stray_remove hid).1 hs.2).2⟩
      · rw [r.children, h.children_remove, List.filter_filter]
        refine List.filter_congr fun n _ => ?_
        by_cases hne : n = id <;> simp [hne, hcut]
      · rw [r.inUse, inUse_remove hid]
    · rw [he]
      have r := ih h hsub
      refine ⟨r.linked, r.size, r.kind, fun n hn hs => ?_, fun n hn => ?_, r.children, r.inUse⟩
      · have hne : n ≠ id := by
          rintro rfl
          exact hstray hs
        exact r.cut n ((List.mem_cons.1 hn).resolve_left hne) hs
      · exact r.kept n fun hs => hn ⟨List.mem_cons_of_mem _ hs.1, hs.2⟩

/-- Letting go cuts exactly the links from nodes that are held to parents that are not in use. -/
theorem Linked.release (h : f.Linked) (held : List NodeId) :
    Released f (f.release held) held held :=
  h.releaseAll (List.Subset.refl held)

theorem Released.parent?_of_some {held ids : List NodeId} (r : Released f f' held ids) {n q : NodeId}
    (h : f'.parent? n = some q) : f.parent? n = some q := by
  by_cases hs : n ∈ ids ∧ f.Stray held n
  · rw [r.cut n hs.1 hs.2] at h
    cases h
  · rw [← r.kept n hs, h]

/-- Whoever is held loses a parent that is out of use. -/
theorem Released.parent?_of_held {held : List NodeId} (r : Released f f' held held) {n p : NodeId}
    (hn : n ∈ held) (hp : f.parent? n = some p) :
    f'.parent? n = if f.inUse held p then some p else none := by
  cases hu : f.inUse held p with
  | true =>
    rw [r.kept n, hp, if_pos rfl]
    rintro ⟨-, -, q, hq, hu'⟩
    cases hp.symm.trans hq
    cases hu.symm.trans hu'
  | false => exact r.cut n hn ⟨hn, p, hp, hu⟩

/-- Trees stay shown while whoever is held hangs from nodes above them. -/
theorem Released.shows {held ids : List NodeId} (hf : f.Linked) (r : Released f f' held ids)
    {lo hi : Nat} {trees : List (Html α)} {ns : List NodeId} (h : ShowsAll f lo hi trees ns)
    (hheld : ∀ n ∈ held, ∀ q, f.parent? n = some q → q < lo) : ShowsAll f' lo hi trees ns := by
  refine h.mono (fun n _ _ => r.kind n) (fun q hq _ => ?_) (Nat.le_refl _) (Nat.le_refl _)
  rw [r.children, List.filter_eq_self]
  intro n hn
  have hpar := hf.mem_children.1 hn
  rw [decide_eq_true_iff, r.kept n, hpar]
  exact fun hs => Nat.not_lt_of_le hq (hheld n hs.2.1 q hpar)

/-- Nobody who is held has a parent that is out of use. -/
def Settled (f : Forest α) (held : List NodeId) : Prop := ∀ n, ¬ f.Stray held n

theorem Settled.inUse_parent {held : List NodeId} (h : f.Settled held) {n p : NodeId}
    (hn : n ∈ held) (hp : f.parent? n = some p) : f.inUse held p := by
  by_contra hu
  exact h n ⟨hn, p, hp, by simpa using hu⟩

/-- After letting go, nobody who is held has a parent that is out of use. -/
theorem Released.settled {held : List NodeId} (r : Released f f' held held) : f'.Settled held := by
  rintro n ⟨hn, p, hp, hu⟩
  have hs : ¬ f.Stray held n := fun hs => by simp [r.cut n hn hs] at hp
  rw [r.kept n fun h => hs h.2] at hp
  exact hs ⟨hn, p, hp, by rw [← r.inUse, hu]⟩

end LiveMarkup.Forest
