import LiveMarkup.Proofs.Forest.Links

/-! Planting trees. The nodes that were there stay as they were, but for the last children of the
node that the trees are planted under, and reading the new nodes back gives the trees. -/

namespace LiveMarkup

variable {α : Type}

mutual

def Html.depth : Html α → Nat
  | .element _ _ _ children => depthOf children + 1
  | .text _ => 1
  | .comment _ => 1

def Html.depthOf : List (Html α) → Nat
  | [] => 0
  | t :: ts => max t.depth (depthOf ts)

end

namespace Forest

/-- The forest `f'` has the nodes of `f` with their links, but for `new` nodes behind the children of
one of them. -/
structure Extended (f f' : Forest α) (parent : NodeId) (new : List NodeId) : Prop where
  size_le : f.nodes.size ≤ f'.nodes.size
  kind : ∀ n, f.Has n → f'.kind? n = f.kind? n
  parent? : ∀ n, f.Has n → f'.parent? n = f.parent? n
  children : ∀ n, f.Has n → f'.children n = if n = parent then f.children n ++ new else f.children n
  fresh : ∀ n ∈ new, ¬ f.Has n

/-- An extended forest that is linked. -/
structure Grown (f f' : Forest α) (parent : NodeId) (new : List NodeId) : Prop
    extends Extended f f' parent new where
  linked : f'.Linked

namespace Grown

variable {f f₁ f₂ : Forest α} {parent : NodeId} {new more : List NodeId}

theorem has (g : Grown f f₁ parent new) {n : NodeId} (h : f.Has n) : f₁.Has n :=
  Nat.lt_of_lt_of_le h g.size_le

theorem refl (h : f.Linked) (parent : NodeId) : Grown f f parent [] :=
  ⟨⟨Nat.le_refl _, fun _ _ => rfl, fun _ _ => rfl, fun n _ => by simp, by simp⟩, h⟩

theorem trans (g : Grown f f₁ parent new) (h : Grown f₁ f₂ parent more) :
    Grown f f₂ parent (new ++ more) where
  linked := h.linked
  size_le := Nat.le_trans g.size_le h.size_le
  kind n hn := (h.kind n (g.has hn)).trans (g.kind n hn)
  parent? n hn := (h.parent? n (g.has hn)).trans (g.parent? n hn)
  children n hn := by
    rw [h.children n (g.has hn), g.children n hn]
    split <;> simp
  fresh n hn := by
    rcases List.mem_append.1 hn with hn | hn
    · exact g.fresh n hn
    · exact fun hf => h.fresh n hn (g.has hf)

/-- What is put under a node that is new itself does not show from before. -/
theorem under_fresh (g : Grown f f₁ parent new) {id : NodeId} (hid : ¬ f.Has id)
    (h : Grown f₁ f₂ id more) : Grown f f₂ parent new where
  linked := h.linked
  size_le := Nat.le_trans g.size_le h.size_le
  kind n hn := (h.kind n (g.has hn)).trans (g.kind n hn)
  parent? n hn := (h.parent? n (g.has hn)).trans (g.parent? n hn)
  children n hn := by
    have hne : n ≠ id := by
      rintro rfl
      exact hid hn
    rw [h.children n (g.has hn), if_neg hne, g.children n hn]
  fresh := g.fresh

end Grown

theorem create_grown {f : Forest α} (h : f.Linked) (kind : NodeKind α) (parent : NodeId) :
    Grown f (f.create kind).2 parent [] where
  linked := h.create kind
  size_le := by simp
  kind n hn := by rw [kind?_create, if_neg (Nat.ne_of_lt hn)]
  parent? n _ := parent?_create kind n
  children n _ := by simp [children_create]
  fresh := by simp

/-- A new node whose children have been put under it since. -/
private theorem create_under {f f' : Forest α} (hf : f.Linked) {kind : NodeKind α} {new : List NodeId}
    (hn : Grown (f.create kind).2 f' f.nodes.size new) :
    (∀ p, Grown f f' p []) ∧ f'.Has f.nodes.size ∧ f'.parent? f.nodes.size = none ∧
      f'.kind? f.nodes.size = some kind ∧ f'.children f.nodes.size = new := by
  have hid : ¬ f.Has f.nodes.size := Nat.lt_irrefl _
  have hhas : (f.create kind).2.Has f.nodes.size := by simp [Has]
  refine ⟨fun p => (create_grown hf kind p).under_fresh hid hn, hn.has hhas, ?_, ?_, ?_⟩
  · rw [hn.parent? _ hhas, parent?_create, parent?_eq_none hid]
  · rw [hn.kind _ hhas, kind?_create, if_pos rfl]
  · rw [hn.children _ hhas, if_pos rfl, children_create, children_eq_nil hid, List.nil_append]

/-- A new root becomes the last child of a node. -/
theorem attach_grown {f f₁ : Forest α} {parent id : NodeId} (g : Grown f f₁ parent [])
    (hp : f.Has parent) (hid : ¬ f.Has id) (hid₁ : f₁.Has id) (root : f₁.parent? id = none) :
    Grown f (f₁.attach parent (· ++ [id]) id) parent [id] where
  linked := g.linked.attach hid₁ (g.has hp) root (perm_append_singleton id _)
  size_le := by simpa using g.size_le
  kind n hn := by rw [kind?_attach, g.kind n hn]
  parent? n hn := by
    have hne : n ≠ id := by
      rintro rfl
      exact hid hn
    rw [parent?_attach hid₁, if_neg hne, g.parent? n hn]
  children n hn := by
    rw [children_attach (g.has hp), g.children n hn]
    split <;> simp
  fresh n hn := by
    rw [List.mem_singleton.1 hn]
    exact hid

/-! Trees that are shown by nodes. -/

mutual

/-- The node and what is below it show the tree, all within the identities from `lo` up to `hi`. -/
def Shows (f : Forest α) (lo hi : Nat) : Html α → NodeId → Prop
  | .element tag attributes listeners children, n =>
    lo ≤ n ∧ n < hi ∧ f.kind? n = some (.element tag attributes listeners) ∧
      ShowsAll f lo hi children (f.children n)
  | .text s, n => lo ≤ n ∧ n < hi ∧ f.kind? n = some (.text s)
  | .comment s, n => lo ≤ n ∧ n < hi ∧ f.kind? n = some (.comment s)

/-- The nodes show the trees in order. -/
def ShowsAll (f : Forest α) (lo hi : Nat) : List (Html α) → List NodeId → Prop
  | [], [] => True
  | t :: ts, n :: ns => Shows f lo hi t n ∧ ShowsAll f lo hi ts ns
  | _, _ => False

end

theorem Shows.range {f : Forest α} {lo hi n : Nat} {t : Html α} (h : Shows f lo hi t n) :
    lo ≤ n ∧ n < hi := by
  cases t with
  | element tag attributes listeners children =>
    rw [Shows] at h
    exact ⟨h.1, h.2.1⟩
  | text s =>
    rw [Shows] at h
    exact ⟨h.1, h.2.1⟩
  | comment s =>
    rw [Shows] at h
    exact ⟨h.1, h.2.1⟩

theorem ShowsAll.range {f : Forest α} {lo hi : Nat} {ts : List (Html α)} {ns : List NodeId}
    (h : ShowsAll f lo hi ts ns) : ∀ n ∈ ns, lo ≤ n ∧ n < hi := by
  induction ts generalizing ns with
  | nil =>
    cases ns with
    | nil => simp
    | cons n ns => simp [ShowsAll] at h
  | cons t ts ih =>
    cases ns with
    | nil => simp
    | cons n ns =>
      rw [ShowsAll] at h
      intro m hm
      rcases List.mem_cons.1 hm with rfl | hm
      · exact h.1.range
      · exact ih h.2 m hm

section Mono

variable {f f' : Forest α} {lo hi lo' hi' : Nat}

mutual

/-- Trees stay shown while the nodes between `lo` and `hi` keep their kinds and children. -/
theorem Shows.mono (hk : ∀ n, lo ≤ n → n < hi → f'.kind? n = f.kind? n)
    (hc : ∀ n, lo ≤ n → n < hi → f'.children n = f.children n) (hlo : lo' ≤ lo) (hhi : hi ≤ hi')
    {n : NodeId} {t : Html α} (h : Shows f lo hi t n) : Shows f' lo' hi' t n := by
  cases t with
  | element tag attributes listeners children =>
    rw [Shows] at h ⊢
    refine ⟨Nat.le_trans hlo h.1, Nat.lt_of_lt_of_le h.2.1 hhi, ?_, ?_⟩
    · rw [hk n h.1 h.2.1]
      exact h.2.2.1
    · rw [hc n h.1 h.2.1]
      exact ShowsAll.mono hk hc hlo hhi h.2.2.2
  | text s =>
    rw [Shows] at h ⊢
    exact ⟨Nat.le_trans hlo h.1, Nat.lt_of_lt_of_le h.2.1 hhi, (hk n h.1 h.2.1).trans h.2.2⟩
  | comment s =>
    rw [Shows] at h ⊢
    exact ⟨Nat.le_trans hlo h.1, Nat.lt_of_lt_of_le h.2.1 hhi, (hk n h.1 h.2.1).trans h.2.2⟩

theorem ShowsAll.mono (hk : ∀ n, lo ≤ n → n < hi → f'.kind? n = f.kind? n)
    (hc : ∀ n, lo ≤ n → n < hi → f'.children n = f.children n) (hlo : lo' ≤ lo) (hhi : hi ≤ hi')
    {ns : List NodeId} {ts : List (Html α)} (h : ShowsAll f lo hi ts ns) :
    ShowsAll f' lo' hi' ts ns := by
  cases ts with
  | nil =>
    cases ns with
    | nil => rw [ShowsAll]; trivial
    | cons n ns => simp [ShowsAll] at h
  | cons t ts =>
    cases ns with
    | nil => simp [ShowsAll] at h
    | cons n ns =>
      rw [ShowsAll] at h ⊢
      exact ⟨Shows.mono hk hc hlo hhi h.1, ShowsAll.mono hk hc hlo hhi h.2⟩

end

end Mono

mutual

/-- Reading a node back gives the tree that it shows, if enough levels are read. -/
theorem Shows.treesTo {f : Forest α} {lo hi : Nat} {n : NodeId} {t : Html α}
    (h : Shows f lo hi t n) {k : Nat} (hk : t.depth ≤ k) : f.treesTo k n = [t] := by
  cases t with
  | element tag attributes listeners children =>
    rw [Shows] at h
    rw [Html.depth] at hk
    obtain ⟨k, rfl⟩ : ∃ j, k = j + 1 := ⟨k - 1, by omega⟩
    simp only [Forest.treesTo, h.2.2.1, ShowsAll.treesTo h.2.2.2 (by omega : _ ≤ k)]
  | text s =>
    rw [Shows] at h
    rw [Html.depth] at hk
    obtain ⟨k, rfl⟩ : ∃ j, k = j + 1 := ⟨k - 1, by omega⟩
    simp only [Forest.treesTo, h.2.2]
  | comment s =>
    rw [Shows] at h
    rw [Html.depth] at hk
    obtain ⟨k, rfl⟩ : ∃ j, k = j + 1 := ⟨k - 1, by omega⟩
    simp only [Forest.treesTo, h.2.2]

private theorem ShowsAll.treesTo {f : Forest α} {lo hi : Nat} {ns : List NodeId} {ts : List (Html α)}
    (h : ShowsAll f lo hi ts ns) {k : Nat} (hk : Html.depthOf ts ≤ k) :
    ns.flatMap (f.treesTo k) = ts := by
  cases ts with
  | nil =>
    cases ns with
    | nil => rfl
    | cons n ns => simp [ShowsAll] at h
  | cons t ts =>
    cases ns with
    | nil => simp [ShowsAll] at h
    | cons n ns =>
      rw [ShowsAll] at h
      rw [Html.depthOf] at hk
      rw [List.flatMap_cons, Shows.treesTo h.1 (by omega), ShowsAll.treesTo h.2 (by omega)]
      rfl

end

/-- Nodes that show trees read back as these trees. -/
theorem ShowsAll.trees {f : Forest α} {lo hi : Nat} {ns : List NodeId} {ts : List (Html α)}
    (h : ShowsAll f lo hi ts ns) (hd : Html.depthOf ts ≤ f.nodes.size) : ns.flatMap f.trees = ts :=
  h.treesTo hd

/-! What planting does. -/

mutual

/-- Planting a tree makes a new root that shows it. -/
theorem plant_spec {f : Forest α} (hf : f.Linked) (t : Html α) :
    (∀ p, Grown f (f.plant t).2 p []) ∧ (f.plant t).1 = f.nodes.size ∧
      (f.plant t).2.parent? f.nodes.size = none ∧
      f.nodes.size + t.depth ≤ (f.plant t).2.nodes.size ∧
      Shows (f.plant t).2 f.nodes.size (f.plant t).2.nodes.size t f.nodes.size := by
  cases t with
  | element tag attributes listeners children =>
    have hc := hf.create (.element tag attributes listeners)
    have hp : (f.create (.element tag attributes listeners)).2.Has f.nodes.size := by simp [Has]
    obtain ⟨new, hn, hshow, hdepth⟩ := plantAll_spec hc hp children
    obtain ⟨hg, hid, hroot, hkind, hnew⟩ := create_under hf hn
    rw [size_create] at hdepth hshow
    refine ⟨hg, rfl, hroot, ?_, ?_⟩
    · rw [Html.depth, ← Nat.add_assoc, Nat.add_right_comm]
      exact hdepth
    · rw [Shows]
      refine ⟨Nat.le_refl _, hid, hkind, ?_⟩
      exact hnew ▸ hshow.mono (fun _ _ _ => rfl) (fun _ _ _ => rfl) (Nat.le_succ _) (Nat.le_refl _)
  | text s =>
    obtain ⟨hg, hid, hroot, hkind, -⟩ := create_under hf (.refl (hf.create (.text s)) _)
    rw [plant, Html.depth, Shows]
    exact ⟨hg, rfl, hroot, Nat.le_of_eq (size_create _).symm, Nat.le_refl _, hid, hkind⟩
  | comment s =>
    obtain ⟨hg, hid, hroot, hkind, -⟩ := create_under hf (.refl (hf.create (.comment s)) _)
    rw [plant, Html.depth, Shows]
    exact ⟨hg, rfl, hroot, Nat.le_of_eq (size_create _).symm, Nat.le_refl _, hid, hkind⟩

/-- Planting trees under a node makes new last children that show them. -/
private theorem plantAll_spec {f : Forest α} (hf : f.Linked) {parent : NodeId} (hp : f.Has parent)
    (ts : List (Html α)) :
    ∃ new, Grown f (f.plantAll parent ts) parent new ∧
      ShowsAll (f.plantAll parent ts) f.nodes.size (f.plantAll parent ts).nodes.size ts new ∧
      f.nodes.size + Html.depthOf ts ≤ (f.plantAll parent ts).nodes.size := by
  cases ts with
  | nil =>
    rw [plantAll, Html.depthOf]
    exact ⟨[], .refl hf parent, by rw [ShowsAll]; trivial, Nat.le_refl _⟩
  | cons t ts =>
    rw [plantAll]
    obtain ⟨hg, hid, hroot, hd, hs⟩ := plant_spec hf t
    generalize f.plant t = planted at *
    obtain ⟨id, f₁⟩ := planted
    dsimp only at hg hid hroot hd hs ⊢
    subst hid
    have ha := attach_grown (hg parent) hp (Nat.lt_irrefl _) hs.range.2 hroot
    generalize hf₂ : f₁.attach parent (· ++ [f.nodes.size]) f.nodes.size = f₂ at *
    have hsize : f₂.nodes.size = f₁.nodes.size := by rw [← hf₂, size_attach]
    obtain ⟨new, hn, hshow, hdepth⟩ := plantAll_spec ha.linked (ha.has hp) ts
    have hle := hn.size_le
    have hlt : parent < f.nodes.size := hp
    refine ⟨f.nodes.size :: new, ha.trans hn, ?_, ?_⟩
    · rw [ShowsAll]
      constructor
      · have hhas (n) (h : n < f₁.nodes.size) : f₂.Has n := Nat.lt_of_lt_of_eq h hsize.symm
        refine hs.mono (fun n _ h => ?_) (fun n hlo h => ?_) (Nat.le_refl _) (hsize ▸ hle)
        · rw [hn.kind n (hhas n h), ← hf₂, kind?_attach]
        · have hne : n ≠ parent := Nat.ne_of_gt (Nat.lt_of_lt_of_le hlt hlo)
          rw [hn.children n (hhas n h), if_neg hne, ← hf₂, children_attach ((hg parent).has hp),
            if_neg hne]
      · exact hshow.mono (fun _ _ _ => rfl) (fun _ _ _ => rfl) ha.size_le (Nat.le_refl _)
    · rw [Html.depthOf]
      omega

end

/-- Planting trees under a new fragment. -/
theorem plantFragment_spec {f : Forest α} (hf : f.Linked) (ts : List (Html α)) :
    let f' := (f.plantFragment ts).2
    (∀ p, Grown f f' p []) ∧ (f.plantFragment ts).1 = f.nodes.size ∧ f'.Has f.nodes.size ∧
      f'.parent? f.nodes.size = none ∧ f'.kind? f.nodes.size = some .fragment ∧
      ShowsAll f' (f.nodes.size + 1) f'.nodes.size ts (f'.children f.nodes.size) ∧
      Html.depthOf ts ≤ f'.nodes.size := by
  have hp : (f.create .fragment).2.Has f.nodes.size := by simp [Has]
  obtain ⟨new, hn, hshow, hdepth⟩ :=
    plantAll_spec (hf.create .fragment) hp ts
  obtain ⟨hg, hid, hroot, hkind, hnew⟩ := create_under hf hn
  rw [size_create] at hdepth hshow
  exact ⟨hg, rfl, hid, hroot, hkind, hnew ▸ hshow, Nat.le_trans (Nat.le_add_left _ _) hdepth⟩

end Forest

end LiveMarkup
