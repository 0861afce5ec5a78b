import LiveMarkup.Proofs.Forest.Plant

/-! Moving nodes, one by one: the nodes that move leave all other children in their order, and stand
in theirs where they have been put. -/

namespace LiveMarkup.Forest

variable {α : Type} {f : Forest α}

def putAllBefore (reference : NodeId) (new ids : List NodeId) : List NodeId :=
  ids.takeWhile (· != reference) ++ (new ++ ids.dropWhile (· != reference))

private theorem filter_putBefore {reference id : NodeId} {keep : NodeId → Bool} (hr : keep reference)
    (hid : keep id) (ids : List NodeId) :
    (putBefore reference id ids).filter keep = putBefore reference id (ids.filter keep) := by
  induction ids with
  | nil => simp [putBefore, hid]
  | cons n ns ih =>
    by_cases hn : n = reference
    · subst hn
      simp [putBefore, hid, hr]
    · have hb : (n != reference) = true := by simpa using hn
      simp only [putBefore, List.takeWhile_cons, List.dropWhile_cons, hb, if_true, List.cons_append,
        List.filter_cons] at ih ⊢
      split
      · simp only [List.takeWhile_cons, List.dropWhile_cons, hb, if_true, List.cons_append, ih]
      · exact ih

/-- Elements that are put before a reference one after the other stand in their order. -/
private theorem putAllBefore_putBefore {reference id : NodeId} (h : id ≠ reference)
    (new ids : List NodeId) :
    putAllBefore reference new (putBefore reference id ids) = putAllBefore reference (id :: new) ids := by
  induction ids with
  | nil => simp [putAllBefore, putBefore, h]
  | cons n ns ih =>
    by_cases hn : n = reference
    · subst hn
      simp [putAllBefore, putBefore, h]
    · have hb : (n != reference) = true := by simpa using hn
      simp only [putAllBefore, putBefore, List.takeWhile_cons, List.dropWhile_cons, hb, if_true,
        List.cons_append] at ih ⊢
      rw [ih]

theorem filter_putAllBefore {reference : NodeId} {new : List NodeId} {keep : NodeId → Bool}
    (hnew : ∀ n ∈ new, keep n = false) (ids : List NodeId) :
    (putAllBefore reference new ids).filter keep = ids.filter keep := by
  have hnil : new.filter keep = [] := by
    rw [List.filter_eq_nil_iff]
    intro n hn
    simp [hnew n hn]
  rw [putAllBefore, List.filter_append, List.filter_append, hnil, List.nil_append,
    ← List.filter_append, List.takeWhile_append_dropWhile]

theorem filter_notMem_nil (ids : List NodeId) : ids.filter (· ∉ ([] : List NodeId)) = ids := by
  rw [List.filter_eq_self]
  simp

private theorem filter_notMem_cons (id : NodeId) (out ids : List NodeId) :
    (ids.filter (· ∉ [id])).filter (· ∉ out) = ids.filter (· ∉ id :: out) := by
  rw [List.filter_filter]
  exact List.filter_congr fun n _ => by simp [Bool.and_comm]

private theorem filter_bne (id : NodeId) (ids : List NodeId) :
    ids.filter (· != id) = ids.filter (· ∉ [id]) := by
  exact List.filter_congr fun n _ => by simp [bne, Bool.beq_eq_decide_eq]

/-- The forest `f'` is `f` with the nodes `ids` moved under `p`, where they stand as `place` says. -/
structure Moved (f f' : Forest α) (p : NodeId) (ids : List NodeId)
    (place : List NodeId → List NodeId) : Prop where
  linked : f'.Linked
  size : f'.nodes.size = f.nodes.size
  kind : ∀ n, f'.kind? n = f.kind? n
  parent? : ∀ n, f'.parent? n = if n ∈ ids then some p else f.parent? n
  children : ∀ q, f'.children q =
    if q = p then place ((f.children q).filter (· ∉ ids)) else (f.children q).filter (· ∉ ids)

/-- Trees stay shown while nodes above them move to a place above them. -/
theorem Moved.shows {f' : Forest α} {p : NodeId} {ids : List NodeId}
    {place : List NodeId → List NodeId} (hf : f.Linked) (m : Moved f f' p ids place) {lo hi : Nat}
    {trees : List (Html α)} {ns : List NodeId} (h : ShowsAll f lo hi trees ns) (hp : p < lo)
    (hids : ∀ n ∈ ids, ∀ q, f.parent? n = some q → q < lo) : ShowsAll f' lo hi trees ns := by
  refine h.mono (fun n _ _ => m.kind n) (fun q hq _ => ?_) (Nat.le_refl _) (Nat.le_refl _)
  have hqp : q ≠ p := Nat.ne_of_gt (Nat.lt_of_lt_of_le hp hq)
  rw [m.children, if_neg hqp, List.filter_eq_self]
  intro n hn
  rw [decide_eq_true_iff]
  exact fun hmem => Nat.not_lt_of_le hq (hids n hmem q (hf.mem_children.1 hn))

/-- One node moves. -/
theorem Linked.move (h : f.Linked) {p id : NodeId} (hp : f.Has p) (hid : f.Has id)
    {place : List NodeId → List NodeId} (hplace : ∀ l, (place l).Perm (id :: l)) :
    Moved f ((f.remove id).attach p place id) p [id] place := by
  have hp' : (f.remove id).Has p := by simpa [Has] using hp
  have hid' : (f.remove id).Has id := by simpa [Has] using hid
  have hroot : (f.remove id).parent? id = none := by rw [parent?_remove, if_pos rfl]
  refine ⟨(h.remove id).attach hid' hp' hroot (hplace _), by simp, fun n => ?_, fun n => ?_, fun q => ?_⟩
  · rw [kind?_attach, kind?_remove]
  · rw [parent?_attach hid', parent?_remove]
    by_cases hn : n = id <;> simp [hn]
  · rw [children_attach hp', h.children_remove, filter_bne]

/-- Moves under one and the same node add up. -/
theorem Moved.trans {f₁ f₂ : Forest α} {p id : NodeId} {ids : List NodeId}
    {place place' place'' : List NodeId → List NodeId} (h : Moved f f₁ p [id] place)
    (h' : Moved f₁ f₂ p ids place')
    (hplace : ∀ l, id ∉ l → place' ((place l).filter (· ∉ ids)) = place'' (l.filter (· ∉ ids))) :
    Moved f f₂ p (id :: ids) place'' where
  linked := h'.linked
  size := h'.size.trans h.size
  kind n := (h'.kind n).trans (h.kind n)
  parent? n := by
    rw [h'.parent?, h.parent?]
    by_cases hn : n = id <;> simp [hn]
  children q := by
    rw [h'.children, h.children]
    split
    · rw [hplace _ (by simp), filter_notMem_cons]
    · exact filter_notMem_cons ..

/-- Nodes that are put before a reference one after the other. -/
private theorem Linked.moveBefore (h : f.Linked) {reference p : NodeId} (hp : f.Has p)
    {ids : List NodeId} (hids : ∀ id ∈ ids, f.Has id) (hnodup : ids.Nodup) (hr : reference ∉ ids) :
    Moved f (ids.foldl (fun f id => (f.remove id).attach p (putBefore reference id) id) f) p ids
      (putAllBefore reference ids) := by
  induction ids generalizing f with
  | nil =>
    refine ⟨h, rfl, fun _ => rfl, fun n => by simp, fun q => ?_⟩
    rw [filter_notMem_nil, putAllBefore, List.nil_append, List.takeWhile_append_dropWhile, ite_self]
    rfl
  | cons id ids ih =>
    obtain ⟨hid, hnodup⟩ := List.nodup_cons.1 hnodup
    have hne : reference ≠ id := fun he => hr (he ▸ List.mem_cons_self)
    have hr' : reference ∉ ids := fun hm => hr (List.mem_cons_of_mem _ hm)
    have h₁ := h.move hp (hids id List.mem_cons_self) (perm_putBefore reference id)
    refine h₁.trans (ih h₁.linked ?_ ?_ hnodup hr') fun l _ => ?_
    · rw [Has, h₁.size]
      exact hp
    · intro n hn
      rw [Has, h₁.size]
      exact hids n (List.mem_cons_of_mem _ hn)
    · rw [filter_putBefore (by simpa using hr') (by simpa using hid), putAllBefore_putBefore hne.symm]

/-- Nodes that are made last children one after the other. -/
private theorem Linked.moveLast (h : f.Linked) {p : NodeId} (hp : f.Has p) {ids : List NodeId}
    (hids : ∀ id ∈ ids, f.Has id) (hnodup : ids.Nodup) :
    Moved f (ids.foldl (fun f id => (f.remove id).attach p (· ++ [id]) id) f) p ids (· ++ ids) := by
  induction ids generalizing f with
  | nil =>
    refine ⟨h, rfl, fun _ => rfl, fun n => by simp, fun q => ?_⟩
    rw [filter_notMem_nil, List.append_nil, ite_self]
    rfl
  | cons id ids ih =>
    obtain ⟨hid, hnodup⟩ := List.nodup_cons.1 hnodup
    have h₁ := h.move hp (hids id List.mem_cons_self) (perm_append_singleton id)
    refine h₁.trans (ih h₁.linked ?_ ?_ hnodup) fun l _ => ?_
    · rw [Has, h₁.size]
      exact hp
    · intro n hn
      rw [Has, h₁.size]
      exact hids n (List.mem_cons_of_mem _ hn)
    · simp [List.filter_append, hid]

/-- Nodes that are made roots one after the other. -/
theorem Linked.removeAll (h : f.Linked) (ids : List NodeId) :
    (ids.foldl Forest.remove f).Linked ∧ (ids.foldl Forest.remove f).nodes.size = f.nodes.size ∧
      (∀ n, (ids.foldl Forest.remove f).kind? n = f.kind? n) ∧
      (∀ n, (ids.foldl Forest.remove f).parent? n = if n ∈ ids then none else f.parent? n) ∧
      ∀ q, (ids.foldl Forest.remove f).children q = (f.children q).filter (· ∉ ids) := by
  induction ids generalizing f with
  | nil => exact ⟨h, rfl, fun _ => rfl, fun n => by simp, fun q => (filter_notMem_nil _).symm⟩
  | cons id ids ih =>
    obtain ⟨hl, hs, hk, hp, hc⟩ := ih (h.remove id)
    refine ⟨hl, by simpa using hs, fun n => (hk n).trans (kind?_remove id n), fun n => ?_, fun q => ?_⟩
    · rw [List.foldl_cons, hp, parent?_remove]
      by_cases hn : n = id <;> simp [hn]
    · rw [List.foldl_cons, hc, h.children_remove, filter_bne, filter_notMem_cons]

/-- The nodes that move are nodes, and none moves twice. -/
theorem Linked.moving (h : f.Linked) {id : NodeId} (hid : f.Has id) :
    (f.moving id).Nodup ∧ ∀ n ∈ f.moving id, f.Has n := by
  unfold Forest.moving
  split
  · exact ⟨h.nodup id, fun n hn => h.has_child hn⟩
  · exact ⟨by simp, fun n hn => List.mem_singleton.1 hn ▸ hid⟩

/-- Inserting fails only if the reference has no parent or lies within the node. -/
theorem Linked.insertBefore (h : f.Linked) {reference id p : NodeId} (hid : f.Has id)
    (hp : f.parent? reference = some p) (hc : f.contains id p = false) :
    ∃ f', f.insertBefore reference id = .ok f' ∧
      Moved f f' p ((f.moving id).filter (· != reference))
        (putAllBefore reference ((f.moving id).filter (· != reference))) := by
  obtain ⟨hnodup, hhas⟩ := h.moving hid
  refine ⟨_, by simp [Forest.insertBefore, hp, hc]; rfl, ?_⟩
  refine h.moveBefore (h.has_parent hp) (fun n hn => ?_) (hnodup.filter _) (by simp)
  exact hhas n (List.mem_filter.1 hn).1

/-- Appending fails only if the new parent lies within the node. -/
theorem Linked.append (h : f.Linked) {p id : NodeId} (hp : f.Has p) (hid : f.Has id)
    (hc : f.contains id p = false) :
    ∃ f', f.append p id = .ok f' ∧ Moved f f' p (f.moving id) (· ++ f.moving id) := by
  obtain ⟨hnodup, hhas⟩ := h.moving hid
  exact ⟨_, by simp [Forest.append, hc], h.moveLast hp hhas hnodup⟩

end LiveMarkup.Forest
