import LiveMarkup.Html.Parser
import LiveMarkup.Proofs.Forest.Acyclic

/-! What can be asked of a forest. Insertion is followed node by node: it finds out that it is not
possible before anything has moved, and the forests that come about are all proper. -/

namespace LiveMarkup.Forest

variable {α : Type} {f f' : Forest α} {p r n : NodeId} {ids : List NodeId}

/-! Insertion in steps. -/

/-- A change of a forest that may fail, which leaves the forest as it is by then. -/
abbrev Editing (α : Type) := EStateM DocumentError (Forest α)

def moveLastOf (parent id : NodeId) : Editing α Unit := fun f =>
  .ok () ((f.remove id).attach parent (· ++ [id]) id)

/-- Moves a node to its place among another one's children. The place is looked for when the node
has been taken away. -/
def moveBeforeOf (parent reference id : NodeId) : Editing α Unit := fun f =>
  if id = reference then .ok () f
  else if reference ∈ (f.remove id).children parent then
    .ok () ((f.remove id).attach parent (putBefore reference id) id)
  else .error .detached (f.remove id)

def appendEach (parent child : NodeId) : Editing α Unit := fun f =>
  if f.contains child parent then .error .hierarchy f
  else (f.moving child).forM (moveLastOf parent) f

/-- Puts a node, or what a fragment holds, right before another one, one by one. -/
def insertEachBefore (reference node : NodeId) : Editing α Unit := fun f =>
  match f.parent? reference with
  | none => .error .detached f
  | some parent =>
    if f.contains node parent then .error .hierarchy f
    else (f.moving node).forM (moveBeforeOf parent reference) f

def ends (f : Forest α) :
    Except DocumentError (Forest α) → EStateM.Result DocumentError (Forest α) Unit
  | .ok f' => .ok () f'
  | .error e => .error e f

private theorem forM_cons_of_ok {m : NodeId → Editing α Unit} {id : NodeId} (h : m id f = .ok () f') :
    (id :: ids).forM m f = ids.forM m f' := by
  show EStateM.bind (m id) (fun _ => ids.forM m) f = _
  rw [EStateM.bind, h]

private theorem forM_moveLastOf (p : NodeId) (ids : List NodeId) (f : Forest α) :
    ids.forM (moveLastOf p) f =
      .ok () (ids.foldl (fun f id => (f.remove id).attach p (· ++ [id]) id) f) := by
  induction ids generalizing f with
  | nil => rfl
  | cons id ids ih =>
    rw [forM_cons_of_ok (show moveLastOf p id f = .ok () _ from rfl), ih]
    rfl

private theorem appendEach_eq (p n : NodeId) (f : Forest α) :
    appendEach p n f = ends f (f.append p n) := by
  unfold appendEach Forest.append
  split
  · rfl
  · exact forM_moveLastOf p (f.moving n) f

/-- A node other than the reference finds its place, and the reference stays where it is. -/
private theorem Linked.moveBeforeOf (h : f.Linked) (hr : f.parent? r = some p) {id : NodeId}
    (hid : f.Has id) (hne : id ≠ r) :
    moveBeforeOf p r id f = .ok () ((f.remove id).attach p (putBefore r id) id) ∧
      ((f.remove id).attach p (putBefore r id) id).parent? r = some p := by
  have hmem : r ∈ (f.remove id).children p := by
    rw [h.children_remove, List.mem_filter, bne_iff_ne]
    exact ⟨h.mem_children.2 hr, Ne.symm hne⟩
  refine ⟨by rw [Forest.moveBeforeOf, if_neg hne, if_pos hmem], ?_⟩
  rw [parent?_attach (by rwa [Has, size_remove]), if_neg (Ne.symm hne), parent?_remove,
    if_neg (Ne.symm hne), hr]

/-- No step fails: the reference is a child of the parent all the time. -/
private theorem Linked.forM_moveBeforeOf (h : f.Linked) (hr : f.parent? r = some p)
    (hids : ∀ id ∈ ids, f.Has id) :
    ids.forM (Forest.moveBeforeOf p r) f = .ok () ((ids.filter (· != r)).foldl
      (fun f id => (f.remove id).attach p (putBefore r id) id) f) := by
  induction ids generalizing f with
  | nil => rfl
  | cons id ids ih =>
    have hrest := fun n hn => hids n (List.mem_cons_of_mem _ hn)
    by_cases hne : id = r
    · have hstep : Forest.moveBeforeOf p r id f = .ok () f := by rw [Forest.moveBeforeOf, if_pos hne]
      rw [forM_cons_of_ok hstep, ih h hr hrest, List.filter_cons_of_neg (by simp [hne])]
    · have hid := hids id List.mem_cons_self
      obtain ⟨hstep, hr'⟩ := h.moveBeforeOf hr hid hne
      have m := h.move (h.has_parent hr) hid (perm_putBefore r id)
      rw [forM_cons_of_ok hstep, ih m.linked hr' fun n hn => by rw [Has, m.size]; exact hrest n hn,
        List.filter_cons_of_pos (by simpa using hne), List.foldl_cons]

private theorem Linked.insertEachBefore_eq (h : f.Linked) (r : NodeId) (hn : f.Has n) :
    insertEachBefore r n f = ends f (f.insertBefore r n) := by
  unfold Forest.insertEachBefore Forest.insertBefore
  cases hr : f.parent? r with
  | none => rfl
  | some p =>
    dsimp only
    split
    · rfl
    · exact h.forM_moveBeforeOf hr (h.moving hn).2

/-! Where nodes go. -/

/-- The forest `f'` is `f` with the nodes `ids` moved under `p`, where they stand in a row between
the other children. -/
structure Placed (f f' : Forest α) (p : NodeId) (ids before after : List NodeId) : Prop where
  kind : ∀ n, f'.kind? n = f.kind? n
  parent : ∀ n, f'.parent? n = if n ∈ ids then some p else f.parent? n
  stay : (f.children p).filter (· ∉ ids) = before ++ after
  children : f'.children p = before ++ ids ++ after
  others : ∀ q, q ≠ p → f'.children q = (f.children q).filter (· ∉ ids)

private theorem Moved.placed {place : List NodeId → List NodeId} (m : Moved f f' p ids place)
    {before after : List NodeId} (hs : (f.children p).filter (· ∉ ids) = before ++ after)
    (hc : place (before ++ after) = before ++ ids ++ after) : Placed f f' p ids before after where
  kind := m.kind
  parent := m.parent?
  stay := hs
  children := by rw [m.children, if_pos rfl, hs, hc]
  others q hq := by rw [m.children, if_neg hq]

private theorem putAllBefore_of_mem (ids : List NodeId) {ids' : List NodeId} (h : r ∈ ids') :
    ∃ before after, ids' = before ++ r :: after ∧
      putAllBefore r ids (before ++ r :: after) = before ++ ids ++ r :: after := by
  obtain ⟨before, after, rfl, hr⟩ := List.eq_append_cons_of_mem h
  have hb : ∀ n ∈ before, (n != r) = true := fun n hn => by
    rw [bne_iff_ne]
    rintro rfl
    exact hr hn
  refine ⟨before, after, rfl, ?_⟩
  rw [putAllBefore, List.takeWhile_append_of_pos hb, List.dropWhile_append_of_pos hb]
  simp

/-- Nodes appended stand behind all others. -/
private theorem Moved.placed_last (m : Moved f f' p ids (· ++ ids)) :
    Placed f f' p ids ((f.children p).filter (· ∉ ids)) [] :=
  m.placed (List.append_nil _).symm (by simp)

/-- Nodes put before a child that stays stand right before it. -/
private theorem Moved.placed_before (m : Moved f f' p ids (putAllBefore r ids))
    (hr : r ∈ f.children p) (hids : r ∉ ids) :
    ∃ before after, Placed f f' p ids before (r :: after) := by
  have hmem : r ∈ (f.children p).filter (· ∉ ids) := List.mem_filter.2 ⟨hr, by simpa using hids⟩
  obtain ⟨before, after, hs, hplace⟩ := putAllBefore_of_mem ids hmem
  exact ⟨before, after, m.placed hs hplace⟩

/-- A fragment that moves is empty afterwards. -/
private theorem Placed.children_fragment {before after : List NodeId}
    (h : Placed f f' p (f.moving n) before after) (hf : f.isFragment n = true)
    (hu : ¬ f.Under n p) : f'.children n = [] := by
  have hne : n ≠ p := by
    rintro rfl
    exact hu .self
  rw [h.others n hne, Forest.moving, if_pos hf, List.filter_eq_nil_iff]
  intro m hm
  simpa using hm

/-- Appending fails only if the new parent is the node or lies below it. -/
private theorem Proper.append_error_iff (h : f.Proper) (hp : f.Has p) {e : DocumentError} :
    f.append p n = .error e ↔ e = .hierarchy ∧ f.Under n p := by
  rw [← h.contains_iff hp, Forest.append]
  split
  · next hc => simp [hc, eq_comm]
  · next hc => simp [hc]

theorem Proper.append_ok (h : f.Proper) (hp : f.Has p) (hn : f.Has n)
    (hok : f.append p n = .ok f') : f'.Proper ∧
      (∃ before, Placed f f' p (f.moving n) before []) ∧
      (f.isFragment n = true → f'.children n = []) := by
  have hu : ¬ f.Under n p := fun hu => by
    rw [(h.append_error_iff hp).2 ⟨rfl, hu⟩] at hok
    cases hok
  obtain ⟨g, hg, m⟩ := h.linked.append hp hn ((h.contains_eq_false_iff hp).2 hu)
  cases hok.symm.trans hg
  have hmoving := h.moving hu
  refine ⟨?_, ⟨_, m.placed_last⟩, fun hf => m.placed_last.children_fragment hf hu⟩
  exact h.moved m (fun id hid => (hmoving id hid).1) fun id hid => (hmoving id hid).2

/-- Inserting fails only if the reference has no parent, or one that is the node or below it. -/
private theorem Proper.insertBefore_error_iff (h : f.Proper) {e : DocumentError} :
    f.insertBefore r n = .error e ↔ e = .detached ∧ f.parent? r = none ∨
      e = .hierarchy ∧ ∃ p, f.parent? r = some p ∧ f.Under n p := by
  rw [Forest.insertBefore]
  cases hr : f.parent? r with
  | none => simp [eq_comm]
  | some p =>
    have hc := h.contains_iff (u := n) (h.linked.has_parent hr)
    dsimp only
    split
    · next hin => simp [hc.1 hin, eq_comm]
    · next hout => simp [← hc, hout]

/-- The reference itself is the only node that does not move, and only where it is what is put. -/
private theorem Proper.filter_moving (h : f.Proper) (hr : f.parent? r = some p) (hu : ¬ f.Under n p) :
    (f.moving n).filter (· != r) = if n = r then [] else f.moving n := by
  have hnot : f.isFragment n = true → n ≠ r := by
    rintro hf rfl
    simp [h.fragments n hf] at hr
  unfold Forest.moving
  by_cases hf : f.isFragment n = true
  · rw [if_pos hf, if_neg (hnot hf), List.filter_eq_self]
    intro m hm
    rw [bne_iff_ne]
    rintro rfl
    have hpar := h.linked.mem_children.1 hm
    rw [hr] at hpar
    cases hpar
    exact hu .self
  · rw [if_neg hf]
    by_cases hne : n = r <;> simp [hne]

theorem Proper.insertBefore_ok (h : f.Proper) (hn : f.Has n) (hok : f.insertBefore r n = .ok f') :
    f'.Proper ∧ ∃ p before after, f.parent? r = some p ∧
      Placed f f' p (if n = r then [] else f.moving n) before (r :: after) ∧
      (f.isFragment n = true → f'.children n = []) := by
  have herror (e : DocumentError) : f.insertBefore r n ≠ .error e := by simp [hok]
  simp only [ne_eq, h.insertBefore_error_iff, not_or, not_and] at herror
  cases hr : f.parent? r with
  | none => exact absurd hr ((herror _).1 rfl)
  | some p =>
    have hu : ¬ f.Under n p := fun hu => (herror _).2 rfl ⟨p, hr, hu⟩
    have hp := h.linked.has_parent hr
    obtain ⟨g, hg, m⟩ := h.linked.insertBefore hn hr ((h.contains_eq_false_iff hp).2 hu)
    cases hok.symm.trans hg
    have hmoving : ∀ id ∈ (f.moving n).filter (· != r), ¬ f.Under id p ∧ f.isFragment id = false :=
      fun id hid => h.moving hu id (List.mem_filter.1 hid).1
    have hproper := h.moved m (fun id hid => (hmoving id hid).1) fun id hid => (hmoving id hid).2
    obtain ⟨before, after, hplaced⟩ := m.placed_before (h.linked.mem_children.2 hr) (by simp)
    rw [h.filter_moving hr hu] at hplaced
    refine ⟨hproper, p, before, after, rfl, hplaced, fun hf => ?_⟩
    have hne : n ≠ r := by
      rintro rfl
      simp [h.fragments n hf] at hr
    rw [if_neg hne] at hplaced
    exact hplaced.children_fragment hf hu

private theorem size_foldl_attach (p : NodeId) (place : NodeId → List NodeId → List NodeId)
    (ids : List NodeId) (f : Forest α) :
    (ids.foldl (fun f id => (f.remove id).attach p (place id) id) f).nodes.size = f.nodes.size := by
  induction ids generalizing f with
  | nil => rfl
  | cons id ids ih => rw [List.foldl_cons, ih, size_attach, size_remove]

theorem size_append (h : f.append p n = .ok f') : f'.nodes.size = f.nodes.size := by
  unfold Forest.append at h
  split at h
  · cases h
  · cases h
    exact size_foldl_attach p _ _ f

theorem size_insertBefore (h : f.insertBefore r n = .ok f') : f'.nodes.size = f.nodes.size := by
  unfold Forest.insertBefore at h
  split at h
  · cases h
  · next p _ =>
    split at h
    · cases h
    · cases h
      exact size_foldl_attach p _ _ f

/-! Changes of elements. -/

private theorem parent?_modify {id : NodeId} {change : Node α → Node α}
    (h : ∀ n, (change n).parent = n.parent) (n : NodeId) :
    (f.modify id change).parent? n = f.parent? n := by
  simp only [Forest.parent?, node?_modify]
  split
  · cases f.node? n <;> simp [h]
  · rfl

/-- Attributes and listeners have nothing to do with the links. -/
private theorem Proper.modifyElement (h : f.Proper) (id : NodeId)
    (change : List (String × String) × List (String × α) →
      List (String × String) × List (String × α)) : (f.modifyElement id change).Proper := by
  have hparent (n) : (f.modifyElement id change).parent? n = f.parent? n :=
    parent?_modify (fun n => by dsimp only; split <;> rfl) n
  have hchildren (n) : (f.modifyElement id change).children n = f.children n :=
    children_modify (fun n => by dsimp only; split <;> rfl) n
  have hlinked : (f.modifyElement id change).Linked :=
    ⟨fun {n p} => by rw [hchildren, hparent, h.linked.mem_children], fun p => by
      rw [hchildren]
      exact h.linked.nodup p⟩
  refine h.of_parents hlinked (fun n p hn => (hparent n).symm.trans hn) fun n hn => ?_
  rw [isFragment_iff, kind?, Forest.modifyElement, node?_modify] at hn
  rw [isFragment_iff, kind?]
  split at hn
  · cases hnode : f.node? n with
    | none => simp [hnode] at hn
    | some node =>
      rw [hnode, Option.map_some, Option.map_some] at hn
      split at hn
      · cases hn
      · exact hn
  · exact hn

/-! Runs of operations. -/

inductive Operation (α : Type) where
  | create (kind : NodeKind α)
  /-- Makes nodes of markup under a new fragment. -/
  | parse (markup : String)
  | append (parent child : NodeId)
  | insertBefore (reference node : NodeId)
  | remove (id : NodeId)
  | setAttribute (id : NodeId) (name value : String)
  | eraseAttribute (id : NodeId) (name : String)
  | listen (id : NodeId) (event : String) (listener : α)
  /-- Lets go of nodes that only some are held of. -/
  | release (held : List NodeId)

namespace Operation

def operands : Operation α → List NodeId
  | .append parent child => [parent, child]
  | .insertBefore reference node => [reference, node]
  | _ => []

/-- What an operation does. Insertion goes node by node. -/
def run : Operation α → Editing α Unit
  | .create kind => fun f => .ok () (f.create kind).2
  | .parse markup => fun f =>
    match Html.parse markup with
    | .ok trees => .ok () (f.plantFragment trees).2
    | .error e => .error (.malformed e.message) f
  | .append parent child => appendEach parent child
  | .insertBefore reference node => insertEachBefore reference node
  | .remove id => fun f => .ok () (f.remove id)
  | .setAttribute id name value => fun f => .ok () (f.setAttribute id name value)
  | .eraseAttribute id name => fun f => .ok () (f.eraseAttribute id name)
  | .listen id event listener => fun f => .ok () (f.listen id event listener)
  | .release held => fun f => .ok () (f.release held)

def after (op : Operation α) (f : Forest α) : Forest α :=
  match op.run f with
  | .ok _ f' => f'
  | .error _ f' => f'

/-- Every operation keeps a forest proper. -/
theorem after_proper (h : f.Proper) (op : Operation α) (hop : ∀ n ∈ op.operands, f.Has n) :
    (op.after f).Proper := by
  cases op with
  | create kind => exact h.create kind
  | parse markup =>
    rw [after, run]
    cases Html.parse markup with
    | ok trees => exact h.plantFragment trees
    | error e => exact h
  | append parent child =>
    rw [after, run, appendEach_eq]
    cases hr : f.append parent child with
    | ok f' => exact (h.append_ok (hop _ (by simp [operands])) (hop _ (by simp [operands])) hr).1
    | error e => exact h
  | insertBefore reference node =>
    have hn : f.Has node := hop _ (by simp [operands])
    rw [after, run, h.linked.insertEachBefore_eq reference hn]
    cases hr : f.insertBefore reference node with
    | ok f' => exact (h.insertBefore_ok hn hr).1
    | error e => exact h
  | remove id => exact h.remove id
  | setAttribute id name value =>
    exact h.modifyElement id fun e => (Html.setAttribute name value e.1, e.2)
  | eraseAttribute id name => exact h.modifyElement id fun e => (Html.eraseAttribute name e.1, e.2)
  | listen id event listener =>
    exact h.modifyElement id fun e => (e.1, e.2 ++ [(Text.lower event, listener)])
  | release held => exact h.release held

/-- No operation takes nodes away. -/
theorem size_le_after (h : f.Linked) (op : Operation α) (hop : ∀ n ∈ op.operands, f.Has n) :
    f.nodes.size ≤ (op.after f).nodes.size := by
  cases op with
  | create kind =>
    rw [after, run, size_create]
    exact Nat.le_succ _
  | parse markup =>
    rw [after, run]
    cases Html.parse markup with
    | ok trees => exact ((plantFragment_spec h trees).1 0).size_le
    | error e => exact Nat.le_refl _
  | append parent child =>
    rw [after, run, appendEach_eq]
    cases hr : f.append parent child with
    | ok f' => exact Nat.le_of_eq (size_append hr).symm
    | error e => exact Nat.le_refl _
  | insertBefore reference node =>
    rw [after, run, h.insertEachBefore_eq reference (hop _ (by simp [operands]))]
    cases hr : f.insertBefore reference node with
    | ok f' => exact Nat.le_of_eq (size_insertBefore hr).symm
    | error e => exact Nat.le_refl _
  | remove id => exact Nat.le_of_eq (size_remove id).symm
  | setAttribute id name value => exact Nat.le_of_eq (size_modify id _).symm
  | eraseAttribute id name => exact Nat.le_of_eq (size_modify id _).symm
  | listen id event listener => exact Nat.le_of_eq (size_modify id _).symm
  | release held => exact Nat.le_of_eq (h.release held).size.symm

end Operation

/-- A forest that operations on nodes that are there lead to. -/
inductive Reachable : Forest α → Prop where
  | empty : Reachable empty
  | step {f : Forest α} (h : Reachable f) (op : Operation α) (hop : ∀ n ∈ op.operands, f.Has n) :
    Reachable (op.after f)

private theorem Reachable.proper (h : Reachable f) : f.Proper := by
  induction h with
  | empty => exact empty_proper
  | step h op hop ih => exact op.after_proper ih hop

/-- Whatever has been done, the links of both directions agree, every node has one place, nobody
lies below a child of its own, and fragments are roots. Both ways of insertion fail exactly where a
node would come to lie within itself or the reference has no place, with nothing changed however
far they might have got; where they succeed, just the nodes that move have a new place. -/
theorem Reachable.operations_exact (h : Reachable f) :
    ((∀ n p, f.parent? n = some p ↔ n ∈ f.children p) ∧ (∀ p, (f.children p).Nodup) ∧
      (∀ n p q, n ∈ f.children p → n ∈ f.children q → p = q) ∧
      (∀ n p, f.parent? n = some p → ¬ f.Under n p) ∧
      ∀ n, f.isFragment n = true → f.parent? n = none) ∧
    (∀ p n, f.Has p → f.Has n →
      appendEach p n f = ends f (f.append p n) ∧
      (∀ e, f.append p n = .error e ↔ e = .hierarchy ∧ f.Under n p) ∧
      ∀ f', f.append p n = .ok f' →
        (∃ before, Placed f f' p (f.moving n) before []) ∧
        (f.isFragment n = true → f'.children n = [])) ∧
    ∀ r n, f.Has r → f.Has n →
      insertEachBefore r n f = ends f (f.insertBefore r n) ∧
      (∀ e, f.insertBefore r n = .error e ↔ e = .detached ∧ f.parent? r = none ∨
        e = .hierarchy ∧ ∃ p, f.parent? r = some p ∧ f.Under n p) ∧
      ∀ f', f.insertBefore r n = .ok f' → ∃ p before after, f.parent? r = some p ∧
        Placed f f' p (if n = r then [] else f.moving n) before (r :: after) ∧
        (f.isFragment n = true → f'.children n = []) := by
  have hf := h.proper
  refine ⟨⟨?_, hf.linked.nodup, ?_, hf.acyclic, hf.fragments⟩, ?_, ?_⟩
  · intro n p
    exact hf.linked.mem_children.symm
  · intro n p q hp hq
    have hpq := (hf.linked.mem_children.1 hp).symm.trans (hf.linked.mem_children.1 hq)
    exact Option.some.inj hpq
  · intro p n hp hn
    refine ⟨appendEach_eq p n f, fun e => hf.append_error_iff hp, fun f' hok => ?_⟩
    exact (hf.append_ok hp hn hok).2
  · intro r n _ hn
    refine ⟨hf.linked.insertEachBefore_eq r hn, fun e => hf.insertBefore_error_iff, fun f' hok => ?_⟩
    exact (hf.insertBefore_ok hn hok).2

instance : Decidable (f.Has n) := inferInstanceAs (Decidable (n < f.nodes.size))

def besideFragment : Forest Unit :=
  [Operation.create (.element "div" [] []), .create .fragment, .create (.text "a"),
    .create (.text "b"), .append 1 2, .append 1 3, .create (.element "p" [] []), .append 0 4].foldl
      (fun f op => op.after f) empty

private theorem besideFragment_reachable : Reachable besideFragment := by
  simp only [besideFragment, List.foldl_cons, List.foldl_nil]
  refine .step (.step (.step (.step (.step (.step (.step (.step .empty _ ?_) _ ?_) _ ?_) _ ?_)
    _ ?_) _ ?_) _ ?_) _ ?_ <;> decide

/-- The fragment gives both texts, in order, to the element, whose child stays the last; neither can
the element go into its child, nor anything before the element. -/
theorem besideFragment_operations_exact :
    Reachable besideFragment ∧
    (∃ f', besideFragment.insertBefore 4 1 = .ok f' ∧ f'.children 0 = [2, 3, 4] ∧
      f'.children 1 = []) ∧
    besideFragment.append 4 0 = .error .hierarchy ∧
    besideFragment.insertBefore 0 1 = .error .detached := by
  obtain ⟨-, happend, hinsert⟩ := besideFragment_reachable.operations_exact
  obtain ⟨-, hfail, -⟩ := happend 4 0 (by decide) (by decide)
  obtain ⟨-, hdetached, -⟩ := hinsert 0 1 (by decide) (by decide)
  obtain ⟨-, -, hok⟩ := hinsert 4 1 (by decide) (by decide)
  obtain ⟨p, before, after, hp, hplaced, hempty⟩ := hok _ rfl
  cases hp
  have hstay : [4] = before ++ 4 :: after := hplaced.stay
  obtain ⟨rfl, rfl⟩ : before = [] ∧ after = [] := by
    cases before <;> simp_all
  exact ⟨besideFragment_reachable, ⟨_, rfl, hplaced.children, hempty rfl⟩,
    (hfail _).2 ⟨rfl, .up rfl .self⟩, (hdetached _).2 (.inl ⟨rfl, rfl⟩)⟩

end LiveMarkup.Forest
