import LiveMarkup.Document.Dispatch
import LiveMarkup.Proofs.Forest.Acyclic
import LiveMarkup.Proofs.Run

/-! Events climb. While listeners leave nodes as they are and at most cut them off their parents, an
event runs what the nodes of its path listened with when it was dispatched, up to a node that has been
cut off. -/

namespace LiveMarkup

namespace Forest

variable {α : Type} {f f₁ f₂ : Forest α} {n p : NodeId}

/-- The forest `f₁` has the nodes of `f` as they were, but some may have been cut off their parents. -/
structure Loosened (f f₁ : Forest α) : Prop where
  size_le : f.nodes.size ≤ f₁.nodes.size
  kind : ∀ n, f.Has n → f₁.kind? n = f.kind? n
  parent? : ∀ n, f.Has n → f₁.parent? n = f.parent? n ∨ f₁.parent? n = none

theorem Loosened.refl (f : Forest α) : Loosened f f :=
  ⟨Nat.le_refl _, fun _ _ => rfl, fun _ _ => .inl rfl⟩

theorem Loosened.has (h : Loosened f f₁) (hn : f.Has n) : f₁.Has n :=
  Nat.lt_of_lt_of_le hn h.size_le

theorem Loosened.trans (h : Loosened f f₁) (h' : Loosened f₁ f₂) : Loosened f f₂ := by
  refine ⟨Nat.le_trans h.size_le h'.size_le, fun n hn => ?_, fun n hn => ?_⟩
  · rw [h'.kind n (h.has hn), h.kind n hn]
  · rcases h'.parent? n (h.has hn) with hp | hp
    · rw [hp]
      exact h.parent? n hn
    · exact .inr hp

/-- What listens to an event at a node is what it is. -/
private theorem Loosened.listeners (h : Loosened f f₁) (hn : f.Has n) (event : String) :
    f₁.listeners n event = f.listeners n event := by
  rw [Forest.listeners, h.kind n hn, Forest.listeners]

/-- A node that still has a parent has its earlier one. -/
theorem Loosened.parent?_of_some (h : Loosened f f₁) (hn : f.Has n) (hp : f₁.parent? n = some p) :
    f.parent? n = some p := by
  rcases h.parent? n hn with he | he
  · exact he.symm.trans hp
  · cases he.symm.trans hp

end Forest

namespace Document

open Forest (pathUp)
open Run (Keeps)

variable {α β σ : Type}

/-! Listeners one after another. -/

section RunAll

variable {call : α → Run σ Unit} {s t : σ} {n : Nat}

private theorem runAll_map (g : β → α) (ls : List β) :
    runAll call (ls.map g) = runAll (fun l => call (g l)) ls := by
  induction ls with
  | nil => rfl
  | cons l ls ih => rw [List.map_cons, runAll, ih, runAll]

/-- Further listeners run if the first ones succeed, from the state that those lead to. -/
private theorem runAll_append_of_ok {ls : List α} (h : runAll call ls s = .ok n t) (ms : List α) :
    runAll call (ls ++ ms) s = (do return n + (← runAll call ms)) t := by
  induction ls generalizing s n with
  | nil =>
    cases h
    simp only [List.nil_append, Nat.zero_add, bind_pure]
  | cons l ls ih =>
    obtain ⟨_, s₁, hl, h⟩ := Run.bind_eq_ok.1 h
    obtain ⟨k, t', hls, hk⟩ := Run.bind_eq_ok.1 h
    cases hk
    rw [List.cons_append, runAll, Run.bind_of_ok hl]
    have hrest := ih hls
    cases hms : runAll call ms t with
    | ok m u =>
      rw [Run.bind_of_ok hms] at hrest
      rw [Run.bind_of_ok hms, Run.bind_of_ok hrest, Nat.add_right_comm]
    | error e u =>
      rw [Run.bind_of_error hms] at hrest
      rw [Run.bind_of_error hms, Run.bind_of_error hrest]

/-- The count is that of the listeners. -/
theorem runAll_count {ls : List α} (h : runAll call ls s = .ok n t) : n = ls.length := by
  induction ls generalizing s n with
  | nil =>
    cases h
    rfl
  | cons l ls ih =>
    obtain ⟨-, s₁, -, h⟩ := Run.bind_eq_ok.1 h
    obtain ⟨k, t', hls, hk⟩ := Run.bind_eq_ok.1 h
    cases hk
    rw [ih hls, List.length_cons]

private theorem runAll_keeps {P : σ → Prop} {ls : List α} (h : ∀ l ∈ ls, Keeps P (call l)) :
    Keeps P (runAll call ls) := by
  induction ls with
  | nil => exact .pure _
  | cons l ls ih =>
    have hrest := ih fun m hm => h m (List.mem_cons_of_mem _ hm)
    exact .bind (h l List.mem_cons_self) fun _ => .bind hrest fun _ => .pure _

end RunAll

/-! Along a path. -/

/-- What listens to an event at nodes, each in order, with the node. -/
def heard (f : Forest α) (event : String) (nodes : List NodeId) : List (NodeId × α) :=
  nodes.flatMap fun id => (f.listeners id event).map fun l => (id, l)

/-- From a state, an event climbs the nodes `climbed` of a forest: their listeners run in order. It
goes no higher if one of them fails, if there is nothing above, or if the last of these nodes has been
cut off. -/
structure Climbs (document : σ → Document α) (call : NodeId × α → Run σ Unit) (event : String)
    (f : Forest α) (climbed above : List NodeId) (s : σ) (r : EStateM.Result Stop σ Nat) : Prop where
  run : r = runAll call (heard f event climbed) s
  stops : ∀ n t, r = .ok n t →
    above = [] ∨ ∃ id ∈ climbed.getLast?, (document t).forest.parent? id = none

section Path

variable {document : σ → Document α} {call : NodeId × α → Run σ Unit} {event : String} {f : Forest α}
  {id p : NodeId} {climbed above : List NodeId} {s t : σ} {n : Nat}
  {r : EStateM.Result Stop σ Nat}

private theorem runAll_heard_cons (ids : List NodeId) : runAll call (heard f event (id :: ids)) =
    runAll call ((f.listeners id event).map (fun l => (id, l)) ++ heard f event ids) := rfl

private theorem runAll_heard_singleton :
    runAll call (heard f event [id]) = runAll (fun l => call (id, l)) (f.listeners id event) := by
  rw [runAll_heard_cons, heard, List.flatMap_nil, List.append_nil, runAll_map]

/-- The listeners of a node run. Then the node that is its parent by then is climbed. -/
theorem climb_succ (k : Nat) : climb document (fun n l => call (n, l)) event (k + 1) id s =
    (do
      let n ← runAll (fun l => call (id, l)) ((document s).forest.listeners id event)
      match (document (← get)).forest.parent? id with
      | some parent => return n + (← climb document (fun n l => call (n, l)) event k parent)
      | none => return n) s := rfl

/-- The event goes no higher than the node. -/
private theorem Climbs.single (hr : runAll (fun l => call (id, l)) (f.listeners id event) s = r)
    (hstops : ∀ n t, r = .ok n t → above = [] ∨ (document t).forest.parent? id = none) :
    Climbs document call event f [id] above s r where
  run := by rw [runAll_heard_singleton, hr]
  stops n t h := (hstops n t h).imp_right fun hp => ⟨id, rfl, hp⟩

/-- The event goes on from the node. -/
private theorem Climbs.cons {m : Run σ Nat}
    (hn : runAll (fun l => call (id, l)) (f.listeners id event) s = .ok n t)
    (h : Climbs document call event f (p :: climbed) above t (m t)) :
    Climbs document call event f (id :: p :: climbed) above s ((do return n + (← m)) t) where
  run := by
    rw [runAll_heard_cons, runAll_append_of_ok (by rw [runAll_map, hn])]
    exact Run.bind_of_eq h.run
  stops m u hm := by
    obtain ⟨k, t', hk, hm⟩ := Run.bind_eq_ok.1 hm
    cases hm
    rw [List.getLast?_cons_cons]
    exact h.stops k _ hk

/-- What all listeners of the nodes that may be climbed keep, the whole climb keeps. -/
theorem climb_keeps {P : σ → Prop} {Q : NodeId → Prop}
    (hup : ∀ s n p, P s → Q n → (document s).forest.parent? n = some p → Q p)
    (hcall : ∀ n, Q n → ∀ l, Keeps P (call (n, l))) (k : Nat) (hid : Q id) :
    Keeps P (climb document (fun n l => call (n, l)) event k id) := by
  induction k generalizing id with
  | zero => exact .throw _
  | succ k ih =>
    intro s hs
    have hall : Keeps P (runAll (fun l => call (id, l)) ((document s).forest.listeners id event)) :=
      runAll_keeps fun l _ => hcall id hid l
    rw [Run.left_congr (climb_succ k)]
    refine Keeps.bind hall (fun n => .get_bind fun t ht => ?_) s hs
    split
    · next p hp => exact .bind (ih (hup t id p ht hid hp)) fun _ => .pure _
    · exact .pure _

/-- While listeners leave nodes as they are and at most cut them off, an event climbs along the path
of the node, which ends before the climb is out of fuel. -/
theorem climb_climbs {P : σ → Prop} {k : Nat} (hf : f.Linked)
    (hP : ∀ s, P s → f.Loosened (document s).forest)
    (hcall : ∀ n, f.Has n → ∀ l, Keeps P (call (n, l))) (hid : f.Has id)
    (hk : (f.pathUp (k + 1) id).length ≤ k) (hs : P s) :
    ∃ climbed above, f.pathUp k id = id :: climbed ++ above ∧
      Climbs document call event f (id :: climbed) above s
        (climb document (fun n l => call (n, l)) event k id s) := by
  induction k generalizing id s with
  | zero => simp [pathUp] at hk
  | succ k ih =>
    rw [climb_succ, (hP s hs).listeners hid]
    cases hrun : runAll (fun l => call (id, l)) (f.listeners id event) s with
    | error e t =>
      rw [Run.bind_of_error hrun]
      exact ⟨[], _, rfl, .single hrun fun n t hn => by cases hn⟩
    | ok n t =>
      have ht : P t := (runAll_keeps fun l _ => hcall id hid l).of_ok hs hrun
      rw [Run.bind_of_ok hrun, Run.bind_of_ok (rfl : (get : Run σ σ) t = .ok t t)]
      cases hp : (document t).forest.parent? id with
      | none =>
        exact ⟨[], _, rfl, .single hrun fun m u hm => .inr (by cases hm; exact hp)⟩
      | some p =>
        have hpar : f.parent? id = some p := (hP t ht).parent?_of_some hid hp
        have hk' : (f.pathUp (k + 1) p).length ≤ k := by
          rw [pathUp, hpar, List.length_cons] at hk
          exact Nat.le_of_succ_le_succ hk
        obtain ⟨climbed, above, hsplit, h⟩ := ih (hf.has_parent hpar) hk' ht
        refine ⟨p :: climbed, above, ?_, h.cons hrun⟩
        rw [pathUp, hpar]
        exact congrArg (id :: ·) hsplit

end Path

end Document

end LiveMarkup
