import LiveMarkup.Proofs.Document.Dispatch
import LiveMarkup.Proofs.Forest.Operations
import LiveMarkup.Proofs.View.Durable

/-! What an event may leave behind. Listeners may render views again and so cut nodes off, but they
change no node that was there, and whoever has a marker keeps it. -/

namespace LiveMarkup

open Forest
open Run (Keeps)

namespace Forest

variable {α : Type} {f f' : Forest α} {old : List NodeId} {trees : List (Html α)}

private theorem Renewed.loosened (h : Renewed f f' old) : f.Loosened f' := by
  refine ⟨h.size_le, h.kind, fun n hn => ?_⟩
  rw [h.parent? n hn]
  split
  · exact .inr rfl
  · exact .inl rfl

private theorem Linked.loosened_release (hf : f.Linked) (held : List NodeId) :
    f.Loosened (f.release held) := by
  have r := hf.release held
  refine ⟨Nat.le_of_eq r.size.symm, fun n _ => r.kind n, fun n _ => ?_⟩
  by_cases hcut : n ∈ held ∧ f.Stray held n
  · exact .inr (r.cut n hcut.1 hcut.2)
  · exact .inl (r.kept n hcut)

theorem Proper.removeAll (h : f.Proper) (ids : List NodeId) : (ids.foldl Forest.remove f).Proper := by
  induction ids generalizing f with
  | nil => exact h
  | cons id ids ih => exact ih (h.remove id)

/-- The first output of a view lies in a fragment of its own. -/
private theorem Proper.first (h : f.Proper) (trees : List (Html α)) :
    (Output.first f trees).2.2.Proper := by
  have hfragment : (f.plantFragment trees).2.Has (f.plantFragment trees).1 :=
    (plantFragment_spec h.linked trees).2.2.1
  exact (h.plantFragment trees).plantAll hfragment [.text ""]

private theorem Proper.replace {o o' : Output} (h : f.Proper)
    (hok : o.replace f trees = .ok (o', f')) :
    f'.Proper := by
  have hfragment : (f.plantFragment trees).2.Has (f.plantFragment trees).1 :=
    (plantFragment_spec h.linked trees).2.2.1
  unfold Output.replace at hok
  cases hi : (f.plantFragment trees).2.insertBefore o.marker (f.plantFragment trees).1 with
  | error e =>
    dsimp only at hok
    rw [hi] at hok
    cases hok
  | ok f₁ =>
    dsimp only at hok
    rw [hi] at hok
    cases hok
    exact ((h.plantFragment trees).insertBefore_ok hfragment hi).1.removeAll o.nodes

end Forest

namespace Session

variable {s t u : Session} {i : InstanceId} {inst : Instance}

/-! Sessions whose forests are proper. -/

/-- A sound session in whose document nobody lies below a child of its own. -/
structure Rooted (s : Session) : Prop extends Sound s where
  proper : s.document.forest.Proper

private theorem dress_proper {document : Document Handler} (h : document.forest.Proper)
    (hh : document.forest.Has document.head) (d : Definition) : (dress d document).forest.Proper := by
  unfold dress
  split
  · next sheet _ =>
    unfold Document.addStylesheet
    split
    · exact h
    · exact h.plantAll hh [.element "style" [(sheet.attr, "")] [] [.text sheet.css]]
  · exact h

private theorem settleWith_proper (h : s.document.forest.Proper) (nodes : List NodeId) :
    (settleWith nodes s).document.forest.Proper := h.release _

/-- A pass makes no cycle, whether it succeeds or not. -/
theorem Rooted.pass (h : Rooted s) (i : InstanceId) : Leaves Rooted Option.toList (render i s) := by
  have hhead : s.document.forest.Has s.document.head := h.kept _ (mem_kept.2 (.inr (.inl rfl)))
  cases hi : s.instances[i]? with
  | none =>
    rw [render_of_missing hi]
    exact h
  | some inst =>
    have hdressed := dress_proper h.proper hhead inst.definition
    cases hr : render i s with
    | error e t =>
      rcases alike_render_error hi hr with ha | ha
      · exact ⟨h.toSound.of_alike ha, ha.document ▸ h.proper⟩
      · exact ⟨(sound_dressed h.toSound _).of_alike ha, ha.document ▸ hdressed⟩
    | ok r t =>
      refine ⟨(h.toSound.render_shows hi hr).1, ?_⟩
      cases ho : inst.output with
      | none =>
        obtain ⟨scope, phase, events, trees, -, -, rfl⟩ := render_first hi ho hr
        exact settleWith_proper (s := shown i _ _ (dressed inst.definition _)) (hdressed.first trees) _
      | some o =>
        obtain ⟨-, scope, phase, events, trees, o', forest, -, hreplace, rfl⟩ := render_ok hi ho hr
        exact settleWith_proper (s := shown i o' forest (dressed inst.definition _))
          (hdressed.replace hreplace) []

theorem rooted_durable : Durable Rooted where
  congr ha h := ⟨h.toSound.of_alike ha, ha.document ▸ h.proper⟩
  forget nodes h :=
    ⟨h.toSound.with_held fun _ hn => h.has_held (List.mem_append_right nodes hn), h.proper⟩
  settle {s} h := by
    have r := h.linked.release (kept s)
    exact ⟨h.toSound.with_forest r.linked (Nat.le_of_eq r.size.symm), h.proper.release _⟩
  pass i h := h.pass i

/-- A session between the things that users do, without cycles in its document. -/
structure WellFormed (s : Session) : Prop extends Whole s where
  proper : s.document.forest.Proper

theorem WellFormed.rooted (h : WellFormed s) : Rooted s := ⟨h.toSound, h.proper⟩

/-! Events. -/

/-- Whoever has an output keeps its marker. -/
def Marked (s t : Session) : Prop :=
  ∀ i o, outputOf s i = some o → ∃ o', outputOf t i = some o' ∧ o'.marker = o.marker

theorem Marked.of_eq (h : ∀ i, outputOf t i = outputOf s i) : Marked s t := fun i o ho =>
  ⟨o, (h i).trans ho, rfl⟩

theorem Marked.trans (h : Marked s t) (h' : Marked t u) : Marked s u := by
  intro i o ho
  obtain ⟨o₁, ho₁, hm₁⟩ := h i o ho
  obtain ⟨o₂, ho₂, hm₂⟩ := h' i o₁ ho₁
  exact ⟨o₂, ho₂, hm₂.trans hm₁⟩

/-- A pass cuts nodes off at most, and the marker stays the same. -/
private theorem Standing.left_render (hs : Standing s) (hi : s.instance? i = some inst) :
    Standing (Run.left (render i) s) ∧
      s.document.forest.Loosened (Run.left (render i) s).document.forest ∧
      Marked s (Run.left (render i) s) := by
  obtain ⟨o, ho⟩ := Option.isSome_iff_exists.1 (hs.mounted i inst hi)
  obtain ⟨hinst, -⟩ := instance?_eq_some.1 hi
  have hdressed := renewed_dressed hs.toSound inst.definition
  cases hr : render i s with
  | ok r t =>
    have ht := (hs.pass hinst ho hr).1
    obtain ⟨-, o', p, trees, forest, scope, phase, events, hsame, -, -, hR, rfl⟩ :=
      render_replaced hs.toSound hinst ho hr
    have hi₁ := getElem?_aside hinst scope phase events
    rw [Run.left_of_ok hr]
    refine ⟨ht.toStanding, ?_, fun j o₁ ho₁ => ?_⟩
    · exact (hdressed.loosened.trans (hR.renewed hdressed.linked).loosened).trans
        (hR.linked.loosened_release _)
    · by_cases hj : j = i
      · subst hj
        cases ((outputOf_eq hinst).trans ho).symm.trans ho₁
        exact ⟨o', outputOf_eq (getElem?_shown hi₁ o' forest), hsame⟩
      · refine ⟨o₁, ?_, rfl⟩
        have hother : (Session.shown i o' forest (aside i scope phase events s)).instances[j]? =
            s.instances[j]? := (getElem?_shown_of_ne hj _ _).trans (getElem?_aside_of_ne hj ..)
        rw [outputOf] at ho₁
        rw [← hother] at ho₁
        exact ho₁
  | error e t =>
    rw [Run.left_of_error hr]
    rcases skeleton_render_error hinst hr with hsk | hsk
    · rw [skeleton_document hsk]
      exact ⟨hs.congr hsk, .refl _, .of_eq (outputOf_congr hsk)⟩
    · rw [skeleton_document hsk]
      exact ⟨(standing_dressed hs _).congr hsk, hdressed.loosened, .of_eq fun j => outputOf_congr hsk j⟩

/-- What the listeners of an event may leave of the session `s` that it has been dispatched in. Only
nodes of `s` are kept meanwhile. -/
structure Climbing (s t : Session) : Prop extends Standing t where
  proper : t.document.forest.Proper
  loosened : s.document.forest.Loosened t.document.forest
  holds : ∀ n ∈ t.held, s.document.forest.Has n
  marked : Marked s t

private theorem climbing_closed (s : Session) : Closed (Climbing s) where
  congr {t u} h ht := by
    have hheld : u.held = t.held := congrArg (·.2.1) h
    have hdocument := skeleton_document h
    exact ⟨ht.toStanding.congr h, hdocument ▸ ht.proper, hdocument ▸ ht.loosened, hheld ▸ ht.holds,
      ht.marked.trans (.of_eq (outputOf_congr h))⟩
  mounted h := h.mounted
  pass {t i inst} h hi := by
    obtain ⟨o, ho⟩ := Option.isSome_iff_exists.1 (h.mounted i inst hi)
    obtain ⟨hstanding, hloosened, hmarked⟩ := h.toStanding.left_render hi
    have hrooted := rooted_durable.left_of_leaves (Rooted.pass ⟨h.toSound, h.proper⟩ i)
    exact ⟨hstanding, hrooted.proper, h.loosened.trans hloosened,
      (Session.left_render hi ho).1 ▸ h.holds, h.marked.trans hmarked⟩

private theorem Climbing.with_held (h : Climbing s t) {held : List NodeId}
    (hheld : ∀ n ∈ held, s.document.forest.Has n) : Climbing s { t with held } := by
  have hsound := h.toSound.with_held fun n hn => h.loosened.has (hheld n hn)
  exact ⟨⟨hsound, h.mounted⟩, h.proper, h.loosened, hheld, h.marked⟩

theorem Climbing.holding (h : Climbing s t) {n : NodeId} (hn : s.document.forest.Has n) :
    Climbing s (holding [n] t) :=
  h.with_held fun m hm => (List.mem_cons.1 hm).elim (fun he => he ▸ hn) (h.holds m)

private theorem keeping_climbing {α : Type} {m : Run Session α} (hm : Keeps (Climbing s) m)
    {n : NodeId} (hn : s.document.forest.Has n) : Keeps (Climbing s) (keeping [n] m) := by
  intro t ht
  rw [left_keeping]
  exact (hm _ (ht.holding hn)).with_held ht.holds

private theorem Climbing.settle (h : Climbing s t) : Climbing s (settle t) :=
  ⟨h.toStanding.settle.toStanding, h.proper.release _,
    h.loosened.trans (h.linked.loosened_release _), h.holds, h.marked⟩

theorem WellFormed.climbing (h : WellFormed s) : Climbing s s :=
  ⟨h.toStanding, h.proper, .refl _, fun _ => h.has_held, .of_eq fun _ => rfl⟩

def respond (event : String) (l : NodeId × Handler) : Run Session Unit := keeping [l.1] do
  let _ ← Eval.callFunction (host l.2.owner) l.2.function [.string (Text.lower event)]
  modify settle

theorem respond_keeps (event : String) {n : NodeId} (hn : s.document.forest.Has n) (h : Handler) :
    Keeps (Climbing s) (respond event (n, h)) :=
  keeping_climbing (.bind (((climbing_closed s).upheld.host _).callFunction _ _) fun _ =>
    .modify fun _ ht => ht.settle) hn

def bubble (event : String) (target : NodeId) : Run Session Nat := fun s =>
  Document.climb Session.document (fun n h => respond event (n, h)) (Text.lower event)
    s.document.forest.nodes.size target s

/-- A dispatch keeps its target while listeners run, and in the end lets go of what nobody keeps. -/
theorem dispatch_eq (event : String) (target : NodeId) (s : Session) :
    dispatch event target s =
      match keeping [target] (bubble event target) s with
      | .ok n t => .ok n (settle t)
      | .error e t => .error e (settle t) := by
  have hread : dispatch event target s =
      (tryCatch (keeping [target] (bubble event target)) (fun e => do modify settle; throw e) >>=
        fun n => do modify settle; return n) s := rfl
  rw [hread]
  cases h : keeping [target] (bubble event target) s with
  | ok n t =>
    rw [Run.bind_of_ok (Run.tryCatch_of_ok h)]
    rfl
  | error e t =>
    have hcatch := Run.tryCatch_of_error (f := fun e => do modify settle; throw e) h
    exact Run.bind_of_error (hcatch.trans rfl)

theorem left_dispatch (event : String) (target : NodeId) (s : Session) :
    Run.left (dispatch event target) s =
      settle (Run.left (keeping [target] (bubble event target)) s) := by
  rw [Run.left, dispatch_eq, Run.left]
  cases keeping [target] (bubble event target) s <;> rfl

/-- Only nodes that were there are climbed. -/
private theorem bubble_keeps (hs : s.document.forest.Linked) (event : String) {target : NodeId}
    (ht : s.document.forest.Has target) : Keeps (Climbing s) (bubble event target) := by
  intro t hc
  refine Document.climb_keeps (Q := s.document.forest.Has) (fun u n p hu hn hp => ?_)
    (fun n hn l => respond_keeps event hn l) _ ht t hc
  exact hs.has_parent (hu.loosened.parent?_of_some hn hp)

/-- An event leaves a session well formed, whatever its listeners do. -/
theorem WellFormed.dispatch (hs : WellFormed s) (event : String) {target : NodeId}
    (ht : s.document.forest.Has target) :
    WellFormed (Run.left (dispatch event target) s) ∧ Marked s (Run.left (dispatch event target) s) := by
  have hend := keeping_climbing (bubble_keeps hs.linked event ht) ht s hs.climbing
  rw [left_dispatch]
  exact ⟨⟨hend.toStanding.settle, hend.proper.release _⟩, hend.marked⟩

end Session

end LiveMarkup
