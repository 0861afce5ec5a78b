import LiveMarkup.Proofs.View.Leftover
import LiveMarkup.Proofs.View.Siblings

/-! Events in live views. The listeners of a node may render views again and so cut nodes off, but no
node listens to anything else than before: an event climbs the path of its target as it was, up to a
node that has been cut off. -/

namespace LiveMarkup

open Forest

namespace Session

variable {s : Session}

/-- In a session that users bring about, an event climbs the path from its target as it was when it was
dispatched. Exactly what the nodes that it climbs listened with then runs, in order, and is counted; if
one fails, no later one runs and the dispatch fails with its error. The climb ends below the top only at
a node that has been cut off its parent when its listeners have run. -/
theorem dispatch_climbs {target : NodeId} (h : Reachable s) (ht : s.document.forest.Has target)
    (event : String) :
    ∃ climbed above, s.document.forest.path target = target :: climbed ++ above ∧
      (∀ n t, Document.runAll (respond event) (Document.heard s.document.forest (Text.lower event)
          (target :: climbed)) (holding [target] s) = .ok n t →
        n = (Document.heard s.document.forest (Text.lower event) (target :: climbed)).length ∧
        dispatch event target s = .ok n (settle { t with held := s.held }) ∧
        (above = [] ∨
          ∃ top ∈ (target :: climbed).getLast?, t.document.forest.parent? top = none)) ∧
      ∀ e t, Document.runAll (respond event) (Document.heard s.document.forest (Text.lower event)
          (target :: climbed)) (holding [target] s) = .error e t →
        dispatch event target s = .error e (settle { t with held := s.held }) := by
  have hs := h.wellFormed
  have hstart : Climbing s (holding [target] s) := hs.climbing.holding ht
  obtain ⟨climbed, above, hpath, hclimbs⟩ : ∃ climbed above,
      s.document.forest.path target = target :: climbed ++ above ∧
      Document.Climbs Session.document (respond event) (Text.lower event) s.document.forest
        (target :: climbed) above (holding [target] s) (bubble event target (holding [target] s)) :=
    Document.climb_climbs hs.linked (fun _ hu => Climbing.loosened hu)
      (fun n hn l => respond_keeps event hn l) ht
      (hs.linked.length_pathUp_le hs.proper.acyclic ht _) hstart
  have hkeep := keeping_eq [target] (bubble event target) s
  have hrun := hclimbs.run
  refine ⟨climbed, above, hpath, fun n t hok => ?_, fun e t herror => ?_⟩
  · rw [hrun, hok] at hkeep
    refine ⟨Document.runAll_count hok, ?_, hclimbs.stops n t (hrun.trans hok)⟩
    rw [dispatch_eq, hkeep]
  · rw [hrun, herror] at hkeep
    rw [dispatch_eq, hkeep]

def mountedView (text : String) (props : Bindings) : Session :=
  (Use.mount ⟨viewOf text, .sync, false⟩ props false [] 2).run empty

private theorem mountedView_reachable (text : String) (props : Bindings) :
    Reachable (mountedView text props) :=
  .use .empty (.mount _ props false [] 2) (by decide +kernel : 2 < _)

def cardText : String :=
  "<div onclick=\"\x7b\x7b e => e \x7d\x7d\"><a onclick=\"\x7b\x7b e => e \x7d\x7d\">go</a></div>"

/-- An event on the link climbs to the card. -/
theorem dispatch_climbs_card : Reachable (mountedView cardText []) ∧
    (mountedView cardText []).document.forest.Has 5 ∧ ∃ climbed above t,
      (mountedView cardText []).document.forest.path 5 = 5 :: climbed ++ above ∧
      dispatch "Click" 5 (mountedView cardText []) = .ok 2 t ∧
      (Document.heard (mountedView cardText []).document.forest (Text.lower "Click")
        (5 :: climbed)).length = 2 := by
  have hreach := mountedView_reachable cardText []
  have hhas : (mountedView cardText []).document.forest.Has 5 := by
    show 5 < (mountedView cardText []).document.forest.nodes.size
    decide +kernel
  have htwo : Run.succeedsWith (dispatch "Click" 5) (mountedView cardText []) (fun n _ => n == 2) =
      true := by decide +kernel
  obtain ⟨n, t, hn, htwo⟩ := Run.succeedsWith_iff.1 htwo
  obtain ⟨climbed, above, hpath, hok, herror⟩ := dispatch_climbs hreach hhas "Click"
  cases hrun : Document.runAll (respond "Click") (Document.heard (mountedView cardText []).document.forest
      (Text.lower "Click") (5 :: climbed)) (holding [5] (mountedView cardText [])) with
  | error e u =>
    cases hn.symm.trans (herror e u hrun)
  | ok m u =>
    obtain ⟨hcount, hend, -⟩ := hok m u hrun
    cases hn.symm.trans hend
    rw [beq_iff_eq.1 htwo] at hn hcount
    exact ⟨hreach, hhas, climbed, above, _, hpath, hn, hcount.symm⟩

def tallyText : String :=
  "<div onclick=\"\x7b\x7b e => a \x7d\x7d\"><a onclick=\"\x7b\x7b e => n = 1 \x7d\x7d\">" ++
    "\x7b\x7b n \x7d\x7d</a></div>"

/-- Both listen above the link, but the card is rendered again before its turn comes. -/
theorem rerendered_card_is_left_out :
    Reachable (mountedView tallyText [("a", .int 0), ("n", .int 0)]) ∧
    (Document.heard (mountedView tallyText [("a", .int 0), ("n", .int 0)]).document.forest "click"
      ((mountedView tallyText [("a", .int 0), ("n", .int 0)]).document.forest.path 5)).length = 2 ∧
    ∃ t, dispatch "click" 5 (mountedView tallyText [("a", .int 0), ("n", .int 0)]) = .ok 1 t := by
  have hone : Run.succeedsWith (dispatch "click" 5)
      (mountedView tallyText [("a", .int 0), ("n", .int 0)]) (fun n _ => n == 1) = true := by
    decide +kernel
  obtain ⟨n, t, hn, hone⟩ := Run.succeedsWith_iff.1 hone
  rw [beq_iff_eq.1 hone] at hn
  exact ⟨mountedView_reachable _ _, by decide +kernel, t, hn⟩

end Session

end LiveMarkup
