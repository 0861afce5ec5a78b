import LiveMarkup.Proofs.Html.Each
import LiveMarkup.Proofs.View.Catalog
import LiveMarkup.Proofs.View.Siblings
import LiveMarkup.Proofs.View.Tidy
import LiveMarkup.Proofs.View.Wiring

/-! Scoped styles. After a pass that succeeds every element that a view with a style shows carries the
attribute of the view, once, and the head has the style of the view, once, whatever other instances
have done in the document. -/

namespace LiveMarkup

/-! Stamped trees. -/

namespace Html

/-- The attribute stands once. -/
def Once (name : String) (attributes : List (String × String)) : Prop :=
  (attributes.map (·.1)).count name = 1

end Html

namespace Slot

open Html

variable {α : Type} {name : String}

mutual

/-- Stamping leaves the attribute on every element, once. -/
theorem stamp_once (handlers : List α) (t : Html α) (h : t.Each Distinct) :
    (stamp (some name) handlers t).Each (Once name) := by
  cases t with
  | element tag attributes listeners children =>
    rw [Each] at h
    rw [stamp, Each]
    refine ⟨?_, stampAll_once handlers children h.2⟩
    have hplain : (binding? handlers (name, "")).isNone = true := by
      rw [binding?_plain (by decide)]
      rfl
    exact (h.1.setAttribute name "").count_filter (mem_setAttribute name "" attributes) hplain
  | text s =>
    rw [stamp]
    trivial
  | comment s =>
    rw [stamp]
    trivial

private theorem stampAll_once (handlers : List α) (ts : List (Html α)) (h : EachOf Distinct ts) :
    EachOf (Once name) (stampAll (some name) handlers ts) := by
  match ts, h with
  | [], _ => trivial
  | t :: ts, h =>
    rw [EachOf] at h
    rw [stampAll, EachOf]
    exact ⟨stamp_once handlers t h.1, stampAll_once handlers ts h.2⟩

end

end Slot

namespace Session

open Document (Grows)
open Html (EachOf Once)

variable {c : Catalog} {ds : List Definition} {s t u : Session} {i : InstanceId} {inst : Instance}

/-- The trees that an instance makes carry the attribute of its view. -/
private theorem materialize_once {trees : List (Html Handler)} {attr : String}
    (ha : inst.definition.attr? = some attr) (h : materialize i inst s = .ok trees t) :
    EachOf (Once attr) trees := by
  obtain ⟨rendered, parsed, -, hparse, rfl⟩ := materialize_eq_ok_iff.1 h
  rw [ha]
  exact Slot.stampAll_once _ _ (Html.parse_distinct hparse)

/-! Sessions. -/

/-- What a user does with views that are given, all hosts being outside the head. -/
def Use.Suits (ds : List Definition) (s : Session) : Use → Prop
  | mount r _ _ _ target => r.definition ∈ ds ∧ s.Outdoors target
  | instantiate r _ _ _ => r.definition ∈ ds
  | _ => True

/-- A session that instances of the views lead to from another one, at any moment: users and listeners
have done something, evaluation and the frame have changed what they may change, an instance has been
made that is not rendered yet, or an instance has been rendered while further nodes are kept. -/
inductive Staged (ds : List Definition) (s : Session) : Session → Prop where
  | refl : Staged ds s s
  | use {t : Session} (h : Staged ds s t) (u : Use) (hu : u.Suits ds t) : Staged ds s (u.run t)
  | listener {t : Session} (h : Staged ds s t) (i : InstanceId) (f : Value) (args : List Value) :
    Staged ds s (Run.left (Eval.callFunction (host i) f args) t)
  | evaluation {t u : Session} (h : Staged ds s t) (hu : Alike t u) : Staged ds s u
  | birth {t : Session} (h : Staged ds s t) (r : Recipe) (props : Bindings) (hr : r.definition ∈ ds) :
    Staged ds s (joined (unborn r props) t)
  | pass {t : Session} (h : Staged ds s t) (i : InstanceId) (nodes : List NodeId)
    (hn : ∀ n ∈ nodes, t.Outdoors n) : Staged ds s (Run.left (keeping nodes (render i)) t)

private theorem Use.beyond {d : Document Handler} (h : Beyond ds d t) (u : Use) (hu : u.Suits ds t) :
    Beyond ds d (u.run t) := by
  have hP := (beyond_durable ds d).upheld
  cases u with
  | mount r props isPublic natives target => exact h.mount r props isPublic natives hu.1 hu.2
  | instantiate r props isPublic natives =>
    have hjoined : Beyond ds d (joined (unborn r props) t) := ⟨h.tidy.joined hu props, h.grows⟩
    exact (beyond_durable ds d).instantiate r props isPublic natives hjoined
  | write i w => exact hP.write i w t h
  | call i x args => exact hP.callPublic i x args t h
  | request job => exact hP.request job t h
  | flush => exact hP.flush t h

private theorem Beyond.holding {d : Document Handler} (h : Beyond ds d t) {nodes : List NodeId}
    (hn : ∀ n ∈ nodes, t.Outdoors n) : Beyond ds d (holding nodes t) := by
  refine ⟨h.tidy.with_held fun n hmem => ?_, h.grows⟩
  rcases List.mem_append.1 hmem with hmem | hmem
  · exact hn n hmem
  · exact h.tidy.held_outdoors hmem

/-- Every later session is tidy, and its document goes on from the earlier one. -/
private theorem Staged.beyond (h : Staged ds s t) (hs : Tidy ds s) : Beyond ds s.document t := by
  have hP := beyond_durable ds s.document
  induction h with
  | refl => exact ⟨hs, .refl _⟩
  | use _ u hu ih => exact u.beyond ih hu
  | listener _ i f args ih => exact (hP.upheld.host i).callFunction f args _ ih
  | evaluation _ hu ih => exact hP.congr hu ih
  | birth _ r props hr ih => exact ⟨ih.tidy.joined hr props, ih.grows⟩
  | pass _ i nodes hn ih => exact hP.forget nodes (hP.keeping_render (ih.holding hn))

private theorem empty_tidy (ds : List Definition) : Tidy ds empty := by
  have hsheets : empty.document.stylesheets = [] := by decide +kernel
  have hchildren : empty.document.forest.children empty.document.head = [] := by decide +kernel
  have hsound : Sound empty := empty_wellFormed.toSound
  refine ⟨hsound, ⟨hsound.linked, ⟨?_, ?_⟩, ?_, ?_⟩, fun i inst hi => ?_, nofun, fun i o ho => ?_⟩
  · exact hsound.kept _ (mem_kept.2 (.inr (.inl rfl)))
  · rw [hchildren]
    exact nofun
  · rw [hsheets]
    exact List.nodup_nil
  · rw [hsheets]
    exact nofun
  · simp [empty] at hi
  · cases ho

/-- Whatever has happened in a document, with hosts outside its head, its stylesheets have different
attributes. From then on they stay where they are, with new ones behind them, and no node changes its
attributes. A pass of an instance, which may happen while further nodes are kept, leaves the nodes as
they were that it has not made itself. Where it succeeds and its view has a style, all elements that
it shows carry the attribute of the view once, and the head has one stylesheet under this attribute,
which is the style scoped to it. -/
theorem styles_scoped_once (hc : c.Given ds) (h : Staged ds empty s) :
    (s.document.stylesheets.map (·.1)).Nodup ∧
    (∀ t, Staged ds s t → s.document.stylesheets <+: t.document.stylesheets ∧
      ∀ n, s.document.forest.Has n → t.document.forest.kind? n = s.document.forest.kind? n) ∧
    ∀ i nodes, (∀ n ∈ nodes, s.Outdoors n) →
      (∀ n, s.document.forest.Has n →
        (Run.left (render i) (holding nodes s)).document.forest.kind? n =
          s.document.forest.kind? n) ∧
      ∀ (inst : Instance) style fragment t, s.instances[i]? = some inst →
        inst.definition.source.style = some style → render i (holding nodes s) = .ok fragment t →
        ∃ attr, inst.definition.attr? = some attr ∧ EachOf (Once attr) (outputTrees i t) ∧
          t.document.stylesheets.filter (·.1 == attr) = [(attr, Style.scope style attr)] := by
  have hs : Beyond ds empty.document s := h.beyond (empty_tidy ds)
  refine ⟨hs.tidy.neat.distinct, fun t ht => ?_, fun i nodes hn => ?_⟩
  · obtain ⟨-, hg⟩ := ht.beyond hs.tidy
    exact ⟨hg.sheets, hg.kind⟩
  · have hheld := hs.holding hn
    have hP := beyond_durable ds s.document
    refine ⟨(hP.left_of_leaves (hP.pass i ⟨hheld.tidy, .refl _⟩)).grows.kind, ?_⟩
    intro inst style fragment t hi hstyle hr
    obtain ⟨trees, u, hm, hshows⟩ := (hheld.tidy.toSound.render_shows hi hr).2
    have hv := hs.tidy.views i inst hi
    obtain ⟨htidy, -, hsheets⟩ := hheld.tidy.render_ok hi hr
    rcases hc.registered.1 _ hv with ⟨hnone, -⟩ | ⟨style', attr, hstyle', hsheet, -⟩
    · cases hstyle.symm.trans hnone
    · cases hstyle.symm.trans hstyle'
      have ha : inst.definition.attr? = some attr := by rw [Definition.attr?, hsheet]; rfl
      refine ⟨attr, ha, hshows ▸ materialize_once ha hm, ?_⟩
      have hmem := hs.tidy.neat.mem_dress hv hsheet fun v' hv' sheet' hsheet' hattr =>
        hc.sheet_eq hv' hv hsheet' hsheet hattr
      exact Document.filter_key htidy.neat.distinct (hsheets.subset hmem)

def redText : String := "<style>p { color: red }</style><p>x<b>y</b></p>"

def redParagraph : Definition × Catalog :=
  (Catalog.empty.fetch true "s-" ["a"] redText).toOption.getD (paragraph.definition, .empty)

private theorem redParagraph_given : redParagraph.2.Given [redParagraph.1] := by
  have hok : (Catalog.empty.fetch true "s-" ["a"] redText).toOption.isSome = true := by decide +kernel
  refine .fetch .empty true "s-" ["a"] redText ?_
  cases h : Catalog.empty.fetch true "s-" ["a"] redText with
  | ok r =>
    rw [redParagraph, h]
    rfl
  | error e =>
    rw [h] at hok
    cases hok

/-- The body of the empty document is beside its head. -/
private theorem empty_body_outdoors : empty.Outdoors 2 := by
  have hroot : empty.document.forest.parent? 0 = none := by decide +kernel
  refine ⟨(by decide +kernel : 2 < _),
    Forest.not_under_of_parent? (p := 0) (by decide +kernel) (by decide +kernel) fun hu => ?_⟩
  cases hu with
  | up hp _ => cases hroot.symm.trans hp

def redSession : Session := (Use.mount ⟨redParagraph.1, .sync, false⟩ [] false [] 2).run empty

private theorem redSession_staged : Staged [redParagraph.1] empty redSession :=
  .use .refl _ ⟨List.mem_singleton_self _, empty_body_outdoors⟩

/-- The paragraph and what is in it carry the attribute after a further pass, and the style is still
there once. -/
theorem redParagraph_scoped_once :
    ∃ fragment t, Staged [redParagraph.1] empty redSession ∧ render 0 redSession = .ok fragment t ∧
      EachOf (Once "s-a") (outputTrees 0 t) ∧
      t.document.stylesheets.filter (·.1 == "s-a") =
        [("s-a", Style.scope "p { color: red }" "s-a")] := by
  have hok : Run.succeedsWith (render 0) redSession (fun _ _ => true) = true := by decide +kernel
  have hstyle : redSession.instances[0]?.map (·.definition.source.style) =
      some (some "p { color: red }") := by decide +kernel
  have hattr : redSession.instances[0]?.map (·.definition.attr?) = some (some "s-a") := by
    decide +kernel
  obtain ⟨-, -, hpass⟩ := styles_scoped_once redParagraph_given redSession_staged
  obtain ⟨inst, hi, hstyle⟩ := Option.map_eq_some_iff.1 hstyle
  rw [hi, Option.map_some, Option.some.injEq] at hattr
  obtain ⟨fragment, t, hr, -⟩ := Run.succeedsWith_iff.1 hok
  obtain ⟨attr, ha, honce, hsheets⟩ := (hpass 0 [] nofun).2 inst _ fragment t hi hstyle hr
  cases hattr.symm.trans ha
  exact ⟨fragment, t, redSession_staged, hr, honce, hsheets⟩

end Session

end LiveMarkup
