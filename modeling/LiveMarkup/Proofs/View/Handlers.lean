import LiveMarkup.Proofs.View.Shows
import LiveMarkup.Proofs.View.Siblings
import LiveMarkup.Proofs.View.Trace
import LiveMarkup.Proofs.View.Wiring

/-! Views with handlers. Whenever such a view is rendered, the function of every slot listens to the
event of its element, and nothing else does. -/

namespace LiveMarkup

/-- No element listens to an event twice. -/
inductive Html.Single {α : Type} : Html α → Prop where
  | element {tag : String} {attributes : List (String × String)} {listeners : List (String × α)}
    {children : List (Html α)} (h : (listeners.map (·.1)).Nodup) (hchildren : ∀ n ∈ children, Single n) :
    Single (element tag attributes listeners children)
  | text (s : String) : Single (text s)
  | comment (s : String) : Single (comment s)

namespace Sketch

open Html.Slotted (fill)

variable {α : Type} {ns : List Sketch} {expr : Nat → String} {e : Nat → Expr} {d : Definition}
  {attr : Option String} {h : Nat → α} {v : Nat → String}

private theorem slotsOf_names (as : List SketchAttribute) :
    ((slotsOf as).map (·.1)).Sublist (as.map (·.1)) := by
  induction as with
  | nil => exact .slnil
  | cons a as ih =>
    obtain ⟨name, value | k⟩ := a
    · exact ih.cons name
    · exact ih.cons_cons name

private theorem eventOf_injective {a b : String} (ha : namesHandler a.toList = true)
    (hb : namesHandler b.toList = true) (h : eventOf a = eventOf b) : a = b := by
  obtain ⟨c, cs, hparts, -⟩ := Slot.parts_of_namesHandler ha
  obtain ⟨c', cs', hparts', -⟩ := Slot.parts_of_namesHandler hb
  have hevent := String.ofList_injective h
  rw [hparts, hparts'] at hevent
  refine String.toList_injective ?_
  rw [hparts, hparts', show c :: cs = c' :: cs' from hevent]

mutual

theorem single_wired (n : Sketch) (hc : Html.Canonical (n.cast v : Html α))
    (hn : ∀ s ∈ slotsOf n.attributes, namesHandler s.1.toList = true) : (n.wired attr h).Single := by
  match n with
  | text s => exact .text s
  | comment s => exact .comment s
  | element tag as children =>
    rw [cast] at hc
    rw [attributes, slotsOf, List.filterMap_append, List.forall_mem_append] at hn
    cases hc with
    | element _ _ hattributes _ hraw hchildren _ =>
    rw [wired]
    refine .element ?_ ?_
    · have hnames : (as.map (·.1)).Nodup := by
        have h := hattributes.distinct
        rwa [List.map_map] at h
      have hslots := hnames.sublist (slotsOf_names as)
      have hevents : (((slotsOf as).map (·.1)).map eventOf).Nodup := by
        refine hslots.map_on fun a ha b hb hab => ?_
        obtain ⟨s, hs, rfl⟩ := List.mem_map.1 ha
        obtain ⟨s', hs', rfl⟩ := List.mem_map.1 hb
        exact eventOf_injective (hn.1 s hs) (hn.1 s' hs') hab
      rw [List.map_map] at hevents ⊢
      exact hevents
    · by_cases ht : tag ∈ Html.rawTextTags
      · obtain rfl | ⟨s, rfl⟩ := text_of_rawContent (hraw ht)
        · exact nofun
        · rintro n hn
          rw [List.mem_singleton.1 hn]
          exact .text s
      · exact single_wiredAll children (hchildren ht) hn.2

/-- As no two attributes of an element have one name, no two of its listeners are for one event. -/
private theorem single_wiredAll (ns : List Sketch)
    (hc : ∀ n ∈ (castAll v ns : List (Html α)), Html.Canonical n)
    (hn : ∀ s ∈ slots ns, namesHandler s.1.toList = true) : ∀ n ∈ wiredAll attr h ns, n.Single := by
  match ns with
  | [] => exact nofun
  | n :: ns =>
    rw [castAll, List.forall_mem_cons] at hc
    rw [slots, attributesAll, slotsOf, List.filterMap_append, List.forall_mem_append] at hn
    rw [wiredAll, List.forall_mem_cons]
    exact ⟨single_wired n hc.1 hn.1, single_wiredAll ns hc.2 hn.2⟩

end

/-- The markup of a view is that of a canonical forest. Some of its handlers are slots, each with a tag in
it whose expression is `e k` by itself; braces and placeholders occur nowhere else. -/
structure Outlines (ns : List Sketch) (expr : Nat → String) (e : Nat → Expr) (d : Definition) : Prop where
  markup : d.source.markup = String.ofList (fill (fun k => (Template.tag (expr k)).toList) (sourceAll ns))
  canonical : ∀ n ∈ (castAll (fun _ => "") ns : List (Html Handler)), Html.Canonical n
  apart : Html.Apart (castAll (fun _ => "") ns : List (Html Handler))
  names : ∀ s ∈ slots ns, namesHandler s.1.toList = true
  numbers : (slots ns).map (·.2) = List.range (slots ns).length
  /-- Listeners are numbered by positions of 64 bits. -/
  length_le : (slots ns).length ≤ 2 ^ 64
  braces : ¬ ['\x7b', '\x7b'] <:+: fill (fun _ => []) (sourceAll ns)
  placeholders : ¬ Slot.placeholder.toList <:+: fill (fun _ => []) (sourceAll ns)
  compiles : Template.compile d.source.markup = .ok d.template
  tags : ∀ k < (slots ns).length, Template.compile (Template.tag (expr k)) = .ok ⟨[.value (e k)]⟩
  /-- The attribute of the elements is not one of the handlers. -/
  attr : ∀ name ∈ d.attr?, ∀ s ∈ slots ns, s.1 ≠ name

/-- What the view compiles to, and what becomes of functions that its values are. -/
private theorem Outlines.exists_segments (h : Outlines ns expr e d) :
    ∃ (segments : List (List Char × Nat)) (last : List Char) (e' : Nat → Expr),
      d.template = ⟨Statement.tagged e' segments ++ Statement.ofText last⟩ ∧
      (∀ k < (slots ns).length, ∃ place, e' k = (e k).move place) ∧
      segments.map (·.2) = List.range (slots ns).length ∧ (∀ s ∈ segments, OpensHandler s.1) ∧
      sourceAll ns = ofSegments segments ++ Html.literal last := by
  have hwrites := writes_sourceAll ns h.canonical
  obtain ⟨segments, last, hsource, hopens⟩ := hwrites.wirable h.names
  have hnumbers : segments.map (·.2) = List.range (slots ns).length := by
    have hslots := hwrites.slotsIn_eq
    rw [hsource, slotsIn_append, slotsIn_ofSegments, slotsIn_literal, List.append_nil] at hslots
    rw [hslots]
    exact h.numbers
  have hlt (s : List Char × Nat) (hs : s ∈ segments) : s.2 < (slots ns).length :=
    List.mem_range.1 (hnumbers ▸ List.mem_map_of_mem hs)
  have hempty : fill (fun _ => []) (sourceAll ns) = segments.flatMap (·.1) ++ last := by
    rw [hsource, Html.fill_append, fill_ofSegments, Html.fill_literal]
    simp only [List.append_nil]
  have hbraces := h.braces
  rw [hempty] at hbraces
  have htexts : ∀ s ∈ segments, ¬ ['\x7b', '\x7b'] <:+: s.1 ∧ ∀ c ∈ s.1.getLast?, c ≠ '\x7b' := by
    intro s hs
    refine ⟨fun hin => hbraces ?_, fun c hc => ?_⟩
    · obtain ⟨before, after, rfl⟩ := List.append_of_mem hs
      exact hin.trans ⟨before.flatMap (·.1), after.flatMap (·.1) ++ last, by simp⟩
    · rw [(hopens s hs).getLast?_eq] at hc
      cases hc
      decide
  have htags : ∀ s ∈ segments, Template.compile (Template.tag (expr s.2)) = .ok ⟨[.value (e s.2)]⟩ :=
    fun s hs => h.tags s.2 (hlt s hs)
  obtain ⟨e', hmoved, hcompile⟩ := Template.compile_spell htags htexts
    (fun hin => hbraces (hin.trans (List.suffix_append ..).isInfix))
    (hnumbers ▸ List.nodup_range)
  have hmarkup : d.source.markup = Template.spell expr segments ++ String.ofList last := by
    rw [h.markup, hsource, Html.fill_append, fill_ofSegments, Html.fill_literal, String.ofList_append,
      ← Template.toList_spell, String.ofList_toList]
  refine ⟨segments, last, e', ?_, fun k hk => ?_, hnumbers, hopens, hsource⟩
  · have hcompiles := h.compiles
    rw [hmarkup, hcompile] at hcompiles
    exact (Except.ok.inj hcompiles).symm
  · have hmem : k ∈ segments.map (·.2) := by rw [hnumbers]; exact List.mem_range.2 hk
    obtain ⟨s, hs, rfl⟩ := List.mem_map.1 hmem
    exact hmoved s hs

end Sketch

namespace Session

open Sketch

variable {s t : Session} {i : InstanceId} {inst : Instance} {ns : List Sketch} {expr : Nat → String}
  {e : Nat → Expr} {f : Nat → Value}

/-- The expressions, as they stand in the view, evaluate to functions and do nothing else. -/
def Yields (i : InstanceId) (d : Definition) (n : Nat) (e : Nat → Expr) (f : Nat → Value)
    (s : Session) : Prop :=
  ∀ k < n, (f k).isFunction = true ∧ ∀ place, d.template.values[k]? = some ((e k).move place) →
    Eval.expr (renderHost i) Eval.depthLimit d.markupSource ((e k).move place) ⟨[], s⟩ =
      .ok (f k) ⟨[], s⟩

/-- What the program of the view makes: the forest with the functions in place of the slots. -/
private theorem materialize_handlers (hd : Outlines ns expr e inst.definition)
    (hf : Yields i inst.definition (slots ns).length e f s) :
    materialize i inst s = .ok (wiredAll inst.definition.attr? (fun k => ⟨f k, i⟩) ns) s := by
  obtain ⟨segments, last, e', htemplate, hmoved, hnumbers, hopens, hsource⟩ := hd.exists_segments
  have hlt (t : List Char × Nat) (ht : t ∈ segments) : t.2 < (slots ns).length :=
    List.mem_range.1 (hnumbers ▸ List.mem_map_of_mem ht)
  have hvalues : inst.definition.template.values = (List.range (slots ns).length).map e' := by
    rw [htemplate, Template.values, List.filterMap_append, Statement.filterMap_tagged,
      Statement.filterMap_ofText, List.append_nil, ← hnumbers, List.map_map]
    rfl
  have heval : ∀ t ∈ segments, Eval.expr (renderHost i) Eval.depthLimit inst.definition.markupSource
      (e' t.2) ⟨[], s⟩ = .ok (f t.2) ⟨[], s⟩ := by
    intro t ht
    obtain ⟨place, hplace⟩ := hmoved t.2 (hlt t ht)
    rw [hplace]
    refine (hf t.2 (hlt t ht)).2 place ?_
    rw [hvalues, List.getElem?_map, List.getElem?_range (hlt t ht), Option.map_some, hplace]
  have hrendered : Eval.template (renderHost i) inst.definition.markupSource inst.definition.template s =
      .ok (Rendered.ofSegments f segments last) s := by
    rw [htemplate]
    exact Eval.template_tagged heval
  refine materialize_of_ok hrendered ?_
  have hcanonical := canonical_castAll Slot.not_mem_mark ns hd.canonical
  have hbound : ∀ a ∈ attributesAll ns, Slot.Bound
      (((List.range (slots ns).length).map f).map fun f => (⟨f, i⟩ : Handler)) (fun k => ⟨f k, i⟩) a := by
    refine Slot.bound_of_free (writes_sourceAll ns hd.canonical) hd.placeholders hd.names fun t ht => ?_
    have hlt : t.2 < (slots ns).length := List.mem_range.1 (hd.numbers ▸ List.mem_map_of_mem ht)
    refine ⟨Nat.lt_of_lt_of_le hlt hd.length_le, ?_⟩
    rw [List.getElem?_map, List.getElem?_map, List.getElem?_range hlt]
    rfl
  unfold treesFrom
  rw [Slot.fill_ofSegments (fun t ht => ⟨hopens t ht, (hf t.2 (hlt t ht)).1⟩) hnumbers, ← hsource,
    fill_sourceAll (α := Handler) Slot.not_mem_mark, String.ofList_toList]
  dsimp only
  rw [(Html.parse_markupOf _ hcanonical (apart_castAll hd.apart)).1]
  dsimp only
  rw [Slot.stampAll_cast ns hbound hd.attr]

/-- An update in which the program does nothing but make trees has one pass, and shows them. It succeeds
the first time, and later as long as the marker has a parent. -/
private theorem update_still {trees : List (Html Handler)} (hs : Sound s)
    (hi : s.instances[i]? = some inst)
    (hm : materialize i { inst with phase := .rendering false } (inPhase i (.rendering false) s) =
      .ok trees (inPhase i (.rendering false) s)) :
    ((∀ o, inst.output = some o → (s.document.forest.parent? o.marker).isSome) →
      ∃ r t, update i s = .ok r t) ∧
    ∀ r t, update i s = .ok r t → outputTrees i t = trees ∧ ∃ o, t.instances[i]? =
      some { inst with output := some o, renders := inst.renders + 1, phase := .idle } := by
  have hi₁ := getElem?_inPhase hi (.rendering false)
  have hs₁ : Sound (inPhase i (.rendering false) s) := hs.congr (skeleton_inPhase ..)
  have hrender := (render_eq hi₁).trans (Run.bind_of_ok hm)
  have hu := update_eq i s
  -- nothing has been written, so that there is no second pass
  have honce {r : Option NodeId} {t : Session}
      (hr : render i (inPhase i (.rendering false) s) = .ok r t) :
      update i s = .ok r (inPhase i .idle t) ∧ ∃ o, (inPhase i .idle t).instances[i]? =
        some { inst with output := some o, renders := inst.renders + 1, phase := .idle } := by
    have hself := present_self hi₁ { inst with phase := .rendering false } trees
    rw [← hrender, hr] at hself
    obtain ⟨o, hself⟩ := hself
    have hwritten : ¬ written i t := by
      rw [written, hself, Option.any_some]
      exact Bool.false_ne_true
    rw [hu, hr]
    exact ⟨if_neg hwritten, o, getElem?_inPhase hself .idle⟩
  constructor
  · intro hattached
    cases ho : inst.output with
    | none => exact ⟨_, _, (honce (hrender.trans (present_first ho _ _))).1⟩
    | some o =>
      obtain ⟨p, hp⟩ := Option.isSome_iff_exists.1 (hattached o ho)
      obtain ⟨u, hr⟩ := hs₁.render_again hi₁ ho hp hm
      exact ⟨_, _, (honce hr).1⟩
  · intro r t ht
    cases hr : render i (inPhase i (.rendering false) s) with
    | error e u =>
      rw [hr] at hu
      cases hu.symm.trans ht
    | ok r' u =>
      obtain ⟨hupdate, hself⟩ := honce hr
      cases hupdate.symm.trans ht
      obtain ⟨-, shown, w, hm', hshown⟩ := hs₁.render_shows hi₁ hr
      cases hm.symm.trans hm'
      rw [outputTrees_congr (skeleton_inPhase ..), hshown]
      exact ⟨rfl, hself⟩

/-- In a view with handlers whose slots evaluate to functions, every rendering gives the elements their
listeners. The first one succeeds, and so does every other one while the marker has a parent. What the
instance shows then is the forest without the handlers, with one listener in place of each, which calls
the function of its own slot. Nothing else about the instance has changed. All sessions that are reached
are sound. -/
theorem handlers_bound (hs : Sound s) (hi : s.instances[i]? = some inst)
    (hd : Outlines ns expr e inst.definition)
    (hf : Yields i inst.definition (slots ns).length e f (inPhase i (.rendering false) s)) :
    ((∀ o, inst.output = some o → (s.document.forest.parent? o.marker).isSome) →
      ∃ r t, update i s = .ok r t) ∧
    ∀ r t, update i s = .ok r t →
      outputTrees i t = wiredAll inst.definition.attr? (fun k => ⟨f k, i⟩) ns ∧
        (∀ n ∈ outputTrees i t, n.Single) ∧
        ∃ o, t.instances[i]? =
          some { inst with output := some o, renders := inst.renders + 1, phase := .idle } := by
  have hm : materialize i { inst with phase := .rendering false } (inPhase i (.rendering false) s) =
      .ok (wiredAll inst.definition.attr? (fun k => ⟨f k, i⟩) ns) (inPhase i (.rendering false) s) :=
    materialize_handlers hd hf
  obtain ⟨hok, hshown⟩ := update_still hs hi hm
  refine ⟨hok, fun r t ht => ?_⟩
  obtain ⟨htrees, hself⟩ := hshown r t ht
  rw [htrees]
  exact ⟨rfl, single_wiredAll ns hd.canonical hd.names, hself⟩

def panel : Recipe :=
  ⟨⟨0, ⟨"<p><b onclick=\"\x7b\x7b open \x7d\x7d\" title=\"t\" onkey-up=\"\x7b\x7b y => y \x7d\x7d\">go</b></p>",
      some "p \x7b\x7d", none⟩,
    ⟨[.text "<p><b onclick=\"", .value (.name "open"), .text "\" title=\"t\" onkey-up=\"",
      .value (.lambda ⟨1, 53⟩ ["y"] (.name "y")), .text "\">go</b></p>"]⟩,
    .empty, some ⟨"view-a", "p[view-a] \x7b\x7d"⟩⟩, .sync, false⟩

def panelSketch : List Sketch :=
  [.element "p" [] [.element "b" [("onclick", .inr 0), ("title", .inl "t"), ("onkey-up", .inr 1)]
    [.text "go"]]]

def panelSource : Nat → String
  | 0 => " open "
  | _ => " y => y "

def panelExpr : Nat → Expr
  | 0 => .name "open"
  | _ => .lambda ⟨1, 6⟩ ["y"] (.name "y")

def panelFunction : Nat → Value
  | 0 => .native 0
  | _ => .lambda ⟨0, ⟨1, 53⟩⟩ ["y"] (.name "y") []

private theorem canonical_panel :
    ∀ n ∈ (castAll (fun _ => "") panelSketch : List (Html Handler)), Html.Canonical n := by
  simp only [panelSketch, castAll, Sketch.cast, List.forall_mem_cons]
  refine ⟨.element (by decide) rfl (by decide) (fun h => absurd h (by decide))
    (fun h => absurd h (by decide)) (fun _ => ?_) (fun _ => List.isChain_singleton _), nofun⟩
  simp only [List.forall_mem_cons]
  refine ⟨.element (by decide) rfl (by decide) (fun h => absurd h (by decide))
    (fun h => absurd h (by decide)) (fun _ => ?_) (fun _ => List.isChain_singleton _), nofun⟩
  simp only [List.forall_mem_cons]
  exact ⟨.text (by decide) (by decide), nofun⟩

private theorem compile_panel :
    Template.compile panel.definition.source.markup = .ok panel.definition.template := by
  have hfirst : Text.cut? ['\x7b', '\x7b'] panel.definition.source.markup.toList =
      some ("<p><b onclick=\"".toList,
        " open \x7d\x7d\" title=\"t\" onkey-up=\"\x7b\x7b y => y \x7d\x7d\">go</b></p>".toList) := rfl
  have hopen : Lexer.tag ⟨1, 16⟩ ⟨1, 18⟩
      " open \x7d\x7d\" title=\"t\" onkey-up=\"\x7b\x7b y => y \x7d\x7d\">go</b></p>".toList =
      .ok ([⟨.name "open", ⟨1, 19⟩⟩, ⟨.symbol .closeTag, ⟨1, 24⟩⟩], ⟨1, 26⟩,
        "\" title=\"t\" onkey-up=\"\x7b\x7b y => y \x7d\x7d\">go</b></p>".toList) := by cbv
  have hsecond : Text.cut? ['\x7b', '\x7b']
      "\" title=\"t\" onkey-up=\"\x7b\x7b y => y \x7d\x7d\">go</b></p>".toList =
      some ("\" title=\"t\" onkey-up=\"".toList, " y => y \x7d\x7d\">go</b></p>".toList) := rfl
  have hkey : Lexer.tag ⟨1, 48⟩ ⟨1, 50⟩ " y => y \x7d\x7d\">go</b></p>".toList =
      .ok ([⟨.name "y", ⟨1, 51⟩⟩, ⟨.symbol .arrow, ⟨1, 53⟩⟩, ⟨.name "y", ⟨1, 56⟩⟩,
        ⟨.symbol .closeTag, ⟨1, 58⟩⟩], ⟨1, 60⟩, "\">go</b></p>".toList) := by cbv
  refine Template.compile_eq_ok_iff.2 ⟨_, Lexer.template_tag .start hfirst hopen
    (Lexer.template_tag _ hsecond hkey (Lexer.template_of_text rfl _)), ?_⟩
  cbv

private theorem panel_outlines : Outlines panelSketch panelSource panelExpr panel.definition where
  markup := by decide +kernel
  canonical := canonical_panel
  apart := List.isChain_singleton _
  names := by decide
  numbers := by decide
  length_le := by decide
  braces := by decide +kernel
  placeholders := by decide +kernel
  compiles := compile_panel
  tags := by
    have hopen : Lexer.tag ⟨1, 1⟩ ⟨1, 3⟩ " open \x7d\x7d".toList =
        .ok ([⟨.name "open", ⟨1, 4⟩⟩, ⟨.symbol .closeTag, ⟨1, 9⟩⟩], ⟨1, 11⟩, []) := by cbv
    have hkey : Lexer.tag ⟨1, 1⟩ ⟨1, 3⟩ " y => y \x7d\x7d".toList = .ok ([⟨.name "y", ⟨1, 4⟩⟩,
        ⟨.symbol .arrow, ⟨1, 6⟩⟩, ⟨.name "y", ⟨1, 9⟩⟩, ⟨.symbol .closeTag, ⟨1, 11⟩⟩], ⟨1, 13⟩, []) := by
      cbv
    intro k hk
    obtain _ | _ | k := k
    · exact Template.compile_eq_ok_iff.2
        ⟨_, Lexer.template_tag .start rfl hopen (Lexer.template_nil _), by cbv⟩
    · exact Template.compile_eq_ok_iff.2
        ⟨_, Lexer.template_tag .start rfl hkey (Lexer.template_nil _), by cbv⟩
    · exact absurd hk (Nat.not_lt_of_le (Nat.le_add_left 2 k))
  attr := by
    rintro name ⟨⟩
    decide

private theorem yields_panel {s : Session} {inst : Instance} (hi : s.instances[0]? = some inst)
    (hscope : inst.scope = .ofProps [("open", .native 0)]) :
    Yields 0 panel.definition (slots panelSketch).length panelExpr panelFunction s := by
  intro k hk
  obtain _ | _ | k := k
  · refine ⟨rfl, fun place _ => ?_⟩
    have hopen : Env.get? (renderHost 0) "open" ⟨[], s⟩ = .ok (some (.native 0)) ⟨[], s⟩ := by
      show EStateM.Result.ok ((scopeOf 0 s).get? "open") _ = _
      rw [scopeOf_eq hi, hscope]
      rfl
    exact Run.bind_of_ok hopen
  · refine ⟨rfl, fun place hplace => ?_⟩
    have hvalues : panel.definition.template.values[1]? =
        some (.lambda ⟨1, 53⟩ ["y"] (.name "y")) := rfl
    rw [hvalues, Option.some.injEq] at hplace
    rw [← hplace]
    rfl
  · exact absurd hk (Nat.not_lt_of_le (Nat.le_add_left 2 k))

def unpainted : Session :=
  (joined (unborn panel [("open", .native 0)]) empty).modifyInstance 0 fun inst =>
    { inst with alive := true }

private theorem unpainted_sound : Sound unpainted :=
  ((joined_arriving empty_wellFormed.toWhole panel [("open", .native 0)]).setAlive true).sound

/-- Each of the two handlers gets its own function. -/
theorem handlers_bound_of_panel : ∃ inst r t, unpainted.instances[0]? = some inst ∧
    Outlines panelSketch panelSource panelExpr inst.definition ∧ update 0 unpainted = .ok r t ∧
    outputTrees 0 t = [.element "p" [("view-a", "")] [] [.element "b" [("title", "t"), ("view-a", "")]
      [("click", ⟨panelFunction 0, 0⟩), ("key-up", ⟨panelFunction 1, 0⟩)] [.text "go"]]] := by
  have hi : unpainted.instances[0]? =
      some { unborn panel [("open", .native 0)] with alive := true } := rfl
  have hi₁ := getElem?_inPhase hi (.rendering false)
  obtain ⟨hok, hshown⟩ := handlers_bound unpainted_sound hi panel_outlines (yields_panel hi₁ rfl)
  obtain ⟨r, t, ht⟩ := hok nofun
  exact ⟨_, r, t, hi, panel_outlines, ht, (hshown r t ht).1⟩

end Session

end LiveMarkup
