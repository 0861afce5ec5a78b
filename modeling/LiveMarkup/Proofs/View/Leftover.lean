import LiveMarkup.Proofs.Html.Content
import LiveMarkup.Proofs.Text.Lower
import LiveMarkup.Proofs.View.Shows
import LiveMarkup.Proofs.View.Siblings
import LiveMarkup.Proofs.View.Trace
import LiveMarkup.Proofs.View.Wiring

/-! What is left of placeholders. Every placeholder is a place in the markup where one begins. An attribute
that becomes a listener takes one of these places with it, and every other string that contains what a
placeholder begins with needs one of its own. So nothing is left if all functions become listeners. -/

namespace LiveMarkup

namespace Slot

open Html (handlersOf stringsOf load weight)

variable {α : Type} {cs : List Char} {attributes : List (String × String)} {handlers : List α}

private theorem isLowered_placeholder : Text.IsLowered placeholder.toList := by
  have hall : placeholder.toList.all (fun c => c.toNat < 0x80 && !c.isUpper) = true := by decide
  simpa [Text.IsLowered] using hall

/-- How often a string contains what placeholders begin with. -/
def leftover (s : String) : Nat := Text.occurrences placeholder.toList s.toList

def mentions (markup : String) : Nat := Text.mentions placeholder.toList markup.toList

/-- What is read has no more of them than the markup. -/
private theorem leftover_counts : Html.Counts leftover (Text.mentions placeholder.toList) where
  parts := Text.mentions_append_le isLowered_placeholder
  plain cs := by
    rw [leftover, String.toList_ofList]
    exact Text.occurrences_le_mentions isLowered_placeholder cs
  lower cs := by
    have hword : placeholder.toList = 'v' :: "iewdoo-listener:".toList := by decide
    have hlow := isLowered_placeholder
    rw [leftover]
    rw [hword] at hlow ⊢
    exact Text.occurrences_lower_le hlow (fun c => Text.toNat_of_v_mem_lowerChar) cs

private theorem leftover_pos {s : String} : 0 < leftover s ↔ placeholder.toList <:+: s.toList :=
  Text.occurrences_pos (by decide)

/-- An attribute that stands for a listener begins with what placeholders begin with. -/
private theorem isPrefix_of_binding? {a : String × String} {b : String × α}
    (h : binding? handlers a = some b) :
    placeholder.toList <+: a.2.toList := by
  by_contra hvalue
  obtain ⟨name, value⟩ := a
  rw [binding?_plain hvalue] at h
  cases h

/-- Every listener takes a place with it. -/
private theorem weight_filter (handlers : List α) (attributes : List (String × String)) :
    weight leftover (attributes.filter fun a => (binding? handlers a).isNone) +
      (attributes.filterMap (binding? handlers)).length ≤ weight leftover attributes := by
  induction attributes with
  | nil => exact Nat.le_refl _
  | cons a as ih =>
    rw [Html.weight_cons]
    cases hb : binding? handlers a with
    | none =>
      rw [List.filterMap_cons_none hb, List.filter_cons_of_pos (by rw [hb]; rfl), Html.weight_cons]
      omega
    | some b =>
      have hpos := leftover_pos.2 (isPrefix_of_binding? hb).isInfix
      rw [List.filterMap_cons_some hb, List.filter_cons_of_neg (by rw [hb]; simp), List.length_cons]
      omega

variable {attr : Option String}

mutual

theorem load_stamp (hattr : ∀ name ∈ attr, leftover name = 0) (handlers : List α) (t : Html α) :
    load leftover [stamp attr handlers t] ≤ load leftover [t] := by
  match t with
  | .text s => exact Nat.le_refl _
  | .comment s => exact Nat.le_refl _
  | .element tag attributes listeners children =>
    have hchildren := load_stampAll hattr handlers children
    rw [stamp.eq_def]
    dsimp only
    rw [Html.load_element, Html.load_element, List.length_append]
    cases attr with
    | none =>
      have hfilter := weight_filter handlers attributes
      dsimp only
      omega
    | some name =>
      have hfilter := weight_filter handlers (Html.setAttribute name "" attributes)
      have hset : weight leftover (Html.setAttribute name "" attributes) ≤
          weight leftover attributes + (leftover name + leftover "") :=
        Html.weight_setAttribute_le name "" attributes
      rw [hattr name rfl, show leftover "" = 0 from rfl] at hset
      dsimp only
      omega

/-- Stamping makes listeners of places, and no places. -/
private theorem load_stampAll (hattr : ∀ name ∈ attr, leftover name = 0) (handlers : List α)
    (ts : List (Html α)) : load leftover (stampAll attr handlers ts) ≤ load leftover ts := by
  match ts with
  | [] => exact Nat.le_refl _
  | t :: ts =>
    have ht := load_stamp hattr handlers t
    have hts := load_stampAll hattr handlers ts
    rw [stampAll, Html.load_cons, Html.load_cons t ts]
    omega

end

end Slot

namespace Session

open Html (handlersOf stringsOf load)
open Slot (leftover mentions)

variable {s t u : Session} {i : InstanceId} {inst : Instance} {r : Option NodeId}

/-- The trees that an instance makes have no more listeners and no more of what placeholders begin with
than its markup has places for them. -/
private theorem load_materialize {trees : List (Html Handler)}
    (hattr : ∀ name ∈ inst.definition.attr?, leftover name = 0) (h : materialize i inst s = .ok trees t) :
    ∃ rendered u, Eval.template (renderHost i) inst.definition.markupSource inst.definition.template s =
        .ok rendered u ∧
      load leftover trees ≤ mentions (Slot.fill inst.escaped rendered).1 := by
  obtain ⟨rendered, parsed, he, hparse, rfl⟩ := materialize_eq_ok_iff.1 h
  exact ⟨rendered, t, he, (Slot.load_stampAll hattr _ parsed).trans (Slot.leftover_counts.parse hparse)⟩

/-- If what placeholders begin with, in letters of either case, stands in the markup only where a
function has a placeholder, then every listener and every string in the output that contains it is due to
a function of its own. There are no more listeners than such functions, and if there are as many, no name,
value, text or comment in the output contains what placeholders begin with. -/
theorem leftovers_le_unbound (hs : Sound s) (hi : s.instances[i]? = some inst)
    (hattr : ∀ name ∈ inst.definition.attr?, ¬ Slot.placeholder.toList <:+: name.toList)
    (hfree : ∀ rendered u, Eval.template (renderHost i) inst.definition.markupSource
      inst.definition.template s = .ok rendered u →
      mentions (Slot.fill inst.escaped rendered).1 = (Slot.fill inst.escaped rendered).2.length)
    (hr : render i s = .ok r t) :
    ∃ rendered u, Eval.template (renderHost i) inst.definition.markupSource inst.definition.template s =
        .ok rendered u ∧
      (handlersOf (outputTrees i t)).length + ((stringsOf (outputTrees i t)).map leftover).sum ≤
        (Slot.fill inst.escaped rendered).2.length ∧
      ((handlersOf (outputTrees i t)).length = (Slot.fill inst.escaped rendered).2.length →
        ∀ str ∈ stringsOf (outputTrees i t), ¬ Slot.placeholder.toList <:+: str.toList) := by
  obtain ⟨-, trees, w, hm, htrees⟩ := hs.render_shows hi hr
  have hnone : ∀ name ∈ inst.definition.attr?, leftover name = 0 := fun name hname =>
    Nat.eq_zero_of_not_pos fun hpos => hattr name hname (Slot.leftover_pos.1 hpos)
  obtain ⟨rendered, u, he, hload⟩ := load_materialize hnone hm
  rw [hfree rendered u he, load] at hload
  rw [htrees]
  refine ⟨rendered, u, he, by omega, fun hbound str hstr hin => ?_⟩
  have hpos := Slot.leftover_pos.2 hin
  have hle := List.single_le_sum (fun _ _ => Nat.zero_le _) _ (List.mem_map_of_mem (f := leftover) hstr)
  omega

def viewOf (text : String) : Definition :=
  ((Catalog.empty.compile "s-" ["a"] text).toOption.map Prod.fst).getD
    ⟨0, ⟨"", none, none⟩, ⟨[]⟩, .empty, none⟩

def unrendered (text : String) (props : Bindings) : Session :=
  joined (unborn ⟨viewOf text, .sync, false⟩ props) empty

theorem unrendered_sound (text : String) (props : Bindings) : Sound (unrendered text props) :=
  (joined_arriving empty_wellFormed.toWhole ⟨viewOf text, .sync, false⟩ props).sound

def linkText : String := "<a onclick=\x7b\x7b x => x \x7d\x7d title=\"\x7b\x7b y => y \x7d\x7d\">go</a>"

theorem link_leaves_nothing : ∃ inst r t, (unrendered linkText []).instances[0]? = some inst ∧
    render 0 (unrendered linkText []) = .ok r t ∧ (handlersOf (outputTrees 0 t)).length = 1 ∧
    ∀ str ∈ stringsOf (outputTrees 0 t), ¬ Slot.placeholder.toList <:+: str.toList := by
  have hi : (unrendered linkText []).instances[0]? = some (unborn ⟨viewOf linkText, .sync, false⟩ []) := rfl
  have hattr : (viewOf linkText).attr? = none := Option.isNone_iff_eq_none.1 (by decide +kernel)
  have hfilled : Run.succeedsWith (Eval.template (renderHost 0) (viewOf linkText).markupSource
      (viewOf linkText).template) (unrendered linkText []) (fun r _ =>
        mentions (Slot.fill false r).1 == 1 && (Slot.fill false r).2.length == 1) = true := by
    decide +kernel
  have hbound : Run.succeedsWith (render 0) (unrendered linkText [])
      (fun _ t => (handlersOf (outputTrees 0 t)).length == 1) = true := by decide +kernel
  obtain ⟨rendered, u, he, hone⟩ := Run.succeedsWith_iff.1 hfilled
  obtain ⟨r, t, hr, hlisteners⟩ := Run.succeedsWith_iff.1 hbound
  obtain ⟨hplaces, hfunctions⟩ := Bool.and_eq_true_iff.1 hone
  obtain ⟨rendered', u', he', -, hclean⟩ := leftovers_le_unbound (unrendered_sound linkText []) hi
    (fun name hname => by cases hattr ▸ hname)
    (fun rendered' u' he' => by
      cases he.symm.trans he'
      exact (beq_iff_eq.1 hplaces).trans (beq_iff_eq.1 hfunctions).symm) hr
  cases he.symm.trans he'
  exact ⟨_, r, t, hi, hr, beq_iff_eq.1 hlisteners,
    hclean ((beq_iff_eq.1 hlisteners).trans (beq_iff_eq.1 hfunctions).symm)⟩

def trailingText : String := "<p onclick=\"\x7b\x7b x => x \x7d\x7d; x\">a</p>"

/-- It is not bound, and what stands for it in the markup is left in the output. -/
theorem trailing_leaves_placeholder :
    ¬ Slot.placeholder.toList <:+: trailingText.toList ∧
      ∃ r t, render 0 (unrendered trailingText []) = .ok r t ∧
        stringsOf (outputTrees 0 t) = ["p", "onclick", "viewdoo-listener:0; x", "a"] ∧
        (handlersOf (outputTrees 0 t)).length = 0 := by
  have hrender : Run.succeedsWith (render 0) (unrendered trailingText []) (fun _ t =>
      stringsOf (outputTrees 0 t) == ["p", "onclick", "viewdoo-listener:0; x", "a"] &&
        (handlersOf (outputTrees 0 t)).length == 0) = true := by decide +kernel
  obtain ⟨r, t, hr, hleft⟩ := Run.succeedsWith_iff.1 hrender
  exact ⟨by decide +kernel, r, t, hr, by simpa using hleft⟩

end Session

end LiveMarkup
