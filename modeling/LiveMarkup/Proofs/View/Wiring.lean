import LiveMarkup.Proofs.Decimal.Digits
import LiveMarkup.Proofs.Template.Tags
import LiveMarkup.Proofs.Text.Class
import LiveMarkup.Proofs.Text.Lower
import LiveMarkup.Proofs.View.Sketch
import LiveMarkup.View.Slot

/-! Functions find their way to elements through the markup: a slot is filled with a placeholder, the
markup is read, and the attribute that has the placeholder as its value becomes a listener. -/

namespace LiveMarkup

namespace Slot

open Sketch
open Html (Slotted literal)

variable {α : Type} {name value : String} {handlers : List α} {segments : List (List Char × Nat)}
  {last : List Char} {f : Nat → Value}

/-- A character of the name of an event. -/
private theorem isEventRest_of_name {c : Char}
    (h : (c.isLower || c.isDigit || c == '_' || c == '-') = true) :
    isEventRest c = true ∧ Text.isBlank c = false ∧ c.toNat < 0x80 ∧ c.isUpper = false := by
  simp only [Bool.or_eq_true, beq_iff_eq] at h
  rcases h with ((h | h) | rfl) | rfl
  · have hrange := Text.toNat_of_isLower h
    have halpha : c.isAlpha = true := by rw [Char.isAlpha, h, Bool.or_true]
    have hword : Text.isWord c = true :=
      Text.isWord_of_isAlphanum (by omega) (by rw [Char.isAlphanum, halpha, Bool.true_or])
    exact ⟨by rw [isEventRest, hword, Bool.true_or], Text.not_isBlank_of_isAlpha halpha, by omega,
      Text.not_isUpper_of_toNat (by omega)⟩
  · have hrange := Text.toNat_of_isDigit h
    have hword : Text.isWord c = true :=
      Text.isWord_of_isAlphanum (by omega) (by rw [Char.isAlphanum, h, Bool.or_true])
    exact ⟨by rw [isEventRest, hword, Bool.true_or], Text.not_isBlank_of_isDigit h, by omega,
      Text.not_isUpper_of_toNat (by omega)⟩
  · decide
  · decide

/-- The parts of the name of a handler. -/
theorem parts_of_namesHandler {name : List Char} (h : namesHandler name = true) :
    ∃ c cs, name = 'o' :: 'n' :: c :: cs ∧ c.isLower = true ∧
      ∀ d ∈ name, (d.isLower || d.isDigit || d == '_' || d == '-') = true := by
  unfold namesHandler at h
  split at h
  · next c cs =>
    rw [Bool.and_eq_true, List.all_eq_true] at h
    refine ⟨c, cs, rfl, h.1, ?_⟩
    simp only [List.forall_mem_cons]
    exact ⟨by decide, by decide, by rw [h.1]; rfl, h.2⟩
  · cases h

/-- Where the value of a handler begins, a function becomes a listener. -/
private theorem isEventSlot_of_opensHandler {cs : List Char} (h : OpensHandler cs) :
    isEventSlot cs = true := by
  obtain ⟨before, name, rfl, hname⟩ := h
  obtain ⟨c, cs, hparts, hc, hall⟩ := parts_of_namesHandler hname
  have hrest (d : Char) (hd : d ∈ name.reverse) := isEventRest_of_name (hall d (List.mem_reverse.1 hd))
  have hreverse : (before ++ ' ' :: (name ++ ['=', '"'])).reverse =
      '"' :: '=' :: (name.reverse ++ ' ' :: before.reverse) := by simp
  have htrim : Text.trimStart (name.reverse ++ ' ' :: before.reverse) =
      name.reverse ++ ' ' :: before.reverse := by
    cases hn : name.reverse with
    | nil => rw [hparts] at hn; simp at hn
    | cons d ds =>
      rw [hn] at hrest
      exact Html.trimStart_cons (hrest d List.mem_cons_self).2.1
  have htake : (name.reverse ++ ' ' :: before.reverse).takeWhile isEventRest = name.reverse := by
    rw [List.takeWhile_append_of_pos fun d hd => (hrest d hd).1,
      List.takeWhile_cons_of_neg (by decide), List.append_nil]
  have hdrop : (name.reverse ++ ' ' :: before.reverse).dropWhile isEventRest = ' ' :: before.reverse := by
    rw [List.dropWhile_append_of_pos fun d hd => (hrest d hd).1,
      List.dropWhile_cons_of_neg (by decide)]
  have hnames : namesEvent name = true := by
    rw [hparts, namesEvent, isLetter, Char.isAlpha, hc]
    simp
  rw [isEventSlot, hreverse, dropQuote, Html.trimStart_cons (by decide)]
  simp only [htrim, htake, hdrop, List.reverse_reverse, hnames, Bool.true_and, List.head?_cons,
    Option.all_some]
  decide

def mark (n : Nat) : String := placeholder ++ toString n

theorem not_mem_mark (n : Nat) : '"' ∉ (mark n).toList := by
  rw [mark, String.toList_append, List.mem_append, Decimal.toList_toString]
  rintro (h | h)
  · exact absurd h (by decide)
  · exact absurd (Decimal.isDigit_of_mem_toDigits h) (by decide)

private theorem fillSlots_segments {escaped : Bool} {n : Nat}
    (h : ∀ s ∈ segments, OpensHandler s.1 ∧ (f s.2).isFunction = true)
    (hn : segments.map (·.2) = List.range' n segments.length) :
    fillSlots escaped n (segments.map fun s => (String.ofList s.1, f s.2)) =
      (String.ofList (Html.Slotted.fill (fun k => (mark k).toList) (ofSegments segments)),
        segments.map fun s => f s.2) := by
  induction segments generalizing n with
  | nil => rfl
  | cons s segments ih =>
    obtain ⟨⟨hopens, hfunction⟩, hsegments⟩ := List.forall_mem_cons.1 h
    rw [List.map_cons, List.length_cons, List.range'_succ, List.cons.injEq] at hn
    obtain ⟨rfl, hn⟩ := hn
    rw [List.map_cons, fillSlots, String.toList_ofList, hfunction, isEventSlot_of_opensHandler hopens,
      Bool.and_self, if_pos rfl, ih hsegments hn, ofSegments_cons, Html.fill_append, Html.fill_literal,
      Html.fill_inr]
    simp only [mark, String.ofList_append, String.ofList_toList, String.append_assoc, List.map_cons]

/-- The markup of an output with functions for handlers has placeholders in the slots. -/
theorem fill_ofSegments {escaped : Bool} {k : Nat}
    (h : ∀ s ∈ segments, OpensHandler s.1 ∧ (f s.2).isFunction = true)
    (hn : segments.map (·.2) = List.range k) :
    Slot.fill escaped (Rendered.ofSegments f segments last) =
      (String.ofList (Html.Slotted.fill (fun k => (mark k).toList) (ofSegments segments ++ literal last)),
        (List.range k).map f) := by
  have hlength : segments.length = k := by
    rw [← List.length_map (·.2), hn, List.length_range]
  have hfilled : fillSlots escaped 0 (segments.map fun s => (String.ofList s.1, f s.2)) = _ :=
    fillSlots_segments h (by rw [hn, hlength, List.range_eq_range'])
  rw [Slot.fill, Rendered.ofSegments, hfilled, ← hn, Html.fill_append, Html.fill_literal,
    String.ofList_append, List.map_map]
  rfl

/-! Listeners. -/

private theorem dropPrefix?_on {name : List Char} (h : namesHandler name = true) :
    Text.dropPrefix? "on".toList name = some (name.drop 2) ∧ name.drop 2 ≠ [] := by
  obtain ⟨c, cs, rfl, -, -⟩ := parts_of_namesHandler h
  exact ⟨rfl, nofun⟩

private theorem lower_eventOf (h : namesHandler name.toList = true) :
    Text.lower (eventOf name) = eventOf name := by
  obtain ⟨c, cs, -, -, hall⟩ := parts_of_namesHandler h
  refine Text.lower_of_isLowered fun c hc => ?_
  rw [eventOf, String.toList_ofList] at hc
  exact (isEventRest_of_name (hall c (List.mem_of_mem_drop hc))).2.2

/-- A handler that has a placeholder as its value stands for its listener. -/
private theorem binding?_mark {n : Nat} {h : α} (hname : namesHandler name.toList = true)
    (hn : n < 2 ^ 64) (hh : handlers[n]? = some h) :
    binding? handlers (name, mark n) = some (eventOf name, h) := by
  obtain ⟨hdrop, hne⟩ := dropPrefix?_on hname
  have hplaceholder : Text.dropPrefix? placeholder.toList (mark n).toList = some (toString n).toList := by
    rw [mark, String.toList_append, Text.dropPrefix?_append]
  rw [binding?, hdrop]
  dsimp only
  split
  · next heq => cases heq
  · next heq => exact absurd (Option.some.inj heq) hne
  · next event heq =>
    cases heq
    rw [hplaceholder, Option.bind_some, Decimal.readIndex?_toString hn, Option.bind_some, hh,
      Option.map_some]
    rw [show String.ofList (name.toList.drop 2) = eventOf name from rfl, lower_eventOf hname]

/-- Other attributes stand for none. -/
theorem binding?_plain (hvalue : ¬ placeholder.toList <+: value.toList) :
    binding? handlers (name, value) = none := by
  have hdrop : Text.dropPrefix? placeholder.toList value.toList = none := by
    cases hd : Text.dropPrefix? placeholder.toList value.toList with
    | none => rfl
    | some rest => exact absurd ⟨rest, (Text.dropPrefix?_eq_some hd).symm⟩ hvalue
  rw [binding?]
  split <;> first | rfl | rw [hdrop]; rfl

/-- An attribute whose slot is filled with a placeholder stands for the listener of the slot, and no
other attribute stands for one. -/
def Bound (handlers : List α) (h : Nat → α) (a : SketchAttribute) : Prop :=
  binding? handlers (castAttribute mark a) = a.2.getRight?.map fun k => (eventOf a.1, h k)

variable {attr : Option String} {h : Nat → α} {as : List SketchAttribute}
  {attributes : List (String × String)}

private theorem filter_cast (ha : ∀ a ∈ as, Bound handlers h a) :
    (as.map (castAttribute mark)).filter (fun a => (binding? handlers a).isNone) = plainOf as := by
  induction as with
  | nil => rfl
  | cons a as ih =>
    obtain ⟨ha, has⟩ := List.forall_mem_cons.1 ha
    rw [List.map_cons, List.filter_cons, ha, ih has]
    obtain ⟨name, value | k⟩ := a <;> rfl

private theorem filterMap_cast (ha : ∀ a ∈ as, Bound handlers h a) :
    (as.map (castAttribute mark)).filterMap (binding? handlers) =
      (slotsOf as).map fun s => (eventOf s.1, h s.2) := by
  induction as with
  | nil => rfl
  | cons a as ih =>
    obtain ⟨ha, has⟩ := List.forall_mem_cons.1 ha
    rw [List.map_cons, List.filterMap_cons, ha, ih has]
    obtain ⟨name, value | k⟩ := a <;> rfl

private theorem filter_setAttribute {p : String × String → Bool} (hp : p (name, "") = true)
    (h : ∀ a ∈ attributes, a.1 = name → p a = true) :
    (Html.setAttribute name "" attributes).filter p = Html.setAttribute name "" (attributes.filter p) := by
  induction attributes with
  | nil => exact List.filter_cons_of_pos hp
  | cons a attributes ih =>
    obtain ⟨ha, hattributes⟩ := List.forall_mem_cons.1 h
    obtain ⟨n, v⟩ := a
    rw [Html.setAttribute]
    by_cases hn : n = name
    · rw [if_pos hn, hn, List.filter_cons_of_pos hp, List.filter_cons_of_pos (hn ▸ ha hn),
        Html.setAttribute, if_pos rfl]
    · rw [if_neg hn, List.filter_cons, List.filter_cons, ih hattributes]
      split
      · rw [Html.setAttribute, if_neg hn]
      · rfl

private theorem filterMap_setAttribute {β : Type} {g : String × String → Option β}
    (hg : g (name, "") = none) (h : ∀ a ∈ attributes, a.1 = name → g a = none) :
    (Html.setAttribute name "" attributes).filterMap g = attributes.filterMap g := by
  induction attributes with
  | nil => exact List.filterMap_cons_none hg
  | cons a attributes ih =>
    obtain ⟨ha, hattributes⟩ := List.forall_mem_cons.1 h
    obtain ⟨n, v⟩ := a
    rw [Html.setAttribute]
    by_cases hn : n = name
    · rw [if_pos hn, hn, List.filterMap_cons_none hg, List.filterMap_cons_none (hn ▸ ha hn)]
    · rw [if_neg hn, List.filterMap_cons, List.filterMap_cons, ih hattributes]

/-- If the further attribute has the name of an attribute, that one is no slot. -/
private theorem binding?_of_name (ha : ∀ a ∈ as, Bound handlers h a)
    (hname : ∀ s ∈ slotsOf as, s.1 ≠ name) :
    ∀ a ∈ as.map (castAttribute mark), a.1 = name → binding? handlers a = none := by
  intro a hmem hn
  obtain ⟨b, hb, rfl⟩ := List.mem_map.1 hmem
  rw [ha b hb]
  obtain ⟨n, value | k⟩ := b
  · rfl
  · exact absurd hn (hname (n, k) (List.mem_filterMap.2 ⟨_, hb, rfl⟩))

mutual

theorem stamp_cast (n : Sketch) (ha : ∀ a ∈ n.attributes, Bound handlers h a)
    (hattr : ∀ name ∈ attr, ∀ s ∈ slotsOf n.attributes, s.1 ≠ name) :
    stamp attr handlers (n.cast mark) = n.wired attr h := by
  match n with
  | .text s => rfl
  | .comment s => rfl
  | .element tag as children =>
    rw [Sketch.attributes] at ha hattr
    obtain ⟨ha, hchildren⟩ := List.forall_mem_append.1 ha
    simp only [slotsOf, List.filterMap_append, List.forall_mem_append] at hattr
    have hall := stampAll_cast children hchildren fun name hname => (hattr name hname).2
    simp only [Sketch.cast, stamp, wired, hall, List.nil_append]
    cases attr with
    | none => rw [filter_cast ha, filterMap_cast ha, marked]
    | some name =>
      have hplain : binding? handlers (name, "") = none := binding?_plain (by decide)
      have hnone := binding?_of_name ha (hattr name rfl).1
      rw [marked, filter_setAttribute (by rw [hplain]; rfl) fun a hmem hn => by rw [hnone a hmem hn]; rfl,
        filterMap_setAttribute hplain hnone, filter_cast ha, filterMap_cast ha]

/-- Stamping takes the placeholders out of a forest and puts the listeners in. -/
theorem stampAll_cast (ns : List Sketch) (ha : ∀ a ∈ attributesAll ns, Bound handlers h a)
    (hattr : ∀ name ∈ attr, ∀ s ∈ slots ns, s.1 ≠ name) :
    stampAll attr handlers (castAll mark ns) = wiredAll attr h ns := by
  match ns with
  | [] => rfl
  | n :: ns =>
    obtain ⟨ha, hns⟩ := List.forall_mem_append.1 ha
    simp only [slots, attributesAll, slotsOf, List.filterMap_append, List.forall_mem_append] at hattr
    rw [castAll, stampAll, stamp_cast n ha fun name hname => (hattr name hname).1,
      stampAll_cast ns hns fun name hname => (hattr name hname).2, wiredAll]

end

/-- Where a text without double quotes begins a value, it begins the value as it is written. -/
private theorem prefix_attributeText {needle : List Char} (hneedle : '"' ∉ needle)
    (h : needle <+: value.toList) : needle <+: (Html.attributeText value).toList := by
  rw [Html.attributeText, String.toList_ofList, Text.replaceAll, Text.splitOn, dif_pos (by decide),
    Text.pieces]
  split
  · rwa [List.intercalate_singleton]
  · next before after hcut =>
    have hvalue := Text.cut?_eq_some hcut
    obtain ⟨rest, hrest⟩ := h
    rw [← hrest, List.append_assoc, List.append_eq_append_iff] at hvalue
    have hbefore : needle <+: before := by
      obtain ⟨more, hmore, -⟩ | ⟨more, hmore, hquote⟩ := hvalue
      · exact ⟨more, hmore.symm⟩
      · cases more with
        | nil => rw [hmore, List.append_nil]
        | cons c more =>
          cases hquote
          exact absurd (hmore ▸ List.mem_append_right before List.mem_cons_self) hneedle
    refine hbefore.trans ?_
    cases hpieces : Text.pieces ['"'] (by decide) after with
    | nil => rw [List.intercalate_singleton]
    | cons piece pieces =>
      rw [List.intercalate_cons_cons, List.append_assoc]
      exact List.prefix_append ..

/-- If the placeholder occurs nowhere else, the listeners are those of the slots. -/
theorem bound_of_free {ns : List Sketch} (hwrites : Writes (attributesAll ns) (sourceAll ns))
    (hfree : ¬ placeholder.toList <:+: Html.Slotted.fill (fun _ => []) (sourceAll ns))
    (hnames : ∀ s ∈ slots ns, namesHandler s.1.toList = true)
    (hslots : ∀ s ∈ slots ns, s.2 < 2 ^ 64 ∧ handlers[s.2]? = some (h s.2)) :
    ∀ a ∈ attributesAll ns, Bound handlers h a := by
  intro a ha
  obtain ⟨name, value | k⟩ := a
  · refine binding?_plain fun hprefix => hfree ?_
    obtain ⟨before, after, hsource⟩ := hwrites.infix_of_mem ha
    have hvalue : placeholder.toList <:+: (Html.attributeText value).toList :=
      (prefix_attributeText (by decide) hprefix).isInfix
    rw [← hsource, Html.fill_append, Html.fill_append, attributeSource, Html.fill_append,
      Html.fill_append]
    refine hvalue.trans ⟨Html.Slotted.fill (fun _ => []) before ++ (' ' :: (name.toList ++ ['=', '"'])),
      ['"'] ++ Html.Slotted.fill (fun _ => []) after, ?_⟩
    simp only [Sum.elim_inl, Html.fill_literal, List.append_assoc]
  · have hmem : (name, k) ∈ slots ns := List.mem_filterMap.2 ⟨_, ha, rfl⟩
    exact binding?_mark (hnames _ hmem) (hslots _ hmem).1 (hslots _ hmem).2

end Slot

end LiveMarkup
