import LiveMarkup.Proofs.Html.Refill
import LiveMarkup.Proofs.Text.Escape

/-! Trees with slots: what markup with slots is read as, whatever escaped texts fill the slots. -/

namespace LiveMarkup.Html

open Slotted

variable {ι α : Type}

/-- A tree whose texts and values of attributes have slots. -/
inductive Mold (ι : Type) where
  | element (tag : String) (attributes : List (String × Slotted ι)) (children : List (Mold ι))
  | text (s : Slotted ι)
  | comment (s : String)

mutual

def Mold.cast (u : ι → List Char) : Mold ι → Html α
  | .element tag attributes children =>
    .element tag (fillAttributes u attributes) [] (castAll u children)
  | .text s => .text (String.ofList (s.fill u))
  | .comment s => .comment s

def castAll (u : ι → List Char) : List (Mold ι) → List (Html α)
  | [] => []
  | n :: ns => n.cast u :: castAll u ns

end

structure OpenMold (ι : Type) where
  tag : String
  attributes : List (String × Slotted ι)
  before : List (Mold ι)

def OpenMold.cast (u : ι → List Char) (e : OpenMold ι) : OpenElement α :=
  ⟨e.tag, fillAttributes u e.attributes, castAll u e.before⟩

/-- Trees with slots under construction, with a text in the place of each slot. -/
def castBuilder (u : ι → List Char) (content : List (Mold ι)) (opened : List (OpenMold ι)) : Builder α :=
  ⟨castAll u content, opened.map (OpenMold.cast u)⟩

variable {u : ι → List Char} {m : Slotted ι}

private theorem castAll_nil (u : ι → List Char) :
    castAll u [] = ([] : List (Html α)) := by rw [castAll]

private theorem castAll_cons (u : ι → List Char) (n : Mold ι) (ns : List (Mold ι)) :
    castAll u (n :: ns) = n.cast (α := α) u :: castAll u ns := by rw [castAll]

private theorem castAll_eq_map (u : ι → List Char) (ns : List (Mold ι)) :
    castAll u ns = ns.map (Mold.cast (α := α) u) := by
  induction ns with
  | nil => rw [castAll_nil, List.map_nil]
  | cons n ns ih => rw [castAll_cons, ih, List.map_cons]

private theorem reverse_castAll (u : ι → List Char) (ns : List (Mold ι)) :
    (castAll (α := α) u ns).reverse = castAll u ns.reverse := by
  rw [castAll_eq_map, castAll_eq_map, List.map_reverse]

/-- Closing the innermost element does not look into the slots. -/
private theorem cast_closed (u : ι → List Char) (content : List (Mold ι)) (e : OpenMold ι) :
    Html.element (α := α) e.tag (fillAttributes u e.attributes) [] (castAll u content).reverse ::
      castAll u e.before = castAll u (.element e.tag e.attributes content.reverse :: e.before) := by
  rw [reverse_castAll, castAll_cons, Mold.cast]

/-- Whether an element is open does not depend on the slots. -/
private theorem close?_cast (tag : String) (content : List (Mold ι)) (opened : List (OpenMold ι)) :
    (∃ content' opened', ∀ u, Builder.close? (α := α) tag (castAll u content)
      (opened.map (OpenMold.cast u)) = some (castBuilder u content' opened')) ∨
    ∀ u, Builder.close? (α := α) tag (castAll u content) (opened.map (OpenMold.cast u)) = none := by
  induction opened generalizing content with
  | nil => exact .inr fun _ => rfl
  | cons e es ih =>
    have hstep (u : ι → List Char) : Builder.close? (α := α) tag (castAll u content)
        ((e :: es).map (OpenMold.cast u)) =
        if e.tag = tag then
          some (castBuilder u (.element e.tag e.attributes content.reverse :: e.before) es)
        else Builder.close? tag (castAll u (.element e.tag e.attributes content.reverse :: e.before))
          (es.map (OpenMold.cast u)) := by
      rw [List.map_cons, Builder.close?, OpenMold.cast, cast_closed]
      rfl
    by_cases htag : e.tag = tag
    · exact .inl ⟨_, es, fun u => by rw [hstep, if_pos htag]⟩
    · simp only [hstep, if_neg htag]
      exact ih _

/-- One item is taken in without looking into its slots. -/
private theorem add_cast (content : List (Mold ι)) (opened : List (OpenMold ι)) (i : SlottedItem ι) :
    ∃ content' opened', ∀ u, (castBuilder (α := α) u content opened).add (i.fill u) =
      castBuilder u content' opened' := by
  cases i with
  | text s =>
    refine ⟨.text s :: content, opened, fun u => ?_⟩
    rw [castBuilder, castBuilder, castAll_cons, Mold.cast]
    rfl
  | comment s =>
    refine ⟨.comment s :: content, opened, fun u => ?_⟩
    rw [castBuilder, castBuilder, castAll_cons, Mold.cast]
    rfl
  | declaration => exact ⟨content, opened, fun _ => rfl⟩
  | opening tag attributes =>
    refine ⟨[], ⟨tag, attributes, content⟩ :: opened, fun u => ?_⟩
    rw [castBuilder, castBuilder, castAll_nil]
    rfl
  | whole tag attributes raw =>
    refine ⟨.element tag attributes (if raw.isEmpty then [] else [.text (literal raw)]) :: content,
      opened, fun u => ?_⟩
    rw [castBuilder, castBuilder, castAll_cons, Mold.cast]
    cases raw with
    | nil =>
      rw [List.isEmpty_nil, if_pos rfl, castAll_nil]
      rfl
    | cons c raw =>
      rw [List.isEmpty_cons, if_neg Bool.false_ne_true, castAll_cons, castAll_nil, Mold.cast,
        fill_literal]
      rfl
  | closing tag =>
    obtain ⟨content', opened', hclose⟩ | hnone := close?_cast (α := α) tag content opened
    · refine ⟨content', opened', fun u => ?_⟩
      rw [SlottedItem.fill, Builder.add, castBuilder, hclose, Option.getD_some]
    · refine ⟨content, opened, fun u => ?_⟩
      rw [SlottedItem.fill, Builder.add, castBuilder, hnone, Option.getD_none]

private theorem finish_cast (content : List (Mold ι)) (opened : List (OpenMold ι)) :
    ∃ ns, ∀ u, Builder.finish (α := α) (castAll u content) (opened.map (OpenMold.cast u)) =
      castAll u ns := by
  induction opened generalizing content with
  | nil => exact ⟨content.reverse, fun u => reverse_castAll u content⟩
  | cons e es ih =>
    obtain ⟨ns, hns⟩ := ih (.element e.tag e.attributes content.reverse :: e.before)
    exact ⟨ns, fun u => by rw [List.map_cons, Builder.finish, OpenMold.cast, cast_closed, hns]⟩

/-- Items with slots make up trees with slots. -/
private theorem ofItems_cast (is : List (SlottedItem ι)) :
    ∃ ns, ∀ u, ofItems (α := α) (is.map (SlottedItem.fill u)) = castAll u ns := by
  have hbuild (content : List (Mold ι)) (opened : List (OpenMold ι)) :
      ∃ content' opened', ∀ u, (is.map (SlottedItem.fill u)).foldl Builder.add
        (castBuilder (α := α) u content opened) = castBuilder u content' opened' := by
    induction is generalizing content opened with
    | nil => exact ⟨content, opened, fun _ => rfl⟩
    | cons i is ih =>
      obtain ⟨content, opened, hadd⟩ := add_cast (α := α) content opened i
      simp only [List.map_cons, List.foldl_cons, hadd]
      exact ih content opened
  obtain ⟨content, opened, hall⟩ := hbuild [] []
  obtain ⟨ns, hns⟩ := finish_cast (α := α) content opened
  refine ⟨ns, fun u => ?_⟩
  have hempty : (⟨[], []⟩ : Builder α) = castBuilder u ([] : List (Mold ι)) [] := by
    rw [castBuilder, castAll_nil, List.map_nil]
  rw [ofItems, hempty, hall]
  exact hns u

/-! Escaped texts. -/

private theorem tame_escape (v : ι → String) : Tame fun k => Text.escape (v k).toList := by
  intro k c hc
  obtain ⟨d, -, hc⟩ := List.mem_flatMap.1 hc
  exact Text.ne_of_mem_entity hc

private theorem escape_ne_nil {cs : List Char} (h : cs ≠ []) : Text.escape cs ≠ [] := by
  obtain ⟨c, cs, rfl⟩ := List.exists_cons_of_ne_nil h
  have hc : Text.entity c ≠ [] := by
    unfold Text.entity
    split <;> simp
  rw [Text.escape, List.flatMap_cons]
  exact List.append_ne_nil_of_left_ne_nil hc _

/-- What each slot of some markup lies in, if every slot is filled with an `x`. -/
def slotZones (m : Slotted ι) : List (ι × Zone) :=
  (m.zip (zones (m.fill sample))).filterMap fun p => p.1.getRight?.map (·, p.2)

theorem within_zones (h : ∀ s ∈ slotZones m, s.2 ≠ .markup)
    (htext : ∀ s ∈ slotZones m, s.2 = .text → u s.1 ≠ []) : Within u m (zones (m.fill sample)) := by
  rw [Within, List.forall₂_iff_zip]
  refine ⟨by rw [length_zones, length_fill_sample], fun {p z} hmem => ?_⟩
  cases p with
  | inl c => exact .literal c z
  | inr k =>
    have hslot : (k, z) ∈ slotZones m := List.mem_filterMap.2 ⟨(.inr k, z), hmem, rfl⟩
    cases z with
    | text => exact .text (htext _ hslot rfl)
    | value => exact .value k
    | markup => exact absurd rfl (h _ hslot)

/-- Escaped texts cannot change the structure of markup. If the markup with an `x` in every slot can
be read, and every slot lies in text or in a value between quotes, then the trees are the same for
all choices of the texts that are escaped and put into the slots, up to those texts: only texts of
nodes and values of attributes have slots. A slot in text may not be left empty. -/
theorem parse_escaped {trees : List (Html α)}
    (hread : parse (String.ofList (m.fill sample)) = .ok trees)
    (hslots : ∀ s ∈ slotZones m, s.2 ≠ .markup) :
    ∃ molds, trees = castAll sample molds ∧
      ∀ v : ι → String, (∀ s ∈ slotZones m, s.2 = .text → v s.1 ≠ "") →
        parse (String.ofList (m.fill fun k => Text.escape (v k).toList)) =
          .ok (castAll (α := α) (fun k => Text.escape (v k).toList) molds) := by
  have hsample : Within sample m (zones (m.fill sample)) :=
    within_zones hslots fun _ _ _ => List.cons_ne_nil _ _
  rw [parse, String.toList_ofList] at hread
  split at hread
  · next is his =>
    cases hread
    obtain ⟨slotted, hslotted, -, hfill⟩ := items_slotted rfl hsample
    obtain ⟨molds, hmolds⟩ := ofItems_cast (α := α) slotted
    rw [his] at hslotted
    refine ⟨molds, by rw [← hmolds, ← hslotted], fun v hv => ?_⟩
    have hwithin : Within (fun k => Text.escape (v k).toList) m (zones (m.fill sample)) :=
      within_zones hslots fun s hs htext =>
        escape_ne_nil (mt String.toList_eq_nil_iff.1 (hv s hs htext))
    rw [parse, String.toList_ofList, (hfill (tame_escape v) hwithin).2, his]
    exact congrArg Except.ok (hmolds _)
  · cases hread

def link : Slotted (Fin 2) :=
  literal "1 < 2 <a href='/".toList ++ .inr 0 :: literal "'>to ".toList ++ .inr 1 ::
    literal "</a><!--/-->".toList

theorem parse_escaped_link :
    ∃ trees : List (Html Unit), parse (String.ofList (link.fill sample)) = .ok trees ∧
      markupOf trees = "1 < 2 <a href=\"/x\">to x</a><!--/-->" ∧
      (∀ s ∈ slotZones link, s.2 ≠ .markup) ∧
      ∃ molds, trees = castAll sample molds ∧
        ∀ v : Fin 2 → String, (∀ s ∈ slotZones link, s.2 = .text → v s.1 ≠ "") →
          parse (String.ofList (link.fill fun k => Text.escape (v k).toList)) =
            .ok (castAll (α := Unit) (fun k => Text.escape (v k).toList) molds) := by
  have hmarkup : (parse (α := Unit) (String.ofList (link.fill sample))).toOption.map markupOf =
      some "1 < 2 <a href=\"/x\">to x</a><!--/-->" := by decide +kernel
  have hslots : ∀ s ∈ slotZones link, s.2 ≠ .markup := by decide +kernel
  cases hread : parse (α := Unit) (String.ofList (link.fill sample)) with
  | error e =>
    rw [hread] at hmarkup
    cases hmarkup
  | ok trees =>
    rw [hread] at hmarkup
    exact ⟨trees, rfl, Option.some.inj hmarkup, hslots, parse_escaped hread hslots⟩

end LiveMarkup.Html
