import Mathlib.Data.List.Nodup
import LiveMarkup.Proofs.Html.Step

/-! What holds of the attributes of every element of a forest, and what the reader of markup makes hold:
no element has two attributes of one name. -/

namespace LiveMarkup.Html

variable {α : Type} {p q : List (String × String) → Prop} {attributes : List (String × String)}

mutual

/-- Every element of the tree has attributes with the property. -/
def Each (p : List (String × String) → Prop) : Html α → Prop
  | .element _ attributes _ children => p attributes ∧ EachOf p children
  | .text _ => True
  | .comment _ => True

/-- Every element of the trees has attributes with the property. -/
def EachOf (p : List (String × String) → Prop) : List (Html α) → Prop
  | [] => True
  | t :: ts => t.Each p ∧ EachOf p ts

end

private theorem eachOf_iff {ts : List (Html α)} : EachOf p ts ↔ ∀ t ∈ ts, t.Each p := by
  induction ts with
  | nil => simp [EachOf]
  | cons t ts ih => rw [EachOf, ih, List.forall_mem_cons]

/-! Attributes of different names. -/

/-- No name stands twice. -/
def Distinct (attributes : List (String × String)) : Prop := (attributes.map (·.1)).Nodup

private theorem map_setAttribute (name value : String) (attributes : List (String × String)) :
    (setAttribute name value attributes).map (·.1) =
      if name ∈ attributes.map (·.1) then attributes.map (·.1) else attributes.map (·.1) ++ [name] := by
  induction attributes with
  | nil => rfl
  | cons a as ih =>
    obtain ⟨n, v⟩ := a
    rw [setAttribute]
    by_cases hn : n = name
    · subst hn
      rw [if_pos rfl, List.map_cons, List.map_cons, if_pos List.mem_cons_self]
    · have hmem : name ∈ ((n, v) :: as).map (·.1) ↔ name ∈ as.map (·.1) := by
        rw [List.map_cons, List.mem_cons]
        exact or_iff_right (Ne.symm hn)
      rw [if_neg hn, List.map_cons, ih]
      simp only [hmem]
      split <;> rfl

/-- Setting an attribute makes no name stand twice. -/
theorem Distinct.setAttribute (h : Distinct attributes) (name value : String) :
    Distinct (Html.setAttribute name value attributes) := by
  rw [Distinct, map_setAttribute]
  split
  · exact h
  · next hname =>
    rw [(List.perm_append_singleton _ _).nodup_iff, List.nodup_cons]
    exact ⟨hname, h⟩

theorem mem_setAttribute (name value : String) (attributes : List (String × String)) :
    (name, value) ∈ setAttribute name value attributes := by
  induction attributes with
  | nil => exact List.mem_singleton_self _
  | cons a as ih =>
    obtain ⟨n, v⟩ := a
    rw [setAttribute]
    split
    · next hn =>
      subst hn
      exact List.mem_cons_self
    · exact List.mem_cons_of_mem _ ih

/-- A name that stands once stands once among what is left of the attributes, if it is left. -/
theorem Distinct.count_filter (h : Distinct attributes) {keep : String × String → Bool}
    {name value : String} (hmem : (name, value) ∈ attributes) (hkeep : keep (name, value) = true) :
    ((attributes.filter keep).map (·.1)).count name = 1 := by
  have hleft : ((attributes.filter keep).map (·.1)).Nodup := h.sublist (List.filter_sublist.map _)
  apply List.nodup_iff_count_eq_one.1 hleft
  exact List.mem_map.2 ⟨_, List.mem_filter.2 ⟨hmem, hkeep⟩, rfl⟩

/-! Items. -/

/-- Of the attributes of a name only the first one counts. -/
private theorem readTagEnd_distinct {cs rest : List Char} {t : TagEnd} (ha : Distinct attributes)
    (h : readTagEnd attributes cs = .ok (t, rest)) : Distinct t.attributes := by
  fun_induction readTagEnd attributes cs with
  | case1 => cases h
  | case2 =>
    cases h
    exact ha
  | case3 =>
    cases h
    exact ha
  | case4 _ _ _ _ _ ih => exact ih ha h
  | case5 _ _ _ _ _ _ _ _ _ ih => exact ih ha h
  | case6 => cases h
  | case7 attributes cs c rest _ _ _ _ _ name value after _ ih =>
    refine ih ?_ h
    split
    · exact ha
    · exact ha.setAttribute name value

/-- The attributes that an item gives an element have the property. -/
def Item.Fits (p : List (String × String) → Prop) : Item → Prop
  | .opening _ attributes => p attributes
  | .whole _ attributes _ => p attributes
  | _ => True

private theorem readOpening_fits {cs rest : List Char} {item : Item}
    (h : readOpening cs = .ok (item, rest)) :
    item.Fits Distinct := by
  obtain ⟨t, after, htag⟩ := exists_readTagEnd h
  have ht := readTagEnd_distinct (by simp [Distinct]) htag
  rw [readOpening, htag] at h
  dsimp only at h
  split at h
  · cases h
    exact ht
  · split at h
    · cases h
      exact ht
    · split at h <;> (cases h; exact ht)

private theorem readItem_fits {c : Char} {cs rest : List Char} {item : Item}
    (h : readItem c cs = .ok (item, rest)) : item.Fits Distinct := by
  cases readsItem_of_readItem h with
  | comment _ => trivial
  | declaration _ _ => trivial
  | closing _ _ _ _ => trivial
  | opening _ hopening => exact readOpening_fits hopening
  | text _ => trivial

private theorem items_fit (cs : List Char) : ∀ i ∈ (items cs).1, i.Fits Distinct := by
  fun_induction items cs with
  | case1 => simp
  | case2 => simp
  | case3 c cs item rest hitem r ih =>
    intro i hi
    rcases List.mem_cons.1 hi with rfl | hi
    · exact readItem_fits hitem
    · exact ih i hi

/-! Trees under construction. -/

namespace Builder

/-- Every element has attributes with the property, whether it is closed or not. -/
structure Fits (p : List (String × String) → Prop) (b : Builder α) : Prop where
  content : EachOf p b.content
  opened : ∀ e ∈ b.opened, p e.attributes ∧ EachOf p e.before

variable {content : List (Html α)} {e : OpenElement α} {es : List (OpenElement α)}

private theorem eachOf_reverse (h : EachOf p content) : EachOf p content.reverse :=
  eachOf_iff.2 fun t ht => eachOf_iff.1 h t (List.mem_reverse.1 ht)

/-- Closing an element keeps what it and its content have. -/
private theorem Fits.closed (h : Fits p ⟨content, e :: es⟩) (tag : String) :
    Fits p ⟨.element tag e.attributes [] content.reverse :: e.before, es⟩ := by
  obtain ⟨he, hes⟩ := List.forall_mem_cons.1 h.opened
  refine ⟨?_, hes⟩
  rw [EachOf, Each]
  exact ⟨⟨he.1, eachOf_reverse h.content⟩, he.2⟩

private theorem Fits.close? {tag : String} {b : Builder α} (h : Fits p ⟨content, es⟩)
    (hc : Builder.close? tag content es = some b) : b.Fits p := by
  induction es generalizing content with
  | nil => cases hc
  | cons e es ih =>
    have hclosed := h.closed e.tag
    rw [Builder.close?] at hc
    split at hc
    · cases hc
      exact hclosed
    · exact ih hclosed hc

private theorem Fits.add {b : Builder α} (h : b.Fits p) {i : Item} (hi : i.Fits p) :
    (b.add i).Fits p := by
  cases i with
  | text s => exact ⟨⟨trivial, h.content⟩, h.opened⟩
  | comment s => exact ⟨⟨trivial, h.content⟩, h.opened⟩
  | declaration => exact h
  | opening tag attributes =>
    refine ⟨trivial, List.forall_mem_cons.2 ⟨⟨hi, h.content⟩, h.opened⟩⟩
  | whole tag attributes content =>
    refine ⟨?_, h.opened⟩
    rw [Builder.add, EachOf, Each]
    refine ⟨⟨hi, ?_⟩, h.content⟩
    split
    · trivial
    · exact ⟨trivial, trivial⟩
  | closing tag =>
    rw [Builder.add]
    cases hc : Builder.close? tag b.content b.opened with
    | none => exact h
    | some b' => exact Fits.close? h hc

private theorem Fits.finish (h : Fits p ⟨content, es⟩) : EachOf p (Builder.finish content es) := by
  induction es generalizing content with
  | nil => exact eachOf_reverse h.content
  | cons e es ih => exact ih (h.closed e.tag)

end Builder

private theorem ofItems_each {is : List Item} (h : ∀ i ∈ is, i.Fits p) :
    EachOf p (ofItems is : List (Html α)) := by
  have hfold (b : Builder α) (hb : b.Fits p) : (is.foldl Builder.add b).Fits p := by
    induction is generalizing b with
    | nil => exact hb
    | cons i is ih =>
      obtain ⟨hi, his⟩ := List.forall_mem_cons.1 h
      exact ih his _ (hb.add hi)
  have hempty : (⟨[], []⟩ : Builder α).Fits p := ⟨trivial, nofun⟩
  exact (hfold _ hempty).finish

/-- No element that is read has two attributes of one name. -/
theorem parse_distinct {markup : String} {trees : List (Html α)} (h : parse markup = .ok trees) :
    EachOf Distinct trees := by
  have hfit := items_fit markup.toList
  rw [parse] at h
  generalize items markup.toList = r at *
  obtain ⟨is, e⟩ := r
  cases e with
  | none =>
    cases h
    exact ofItems_each hfit
  | some e => cases h

end LiveMarkup.Html
