import LiveMarkup.Proofs.Html.Stable

/-! Names of tags are read in either case: changing the case of letters in them, anywhere in markup, leaves what is
read the same. Only the tag that ends the text of an element that holds text only is looked for in lower case, so that
it is none of these. -/

namespace LiveMarkup.Html

variable {name name' cs cs' used used' rest more : List Char} {c : Char} {item : Item}

/-- Two names of a tag that differ in nothing but the case of letters of ASCII. -/
structure SameName (name name' : List Char) : Prop where
  starts : startsName name = true
  whole : nameOf name = name
  lower : name'.map Char.toLower = name.map Char.toLower

namespace SameName

variable (h : SameName name name')

include h

private theorem head?_lower : name'.head?.map Char.toLower = name.head?.map Char.toLower := by
  rw [← List.head?_map, ← List.head?_map, h.lower]

private theorem not_endsName : ∀ c ∈ name, endsName c = false := by
  intro c hc
  rw [← h.whole] at hc
  simpa using List.all_eq_true.1 List.all_takeWhile c hc

private theorem starts_recased : startsName name' = true := by
  rw [startsName_eq, h.head?_lower, ← startsName_eq, h.starts]

private theorem not_endsName_recased : ∀ c ∈ name', endsName c = false := by
  intro c hc
  have hmem := List.mem_map_of_mem (f := Char.toLower) hc
  rw [h.lower] at hmem
  obtain ⟨d, hd, hlower⟩ := List.mem_map.1 hmem
  rw [← Text.toLower_congr endsName (by decide), ← hlower, Text.toLower_congr endsName (by decide)]
  exact h.not_endsName d hd

private theorem afterName_eq (rest : List Char) :
    afterName (name' ++ rest) = afterName (name ++ rest) := by
  have hdrop {word : List Char} (hword : ∀ c ∈ word, endsName c = false) :
      afterName (word ++ rest) = afterName rest :=
    List.dropWhile_append_of_pos fun c hc => by rw [hword c hc]; rfl
  rw [hdrop h.not_endsName_recased, hdrop h.not_endsName]

private theorem lowerName_eq (rest : List Char) :
    lowerName (name' ++ rest) = lowerName (name ++ rest) := by
  have htake {word : List Char} (hword : ∀ c ∈ word, endsName c = false) :
      nameOf (word ++ rest) = word ++ nameOf rest :=
    List.takeWhile_append_of_pos fun c hc => by rw [hword c hc]; rfl
  rw [lowerName, lowerName, htake h.not_endsName_recased, htake h.not_endsName]
  refine Text.lower_congr ?_
  rw [List.map_append, List.map_append, h.lower]

end SameName

/-- The text of an item, as it is or with the name of its tag in another case. -/
inductive Respells : List Char → List Char → Prop where
  | same (used : List Char) : Respells used used
  | opening {name name' : List Char} (h : SameName name name') (rest : List Char) :
      Respells ('<' :: (name ++ rest)) ('<' :: (name' ++ rest))
  | closing {name name' : List Char} (h : SameName name name') (rest : List Char) :
      Respells ('<' :: '/' :: (name ++ rest)) ('<' :: '/' :: (name' ++ rest))

/-- An item with its tag in another case is read the same. -/
private theorem Respells.readItem_eq (h : Respells (c :: used) cs') :
    ∃ used', cs' = c :: used' ∧ ∀ more, readItem c (used' ++ more) = readItem c (used ++ more) := by
  cases h with
  | same => exact ⟨used, rfl, fun _ => rfl⟩
  | @opening name name' h rest =>
    refine ⟨name' ++ rest, rfl, fun more => ?_⟩
    rw [List.append_assoc, List.append_assoc, readItem_opening (startsName_append h.starts),
      readItem_opening (startsName_append h.starts_recased), readOpening, readOpening, h.lowerName_eq, h.afterName_eq]
  | @closing name name' h rest =>
    refine ⟨'/' :: (name' ++ rest), rfl, fun more => ?_⟩
    rw [List.cons_append, List.cons_append, List.append_assoc, List.append_assoc,
      readItem_closing (startsName_append h.starts), readItem_closing (startsName_append h.starts_recased),
      h.lowerName_eq, h.afterName_eq]

private theorem Respells.alike (h : Respells used used') (hrest : Alike rest more) :
    Alike (used ++ rest) (used' ++ more) := by
  cases h with
  | same => exact hrest.append used
  | @opening name name' h tail =>
    refine ⟨rfl, ?_⟩
    obtain _ | ⟨c, name⟩ := name
    · cases h.starts
    obtain _ | ⟨d, name'⟩ := name'
    · cases h.starts_recased
    exact h.head?_lower
  | closing => exact ⟨rfl, rfl⟩

/-- Markup, and markup with the names of some of its tags in another case. -/
inductive Recased : List Char → List Char → Prop where
  | refl (cs : List Char) : Recased cs cs
  | item {c : Char} {cs rest more used used' : List Char} {item : Item} (hread : readItem c cs = .ok (item, rest))
      (hused : c :: cs = used ++ rest) (h : Respells used used') (hrest : Recased rest more) :
      Recased (c :: cs) (used' ++ more)

namespace Recased

private theorem alike (h : Recased cs cs') : Alike cs cs' := by
  induction h with
  | refl => exact ⟨rfl, rfl⟩
  | item _ hused h _ ih =>
    rw [hused]
    exact h.alike ih

/-- No tag is read where nothing can be read. -/
private theorem eq_of_error {e : Malformed} (h : Recased (c :: cs) cs')
    (he : readItem c cs = .error e) : cs' = c :: cs := by
  cases h with
  | refl => rfl
  | item hread => cases hread.symm.trans he

/-- What markup is made of does not depend on the case of its tags. -/
private theorem items_eq (h : Recased cs cs') : items cs' = items cs := by
  induction h with
  | refl => rfl
  | @item c cs rest more used used' item hread hused h hrest ih =>
    obtain ⟨pre, rfl, hstable⟩ := readItem_stable hread
    obtain rfl : c :: pre = used := List.append_cancel_right hused
    obtain ⟨pre', rfl, hsame⟩ := h.readItem_eq
    have hagain : readItem c (pre' ++ more) = .ok (item, more) := by
      rw [hsame]
      refine hstable more hrest.alike fun c cs e heq he => ?_
      subst heq
      exact hrest.eq_of_error he
    rw [List.cons_append, items_cons hagain, items_cons hread, ih]

end Recased

/-- Markup with its tags in another case is read the same: where the one is accepted so is the other, with the same
trees, and where it is not the other fails in the same way. -/
theorem parse_recased {α : Type} {markup markup' : String} (h : Recased markup.toList markup'.toList) :
    (parse markup' : Except Malformed (List (Html α))) = parse markup := by
  rw [parse, parse, h.items_eq]

/-- Nested tags, that of an element that holds text only among them, and a closing tag. -/
theorem parse_recased_nested :
    Recased "<ul>x<Title>a</title></ul>".toList "<UL>x<tITLE>a</title></uL>".toList ∧
      (parse "<UL>x<tITLE>a</title></uL>" : Except Malformed (List (Html Unit))) =
        parse "<ul>x<Title>a</title></ul>" := by
  have hopen : SameName ['u', 'l'] ['U', 'L'] := ⟨by decide, by decide, by decide⟩
  have htitle : SameName ['T', 'i', 't', 'l', 'e'] ['t', 'I', 'T', 'L', 'E'] := ⟨by decide, by decide, by decide⟩
  have hclose : SameName ['u', 'l'] ['u', 'L'] := ⟨by decide, by decide, by decide⟩
  have hopening : readItem '<' "ul>x<Title>a</title></ul>".toList =
      .ok (.opening "ul" [], "x<Title>a</title></ul>".toList) := by
    rw [readItem_opening (by decide), readOpening_plain (readTagEnd_end rfl) (by decide)]
    rfl
  have hwhole : readItem '<' "Title>a</title></ul>".toList = .ok (.whole "title" [] ['a'], "</ul>".toList) := by
    rw [readItem_opening (by decide), readOpening_raw (readTagEnd_end rfl) (by decide)]
    rfl
  have hrecased : Recased "<ul>x<Title>a</title></ul>".toList "<UL>x<tITLE>a</title></uL>".toList :=
    .item hopening rfl (.opening hopen ['>']) <|
      .item rfl rfl (.same ['x']) <|
        .item hwhole rfl (.opening htitle ">a</title>".toList) <|
          .item rfl rfl (.closing hclose ['>']) (.refl [])
  exact ⟨hrecased, parse_recased hrecased⟩

/-- The tag that ends the text of a title is not found in upper case, and the text goes on to the end of the markup. -/
theorem parse_upper_ending :
    SameName "title".toList "TITLE".toList ∧
      (parse "<title>a</title>b" : Except Malformed (List (Html Unit))) =
        .ok [.element "title" [] [] [.text "a"], .text "b"] ∧
      (parse "<title>a</TITLE>b" : Except Malformed (List (Html Unit))) =
        .ok [.element "title" [] [] [.text "a</TITLE>b"]] := by
  have hlower : readItem '<' "title>a</title>b".toList = .ok (.whole "title" [] ['a'], ['b']) := by
    rw [readItem_opening (by decide), readOpening_raw (readTagEnd_end rfl) (by decide)]
    rfl
  have hupper : readItem '<' "title>a</TITLE>b".toList = .ok (.whole "title" [] "a</TITLE>b".toList, []) := by
    rw [readItem_opening (by decide), readOpening_raw (readTagEnd_end rfl) (by decide)]
    rfl
  have htext : readItem 'b' [] = .ok (.text "b", []) := rfl
  refine ⟨⟨by decide, by decide, by decide⟩, ?_, ?_⟩
  · rw [parse, show "<title>a</title>b".toList = '<' :: "title>a</title>b".toList from rfl, items_cons hlower,
      items_cons htext, items]
    rfl
  · rw [parse, show "<title>a</TITLE>b".toList = '<' :: "title>a</TITLE>b".toList from rfl, items_cons hupper, items]
    rfl

end LiveMarkup.Html
