import LiveMarkup.Proofs.Forest.Plant
import LiveMarkup.Proofs.Html.Step
import Mathlib.Data.List.Chain

/-! Canonical trees: those that the markup they are written as is read as. -/

namespace LiveMarkup.Html

variable {α : Type}

/-- A name in lower case without characters that end names. -/
structure CanonicalName (s : String) : Prop where
  lower : Text.lower s = s
  whole : ∀ c ∈ s.toList, Text.isBlank c = false ∧ c ≠ '>' ∧ c ≠ '/' ∧ c ≠ '='

instance (s : String) : Decidable (CanonicalName s) :=
  decidable_of_iff (Text.lower s = s ∧
      s.toList.all (fun c => !Text.isBlank c && c != '>' && c != '/' && c != '=') = true)
    ⟨fun h => ⟨h.1, by simpa [and_assoc] using h.2⟩,
      fun h => ⟨h.lower, by simpa [and_assoc] using h.whole⟩⟩

/-- Attributes that are read as they are written. -/
structure CanonicalAttributes (attributes : List (String × String)) : Prop where
  names : ∀ a ∈ attributes, a.1 ≠ "" ∧ CanonicalName a.1
  values : ∀ a ∈ attributes, '"' ∉ a.2.toList
  distinct : (attributes.map (·.1)).Nodup

instance (attributes : List (String × String)) : Decidable (CanonicalAttributes attributes) :=
  decidable_of_iff ((∀ a ∈ attributes, a.1 ≠ "" ∧ CanonicalName a.1) ∧
      (∀ a ∈ attributes, '"' ∉ a.2.toList) ∧ (attributes.map (·.1)).Nodup)
    ⟨fun h => ⟨h.1, h.2.1, h.2.2⟩, fun h => ⟨h.names, h.values, h.distinct⟩⟩

def isText : Html α → Bool
  | text _ => true
  | element .. | comment _ => false

/-- No two texts are adjacent. -/
def Apart (ns : List (Html α)) : Prop := ns.IsChain fun a b => ¬ (a.isText = true ∧ b.isText = true)

/-- What an element that holds text only can have as its children. -/
def RawContent (tag : String) (children : List (Html α)) : Prop :=
  children = [] ∨
    ∃ s, children = [text s] ∧ s ≠ "" ∧ ¬ '<' :: '/' :: tag.toList <:+: s.toList

/-- A node that is read as it is written, whatever follows it but text after text. -/
inductive Canonical : Html α → Prop where
  | element {tag : String} {attributes : List (String × String)} {children : List (Html α)}
    (htag : CanonicalName tag) (hletter : startsName tag.toList = true)
    (hattributes : CanonicalAttributes attributes) (hvoid : isVoid tag = true → children = [])
    (hraw : tag ∈ rawTextTags → RawContent tag children)
    (hchildren : tag ∉ rawTextTags → ∀ n ∈ children, Canonical n)
    (hapart : tag ∉ rawTextTags → Apart children) : Canonical (element tag attributes [] children)
  | text {s : String} (hne : s ≠ "") (hs : '<' ∉ s.toList) : Canonical (text s)
  | comment {s : String} (hs : ¬ ['-', '-', '>'] <:+: s.toList) : Canonical (comment s)

/-! Reading names, attributes and tags. -/

variable {name tag value : String} {attributes as : List (String × String)} {c : Char}
  {cs rest : List Char}

private theorem CanonicalName.not_endsName (h : CanonicalName name) (hc : c ∈ name.toList) :
    endsName c = false := by
  obtain ⟨hblank, hclose, hslash, hequal⟩ := h.whole c hc
  simp [endsName, hblank, hclose, hslash, hequal]

private theorem CanonicalName.afterName_append (h : CanonicalName name) (hc : endsName c = true) :
    afterName (name.toList ++ c :: rest) = c :: rest :=
  Html.afterName_append (fun _ => h.not_endsName) (stops_cons.2 (by rw [hc]; rfl))

private theorem CanonicalName.lowerName_append (h : CanonicalName name) (hc : endsName c = true) :
    lowerName (name.toList ++ c :: rest) = name := by
  rw [Html.lowerName_append (fun _ => h.not_endsName) (stops_cons.2 (by rw [hc]; rfl)),
    String.ofList_toList, h.lower]

def attributeChars (a : String × String) : List Char :=
  ' ' :: (a.1.toList ++ '=' :: '"' :: (a.2.toList ++ ['"']))

private theorem readAssigned_quoted (h : '"' ∉ value.toList) :
    readAssigned ('=' :: '"' :: (value.toList ++ '"' :: rest)) = .ok (value, rest) := by
  rw [readAssigned_equal (trimStart_cons (by decide)),
    readValue_quoted (.inl rfl) (trimStart_cons (by decide)) h, String.ofList_toList]

/-- One attribute is read and kept if there is none of its name yet. -/
private theorem readTagEnd_attribute (hne : name ≠ "") (hname : CanonicalName name)
    (hvalue : '"' ∉ value.toList) (hnew : name ∉ attributes.map (·.1)) :
    readTagEnd attributes (attributeChars (name, value) ++ rest) =
      readTagEnd (attributes ++ [(name, value)]) rest := by
  obtain ⟨c, cs, hcs⟩ := List.exists_cons_of_ne_nil (mt String.toList_eq_nil_iff.1 hne)
  have hends : ∀ d ∈ c :: cs, endsName d = false := fun d hd => hname.not_endsName (hcs ▸ hd)
  have hblank : Text.isBlank c = false := (hname.whole c (hcs ▸ List.mem_cons_self)).1
  have htrim : Text.trimStart (attributeChars (name, value) ++ rest) =
      c :: (cs ++ '=' :: '"' :: (value.toList ++ '"' :: rest)) := by
    simp only [attributeChars, hcs, List.cons_append, List.append_assoc, List.nil_append]
    rw [Text.trimStart, List.dropWhile_cons_of_pos (by decide)]
    exact trimStart_cons hblank
  rw [readTagEnd_named htrim hends (stops_cons.2 (by decide)) (readAssigned_quoted hvalue), ← hcs,
    String.ofList_toList, hname.lower, attribute?_eq_none hnew, if_neg (by decide),
    setAttribute_new hnew]

/-- The attributes of an opening tag are read up to its end. -/
private theorem readTagEnd_attributes (hnames : ∀ a ∈ as, a.1 ≠ "" ∧ CanonicalName a.1)
    (hvalues : ∀ a ∈ as, '"' ∉ a.2.toList) (hdistinct : ((attributes ++ as).map (·.1)).Nodup) :
    readTagEnd attributes (as.flatMap attributeChars ++ '>' :: rest) =
      .ok (⟨attributes ++ as, false⟩, rest) := by
  induction as generalizing attributes with
  | nil =>
    rw [List.flatMap_nil, List.nil_append, readTagEnd_end (trimStart_cons (by decide)), List.append_nil]
  | cons a as ih =>
    obtain ⟨⟨hne, hname⟩, hnames⟩ := List.forall_mem_cons.1 hnames
    obtain ⟨hvalue, hvalues⟩ := List.forall_mem_cons.1 hvalues
    have hnew : a.1 ∉ attributes.map (·.1) := by
      rw [List.map_append, List.map_cons] at hdistinct
      exact fun hmem => (List.nodup_append.1 hdistinct).2.2 _ hmem _ List.mem_cons_self rfl
    rw [List.flatMap_cons, List.append_assoc, readTagEnd_attribute hne hname hvalue hnew,
      ih hnames hvalues (by rwa [List.append_assoc]), List.append_assoc]
    rfl

theorem attributeText_eq (h : '"' ∉ value.toList) : attributeText value = value := by
  have hcut : Text.cut? ['"'] value.toList = none :=
    Text.cut?_eq_none (by rwa [List.singleton_infix_iff])
  rw [attributeText, Text.replaceAll, Text.splitOn, dif_pos (by decide), Text.pieces]
  split
  · rw [List.intercalate_singleton, String.ofList_toList]
  · next h => cases hcut.symm.trans h

def openingChars (tag : String) (attributes : List (String × String)) (rest : List Char) : List Char :=
  tag.toList ++ (attributes.flatMap attributeChars ++ '>' :: rest)

private theorem toList_openingTag (h : ∀ a ∈ attributes, '"' ∉ a.2.toList) :
    (openingTag tag attributes).toList ++ rest = '<' :: openingChars tag attributes rest := by
  have hmap : (attributes.map fun a => " " ++ a.1 ++ "=\"" ++ attributeText a.2 ++ "\"").flatMap
      String.toList = attributes.flatMap attributeChars := by
    rw [List.flatMap_map]
    refine List.flatMap_congr fun a ha => ?_
    simp [attributeText_eq (h a ha), attributeChars]
  simp [openingTag, openingChars, hmap]

/-- After the name of a tag comes a character that ends names. -/
private theorem begins_attributes (attributes : List (String × String)) (rest : List Char) :
    ∃ c cs, attributes.flatMap attributeChars ++ '>' :: rest = c :: cs ∧ endsName c = true := by
  cases attributes with
  | nil => exact ⟨'>', rest, rfl, by decide⟩
  | cons a as => exact ⟨' ', _, rfl, by decide⟩

private theorem readOpening_canonical (htag : CanonicalName tag)
    (ha : CanonicalAttributes attributes) :
    readOpening (openingChars tag attributes rest) =
      if rawTextTags.contains tag then
        .ok (.whole tag attributes (readRawText tag rest).1, (readRawText tag rest).2)
      else if isVoid tag then .ok (.whole tag attributes [], rest)
      else .ok (.opening tag attributes, rest) := by
  have hend : readTagEnd [] (attributes.flatMap attributeChars ++ '>' :: rest) = _ :=
    readTagEnd_attributes ha.names ha.values ha.distinct
  obtain ⟨c, cs, heq, hc⟩ := begins_attributes attributes rest
  rw [heq] at hend
  rw [openingChars, heq, readOpening, htag.lowerName_append hc, htag.afterName_append hc, hend]
  rfl

private theorem readItem_closing_canonical (htag : CanonicalName tag)
    (hletter : startsName tag.toList = true) :
    readItem '<' ('/' :: (tag.toList ++ '>' :: rest)) = .ok (.closing tag, rest) := by
  have hread : readItem '<' ('/' :: (tag.toList ++ ([] ++ '>' :: rest))) = _ :=
    (ReadsItem.closing hletter (fun _ => htag.not_endsName) (stops_cons.2 (by decide))
      List.not_mem_nil).readItem_eq
  rwa [List.nil_append, String.ofList_toList, htag.lower] at hread

private theorem readItem_comment {s : String} (h : ¬ ['-', '-', '>'] <:+: s.toList) :
    readItem '<' ('!' :: '-' :: '-' :: (s.toList ++ '-' :: '-' :: '>' :: rest)) =
      .ok (.comment s, rest) := by
  rw [(ReadsItem.comment h).readItem_eq, String.ofList_toList]

/-- Text ends here: at the end, or where markup begins. -/
def Breaks (cs : List Char) : Prop := cs = [] ∨ ∃ r, cs = '<' :: r ∧ startsMarkup r = true

private theorem Breaks.cutText_eq (h : Breaks rest) : cutText rest = ([], rest) := by
  obtain rfl | ⟨r, rfl, hr⟩ := h
  · rfl
  · rw [cutText, hr]
    rfl

private theorem readItem_text (hc : c ≠ '<') (hs : '<' ∉ cs) (hrest : Breaks rest) :
    readItem c (cs ++ rest) = .ok (.text (String.ofList (c :: cs)), rest) := by
  have hread : readItem c (cs ++ rest) = _ := (ReadsItem.text fun heq => absurd heq hc).readItem_eq
  rwa [cutText_plain hs, hrest.cutText_eq, List.append_nil] at hread

private theorem readRawText_canonical {content : List Char} (htag : tag ∈ rawTextTags)
    (h : ¬ '<' :: '/' :: tag.toList <:+: content) :
    readRawText tag (content ++ '<' :: '/' :: (tag.toList ++ '>' :: rest)) = (content, rest) := by
  have hcut : Text.cut? ("</".toList ++ tag.toList)
      (content ++ '<' :: '/' :: (tag.toList ++ '>' :: rest)) = some (content, '>' :: rest) :=
    Text.cut?_append ('<' :: '/' :: tag.toList) (borderless_close tag htag)
      (List.cons_ne_nil _ _) h
  have hclose : Text.cut? ['>'] ('>' :: rest) = some ([], rest) := Text.cut?_singleton List.not_mem_nil
  rw [readRawText, hcut]
  dsimp only
  rw [hclose]

/-! What items build. -/

/-- The items add the trees to what the innermost open element holds. -/
def Builds (is : List Item) (ns : List (Html α)) : Prop :=
  ∀ b : Builder α, is.foldl Builder.add b = { b with content := ns.reverse ++ b.content }

/-- At the start of a text stands what builds the trees, and `rest` is left. -/
def ReadAs (cs : List Char) (ns : List (Html α)) (rest : List Char) : Prop :=
  ∃ is, items cs = (is ++ (items rest).1, (items rest).2) ∧ Builds is ns

namespace ReadAs

variable {ns ms children : List (Html α)} {n : Html α} {rest' : List Char} {i : Item}

private theorem nil (cs : List Char) : ReadAs cs ([] : List (Html α)) cs := ⟨[], rfl, fun _ => rfl⟩

private theorem append (h : ReadAs cs ns rest) (h' : ReadAs rest ms rest') :
    ReadAs cs (ns ++ ms) rest' := by
  obtain ⟨is, his, hns⟩ := h
  obtain ⟨js, hjs, hms⟩ := h'
  refine ⟨is ++ js, by rw [his, hjs, List.append_assoc], fun b => ?_⟩
  rw [List.foldl_append, hns, hms, List.reverse_append, List.append_assoc]

private theorem item (h : readItem c cs = .ok (i, rest)) (hi : Builds [i] ns) :
    ReadAs (c :: cs) ns rest :=
  ⟨[i], items_cons h, hi⟩

/-- An element is read from its opening tag to its closing tag, whatever it holds. -/
private theorem element {inner : List Char}
    (hopen : readItem c cs = .ok (.opening tag attributes, inner))
    (h : ReadAs inner children ('<' :: rest))
    (hclose : readItem '<' rest = .ok (.closing tag, rest')) :
    ReadAs (c :: cs) [.element tag attributes [] children] rest' := by
  obtain ⟨is, his, hchildren⟩ := h
  refine ⟨.opening tag attributes :: (is ++ [.closing tag]), ?_, fun b => ?_⟩
  · rw [items_cons hopen, his, items_cons hclose, List.cons_append, List.append_assoc]
    rfl
  · rw [List.foldl_cons, List.foldl_append, hchildren, List.foldl_cons, List.foldl_nil]
    simp [Builder.add, Builder.close?]

end ReadAs

/-! Reading what is written. -/

variable {n : Html α} {ns children : List (Html α)}

private theorem Apart.tail (h : Apart (n :: ns)) : Apart ns := (List.isChain_cons.1 h).2

private theorem toList_markup_void (hv : isVoid tag = true) (ha : CanonicalAttributes attributes) :
    (Html.element (α := α) tag attributes [] children).markup.toList ++ rest =
      '<' :: openingChars tag attributes rest := by
  rw [markup, if_pos hv, toList_openingTag ha.values]

private theorem toList_markup_filled (hv : ¬ isVoid tag = true)
    (ha : CanonicalAttributes attributes) :
    (Html.element (α := α) tag attributes [] children).markup.toList ++ rest =
      '<' :: openingChars tag attributes
        ((markupOf children).toList ++ '<' :: '/' :: (tag.toList ++ '>' :: rest)) := by
  rw [markup, if_neg hv, ← toList_openingTag ha.values]
  simp

/-- The markup of a node that is no text begins with a sign. -/
private theorem Canonical.breaks (h : Canonical n) (hn : n.isText = false) (rest : List Char) :
    Breaks (n.markup.toList ++ rest) := by
  cases h with
  | @element tag attributes children htag hletter ha =>
    have hstarts (more : List Char) : startsMarkup (openingChars tag attributes more) = true := by
      rw [openingChars]
      cases h : tag.toList with
      | nil => rw [h] at hletter; cases hletter
      | cons c ds =>
        rw [h] at hletter
        exact Bool.or_eq_true_iff.2 (.inl (Bool.or_eq_true_iff.2 (.inl hletter)))
    by_cases hv : isVoid tag = true
    · exact .inr ⟨_, toList_markup_void hv ha, hstarts _⟩
    · exact .inr ⟨_, toList_markup_filled hv ha, hstarts _⟩
  | text => cases hn
  | @comment s =>
    exact .inr ⟨'!' :: '-' :: '-' :: (s.toList ++ '-' :: '-' :: '>' :: rest), by simp [markup], rfl⟩

/-- Text ends before nodes of which the first is no text. -/
private theorem breaks_markupOf (h : ∀ n ∈ ns, Canonical n) (hns : ∀ n ∈ ns.head?, n.isText = false)
    {rest : List Char} (hrest : Breaks rest) : Breaks ((markupOf ns).toList ++ rest) := by
  cases ns with
  | nil => rwa [markupOf]
  | cons n ns =>
    rw [markupOf, String.toList_append, List.append_assoc]
    exact (h n List.mem_cons_self).breaks (hns n rfl) _

private theorem builds_whole (tag : String) (attributes : List (String × String))
    (content : List Char) :
    Builds [.whole tag attributes content] [Html.element (α := α) tag attributes []
      (if content.isEmpty then [] else [.text (String.ofList content)])] := fun _ => rfl

private theorem readItem_opening_canonical (htag : CanonicalName tag)
    (hletter : startsName tag.toList = true) (ha : CanonicalAttributes attributes) :
    readItem '<' (openingChars tag attributes rest) =
      if rawTextTags.contains tag then
        .ok (.whole tag attributes (readRawText tag rest).1, (readRawText tag rest).2)
      else if isVoid tag then .ok (.whole tag attributes [], rest)
      else .ok (.opening tag attributes, rest) :=
  (readItem_opening (startsName_append hletter)).trans (readOpening_canonical htag ha)

/-- An element that holds text only is read with its text. -/
private theorem readAs_raw (htag : CanonicalName tag) (hletter : startsName tag.toList = true)
    (ha : CanonicalAttributes attributes) (hraw : tag ∈ rawTextTags)
    (hcontent : RawContent tag children) (rest : List Char) :
    ReadAs ('<' :: openingChars tag attributes
      ((markupOf children).toList ++ '<' :: '/' :: (tag.toList ++ '>' :: rest)))
      [Html.element (α := α) tag attributes [] children] rest := by
  have hitem (content : List Char) (h : ¬ '<' :: '/' :: tag.toList <:+: content) :
      readItem '<' (openingChars tag attributes (content ++ '<' :: '/' :: (tag.toList ++ '>' :: rest))) =
        .ok (.whole tag attributes content, rest) := by
    rw [readItem_opening_canonical htag hletter ha, if_pos (List.contains_iff_mem.2 hraw),
      readRawText_canonical hraw h]
  obtain rfl | ⟨s, rfl, hne, hs⟩ := hcontent
  · exact .item (hitem [] (by rw [List.infix_nil]; exact List.cons_ne_nil _ _))
      (builds_whole tag attributes [])
  · have hbuilds := builds_whole (α := α) tag attributes s.toList
    rw [List.isEmpty_eq_false_iff.2 (mt String.toList_eq_nil_iff.1 hne), String.ofList_toList] at hbuilds
    have hmarkup : (markupOf [Html.text (α := α) s]).toList = s.toList := by simp [markupOf, markup]
    rw [hmarkup]
    exact .item (hitem _ hs) hbuilds

/-- Text is read as it is written if it ends where it is said to. -/
private theorem readAs_text (h : Canonical n) (hn : n.isText = true) (hrest : Breaks rest) :
    ReadAs (n.markup.toList ++ rest) [n] rest := by
  cases h with
  | @text s hne hs =>
    have hmarkup : (Html.text (α := α) s).markup = s := by rw [markup]
    rw [hmarkup]
    obtain ⟨c, cs, hcs⟩ := List.exists_cons_of_ne_nil (mt String.toList_eq_nil_iff.1 hne)
    rw [hcs, List.mem_cons, not_or] at hs
    have hread := readItem_text (Ne.symm hs.1) hs.2 hrest
    rw [← hcs, String.ofList_toList] at hread
    rw [hcs]
    exact .item hread fun _ => rfl
  | element | comment => cases hn

private theorem void_not_raw : ∀ t ∈ rawTextTags, ¬ isVoid t = true := by decide

private theorem Apart.head_not_text (h : Apart (n :: ns)) (hn : n.isText = true) :
    ∀ m ∈ ns.head?, m.isText = false := fun m hm =>
  Bool.eq_false_iff.2 fun ht => (List.isChain_cons.1 h).1 m hm ⟨hn, ht⟩

mutual

/-- A node other than text is read as it is written, whatever follows it. -/
theorem readAs_node (n : Html α) (h : Canonical n) (hn : n.isText = false) (rest : List Char) :
    ReadAs (n.markup.toList ++ rest) [n] rest := by
  match n, h with
  | .element tag attributes _ children, .element htag hletter ha hvoid hraw hchildren hapart =>
    by_cases hv : isVoid tag = true
    · obtain rfl := hvoid hv
      have hno : ¬ tag ∈ rawTextTags := fun hr => void_not_raw tag hr hv
      rw [toList_markup_void hv ha]
      refine .item ?_ (builds_whole tag attributes [])
      rw [readItem_opening_canonical htag hletter ha, if_neg (mt List.contains_iff_mem.1 hno), if_pos hv]
    · rw [toList_markup_filled hv ha]
      by_cases hr : tag ∈ rawTextTags
      · exact readAs_raw htag hletter ha hr (hraw hr) rest
      · refine .element ?_ (readAs_nodes children (hchildren hr) (hapart hr) (.inr ⟨_, rfl, rfl⟩))
          (readItem_closing_canonical htag hletter)
        rw [readItem_opening_canonical htag hletter ha, if_neg (mt List.contains_iff_mem.1 hr),
          if_neg hv]
  | .comment s, .comment hs =>
    have hmarkup : (Html.comment (α := α) s).markup.toList ++ rest =
        '<' :: '!' :: '-' :: '-' :: (s.toList ++ '-' :: '-' :: '>' :: rest) := by simp [markup]
    rw [hmarkup]
    exact .item (readItem_comment hs) fun _ => rfl

/-- Nodes are read as they are written, up to where text ends. -/
private theorem readAs_nodes (ns : List (Html α)) (h : ∀ n ∈ ns, Canonical n) (hapart : Apart ns)
    {rest : List Char} (hrest : Breaks rest) : ReadAs ((markupOf ns).toList ++ rest) ns rest := by
  match ns with
  | [] => exact .nil rest
  | n :: ns =>
    obtain ⟨hn, hns⟩ := List.forall_mem_cons.1 h
    rw [markupOf, String.toList_append, List.append_assoc]
    have hone : ReadAs (n.markup.toList ++ ((markupOf ns).toList ++ rest)) [n]
        ((markupOf ns).toList ++ rest) := by
      cases ht : n.isText with
      | false => exact readAs_node n hn ht _
      | true => exact readAs_text hn ht (breaks_markupOf hns (hapart.head_not_text ht) hrest)
    exact hone.append (readAs_nodes ns hns hapart.tail hrest)

end

/-- Canonical trees are what their markup is read as, and planting what is read under a new fragment
gives a fragment that holds them, in order, and is written as they are. -/
theorem parse_markupOf (ns : List (Html α)) (h : ∀ n ∈ ns, Canonical n) (hapart : Apart ns) :
    parse (markupOf ns) = .ok ns ∧
    ∀ f : Forest α, f.Linked → let planted := f.plantFragment ns
      planted.2.innerTrees planted.1 = ns ∧ planted.2.innerMarkup planted.1 = markupOf ns := by
  constructor
  · obtain ⟨is, his, hbuilds⟩ := readAs_nodes ns h hapart (.inl (Eq.refl []))
    rw [List.append_nil, show items [] = ([], none) by rw [items], List.append_nil] at his
    have htrees : ofItems is = ns := by
      rw [ofItems, hbuilds]
      simp only [Builder.finish, List.append_nil, List.reverse_reverse]
    rw [parse, his]
    exact congrArg Except.ok htrees
  · intro f hf
    obtain ⟨-, hid, -, -, -, hshows, hdepth⟩ := Forest.plantFragment_spec hf ns
    have htrees : (f.plantFragment ns).2.innerTrees (f.plantFragment ns).1 = ns := by
      rw [hid]
      exact hshows.trees hdepth
    exact ⟨htrees, congrArg markupOf htrees⟩

/-- A paragraph with a void element between its texts, a comment that ends as one begins, a style
sheet, and a text with signs that open nothing. -/
def article : List (Html Unit) :=
  [.element "p" [("class", "a b"), ("data-x", "i<j></p>")] []
      [.text "one & ", .element "br" [] [] [], .text "two > one"],
    .comment "--", .element "style" [] [] [.text "p < b </s>"], .text "\"end\""]

private theorem canonical_article : ∀ n ∈ article, Canonical n := by
  have hbr : Canonical (Html.element "br" [] [] [] : Html Unit) :=
    .element (by decide) rfl (by decide) (fun _ => rfl) (fun h => absurd h (by decide))
      (fun _ => nofun) (fun _ => List.isChain_nil)
  simp only [article, List.forall_mem_cons]
  refine ⟨.element (by decide) rfl (by decide) (fun h => absurd h (by decide))
      (fun h => absurd h (by decide)) (fun _ => ?_) (fun _ => by simp [Apart, isText]),
    .comment (by decide),
    .element (by decide) rfl (by decide) (fun h => absurd h (by decide))
      (fun _ => .inr ⟨_, rfl, by decide, by decide⟩) (fun h => absurd (by decide) h)
      (fun h => absurd (by decide) h),
    .text (by decide) (by decide), nofun⟩
  simp only [List.forall_mem_cons]
  exact ⟨.text (by decide) (by decide), hbr, .text (by decide) (by decide), nofun⟩

private theorem apart_article : Apart article := by simp [Apart, article, isText]

theorem parse_markupOf_article :
    (∀ n ∈ article, Canonical n) ∧ Apart article ∧
      parse (markupOf article) = .ok article ∧
      ∀ f : Forest Unit, f.Linked → let planted := f.plantFragment article
        planted.2.innerTrees planted.1 = article ∧
          planted.2.innerMarkup planted.1 = markupOf article :=
  ⟨canonical_article, apart_article, parse_markupOf article canonical_article apart_article⟩

example : markupOf article = "<p class=\"a b\" data-x=\"i<j></p>\">one & <br>two > one</p><!------>" ++
    "<style>p < b </s></style>\"end\"" := by cbv

end LiveMarkup.Html
