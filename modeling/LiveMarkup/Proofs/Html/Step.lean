import LiveMarkup.Html.Parser
import LiveMarkup.Proofs.Text.Class
import LiveMarkup.Proofs.Text.Cut

/-! Reading one construct of markup, in terms of the characters that it consists of and of the first
one after them. -/

namespace LiveMarkup.Html

variable {p : Char → Bool} {c q : Char} {cs cs' pre rest blanks name word junk after : List Char}
  {attributes : List (String × String)} {value : String}

/-- The text is empty or its first character is not one of those. -/
def Stops (p : Char → Bool) (cs : List Char) : Prop := ∀ c ∈ cs.head?, p c = false

theorem Stops.congr (h : Stops p cs) (heq : cs'.head? = cs.head?) : Stops p cs' := by
  rwa [Stops, heq]

theorem stops_cons : Stops p (c :: cs) ↔ p c = false := by simp [Stops]

theorem cons_or_stops (c : Char) (cs : List Char) : (∃ rest, cs = c :: rest) ∨ Stops (· == c) cs := by
  cases cs with
  | nil => exact .inr nofun
  | cons d cs =>
    obtain rfl | hne := eq_or_ne d c
    · exact .inl ⟨cs, rfl⟩
    · exact .inr (stops_cons.2 (beq_false_of_ne hne))

theorem stops_dropWhile (p : Char → Bool) (cs : List Char) : Stops p (cs.dropWhile p) := by
  intro c hc
  have h := List.head?_dropWhile_not p cs
  rw [hc] at h
  simpa using h

theorem Stops.dropWhile_append (h : Stops p rest) (hpre : ∀ c ∈ pre, p c = true) :
    (pre ++ rest).dropWhile p = rest := by
  rw [List.dropWhile_append_of_pos hpre]
  cases rest with
  | nil => rfl
  | cons c rest => exact List.dropWhile_cons_of_neg (by simp [stops_cons.1 h])

theorem Stops.takeWhile_append (h : Stops p rest) (hpre : ∀ c ∈ pre, p c = true) :
    (pre ++ rest).takeWhile p = pre := by
  rw [List.takeWhile_append_of_pos hpre]
  cases rest with
  | nil => simp
  | cons c rest => rw [List.takeWhile_cons_of_neg (by simp [stops_cons.1 h]), List.append_nil]

/-- A text is white space and what is left after trimming. -/
theorem exists_blanks (cs : List Char) :
    ∃ blanks, cs = blanks ++ Text.trimStart cs ∧ ∀ c ∈ blanks, Text.isBlank c = true :=
  ⟨cs.takeWhile Text.isBlank, List.takeWhile_append_dropWhile.symm,
    List.all_eq_true.1 List.all_takeWhile⟩

theorem trimStart_cons (h : Text.isBlank c = false) : Text.trimStart (c :: cs) = c :: cs :=
  List.dropWhile_cons_of_neg (by simp [h])

theorem stops_trimStart (cs : List Char) : Stops Text.isBlank (Text.trimStart cs) :=
  stops_dropWhile _ cs

theorem Stops.trimStart_append (h : Stops Text.isBlank rest)
    (hblanks : ∀ c ∈ blanks, Text.isBlank c = true) : Text.trimStart (blanks ++ rest) = rest :=
  h.dropWhile_append hblanks

/-! Values of attributes. -/

theorem cut?_char {before : List Char} (h : Text.cut? [q] cs = some (before, after)) :
    cs = before ++ q :: after ∧ q ∉ before := by
  refine ⟨by simpa using Text.cut?_eq_some h, ?_⟩
  have hbefore := Text.not_infix_before (List.cons_ne_nil _ _) h
  rwa [List.singleton_infix_iff] at hbefore

theorem readValue_quoted (hq : q = '"' ∨ q = '\'') (hcs : Text.trimStart cs = q :: (word ++ q :: rest))
    (hword : q ∉ word) : readValue cs = .ok (String.ofList word, rest) := by
  obtain rfl | rfl := hq <;> simp only [readValue, hcs, Text.cut?_singleton hword]

theorem readValue_bare (hcs : Text.trimStart cs = rest)
    (hquote : Stops (fun c => c == '"' || c == '\'') rest) :
    readValue cs = .ok (String.ofList (rest.takeWhile fun c => !endsValue c),
      rest.dropWhile fun c => !endsValue c) := by
  unfold readValue
  rw [hcs]
  split
  · exact absurd (stops_cons.1 hquote) (by decide)
  · exact absurd (stops_cons.1 hquote) (by decide)
  · rfl

/-- A value is between quotes, or it goes on up to white space or the end of the tag. -/
theorem readValue_cases (h : readValue cs = .ok (value, after)) :
    (∃ q word, (q = '"' ∨ q = '\'') ∧ Text.trimStart cs = q :: (word ++ q :: after) ∧ q ∉ word ∧
      value = String.ofList word) ∨
    Stops (fun c => c == '"' || c == '\'') (Text.trimStart cs) ∧
      value = String.ofList ((Text.trimStart cs).takeWhile fun c => !endsValue c) ∧
      after = (Text.trimStart cs).dropWhile fun c => !endsValue c := by
  have quoted {q : Char} {rest : List Char} (hq : q = '"' ∨ q = '\'') (hr : Text.trimStart cs = q :: rest) :
      ∃ word, Text.trimStart cs = q :: (word ++ q :: after) ∧ q ∉ word ∧ value = String.ofList word := by
    cases hcut : Text.cut? [q] rest with
    | none => obtain rfl | rfl := hq <;> simp only [readValue, hr, hcut, reduceCtorEq] at h
    | some parts =>
      obtain ⟨word, after'⟩ := parts
      have hread : readValue cs = .ok (String.ofList word, after') := by
        obtain rfl | rfl := hq <;> simp only [readValue, hr, hcut]
      cases hread.symm.trans h
      obtain ⟨hrest, hword⟩ := cut?_char hcut
      exact ⟨word, by rw [hr, hrest], hword, rfl⟩
  unfold readValue at h
  dsimp only at h
  split at h
  · next rest hr =>
    obtain ⟨word, hword⟩ := quoted (.inl rfl) hr
    exact .inl ⟨_, word, .inl rfl, hword⟩
  · next rest hr =>
    obtain ⟨word, hword⟩ := quoted (.inr rfl) hr
    exact .inl ⟨_, word, .inr rfl, hword⟩
  · next hdouble hsingle =>
    cases h
    refine .inr ⟨fun c hc => ?_, rfl, rfl⟩
    obtain ⟨rest, hrest⟩ := List.head?_eq_some_iff.1 hc
    by_contra hquote
    simp only [Bool.not_eq_false, Bool.or_eq_true, beq_iff_eq] at hquote
    obtain rfl | rfl := hquote
    · exact hdouble _ hrest
    · exact hsingle _ hrest

theorem readAssigned_equal (hcs : Text.trimStart cs = '=' :: rest) : readAssigned cs = readValue rest := by
  unfold readAssigned
  simp only [hcs]

theorem readAssigned_none (hcs : Stops (· == '=') (Text.trimStart cs)) :
    readAssigned cs = .ok ("", Text.trimStart cs) := by
  unfold readAssigned
  split
  · next heq =>
    rw [heq, stops_cons] at hcs
    exact absurd hcs (by decide)
  · rfl

/-! Names. -/

private theorem nameOf_append (hname : ∀ c ∈ name, endsName c = false)
    (h : Stops (fun c => !endsName c) rest) :
    nameOf (name ++ rest) = name :=
  h.takeWhile_append fun c hc => by rw [hname c hc]; rfl

theorem afterName_append (hname : ∀ c ∈ name, endsName c = false)
    (h : Stops (fun c => !endsName c) rest) : afterName (name ++ rest) = rest :=
  h.dropWhile_append fun c hc => by rw [hname c hc]; rfl

theorem lowerName_append (hname : ∀ c ∈ name, endsName c = false)
    (h : Stops (fun c => !endsName c) rest) :
    lowerName (name ++ rest) = Text.lower (String.ofList name) := by
  rw [lowerName, nameOf_append hname h]

/-- A text is the name that it begins with and what follows. -/
theorem exists_name (cs : List Char) : ∃ name, cs = name ++ afterName cs ∧
    (∀ c ∈ name, endsName c = false) ∧ lowerName cs = Text.lower (String.ofList name) :=
  ⟨nameOf cs, List.takeWhile_append_dropWhile.symm,
    fun c hc => by simpa using List.all_eq_true.1 List.all_takeWhile c hc, rfl⟩

theorem stops_afterName (cs : List Char) : Stops (fun c => !endsName c) (afterName cs) :=
  stops_dropWhile _ cs

/-- A text that does not end a name begins with one. -/
theorem exists_name_cons (hc : endsName c = false) (cs : List Char) :
    ∃ name, cs = name ++ afterName (c :: cs) ∧ (∀ d ∈ c :: name, endsName d = false) ∧
      lowerName (c :: cs) = Text.lower (String.ofList (c :: name)) := by
  obtain ⟨name, hname, hnames, hlower⟩ := exists_name (c :: cs)
  cases name with
  | nil =>
    have hstops := stops_afterName (c :: cs)
    rw [← List.nil_append (afterName _), ← hname, stops_cons, hc] at hstops
    cases hstops
  | cons d name =>
    obtain ⟨rfl, htail⟩ := List.cons.inj hname
    exact ⟨name, htail, hnames, hlower⟩

private theorem not_endsName_of_isAlpha (h : c.isAlpha = true) : endsName c = false := by
  have hne (d : Char) (hd : d.isAlpha = false) : (c == d) = false :=
    beq_false_of_ne fun heq => by rw [← heq, h] at hd; cases hd
  simp only [endsName, Text.not_isBlank_of_isAlpha h, hne '>' (by decide), hne '/' (by decide),
    hne '=' (by decide), Bool.or_false]

/-- Where a name ends, none begins. -/
private theorem Stops.startsName (h : Stops (fun c => !endsName c) cs) : startsName cs = false := by
  cases cs with
  | nil => rfl
  | cons c cs =>
    refine Bool.eq_false_iff.2 fun hletter => ?_
    have hc := stops_cons.1 h
    rw [not_endsName_of_isAlpha hletter] at hc
    cases hc

theorem startsName_append (h : startsName name = true) : startsName (name ++ rest) = true := by
  cases name with
  | nil => cases h
  | cons c name => exact h

theorem startsName_of_append (h : Stops (fun c => !endsName c) rest)
    (hletter : startsName (name ++ rest) = true) : startsName name = true := by
  cases name with
  | nil =>
    rw [List.nil_append, h.startsName] at hletter
    cases hletter
  | cons c name => exact hletter

/-! The rest of an opening tag. -/

theorem attribute?_eq_none {key : String} (h : key ∉ attributes.map (·.1)) : attribute? key attributes = none := by
  rw [attribute?, Option.map_eq_none_iff, List.find?_eq_none]
  rintro a ha heq
  exact h (List.mem_map.2 ⟨a, ha, beq_iff_eq.1 heq⟩)

theorem setAttribute_new {key : String} (h : key ∉ attributes.map (·.1)) :
    setAttribute key value attributes = attributes ++ [(key, value)] := by
  induction attributes with
  | nil => rfl
  | cons a as ih =>
    rw [List.map_cons, List.mem_cons, not_or] at h
    rw [setAttribute, if_neg (Ne.symm h.1), ih h.2, List.cons_append]

theorem readTagEnd_end (hcs : Text.trimStart cs = '>' :: rest) :
    readTagEnd attributes cs = .ok (⟨attributes, false⟩, rest) := by
  rw [readTagEnd]
  split <;> rename_i h <;> rw [hcs] at h <;> cases h
  · rfl
  · next hclose _ _ => exact absurd rfl hclose

theorem readTagEnd_selfClosing (hcs : Text.trimStart cs = '/' :: '>' :: rest) :
    readTagEnd attributes cs = .ok (⟨attributes, true⟩, rest) := by
  rw [readTagEnd]
  split <;> rename_i h <;> rw [hcs] at h <;> cases h
  · rfl
  · next hslash => exact absurd rfl (hslash _)
  · next hslash _ => exact absurd rfl hslash

/-- A slash that does not end the tag is ignored. -/
theorem readTagEnd_slash (hcs : Text.trimStart cs = '/' :: rest) (hrest : Stops (· == '>') rest) :
    readTagEnd attributes cs = readTagEnd attributes rest := by
  rw [readTagEnd]
  split <;> rename_i h <;> rw [hcs] at h <;> cases h
  · exact absurd (stops_cons.1 hrest) (by decide)
  · rfl
  · next hslash _ => exact absurd rfl hslash

/-- So is a sign of equality where a name is expected. -/
theorem readTagEnd_equal (hcs : Text.trimStart cs = '=' :: rest) :
    readTagEnd attributes cs = readTagEnd attributes rest := by
  rw [readTagEnd]
  split <;> rename_i h <;> rw [hcs] at h <;> cases h
  rw [dif_pos (by decide)]

/-- One attribute is read and kept if there is none of its name yet. -/
theorem readTagEnd_named (hcs : Text.trimStart cs = c :: (name ++ rest))
    (hname : ∀ d ∈ c :: name, endsName d = false) (hstops : Stops (fun c => !endsName c) rest)
    (hvalue : readAssigned rest = .ok (value, after)) :
    readTagEnd attributes cs =
      readTagEnd (if (attribute? (Text.lower (String.ofList (c :: name))) attributes).isSome
        then attributes else setAttribute (Text.lower (String.ofList (c :: name))) value attributes)
        after := by
  have hc := hname c List.mem_cons_self
  have hends : ∀ d, endsName d = true → d ≠ c := by
    rintro d hd rfl
    rw [hc] at hd
    cases hd
  have hlower := lowerName_append hname hstops
  have hafter := (congrArg readAssigned (afterName_append hname hstops)).trans hvalue
  rw [List.cons_append] at hlower hafter
  generalize name ++ rest = tail at hcs hlower hafter
  rw [readTagEnd]
  split <;> rename_i h <;> rw [hcs] at h <;> cases h
  · exact absurd rfl (hends '>' (by decide))
  · exact absurd rfl (hends '/' (by decide))
  · exact absurd rfl (hends '/' (by decide))
  · rw [dif_neg (by simp [hc])]
    dsimp only
    split
    · next he => cases hafter.symm.trans he
    · next heq =>
      cases hafter.symm.trans heq
      rw [hlower]

/-! Items. -/

/-- Whether what follows a sign `<` makes it the beginning of something other than text. -/
def opens : List Char → Bool
  | '!' :: _ => true
  | '/' :: cs => startsName cs
  | cs => startsName cs

inductive ReadsItem : Char → List Char → Item → List Char → Prop where
  | comment {s rest : List Char} (hs : ¬ ['-', '-', '>'] <:+: s) :
      ReadsItem '<' ('!' :: '-' :: '-' :: (s ++ '-' :: '-' :: '>' :: rest))
        (.comment (String.ofList s)) rest
  | declaration {junk rest : List Char} (hcomment : ¬ ['-', '-'] <+: junk) (hjunk : '>' ∉ junk) :
      ReadsItem '<' ('!' :: (junk ++ '>' :: rest)) .declaration rest
  | closing {name junk rest : List Char} (hletter : startsName name = true)
      (hname : ∀ c ∈ name, endsName c = false)
      (hstops : Stops (fun c => !endsName c) (junk ++ '>' :: rest)) (hjunk : '>' ∉ junk) :
      ReadsItem '<' ('/' :: (name ++ (junk ++ '>' :: rest)))
        (.closing (Text.lower (String.ofList name))) rest
  | opening {cs rest : List Char} {item : Item} (hletter : startsName cs = true)
      (hopening : readOpening cs = .ok (item, rest)) : ReadsItem '<' cs item rest
  | text {c : Char} {cs : List Char} (hsign : c = '<' → opens cs = false) :
      ReadsItem c cs (.text (String.ofList (c :: (cutText cs).1))) (cutText cs).2

theorem readsItem_of_readItem {item : Item} (h : readItem c cs = .ok (item, rest)) :
    ReadsItem c cs item rest := by
  unfold readItem at h
  dsimp only at h
  split at h
  · next hc =>
    cases h
    exact .text fun heq => absurd heq (bne_iff_ne.1 hc)
  · next hc =>
    obtain rfl : c = '<' := by simpa using hc
    split at h
    · split at h
      · next s after hcut =>
        cases h
        have hs := Text.not_infix_before (by decide) hcut
        have heq := Text.cut?_eq_some hcut
        rw [List.append_assoc] at heq
        rw [heq]
        exact .comment hs
      · cases h
    · next rest' hcomment =>
      split at h
      · next junk after hcut =>
        cases h
        obtain ⟨heq, hjunk⟩ := cut?_char hcut
        rw [heq]
        refine .declaration (fun ⟨more, hmore⟩ => ?_) hjunk
        refine hcomment (more ++ '>' :: rest) ?_
        rw [heq, ← hmore]
        rfl
      · cases h
    · next rest' =>
      split at h
      · next hletter =>
        split at h
        · next junk after hcut =>
          cases h
          obtain ⟨heq, hjunk⟩ := cut?_char hcut
          obtain ⟨name, hcs, hname, hlower⟩ := exists_name rest'
          have hstops := stops_afterName rest'
          rw [heq] at hcs hstops
          rw [hcs] at hletter
          rw [hlower, hcs]
          exact .closing (startsName_of_append hstops hletter) hname hstops hjunk
        · cases h
      · next hletter =>
        cases h
        exact .text fun _ => by simpa [opens] using hletter
    · next hbang hslash =>
      split at h
      · next hletter => exact .opening hletter h
      · next hletter =>
        cases h
        refine .text fun _ => ?_
        rw [opens.eq_def]
        split
        · exact absurd rfl (hbang _)
        · exact absurd rfl (hslash _)
        · exact Bool.eq_false_iff.2 hletter

theorem readItem_opening (hletter : startsName cs = true) : readItem '<' cs = readOpening cs := by
  rw [readItem.eq_def, if_neg (by decide)]
  split
  · cases hletter
  · cases hletter
  · cases hletter
  · exact if_pos hletter

theorem readItem_closing (hletter : startsName cs = true) :
    readItem '<' ('/' :: cs) =
      match Text.cut? ['>'] (afterName cs) with
      | some (_, after) => .ok (.closing (lowerName cs), after)
      | none => .error .expectedEnd := by
  rw [readItem, if_neg (by decide)]
  exact if_pos hletter

theorem cutText_plain (h : '<' ∉ pre) (rest : List Char) :
    cutText (pre ++ rest) = (pre ++ (cutText rest).1, (cutText rest).2) := by
  induction pre with
  | nil => rfl
  | cons c pre ih =>
    rw [List.mem_cons, not_or] at h
    rw [List.cons_append, cutText, beq_false_of_ne (Ne.symm h.1)]
    simp only [Bool.false_and, Bool.false_eq_true, if_false, ih h.2, List.cons_append]

theorem ReadsItem.readItem_eq {item : Item} (h : ReadsItem c cs item rest) :
    readItem c cs = .ok (item, rest) := by
  cases h with
  | @comment s rest hs =>
    have hcut : Text.cut? "-->".toList (s ++ '-' :: '-' :: '>' :: rest) = some (s, rest) :=
      Text.cut?_append ['-', '-', '>'] (by decide) (by decide) hs
    rw [readItem, if_neg (by decide)]
    simp only [hcut]
  | @declaration junk rest hcomment hjunk =>
    rw [readItem.eq_def, if_neg (by decide)]
    split
    · next more heq =>
      refine absurd ?_ hcomment
      have hopen := (List.cons.inj heq).2
      obtain _ | ⟨d, _ | ⟨e, junk⟩⟩ := junk
      · cases hopen
      · cases hopen
      · cases hopen
        exact ⟨junk, rfl⟩
    · next heq =>
      cases heq
      rw [Text.cut?_singleton hjunk]
    · next heq => cases heq
    · next hbang _ => exact absurd rfl (hbang _)
  | @closing name junk rest hletter hname hstops hjunk =>
    rw [readItem_closing (startsName_append hletter), afterName_append hname hstops, Text.cut?_singleton hjunk,
      lowerName_append hname hstops]
  | opening hletter hopening =>
    rw [readItem_opening hletter, hopening]
  | @text c cs hsign =>
    rw [readItem.eq_def]
    split
    · rfl
    · next hc =>
      have hopens := hsign (by simpa using hc)
      split
      · cases hopens
      · cases hopens
      · exact if_neg (Bool.eq_false_iff.1 hopens)
      · next hbang hslash =>
        rw [opens.eq_def] at hopens
        split at hopens
        · exact absurd rfl (hbang _)
        · exact absurd rfl (hslash _)
        · exact if_neg (Bool.eq_false_iff.1 hopens)

/-! Opening tags. -/

variable {item : Item}

def holdsText (tag : String) (t : TagEnd) : Bool := !t.selfClosing && rawTextTags.contains tag

theorem readOpening_raw {t : TagEnd} (h : readTagEnd [] (afterName cs) = .ok (t, rest))
    (hraw : holdsText (lowerName cs) t = true) :
    readOpening cs = .ok (.whole (lowerName cs) t.attributes (readRawText (lowerName cs) rest).1,
      (readRawText (lowerName cs) rest).2) := by
  rw [holdsText, Bool.and_eq_true, Bool.not_eq_true'] at hraw
  rw [readOpening, h]
  simp only [hraw.1, hraw.2, Bool.false_eq_true, if_false, if_true]

theorem readOpening_plain {t : TagEnd} (h : readTagEnd [] (afterName cs) = .ok (t, rest))
    (hraw : holdsText (lowerName cs) t = false) :
    readOpening cs = .ok (if t.selfClosing || isVoid (lowerName cs) then
      .whole (lowerName cs) t.attributes [] else .opening (lowerName cs) t.attributes, rest) := by
  obtain ⟨attributes, selfClosing⟩ := t
  rw [readOpening, h]
  cases selfClosing with
  | true => rfl
  | false =>
    have hno : rawTextTags.contains (lowerName cs) = false := hraw
    simp only [hno, Bool.false_eq_true, if_false, Bool.false_or]
    split <;> rfl

theorem exists_readTagEnd (h : readOpening cs = .ok (item, rest)) :
    ∃ t after, readTagEnd [] (afterName cs) = .ok (t, after) := by
  cases htag : readTagEnd [] (afterName cs) with
  | error e =>
    rw [readOpening, htag] at h
    cases h
  | ok r => exact ⟨r.1, r.2, rfl⟩

/-- What is left after the text of an element that holds text only ends the text. -/
theorem readRawText_suffix (tag : String) (cs : List Char) : (readRawText tag cs).2 <:+ cs := by
  unfold readRawText
  split
  · exact List.nil_suffix
  · next content after hcut =>
    have heq := Text.cut?_eq_some hcut
    split
    · next junk rest hend =>
      refine (List.IsSuffix.trans ⟨junk ++ ['>'], (Text.cut?_eq_some hend).symm⟩ ?_)
      exact ⟨_, heq.symm⟩
    · exact ⟨content, by rw [heq, List.append_assoc content]⟩

/-- The tags of elements that hold text only begin with a sign that occurs in them only once. -/
theorem borderless_close : ∀ t ∈ rawTextTags, Text.Borderless ('<' :: '/' :: t.toList) := by decide

theorem items_cons (h : readItem c cs = .ok (item, rest)) :
    items (c :: cs) = (item :: (items rest).1, (items rest).2) := by
  rw [items]
  split
  · next he => cases h.symm.trans he
  · next heq =>
    cases h.symm.trans heq
    rfl

end LiveMarkup.Html
