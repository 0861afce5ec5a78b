import LiveMarkup.Proofs.Html.Step

/-! Which characters of markup are text, which are values of attributes between quotes, and which
are neither. -/

namespace LiveMarkup.Html

inductive Zone where
  /-- Text that is a node of its own, outside the elements that hold text only. -/
  | text
  /-- The value of an attribute of an opening tag, between its quotes. -/
  | value
  /-- All else: signs, names, quotes, values without quotes, comments, declarations, closing tags,
  and the text of elements that hold text only. -/
  | markup
  deriving DecidableEq, Repr

/-- The zones of what has been read of a text, if it is neither text nor a value. -/
def skipped (cs rest : List Char) : List Zone := List.replicate (cs.length - rest.length) .markup

def quotedZones (quote : Char) (cs rest : List Char) : List Zone :=
  match Text.cut? [quote] rest with
  | some (value, _) => skipped cs rest ++ List.replicate value.length .value ++ [.markup]
  | none => skipped cs []

def valueZones (cs : List Char) : List Zone :=
  match Text.trimStart cs with
  | '"' :: rest => quotedZones '"' cs rest
  | '\'' :: rest => quotedZones '\'' cs rest
  | rest => skipped cs (rest.dropWhile fun c => !endsValue c)

def assignedZones (cs : List Char) : List Zone :=
  match Text.trimStart cs with
  | '=' :: rest => skipped cs rest ++ valueZones rest
  | rest => skipped cs rest

def tagZones (cs : List Char) : List Zone :=
  match _h : Text.trimStart cs with
  | [] => skipped cs []
  | '>' :: rest => skipped cs rest
  | '/' :: '>' :: rest => skipped cs rest
  | '/' :: rest => skipped cs rest ++ tagZones rest
  | c :: rest =>
    if _hc : endsName c then skipped cs rest ++ tagZones rest
    else
      let assigned := afterName (c :: rest)
      match _h' : readAssigned assigned with
      | .error _ => skipped cs []
      | .ok (_, after) => skipped cs assigned ++ assignedZones assigned ++ tagZones after
termination_by cs.length
decreasing_by
  all_goals
    have ht := (Text.trimStart_suffix cs).length_le
    simp only [_h, List.length_cons] at ht
  · omega
  · omega
  · have h₁ := length_readAssigned _h'
    have h₂ := length_afterName rest
    simp only [assigned, afterName, List.dropWhile_cons, _hc, Bool.not_false, if_true] at h₁ h₂
    omega

variable {cs rest after : List Char} {c : Char} {value : String} {zs : List Zone}

theorem tagZones_end (hcs : Text.trimStart cs = '>' :: rest) : tagZones cs = skipped cs rest := by
  rw [tagZones]
  split <;> rename_i h <;> rw [hcs] at h <;> cases h
  · rfl
  · next hclose _ _ => exact absurd rfl hclose

theorem tagZones_selfClosing (hcs : Text.trimStart cs = '/' :: '>' :: rest) :
    tagZones cs = skipped cs rest := by
  rw [tagZones]
  split <;> rename_i h <;> rw [hcs] at h <;> cases h
  · rfl
  · next hslash => exact absurd rfl (hslash _)
  · next hslash _ => exact absurd rfl hslash

theorem tagZones_slash (hcs : Text.trimStart cs = '/' :: rest) (hrest : Stops (· == '>') rest) :
    tagZones cs = skipped cs rest ++ tagZones rest := by
  rw [tagZones]
  split <;> rename_i h <;> rw [hcs] at h <;> cases h
  · exact absurd (stops_cons.1 hrest) (by decide)
  · rfl
  · next hslash _ => exact absurd rfl hslash

theorem tagZones_equal (hcs : Text.trimStart cs = '=' :: rest) :
    tagZones cs = skipped cs rest ++ tagZones rest := by
  rw [tagZones]
  split <;> rename_i h <;> rw [hcs] at h <;> cases h
  rw [dif_pos (by decide)]

/-- Where a name is expected, a sign other than those of the end of a tag is one of equality. -/
theorem eq_equal_of_endsName (hcs : Text.trimStart cs = c :: rest) (hends : endsName c = true)
    (hclose : c ≠ '>') (hslash : c ≠ '/') : c = '=' := by
  have hblank := stops_cons.1 (hcs ▸ stops_trimStart cs)
  simp only [endsName, hblank, Bool.false_or, Bool.or_eq_true, beq_iff_eq] at hends
  exact hends.resolve_left (not_or.2 ⟨hclose, hslash⟩)

theorem tagZones_named (hcs : Text.trimStart cs = c :: rest) (hc : endsName c = false)
    (hvalue : readAssigned (afterName (c :: rest)) = .ok (value, after)) :
    tagZones cs = skipped cs (afterName (c :: rest)) ++ assignedZones (afterName (c :: rest)) ++
      tagZones after := by
  have hends : ∀ d, endsName d = true → d ≠ c := by
    rintro d hd rfl
    rw [hc] at hd
    cases hd
  rw [tagZones]
  split <;> rename_i h <;> rw [hcs] at h <;> cases h
  · exact absurd rfl (hends '>' (by decide))
  · exact absurd rfl (hends '/' (by decide))
  · exact absurd rfl (hends '/' (by decide))
  · rw [dif_neg (by simp [hc])]
    dsimp only
    split
    · next he => cases hvalue.symm.trans he
    · next heq => cases hvalue.symm.trans heq; rfl

theorem quotedZones_eq {q : Char} {word : List Char} (hq : q ∉ word) :
    quotedZones q cs (word ++ q :: after) =
      skipped cs (word ++ q :: after) ++ (List.replicate word.length .value ++ [.markup]) := by
  rw [quotedZones, Text.cut?_singleton hq]
  exact List.append_assoc ..

theorem valueZones_bare (h : Stops (fun c => c == '"' || c == '\'') (Text.trimStart cs)) :
    valueZones cs = skipped cs ((Text.trimStart cs).dropWhile fun c => !endsValue c) := by
  unfold valueZones
  split
  · next hcs => exact absurd (stops_cons.1 (hcs ▸ h)) (by decide)
  · next hcs => exact absurd (stops_cons.1 (hcs ▸ h)) (by decide)
  · rfl

private theorem head?_skipped (h : rest.length < cs.length) :
    (skipped cs rest ++ zs).head? = some .markup := by
  obtain ⟨n, hn⟩ : ∃ n, cs.length - rest.length = n + 1 := ⟨cs.length - rest.length - 1, by omega⟩
  rw [skipped, hn]
  rfl

private theorem length_trimmed (hcs : Text.trimStart cs = c :: rest) : rest.length < cs.length := by
  have ht := (Text.trimStart_suffix cs).length_le
  rw [hcs, List.length_cons] at ht
  exact ht

private theorem length_afterName_of_starts (hc : endsName c = false) :
    (afterName (c :: rest)).length < (c :: rest).length := by
  have h := length_afterName rest
  simp only [afterName, List.dropWhile_cons, hc, Bool.not_false, if_true, List.length_cons] at h ⊢
  omega

/-- An opening tag goes on with what is no value. -/
theorem head?_tagZones (h : cs ≠ []) : (tagZones cs ++ zs).head? = some .markup := by
  have hpos := List.length_pos_iff.2 h
  fun_cases tagZones cs with
  | case1 => exact head?_skipped hpos
  | case2 rest hcs => exact head?_skipped (length_trimmed hcs)
  | case3 rest hcs =>
    exact head?_skipped (Nat.lt_of_le_of_lt (Nat.le_succ _) (length_trimmed hcs))
  | case4 rest _ hcs =>
    rw [List.append_assoc]
    exact head?_skipped (length_trimmed hcs)
  | case5 c rest _ _ _ hcs =>
    rw [List.append_assoc]
    exact head?_skipped (length_trimmed hcs)
  | case6 => exact head?_skipped hpos
  | case7 c rest _ _ _ hcs hc =>
    rw [List.append_assoc, List.append_assoc]
    refine head?_skipped (Nat.lt_of_lt_of_le (length_afterName_of_starts (by simpa using hc)) ?_)
    rw [← hcs]
    exact (Text.trimStart_suffix cs).length_le

theorem assignedZones_equal (hcs : Text.trimStart cs = '=' :: rest) :
    assignedZones cs = skipped cs rest ++ valueZones rest := by
  unfold assignedZones
  simp only [hcs]

theorem assignedZones_none (hcs : Stops (· == '=') (Text.trimStart cs)) :
    assignedZones cs = skipped cs (Text.trimStart cs) := by
  unfold assignedZones
  split
  · next heq => exact absurd (stops_cons.1 (heq ▸ hcs)) (by decide)
  · rfl

/-- And so does what follows the name of an attribute. -/
theorem head?_assignedZones (h : cs ≠ []) (hread : readAssigned cs = .ok (value, after)) :
    (assignedZones cs ++ (tagZones after ++ zs)).head? = some .markup := by
  obtain ⟨rest, hcs⟩ | hstops := cons_or_stops '=' (Text.trimStart cs)
  · rw [assignedZones_equal hcs, List.append_assoc]
    exact head?_skipped (length_trimmed hcs)
  · rw [assignedZones_none hstops]
    cases hread.symm.trans (readAssigned_none hstops)
    obtain hlt | heq := Nat.lt_or_eq_of_le (Text.trimStart_suffix cs).length_le
    · exact head?_skipped hlt
    · rw [(Text.trimStart_suffix cs).eq_of_length heq, skipped, Nat.sub_self]
      exact head?_tagZones h

/-- The zones of an opening tag after its sign `<`, with the text of an element that holds text
only. -/
def openingZones (cs : List Char) : List Zone :=
  let assigned := afterName cs
  match readTagEnd [] assigned with
  | .error _ => skipped cs []
  | .ok (⟨_, selfClosing⟩, rest) =>
    let raw := !selfClosing && rawTextTags.contains (lowerName cs)
    skipped cs assigned ++ tagZones assigned ++
      if raw then skipped rest (readRawText (lowerName cs) rest).2 else []

def itemZones (c : Char) (cs rest : List Char) : Item → List Zone
  | .text _ => List.replicate ((c :: cs).length - rest.length) .text
  | .opening .. | .whole .. => .markup :: openingZones cs
  | .comment _ | .declaration | .closing _ => skipped (c :: cs) rest

/-- The zones of markup, character by character. What cannot be read is neither text nor value. -/
def zones : List Char → List Zone
  | [] => []
  | c :: cs =>
    match _h : readItem c cs with
    | .error _ => skipped (c :: cs) []
    | .ok (item, rest) => itemZones c cs rest item ++ zones rest
termination_by cs => cs.length
decreasing_by
  have := length_readItem _h
  simp only [List.length_cons]
  omega

variable {item : Item}

theorem openingZones_eq {t : TagEnd} (h : readTagEnd [] (afterName cs) = .ok (t, rest)) :
    openingZones cs = skipped cs (afterName cs) ++ (tagZones (afterName cs) ++
      if holdsText (lowerName cs) t then skipped rest (readRawText (lowerName cs) rest).2
      else []) := by
  rw [← List.append_assoc, openingZones, h]
  rfl

/-- The zones of an opening tag are those of an item. -/
theorem itemZones_opening (h : readOpening cs = .ok (item, rest)) :
    itemZones c cs rest item = .markup :: openingZones cs := by
  obtain ⟨t, after, htag⟩ := exists_readTagEnd h
  cases hraw : holdsText (lowerName cs) t with
  | true =>
    cases h.symm.trans (readOpening_raw htag hraw)
    rfl
  | false =>
    cases h.symm.trans (readOpening_plain htag hraw)
    split <;> rfl

theorem zones_cons (h : readItem c cs = .ok (item, rest)) :
    zones (c :: cs) = itemZones c cs rest item ++ zones rest := by
  rw [zones]
  split
  · next he => cases h.symm.trans he
  · next heq =>
    cases h.symm.trans heq
    rfl

theorem zones_error {e : Malformed} (h : readItem c cs = .error e) :
    zones (c :: cs) = skipped (c :: cs) [] := by
  rw [zones]
  split
  · rfl
  · next heq => cases h.symm.trans heq

theorem head?_openingZones (hc : endsName c = false) :
    (openingZones (c :: cs) ++ zs).head? = some .markup := by
  cases htag : readTagEnd [] (afterName (c :: cs)) with
  | error e =>
    rw [openingZones, htag]
    exact head?_skipped (Nat.succ_pos _)
  | ok r =>
    rw [openingZones_eq htag, List.append_assoc]
    exact head?_skipped (length_afterName_of_starts hc)

/-! Every character has a zone. -/

/-- There are as many zones as there are characters before what is left. -/
def Spans (zs : List Zone) (cs rest : List Char) : Prop := zs.length + rest.length = cs.length

variable {mid : List Char} {ys : List Zone}

private theorem Spans.append (h : Spans ys cs mid) (h' : Spans zs mid rest) :
    Spans (ys ++ zs) cs rest := by
  rw [Spans] at *
  rw [List.length_append]
  omega

private theorem spans_skipped (h : rest.length ≤ cs.length) : Spans (skipped cs rest) cs rest := by
  rw [Spans, skipped, List.length_replicate]
  omega

private theorem spans_trimmed (hcs : Text.trimStart cs = rest) : Spans (skipped cs rest) cs rest :=
  spans_skipped (hcs ▸ (Text.trimStart_suffix cs).length_le)

private theorem spans_trimmed_cons (hcs : Text.trimStart cs = c :: rest) :
    Spans (skipped cs rest) cs rest :=
  spans_skipped (length_trimmed hcs).le

private theorem spans_valueZones (h : readValue cs = .ok (value, after)) :
    Spans (valueZones cs) cs after := by
  obtain ⟨q, word, hq, hcs, hword, rfl⟩ | ⟨hbare, rfl, rfl⟩ := readValue_cases h
  · have hzones : valueZones cs = quotedZones q cs (word ++ q :: after) := by
      rw [valueZones]
      rcases hq with rfl | rfl <;> simp only [hcs]
    rw [hzones, quotedZones_eq hword]
    refine (spans_trimmed_cons hcs).append ?_
    simp only [Spans, List.length_append, List.length_replicate, List.length_cons, List.length_nil]
    omega
  · rw [valueZones_bare hbare]
    exact spans_skipped (((List.dropWhile_suffix _).trans (Text.trimStart_suffix cs)).length_le)

private theorem spans_assignedZones (h : readAssigned cs = .ok (value, after)) :
    Spans (assignedZones cs) cs after := by
  obtain ⟨rest, hcs⟩ | hstops := cons_or_stops '=' (Text.trimStart cs)
  · rw [readAssigned_equal hcs] at h
    rw [assignedZones_equal hcs]
    exact (spans_trimmed_cons hcs).append (spans_valueZones h)
  · cases h.symm.trans (readAssigned_none hstops)
    rw [assignedZones_none hstops]
    exact spans_trimmed rfl

private theorem spans_tagZones {attributes : List (String × String)} {t : TagEnd}
    (h : readTagEnd attributes cs = .ok (t, after)) : Spans (tagZones cs) cs after := by
  fun_induction readTagEnd attributes cs with
  | case1 => cases h
  | case2 attributes cs rest hcs =>
    cases h
    rw [tagZones_end hcs]
    exact spans_trimmed_cons hcs
  | case3 attributes cs rest hcs =>
    cases h
    rw [tagZones_selfClosing hcs]
    exact spans_skipped (Nat.le_of_succ_le (length_trimmed hcs).le)
  | case4 attributes cs rest hclose hcs ih =>
    rw [tagZones_slash hcs ((cons_or_stops '>' rest).resolve_left (not_exists.2 hclose))]
    exact (spans_trimmed_cons hcs).append (ih h)
  | case5 attributes cs c rest hclose _ hslash hcs hends ih =>
    obtain rfl := eq_equal_of_endsName hcs hends hclose hslash
    rw [tagZones_equal hcs]
    exact (spans_trimmed_cons hcs).append (ih h)
  | case6 => cases h
  | case7 attributes cs c rest _ _ _ hcs hends name value after' hvalue =>
    rename_i ih
    have hc : endsName c = false := Bool.eq_false_iff.2 hends
    rw [tagZones_named hcs hc hvalue]
    refine (Spans.append (spans_skipped ?_) (spans_assignedZones hvalue)).append (ih h)
    have hle := (Text.trimStart_suffix cs).length_le
    rw [hcs] at hle
    exact (length_afterName _).trans hle

private theorem spans_openingZones (h : readOpening cs = .ok (item, after)) :
    Spans (openingZones cs) cs after := by
  obtain ⟨t, rest, htag⟩ := exists_readTagEnd h
  rw [openingZones_eq htag]
  refine (spans_skipped (length_afterName cs)).append ((spans_tagZones htag).append ?_)
  cases hraw : holdsText (lowerName cs) t with
  | true =>
    cases h.symm.trans (readOpening_raw htag hraw)
    exact spans_skipped (readRawText_suffix _ _).length_le
  | false =>
    cases h.symm.trans (readOpening_plain htag hraw)
    exact Nat.zero_add _

private theorem spans_itemZones (h : readItem c cs = .ok (item, rest)) :
    Spans (itemZones c cs rest item) (c :: cs) rest := by
  have hle : rest.length ≤ (c :: cs).length := Nat.le_succ_of_le (length_readItem h)
  cases readsItem_of_readItem h with
  | comment | declaration | closing => exact spans_skipped hle
  | opening hletter hopening =>
    rw [itemZones_opening hopening]
    have hspans := spans_openingZones hopening
    rw [Spans, List.length_cons, List.length_cons]
    rw [Spans] at hspans
    omega
  | text =>
    rw [Spans, itemZones, List.length_replicate]
    omega

/-- Every character of markup has one zone. -/
theorem length_zones (cs : List Char) : (zones cs).length = cs.length := by
  fun_induction zones cs with
  | case1 => rfl
  | case2 c cs e he => simp [skipped]
  | case3 c cs item rest hread ih =>
    have hspans := spans_itemZones hread
    rw [Spans] at hspans
    rw [List.length_append, ih, hspans]

example : zones "<p a='b'>c".toList =
    List.replicate 6 .markup ++ [.value, .markup, .markup, .text] := by decide +kernel


end LiveMarkup.Html
