import LiveMarkup.Proofs.Html.Content
import LiveMarkup.Proofs.Html.Refill
import LiveMarkup.Proofs.Text.Lower

/-! Reading an item of markup looks at nothing beyond it, but for whether anything follows and whether that begins
markup. -/

namespace LiveMarkup.Html

variable {c : Char} {cs rest rest' after more : List Char} {attributes : List (String × String)} {value : String}
  {t : TagEnd} {item : Item}

/-! Values and the ends of tags. -/

/-- A value ends before whatever begins as what follows it. -/
private theorem readValue_stable (h : readValue cs = .ok (value, after)) :
    ∃ pre, cs = pre ++ after ∧
      ∀ more, more.head? = after.head? → readValue (pre ++ more) = .ok (value, more) := by
  obtain ⟨blanks, hcs, hblanks⟩ := exists_blanks cs
  rcases readValue_cases h with ⟨q, word, hq, htrim, hword, rfl⟩ | ⟨hquote, rfl, rfl⟩
  · have hsolid : Text.isBlank q = false := by rcases hq with rfl | rfl <;> decide
    rw [htrim] at hcs
    refine ⟨blanks ++ q :: (word ++ [q]), by rw [hcs]; simp, fun more _ => readValue_quoted hq ?_ hword⟩
    have htail : blanks ++ q :: (word ++ [q]) ++ more = blanks ++ q :: (word ++ q :: more) := by simp
    rw [htail, (stops_cons.2 hsolid).trimStart_append hblanks]
  · have hsolid := stops_trimStart cs
    generalize Text.trimStart cs = trimmed at *
    have hends := stops_dropWhile (fun c => !endsValue c) trimmed
    have hword : ∀ c ∈ trimmed.takeWhile fun c => !endsValue c, (!endsValue c) = true :=
      List.all_eq_true.1 List.all_takeWhile
    have hsplit : (trimmed.takeWhile fun c => !endsValue c) ++ trimmed.dropWhile (fun c => !endsValue c) =
        trimmed := List.takeWhile_append_dropWhile
    generalize (trimmed.takeWhile fun c => !endsValue c) = word at *
    generalize (trimmed.dropWhile fun c => !endsValue c) = after at *
    subst hsplit
    refine ⟨blanks ++ word, by rw [hcs, List.append_assoc], fun more hmore => ?_⟩
    have hhead := head?_append_congr word hmore
    have htrim : Text.trimStart (blanks ++ word ++ more) = word ++ more := by
      rw [List.append_assoc, (hsolid.congr hhead).trimStart_append hblanks]
    rw [readValue_bare htrim (hquote.congr hhead), (hends.congr hmore).takeWhile_append hword,
      (hends.congr hmore).dropWhile_append hword]

/-- So does what is assigned to an attribute. -/
private theorem readAssigned_stable (h : readAssigned cs = .ok (value, after)) :
    ∃ pre, cs = pre ++ after ∧
      ∀ more, more.head? = after.head? → readAssigned (pre ++ more) = .ok (value, more) := by
  obtain ⟨blanks, hcs, hblanks⟩ := exists_blanks cs
  obtain ⟨rest, htrim⟩ | hnone := cons_or_stops '=' (Text.trimStart cs)
  · rw [readAssigned_equal htrim] at h
    obtain ⟨pre, rfl, hstable⟩ := readValue_stable h
    refine ⟨blanks ++ '=' :: pre, by rw [hcs, htrim]; simp, fun more hmore => ?_⟩
    have hequal : Text.trimStart (blanks ++ '=' :: pre ++ more) = '=' :: (pre ++ more) := by
      rw [List.append_assoc, List.cons_append,
        (stops_cons.2 (by decide) : Stops Text.isBlank _).trimStart_append hblanks]
    rw [readAssigned_equal hequal, hstable more hmore]
  · rw [readAssigned_none hnone] at h
    cases h
    refine ⟨blanks, hcs, fun more hmore => ?_⟩
    have htrim : Text.trimStart (blanks ++ more) = more :=
      ((stops_trimStart cs).congr hmore).trimStart_append hblanks
    have hstops : Stops (· == '=') (Text.trimStart (blanks ++ more)) := by
      rw [htrim]
      exact hnone.congr hmore
    rw [readAssigned_none hstops, htrim]

/-- Nothing that follows a tag matters to how its end is read. -/
private theorem readTagEnd_stable (h : readTagEnd attributes cs = .ok (t, rest)) :
    ∃ pre, cs = pre ++ rest ∧ pre ≠ [] ∧ ∀ more, readTagEnd attributes (pre ++ more) = .ok (t, more) := by
  have htrimmed {c : Char} {blanks pre : List Char} (hc : Text.isBlank c = false)
      (hblanks : ∀ c ∈ blanks, Text.isBlank c = true) (more : List Char) :
      Text.trimStart (blanks ++ c :: pre ++ more) = c :: (pre ++ more) := by
    rw [List.append_assoc, List.cons_append, (stops_cons.2 hc).trimStart_append hblanks]
  fun_induction readTagEnd attributes cs with
  | case1 => cases h
  | case2 attributes cs rest' htrim =>
    cases h
    obtain ⟨blanks, hcs, hblanks⟩ := exists_blanks cs
    refine ⟨blanks ++ ['>'], by rw [hcs, htrim]; simp, by simp, fun more => ?_⟩
    exact readTagEnd_end (htrimmed (by decide) hblanks more)
  | case3 attributes cs rest' htrim =>
    cases h
    obtain ⟨blanks, hcs, hblanks⟩ := exists_blanks cs
    refine ⟨blanks ++ ['/', '>'], by rw [hcs, htrim]; simp, by simp, fun more => ?_⟩
    exact readTagEnd_selfClosing (htrimmed (by decide) hblanks more)
  | case4 attributes cs rest' hclose htrim ih =>
    obtain ⟨blanks, hcs, hblanks⟩ := exists_blanks cs
    obtain ⟨pre, rfl, hne, hstable⟩ := ih h
    refine ⟨blanks ++ '/' :: pre, by rw [hcs, htrim]; simp, by simp, fun more => ?_⟩
    have hstops : Stops (· == '>') (pre ++ more) := by
      obtain ⟨d, pre, rfl⟩ := List.exists_cons_of_ne_nil hne
      refine stops_cons.2 (beq_false_of_ne ?_)
      rintro rfl
      exact hclose _ rfl
    rw [readTagEnd_slash (htrimmed (by decide) hblanks more) hstops, hstable]
  | case5 attributes cs c rest' hend _ hslash htrim hends ih =>
    obtain rfl := eq_equal_of_endsName htrim hends hend hslash
    obtain ⟨blanks, hcs, hblanks⟩ := exists_blanks cs
    obtain ⟨pre, rfl, -, hstable⟩ := ih h
    refine ⟨blanks ++ '=' :: pre, by rw [hcs, htrim]; simp, by simp, fun more => ?_⟩
    rw [readTagEnd_equal (htrimmed (by decide) hblanks more), hstable]
  | case6 => cases h
  | case7 attributes cs c rest' _ _ _ htrim hends name value after hassigned =>
    rename_i ih
    have hc : endsName c = false := Bool.eq_false_iff.2 hends
    have hsolid : Text.isBlank c = false := stops_cons.1 (htrim ▸ stops_trimStart cs)
    obtain ⟨blanks, hcs, hblanks⟩ := exists_blanks cs
    obtain ⟨word, hword, hnames, hlower⟩ := exists_name_cons hc rest'
    have hstops := stops_afterName (c :: rest')
    obtain ⟨given, hgiven, hvalue⟩ := readAssigned_stable hassigned
    obtain ⟨pre, rfl, hne, hstable⟩ := ih h
    refine ⟨blanks ++ c :: (word ++ (given ++ pre)), ?_, by simp, fun more => ?_⟩
    · rw [hcs, htrim, hword, hgiven]
      simp
    have hhead : (pre ++ more).head? = (pre ++ rest).head? := by
      obtain ⟨d, pre, rfl⟩ := List.exists_cons_of_ne_nil hne
      rfl
    have hnamed : Text.trimStart (blanks ++ c :: (word ++ (given ++ pre)) ++ more) =
        c :: (word ++ (given ++ (pre ++ more))) := by
      rw [htrimmed hsolid hblanks more, List.append_assoc, List.append_assoc]
    rw [hgiven] at hstops
    rw [readTagEnd_named hnamed hnames (hstops.congr (head?_append_congr given hhead)) (hvalue _ hhead), ← hlower]
    exact hstable more

/-! Items. -/

/-- Whether a name begins does not depend on the case of its first letter. -/
theorem startsName_eq (cs : List Char) : startsName cs = (cs.head?.map Char.toLower).any Char.isAlpha := by
  cases cs with
  | nil => rfl
  | cons c cs => exact (Text.toLower_congr Char.isAlpha (by decide) c).symm

private theorem startsMarkup_eq (cs : List Char) :
    startsMarkup cs = (cs.head?.map Char.toLower).any fun c => c.isAlpha || c == '/' || c == '!' := by
  cases cs with
  | nil => rfl
  | cons c cs =>
    exact (Text.toLower_congr (fun c => c.isAlpha || c == '/' || c == '!') (by decide) c).symm

/-- Two texts begin with the same character, and with the same second character but for its case. -/
structure Alike (cs more : List Char) : Prop where
  head : more.head? = cs.head?
  next : more.tail.head?.map Char.toLower = cs.tail.head?.map Char.toLower

namespace Alike

private theorem eq_nil (h : Alike [] more) : more = [] := List.head?_eq_none_iff.1 h.head

theorem append (h : Alike cs more) (pre : List Char) : Alike (pre ++ cs) (pre ++ more) := by
  obtain _ | ⟨c, _ | ⟨d, pre⟩⟩ := pre
  · exact h
  · exact ⟨rfl, congrArg (Option.map Char.toLower) h.head⟩
  · exact ⟨rfl, rfl⟩

private theorem opens_eq (h : Alike cs more) : opens more = opens cs := by
  cases cs with
  | nil => rw [h.eq_nil]
  | cons c cs =>
    obtain ⟨more, rfl⟩ := List.head?_eq_some_iff.1 h.head
    have hname : startsName more = startsName cs := by
      rw [startsName_eq, startsName_eq]
      exact congrArg _ h.next
    rw [opens.eq_def, opens.eq_def]
    split
    · next heq =>
      cases heq
      rfl
    · next heq =>
      cases heq
      exact hname
    · next hbang hslash =>
      split
      · next heq => exact absurd (congrArg (· :: more) (List.cons.inj heq).1) (hbang _)
      · next heq => exact absurd (congrArg (· :: more) (List.cons.inj heq).1) (hslash _)
      · rfl

/-- Text ends before whatever begins as the markup after it. -/
private theorem cutText_append (h : Alike (cutText cs).2 more) :
    cutText ((cutText cs).1 ++ more) = ((cutText cs).1, more) := by
  induction cs with
  | nil => rw [h.eq_nil]; rfl
  | cons c cs ih =>
    rw [cutText] at h ⊢
    split
    · next hsign =>
      rw [if_pos hsign] at h
      obtain ⟨more, rfl⟩ := List.head?_eq_some_iff.1 h.head
      have hstarts : startsMarkup more = startsMarkup cs := by
        rw [startsMarkup_eq, startsMarkup_eq]
        exact congrArg _ h.next
      rw [List.nil_append, cutText, hstarts, if_pos hsign]
    · next hsign =>
      rw [if_neg hsign] at h
      have hstarts : startsMarkup ((cutText cs).1 ++ more) = startsMarkup cs := by
        refine startsMarkup_congr ?_
        rw [head?_append_congr _ h.head, Html.cutText_append]
      rw [List.cons_append, cutText, hstarts, if_neg hsign, ih h]

end Alike

/-- What follows an opening tag matters to the text of an element that holds text only, if it ends where nothing
can be read. -/
private theorem readOpening_stable (hletter : startsName cs = true)
    (h : readOpening cs = .ok (item, rest)) :
    ∃ pre, cs = pre ++ rest ∧ ∀ more, (rest = [] → more = []) →
      (∀ c cs e, rest = c :: cs → readItem c cs = .error e → more = c :: cs) →
      startsName (pre ++ more) = true ∧ readOpening (pre ++ more) = .ok (item, more) := by
  obtain ⟨t, after, htag⟩ := exists_readTagEnd h
  obtain ⟨name, hname, hnames, hlower⟩ := exists_name cs
  have hstops := stops_afterName cs
  obtain ⟨pre, hpre, hne, hstable⟩ := readTagEnd_stable htag
  have hstarts : startsName name = true := startsName_of_append hstops (by rwa [← hname])
  obtain ⟨d, pre, rfl⟩ := List.exists_cons_of_ne_nil hne
  rw [hpre] at hname hstops
  -- The tag, whatever follows it.
  have htagged (more : List Char) : startsName (name ++ (d :: pre ++ more)) = true ∧
      lowerName (name ++ (d :: pre ++ more)) = lowerName cs ∧
      readTagEnd [] (afterName (name ++ (d :: pre ++ more))) = .ok (t, more) := by
    have hends : Stops (fun c => !endsName c) (d :: pre ++ more) := hstops.congr rfl
    rw [lowerName_append hnames hends, afterName_append hnames hends]
    exact ⟨startsName_append hstarts, hlower.symm, hstable more⟩
  cases hraw : holdsText (lowerName cs) t with
  | true =>
    cases h.symm.trans (readOpening_raw htag hraw)
    obtain ⟨content, hcontent, hagain⟩ :=
      readRawText_stable (List.contains_iff_mem.1 (Bool.and_eq_true_iff.1 hraw).2) after
    refine ⟨name ++ (d :: pre ++ content), ?_, fun more hnil herror => ?_⟩
    · rw [List.append_assoc, List.append_assoc, ← hcontent]
      exact hname
    · obtain ⟨hstarts, hlower, htag⟩ := htagged (content ++ more)
      rw [List.append_assoc, List.append_assoc]
      rw [readOpening_raw htag (by rw [hlower]; exact hraw), hlower, hagain more hnil herror]
      exact ⟨hstarts, rfl⟩
  | false =>
    cases h.symm.trans (readOpening_plain htag hraw)
    refine ⟨name ++ d :: pre, by rw [List.append_assoc]; exact hname, fun more _ _ => ?_⟩
    obtain ⟨hstarts, hlower, htag⟩ := htagged more
    rw [List.append_assoc]
    rw [readOpening_plain htag (by rw [hlower]; exact hraw), hlower]
    exact ⟨hstarts, rfl⟩

/-- An item is read the same before all that begins as what follows it, unless that cannot be read. -/
theorem readItem_stable (h : readItem c cs = .ok (item, rest)) :
    ∃ pre, cs = pre ++ rest ∧ ∀ more, Alike rest more →
      (∀ c cs e, rest = c :: cs → readItem c cs = .error e → more = c :: cs) →
      readItem c (pre ++ more) = .ok (item, more) := by
  cases readsItem_of_readItem h with
  | @comment s _ hs =>
    refine ⟨'!' :: '-' :: '-' :: (s ++ ['-', '-', '>']), by simp, fun more _ _ => ?_⟩
    have hread := (ReadsItem.comment hs : ReadsItem _ _ _ more).readItem_eq
    simpa using hread
  | @declaration junk _ hcomment hjunk =>
    refine ⟨'!' :: (junk ++ ['>']), by simp, fun more _ _ => ?_⟩
    have hread := (ReadsItem.declaration hcomment hjunk : ReadsItem _ _ _ more).readItem_eq
    simpa using hread
  | @closing name junk _ hletter hname hstops hjunk =>
    refine ⟨'/' :: (name ++ (junk ++ ['>'])), by simp, fun more _ _ => ?_⟩
    have hends : Stops (fun c => !endsName c) (junk ++ '>' :: more) := by
      refine hstops.congr ?_
      cases junk <;> rfl
    have hread := (ReadsItem.closing hletter hname hends hjunk).readItem_eq
    simpa using hread
  | opening hletter hopening =>
    obtain ⟨pre, hpre, hstable⟩ := readOpening_stable hletter hopening
    refine ⟨pre, hpre, fun more hmore herror => ?_⟩
    obtain ⟨hstarts, hread⟩ := hstable more (fun hnil => (hnil ▸ hmore).eq_nil) herror
    rw [readItem_opening hstarts, hread]
  | text hsign =>
    refine ⟨(cutText cs).1, (cutText_append cs).symm, fun more hmore _ => ?_⟩
    have hopens : opens ((cutText cs).1 ++ more) = opens cs := by
      have halike := hmore.append (cutText cs).1
      rw [halike.opens_eq, cutText_append]
    have hread := (ReadsItem.text (c := c) fun heq => hopens.trans (hsign heq)).readItem_eq
    rwa [hmore.cutText_append] at hread

end LiveMarkup.Html
