import LiveMarkup.Proofs.Html.Slotted

/-! The items of markup with slots are the same, but for the slots in them, whatever fills the slots
without the signs that end a text or a value. -/

namespace LiveMarkup.Html

open Slotted

variable {ι α : Type} {u v : ι → List Char} {m : Slotted ι} {cs pre rest after more content : List Char}
  {c : Char} {zs : List Zone} {tag : String} {item : Item}

inductive SlottedItem (ι : Type) where
  | text (s : Slotted ι)
  | comment (s : String)
  | declaration
  | opening (tag : String) (attributes : List (String × Slotted ι))
  | whole (tag : String) (attributes : List (String × Slotted ι)) (content : List Char)
  | closing (tag : String)

def SlottedItem.attributes : SlottedItem ι → List (String × Slotted ι)
  | .opening _ attributes => attributes
  | .whole _ attributes _ => attributes
  | _ => []

/-- The slots of the item may lie where they lie: those of a text are not left empty. -/
def SlottedItem.Fits (u : ι → List Char) : SlottedItem ι → Prop
  | .text s => Within u s (List.replicate s.length .text)
  | _ => True

def SlottedItem.fill (u : ι → List Char) : SlottedItem ι → Item
  | .text s => .text (String.ofList (s.fill u))
  | .comment s => .comment s
  | .declaration => .declaration
  | .opening tag attributes => .opening tag (fillAttributes u attributes)
  | .whole tag attributes content => .whole tag (fillAttributes u attributes) content
  | .closing tag => .closing tag

/-! Opening tags, with the text of elements that hold text only. -/

/-- A closing tag without an end cannot be read. -/
private theorem readItem_unclosed (htag : tag ∈ rawTextTags) (h : '>' ∉ rest) :
    readItem '<' ('/' :: (tag.toList ++ rest)) = .error .expectedEnd := by
  have hname : startsName tag.toList = true ∧ '>' ∉ tag.toList := by
    revert tag
    decide
  have hnone : Text.cut? ['>'] (afterName (tag.toList ++ rest)) = none := by
    refine Text.cut?_eq_none fun hinfix => ?_
    rw [List.singleton_infix_iff] at hinfix
    have hmem := (List.dropWhile_suffix _).subset hinfix
    rw [List.mem_append] at hmem
    exact hmem.elim hname.2 h
  rw [readItem_closing (startsName_append hname.1), hnone]

/-- The text of an element that holds text only ends with its closing tag or with the markup, unless what
follows cannot be read. -/
theorem readRawText_stable (htag : tag ∈ rawTextTags) (rest : List Char) :
    ∃ pre, rest = pre ++ (readRawText tag rest).2 ∧
      ∀ more, ((readRawText tag rest).2 = [] → more = []) →
        (∀ c cs e, (readRawText tag rest).2 = c :: cs → readItem c cs = .error e → more = c :: cs) →
        readRawText tag (pre ++ more) = ((readRawText tag rest).1, more) := by
  cases hcut : Text.cut? ("</".toList ++ tag.toList) rest with
  | none =>
    have hread : readRawText tag rest = (rest, []) := by rw [readRawText, hcut]
    rw [hread]
    refine ⟨rest, (List.append_nil _).symm, fun more hmore _ => ?_⟩
    rw [hmore rfl, List.append_nil, hread]
  | some parts =>
    obtain ⟨content, after⟩ := parts
    have hcontent := Text.not_infix_before (by simp) hcut
    have hrest := Text.cut?_eq_some hcut
    have hagain (after : List Char) :
        Text.cut? ("</".toList ++ tag.toList) (content ++ ("</".toList ++ tag.toList ++ after)) =
          some (content, after) :=
      Text.cut?_append ('<' :: '/' :: tag.toList) (borderless_close tag htag)
        (List.cons_ne_nil _ _) hcontent
    cases hend : Text.cut? ['>'] after with
    | none =>
      have hread : readRawText tag rest = (content, "</".toList ++ tag.toList ++ after) := by
        rw [readRawText, hcut]
        simp only [hend]
      have hclose := Text.not_infix_of_cut?_eq_none hend
      rw [List.singleton_infix_iff] at hclose
      have hwhole : content ++ ("</".toList ++ tag.toList ++ after) = rest := by
        rw [hrest, List.append_assoc content]
      rw [hread]
      refine ⟨content, hwhole.symm, fun more _ hmore => ?_⟩
      have hsame : more = "</".toList ++ tag.toList ++ after :=
        hmore '<' ('/' :: (tag.toList ++ after)) _ rfl (readItem_unclosed htag hclose)
      rw [hsame, hwhole, hread]
    | some ends =>
      obtain ⟨junk, last⟩ := ends
      obtain ⟨hafter, hjunk⟩ := cut?_char hend
      have hread : readRawText tag rest = (content, last) := by
        rw [readRawText, hcut]
        simp only [hend]
      rw [hread]
      refine ⟨content ++ ("</".toList ++ tag.toList ++ (junk ++ ['>'])), ?_, fun more _ _ => ?_⟩
      · rw [hrest, hafter]
        simp
      · rw [readRawText, show content ++ ("</".toList ++ tag.toList ++ (junk ++ ['>'])) ++ more =
          content ++ ("</".toList ++ tag.toList ++ (junk ++ '>' :: more)) by simp, hagain]
        simp only [Text.cut?_singleton hjunk]

/-- What cannot be read has no slots. -/
private theorem Slotted.Within.fill_of_error {e : Malformed} (h : Within sample m (zones (c :: cs)))
    (hread : readItem c cs = .error e) (hcs : fill sample m = c :: cs) (u : ι → List Char) :
    fill u m = c :: cs := by
  rw [zones_error hread, ← List.append_nil (skipped _ _)] at h
  obtain ⟨m', rfl, hm', -⟩ := h.markup hcs (List.append_nil _).symm
  rw [← List.length_eq_zero_iff, length_fill_sample, List.length_eq_zero_iff] at hm'
  rw [hm', List.append_nil, fill_literal]

/-- An opening tag is read the same up to its end, but for the slots in its values. -/
private theorem readTag_slotted {t : TagEnd} (hletter : startsName cs = true)
    (htag : readTagEnd [] (afterName cs) = .ok (t, rest)) (hcs : fill sample m = cs)
    (hm : Within sample m (skipped cs (afterName cs) ++ (tagZones (afterName cs) ++ zs))) :
    ∃ as m', t.attributes = fillAttributes sample as ∧ fill sample m' = rest ∧ m' <:+ m ∧
      (∀ a ∈ as, m.Encloses a.2) ∧ ∀ {u : ι → List Char}, Tame u →
        Within u m (skipped cs (afterName cs) ++ (tagZones (afterName cs) ++ zs)) →
        startsName (fill u m) = true ∧ lowerName (fill u m) = lowerName cs ∧
          readTagEnd [] (afterName (fill u m)) =
            .ok (⟨fillAttributes u as, t.selfClosing⟩, fill u m') ∧
          Within u m' zs := by
  obtain ⟨name, hname, hnames, hlower⟩ := exists_name cs
  have hstops := stops_afterName cs
  have hstarts : startsName name = true := startsName_of_append hstops (by rwa [← hname])
  generalize afterName cs = assigned at *
  obtain ⟨m₁, rfl, rfl, hkeep⟩ := hm.markup hcs hname
  obtain ⟨as, m', has, hm', hafter, hvalues, htagu⟩ :=
    readTagEnd_slotted htag (fillAttributes_nil sample) rfl (hkeep hm)
  have hm₁ : m₁ <:+ literal name ++ m₁ := List.suffix_append ..
  refine ⟨as, m', has, hm', hafter.trans hm₁, fun a ha => ?_, fun {u} hu h => ?_⟩
  · exact ((hvalues a ha).resolve_left List.not_mem_nil).mono hm₁
  have hstopsu := hstops.congr ((hkeep hm).head?_fill_tag u)
  rw [fill_append, fill_literal, lowerName_append hnames hstopsu, afterName_append hnames hstopsu]
  exact ⟨startsName_append hstarts, hlower.symm, htagu hu (hkeep h)⟩

private theorem readOpening_slotted (hletter : startsName cs = true)
    (hread : readOpening cs = .ok (item, after)) (hcs : fill sample m = cs)
    (hm : Within sample m (openingZones cs ++ zones after)) :
    ∃ (i : SlottedItem ι) (m' : Slotted ι), item = i.fill sample ∧ fill sample m' = after ∧
      m' <:+ m ∧ (∀ a ∈ i.attributes, m.Encloses a.2) ∧ (∀ u : ι → List Char, i.Fits u) ∧
      ∀ {u : ι → List Char}, Tame u → Within u m (openingZones cs ++ zones after) →
        startsName (fill u m) = true ∧ readOpening (fill u m) = .ok (i.fill u, fill u m') ∧
          Within u m' (zones after) := by
  obtain ⟨t, rest, htag⟩ := exists_readTagEnd hread
  rw [openingZones_eq htag, List.append_assoc, List.append_assoc] at hm ⊢
  cases hraw : holdsText (lowerName cs) t with
  | true =>
    cases hread.symm.trans (readOpening_raw htag hraw)
    rw [hraw, if_pos rfl] at hm
    rw [if_pos rfl]
    obtain ⟨pre, hpre, hagain⟩ :=
      readRawText_stable (List.contains_iff_mem.1 (Bool.and_eq_true_iff.1 hraw).2) rest
    generalize hr : readRawText (lowerName cs) rest = r at *
    obtain ⟨as, m₁, has, hm₁, hafter, hvalues, htagu⟩ := readTag_slotted hletter htag hcs hm
    obtain ⟨m', rfl, hm', hkeep⟩ := (htagu tame_sample hm).2.2.2.markup hm₁ hpre
    refine ⟨.whole (lowerName cs) as r.1, m', by rw [has]; rfl, hm',
      (List.suffix_append ..).trans hafter, hvalues, fun _ => trivial, fun {u} hu h => ?_⟩
    obtain ⟨hstarts, hlower, htagu', hwithin⟩ := htagu hu h
    refine ⟨hstarts, ?_, hkeep hwithin⟩
    have hrawu : readRawText (lowerName cs) (fill u (literal pre ++ m')) = (r.1, fill u m') := by
      rw [fill_append, fill_literal]
      refine hagain _ (fun hnil => ?_) fun c cs e hrest herror => ?_
      · rw [hnil, ← List.length_eq_zero_iff, length_fill_sample, List.length_eq_zero_iff] at hm'
        rw [hm', fill_nil]
      · have hsample := hkeep (htagu tame_sample hm).2.2.2
        rw [hrest] at hsample hm'
        exact hsample.fill_of_error herror hm' u
    rw [readOpening_raw htagu' (by rw [hlower]; exact hraw), hlower, hrawu]
    rfl
  | false =>
    cases hread.symm.trans (readOpening_plain htag hraw)
    rw [hraw, if_neg Bool.false_ne_true, List.nil_append] at hm
    rw [if_neg Bool.false_ne_true, List.nil_append]
    obtain ⟨as, m', has, hm', hafter, hvalues, htagu⟩ := readTag_slotted hletter htag hcs hm
    refine ⟨if t.selfClosing || isVoid (lowerName cs) then .whole (lowerName cs) as []
      else .opening (lowerName cs) as, m', by rw [has]; split <;> rfl, hm', hafter, ?_,
      fun u => ?_, fun {u} hu h => ?_⟩
    · split <;> exact hvalues
    · split <;> trivial
    · obtain ⟨hstarts, hlower, htagu, hwithin⟩ := htagu hu h
      refine ⟨hstarts, ?_, hwithin⟩
      rw [readOpening_plain htagu (by rw [hlower]; exact hraw), hlower]
      split <;> rfl

/-! Text. -/

/-- Where the sample does not begin with a letter there is no slot, so that the first character is
the same however the slots are filled. -/
private theorem head?_fill_of_stops (h : Stops Char.isAlpha (fill sample m)) (u : ι → List Char) :
    (fill u m).head? = (fill sample m).head? := by
  cases m with
  | nil => rfl
  | cons p m =>
    cases p with
    | inl c => rfl
    | inr k => exact absurd (stops_cons.1 h) (by decide)

private theorem stops_of_startsName (h : startsName cs = false) : Stops Char.isAlpha cs := by
  cases cs with
  | nil => nofun
  | cons c cs => exact stops_cons.2 h

private theorem startsName_congr (h : pre.head? = cs.head?) : startsName pre = startsName cs := by
  cases pre <;> cases cs <;> simp_all [startsName]

theorem startsMarkup_congr (h : pre.head? = cs.head?) : startsMarkup pre = startsMarkup cs := by
  cases pre <;> cases cs <;> simp_all [startsMarkup]

private theorem stops_of_startsMarkup (h : startsMarkup cs = false) : Stops Char.isAlpha cs := by
  cases cs with
  | nil => nofun
  | cons c cs =>
    simp only [startsMarkup, Bool.or_eq_false_iff] at h
    exact stops_cons.2 h.1.1

private theorem opens_fill (h : opens (fill sample m) = false) (u : ι → List Char) :
    opens (fill u m) = false := by
  cases m with
  | nil => rfl
  | cons p m =>
    cases p with
    | inr k => cases h
    | inl c =>
      rw [fill_inl] at h ⊢
      rw [opens.eq_def] at h ⊢
      split at h
      · cases h
      · next heq =>
        obtain ⟨rfl, rfl⟩ := List.cons.inj heq
        exact (startsName_congr (head?_fill_of_stops (stops_of_startsName h) u)).trans h
      · next hbang hslash =>
        split
        · next heq => exact absurd (congrArg (· :: fill sample m) (List.cons.inj heq).1) (hbang _)
        · next heq => exact absurd (congrArg (· :: fill sample m) (List.cons.inj heq).1) (hslash _)
        · exact h

/-- Text ends at the same sign, however its slots are filled. -/
private theorem cutText_slotted (m : Slotted ι) :
    ∃ w m', m = w ++ m' ∧ fill sample w = (cutText (fill sample m)).1 ∧
      fill sample m' = (cutText (fill sample m)).2 ∧
      ∀ {u : ι → List Char}, Tame u →
        (∀ r, m' = .inl '<' :: r → (fill u r).head? = (fill sample r).head?) →
        cutText (fill u m) = (fill u w, fill u m') := by
  induction m with
  | nil => exact ⟨[], [], rfl, rfl, rfl, fun _ _ => rfl⟩
  | cons p m ih =>
    obtain ⟨w, m', hm, hw, hm', hcut⟩ := ih
    cases p with
    | inr k =>
      refine ⟨.inr k :: w, m', by rw [hm, List.cons_append], ?_, ?_, fun {u} hu hstop => ?_⟩
      · rw [fill_inr, fill_inr, cutText_plain (by simp [sample]), hw]
      · rw [fill_inr, cutText_plain (by simp [sample]), hm']
      · rw [fill_inr, fill_inr, cutText_plain fun h => (hu k _ h).1 rfl, hcut hu hstop]
    | inl c =>
      by_cases hsign : (c == '<' && startsMarkup (fill sample m)) = true
      · have hsample : cutText (c :: fill sample m) = ([], c :: fill sample m) := by
          rw [cutText, if_pos hsign]
        refine ⟨[], .inl c :: m, rfl, by rw [fill_inl, hsample]; rfl, by rw [fill_inl, hsample],
          fun {u} hu hstop => ?_⟩
        obtain ⟨hc, hstarts⟩ := Bool.and_eq_true_iff.1 hsign
        obtain rfl := beq_iff_eq.1 hc
        rw [fill_inl, cutText, startsMarkup_congr (hstop m rfl), if_pos hsign, fill_nil]
      · have hsigns (u : ι → List Char) : ¬ (c == '<' && startsMarkup (fill u m)) = true := by
          rintro hu
          obtain ⟨hc, hstarts⟩ := Bool.and_eq_true_iff.1 hu
          rw [hc, Bool.true_and, Bool.not_eq_true] at hsign
          rw [startsMarkup_congr (head?_fill_of_stops (stops_of_startsMarkup hsign) u), hsign] at hstarts
          cases hstarts
        refine ⟨.inl c :: w, m', by rw [hm, List.cons_append], ?_, ?_, fun {u} hu hstop => ?_⟩
        · rw [fill_inl, fill_inl, cutText, if_neg (hsigns _), hw]
        · rw [fill_inl, cutText, if_neg (hsigns _), hm']
        · rw [fill_inl, fill_inl, cutText, if_neg (hsigns _), hcut hu hstop]

/-! Items. -/

/-- No slot follows a sign that begins markup, for its sample would be the name of a tag. -/
private theorem head?_fill_after_sign
    (h : Within sample (.inl '<' :: m) (zones ('<' :: fill sample m))) (u : ι → List Char) :
    (fill u m).head? = (fill sample m).head? := by
  cases m with
  | nil => rfl
  | cons p m =>
    cases p with
    | inl c => rfl
    | inr k =>
      have hread : readItem '<' ('x' :: fill sample m) = readOpening ('x' :: fill sample m) :=
        readItem_opening rfl
      obtain ⟨ys, hzones⟩ : ∃ ys, zones ('<' :: 'x' :: fill sample m) = .markup :: .markup :: ys := by
        cases hopening : readOpening ('x' :: fill sample m) with
        | error e => exact ⟨_, zones_error (hread.trans hopening)⟩
        | ok r =>
          have hhead : (openingZones ('x' :: fill sample m) ++ zones r.2).head? = some .markup :=
            head?_openingZones (by decide)
          obtain ⟨ys, hys⟩ := List.head?_eq_some_iff.1 hhead
          refine ⟨ys, ?_⟩
          rw [zones_cons (hread.trans hopening), itemZones_opening hopening, List.cons_append, hys]
      rw [show fill sample (.inr k :: m) = 'x' :: fill sample m from rfl, hzones] at h
      obtain _ | ⟨-, h⟩ := h
      obtain _ | ⟨hfit, -⟩ := h
      cases hfit

/-- What is put into a slot at the beginning of a text is not empty. -/
private theorem Slotted.Within.ne_nil {u : ι → List Char} {k : ι} {w : Slotted ι} {n : Nat}
    (h : Within u (.inr k :: w) (List.replicate n .text)) : u k ≠ [] := by
  cases n with
  | zero => cases h
  | succ n =>
    obtain _ | ⟨hfit, -⟩ := h
    cases hfit
    assumption

/-- Text keeps its slots. -/
private theorem readItem_slotted_text (hsign : c = '<' → opens cs = false)
    (hcs : fill sample m = c :: cs) (hm : Within sample m (zones (c :: cs))) :
    ∃ w m' : Slotted ι, fill sample w = c :: (cutText cs).1 ∧ fill sample m' = (cutText cs).2 ∧
      m' <:+ m ∧ ∀ {u : ι → List Char}, Tame u → Within u m (zones (c :: cs)) →
        Within u m' (zones (cutText cs).2) ∧ (SlottedItem.text w).Fits u ∧
          items (fill u m) =
            (.text (String.ofList (fill u w)) :: (items (fill u m')).1, (items (fill u m')).2) := by
  obtain ⟨p, b, rfl, hp, rfl⟩ := exists_of_fill_cons hcs
  obtain ⟨w, m', rfl, hw, hm', hcut⟩ := cutText_slotted b
  have hread := (ReadsItem.text hsign).readItem_eq
  have hzones := zones_cons hread
  have hlength : (p :: w).length = (List.replicate ((c :: fill sample (w ++ m')).length -
      (cutText (fill sample (w ++ m'))).2.length) Zone.text).length := by
    rw [List.length_replicate, ← hm', List.length_cons, List.length_cons, fill_append,
      List.length_append, length_fill_sample]
    omega
  rw [hzones, itemZones, ← List.cons_append] at hm ⊢
  have hstop (u : ι → List Char) (r : Slotted ι) (hr : m' = .inl '<' :: r) :
      (fill u r).head? = (fill sample r).head? := by
    have hafter := (Slotted.Within.of_append hm hlength).2
    rw [← hm', hr] at hafter
    exact head?_fill_after_sign hafter u
  refine ⟨p :: w, m', ?_, hm', List.suffix_append (p :: w) m', fun {u} hu h =>
    ⟨(Slotted.Within.of_append h hlength).2, ?_, ?_⟩⟩
  · rw [← List.singleton_append, fill_append, hp, hw]
    rfl
  · rw [SlottedItem.Fits, hlength, List.length_replicate]
    exact (Slotted.Within.of_append h hlength).1
  · have hcutu := hcut hu (hstop u)
    cases p with
    | inl d =>
      obtain rfl := List.singleton_inj.1 hp
      have hreadu := (ReadsItem.text fun heq => opens_fill (hsign heq) u).readItem_eq
      rw [List.cons_append, fill_inl, fill_inl, items_cons hreadu, hcutu]
    | inr k =>
      have hne := (Slotted.Within.of_append h hlength).1.ne_nil
      obtain ⟨d, ds, hd⟩ := List.exists_cons_of_ne_nil hne
      have htame := hu k
      rw [hd, List.forall_mem_cons] at htame
      have hreadu : readItem d (ds ++ fill u (w ++ m')) = _ :=
        (ReadsItem.text fun heq => absurd heq htame.1.1).readItem_eq
      rw [List.cons_append, fill_inr, fill_inr, hd, List.cons_append, List.cons_append,
        items_cons hreadu, cutText_plain fun hmem => (htame.2 _ hmem).1 rfl, hcutu]

/-- An item without text or value is read the same, whatever follows it. -/
private theorem readItem_slotted_markup {l : List Char} (hcs : fill sample m = cs)
    (hpre : cs = l ++ after) (hm : Within sample m (skipped cs after ++ zones after))
    (hread : ∀ more, ∃ d ds, l ++ more = d :: ds ∧ readItem d ds = .ok (item, more)) :
    ∃ m' : Slotted ι, fill sample m' = after ∧ m' <:+ m ∧ ∀ {u : ι → List Char},
      Within u m (skipped cs after ++ zones after) → Within u m' (zones after) ∧
        items (fill u m) = (item :: (items (fill u m')).1, (items (fill u m')).2) := by
  obtain ⟨m', rfl, hm', hkeep⟩ := hm.markup hcs hpre
  refine ⟨m', hm', List.suffix_append .., fun {u} h => ⟨hkeep h, ?_⟩⟩
  obtain ⟨d, ds, heq, hitem⟩ := hread (fill u m')
  rw [fill_append, fill_literal, heq]
  exact items_cons hitem

private theorem readItem_slotted (hread : readItem c cs = .ok (item, after))
    (hcs : fill sample m = c :: cs) (hm : Within sample m (zones (c :: cs))) :
    ∃ (i : SlottedItem ι) (m' : Slotted ι), item = i.fill sample ∧ fill sample m' = after ∧
      m' <:+ m ∧ (∀ a ∈ i.attributes, m.Encloses a.2) ∧
      ∀ {u : ι → List Char}, Tame u → Within u m (zones (c :: cs)) →
        Within u m' (zones after) ∧ i.Fits u ∧
          items (fill u m) = (i.fill u :: (items (fill u m')).1, (items (fill u m')).2) := by
  have hzones := zones_cons hread
  cases readsItem_of_readItem hread with
  | @comment s _ hs =>
    rw [hzones] at hm ⊢
    obtain ⟨m', hm', hafter, hreads⟩ := readItem_slotted_markup
      (l := '<' :: '!' :: '-' :: '-' :: (s ++ ['-', '-', '>'])) hcs (by simp) hm
      fun more => ⟨_, _, by simp, (ReadsItem.comment hs).readItem_eq⟩
    exact ⟨.comment (String.ofList s), m', rfl, hm', hafter, nofun,
      fun _ h => ⟨(hreads h).1, trivial, (hreads h).2⟩⟩
  | @declaration junk _ hcomment hjunk =>
    rw [hzones] at hm ⊢
    obtain ⟨m', hm', hafter, hreads⟩ := readItem_slotted_markup (l := '<' :: '!' :: (junk ++ ['>'])) hcs
      (by simp) hm fun more => ⟨_, _, by simp, (ReadsItem.declaration hcomment hjunk).readItem_eq⟩
    exact ⟨.declaration, m', rfl, hm', hafter, nofun,
      fun _ h => ⟨(hreads h).1, trivial, (hreads h).2⟩⟩
  | @closing name junk _ hletter hname hstops hjunk =>
    have hstops' (more : List Char) : Stops (fun c => !endsName c) (junk ++ '>' :: more) :=
      hstops.congr (by cases junk <;> rfl)
    rw [hzones] at hm ⊢
    obtain ⟨m', hm', hafter, hreads⟩ := readItem_slotted_markup
      (l := '<' :: '/' :: (name ++ (junk ++ ['>']))) hcs (by simp) hm
      fun more => ⟨_, _, by simp, (ReadsItem.closing hletter hname (hstops' more) hjunk).readItem_eq⟩
    exact ⟨.closing (Text.lower (String.ofList name)), m', rfl, hm', hafter, nofun,
      fun _ h => ⟨(hreads h).1, trivial, (hreads h).2⟩⟩
  | opening hletter hopening =>
    rw [hzones, itemZones_opening hopening] at hm ⊢
    obtain ⟨p, b, rfl, hp, hb⟩ := exists_of_fill_cons hcs
    obtain _ | ⟨hfit, hwithin⟩ := hm
    cases hfit
    obtain rfl : _ = '<' := List.singleton_inj.1 hp
    obtain ⟨i, m', hi, hm', hafter, hvalues, hfits, hreads⟩ :=
      readOpening_slotted hletter hopening hb hwithin
    have hb' : b <:+ .inl '<' :: b := List.suffix_cons ..
    refine ⟨i, m', hi, hm', hafter.trans hb', fun a ha => (hvalues a ha).mono hb', fun {u} hu h => ?_⟩
    obtain _ | ⟨-, h⟩ := h
    obtain ⟨hstarts, hreadu, hwithinu⟩ := hreads hu h
    exact ⟨hwithinu, hfits u, items_cons (ReadsItem.opening hstarts hreadu).readItem_eq⟩
  | text hsign =>
    obtain ⟨w, m', hw, hm', hafter, hreads⟩ := readItem_slotted_text hsign hcs hm
    exact ⟨.text w, m', by rw [← hw]; rfl, hm', hafter, nofun, hreads⟩

/-- The items of markup, and why it cannot be read to its end. -/
theorem items_slotted (hcs : fill sample m = cs) (hm : Within sample m (zones cs)) :
    ∃ is : List (SlottedItem ι), (items cs).1 = is.map (SlottedItem.fill sample) ∧
      (∀ i ∈ is, ∀ a ∈ i.attributes, m.Encloses a.2) ∧
      ∀ {u : ι → List Char}, Tame u → Within u m (zones cs) → (∀ i ∈ is, i.Fits u) ∧
        items (fill u m) = (is.map (SlottedItem.fill u), (items cs).2) := by
  fun_induction items cs generalizing m with
  | case1 =>
    rw [← List.length_eq_zero_iff, length_fill_sample, List.length_eq_zero_iff] at hcs
    subst hcs
    exact ⟨[], rfl, nofun, fun _ _ => ⟨nofun, by rw [fill_nil, items]; rfl⟩⟩
  | case2 c cs e hread =>
    refine ⟨[], rfl, nofun, fun {u} _ _ => ⟨nofun, ?_⟩⟩
    rw [hm.fill_of_error hread hcs u, items]
    split
    · next he =>
      cases hread.symm.trans he
      rfl
    · next heq => cases hread.symm.trans heq
  | case3 c cs item rest hread =>
    rename_i ih
    obtain ⟨i, m', hi, hm', hafter, hvalues, hreads⟩ := readItem_slotted hread hcs hm
    obtain ⟨is, his, hrest, hitems⟩ := ih hm' (hreads tame_sample hm).1
    refine ⟨i :: is, by rw [List.map_cons, hi, ← his], ?_, fun {u} hu h => ?_⟩
    · exact List.forall_mem_cons.2 ⟨hvalues, fun i hi a ha => (hrest i hi a ha).mono hafter⟩
    · obtain ⟨hwithin, hfits, hu'⟩ := hreads hu h
      obtain ⟨hall, hrestu⟩ := hitems hu hwithin
      exact ⟨List.forall_mem_cons.2 ⟨hfits, hall⟩, by rw [hu', hrestu, List.map_cons]⟩

end LiveMarkup.Html
