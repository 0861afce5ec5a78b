import LiveMarkup.Proofs.Style.Compound

/-! Comments in the strings of style rules: those that end in the string that they begin in are all that is
removed, and every rule is kept. -/

namespace LiveMarkup.Style

variable {c quote : Char} {cs ds s s' t t' w w' rest body : List Char} {p : Char → Bool} {depth depth' : Nat}
  {selectors selectors' : List (List Char)} {r r' : Rule} {rules rules' : List Rule}

/-! Texts without their comments. -/

/-- A text in which every comment that begins also ends, and the text without its comments. -/
inductive Whole : List Char → List Char → Prop where
  | plain {cs : List Char} (h : Unmarked cs) : Whole cs cs
  | comment {front comment cs ds : List Char} (hfront : Unmarked front) (hcomment : ¬ ['*', '/'] <:+: comment)
    (h : Whole cs ds) :
    Whole (front ++ (['/', '*'] ++ (comment ++ (['*', '/'] ++ cs)))) (front ++ ds)

/-- A text in which comments begin in strings only and end in the same strings, and the text without them.
The strings are closed also without their comments. -/
inductive Stripped : List Char → List Char → Prop where
  | nil : Stripped [] []
  | char {c : Char} {cs ds : List Char} (hquote : isQuote c = false) (hslash : c = '/' → '*' ∉ cs.head?)
    (h : Stripped cs ds) : Stripped (c :: cs) (c :: ds)
  | string {quote : Char} {s s' cs ds : List Char} (hquote : isQuote quote = true) (hs : Quoted quote s)
    (hcomments : Whole s s') (hs' : Quoted quote s') (h : Stripped cs ds) :
    Stripped (quote :: (s ++ cs)) (quote :: (s' ++ ds))

private theorem stripComments_comment {front comment inner after : List Char}
    (h : Text.cut? ['/', '*'] cs = some (front, comment))
    (h' : Text.cut? ['*', '/'] comment = some (inner, after)) :
    stripComments cs = front ++ stripComments after := by
  rw [stripComments]
  split
  · next heq => cases h.symm.trans heq
  · next heq =>
    cases h.symm.trans heq
    split
    · next heq => cases h'.symm.trans heq
    · next heq =>
      cases h'.symm.trans heq
      rfl

private theorem stripComments_open {front comment : List Char}
    (h : Text.cut? ['/', '*'] cs = some (front, comment))
    (h' : Text.cut? ['*', '/'] comment = none) : stripComments cs = front := by
  rw [stripComments]
  split
  · next heq => cases h.symm.trans heq
  · next heq =>
    cases h.symm.trans heq
    split
    · rfl
    · next heq => cases h'.symm.trans heq

/-- A text without comments is kept before any other, unless a comment begins where they meet. -/
private theorem Unmarked.stripComments (h : Unmarked cs)
    (hseam : '/' ∉ cs.getLast? ∨ '*' ∉ rest.head?) :
    stripComments (cs ++ rest) = cs ++ stripComments rest := by
  have hcut : Text.cut? ['/', '*'] (cs ++ rest) =
      (Text.cut? ['/', '*'] rest).map fun x => (cs ++ x.1, x.2) := by
    refine Text.cut?_append_left (Text.cut?_eq_none h) fun u v huv hu hv hsuffix hprefix => ?_
    match u with
    | [] => exact hu rfl
    | [_] =>
      cases huv
      obtain ⟨cs, rfl⟩ := hsuffix
      obtain ⟨rest, rfl⟩ := hprefix
      simp at hseam
    | _ :: _ :: u => exact hv (List.append_eq_nil_iff.1 (List.cons_eq_cons.1 (List.cons_eq_cons.1 huv).2).2.symm).2
  cases hopen : Text.cut? ['/', '*'] rest with
  | none =>
    rw [hopen] at hcut
    rw [stripComments_none hcut, stripComments_none hopen]
  | some x =>
    obtain ⟨front, comment⟩ := x
    rw [hopen] at hcut
    cases hclose : Text.cut? ['*', '/'] comment with
    | none => rw [stripComments_open hcut hclose, stripComments_open hopen hclose]
    | some y => rw [stripComments_comment hcut hclose, stripComments_comment hopen hclose, List.append_assoc]

private theorem not_mem_getLast? (cs : List Char) (h : c ∉ (cs ++ ds).getLast?) :
    c ∉ ds.getLast? := by
  by_cases hne : ds = []
  · simp [hne]
  · rwa [List.getLast?_append_of_ne_nil _ hne] at h

private theorem getD_getLast?_ne {d : Char} (h : c ∉ cs.getLast?) (hd : d ≠ c) :
    cs.getLast?.getD d ≠ c := by
  cases hlast : cs.getLast? with
  | none => exact hd
  | some e => exact fun heq => h (hlast.trans (congrArg some heq))

private theorem Whole.stripComments (h : Whole cs ds) (hseam : '/' ∉ cs.getLast? ∨ '*' ∉ rest.head?) :
    stripComments (cs ++ rest) = ds ++ stripComments rest := by
  induction h with
  | plain h => exact h.stripComments hseam
  | @comment front comment cs ds hfront hcomment h ih =>
    have hopen : Text.cut? ['/', '*'] (front ++ (['/', '*'] ++ (comment ++ (['*', '/'] ++ (cs ++ rest))))) =
        some (front, comment ++ (['*', '/'] ++ (cs ++ rest))) :=
      Text.cut?_append _ (by decide) (by decide) hfront
    have hclose : Text.cut? ['*', '/'] (comment ++ (['*', '/'] ++ (cs ++ rest))) = some (comment, cs ++ rest) :=
      Text.cut?_append _ (by decide) (by decide) hcomment
    have hrest : '/' ∉ cs.getLast? ∨ '*' ∉ rest.head? :=
      hseam.imp_left fun hlast => not_mem_getLast? _ (by simpa only [← List.append_assoc] using hlast)
    have htext : front ++ (['/', '*'] ++ (comment ++ (['*', '/'] ++ cs))) ++ rest =
        front ++ (['/', '*'] ++ (comment ++ (['*', '/'] ++ (cs ++ rest)))) := by simp
    rw [htext, stripComments_comment hopen hclose, ih hrest, List.append_assoc]

private theorem Quoted.getLast? (h : Quoted quote s) : s.getLast? = some quote := by
  induction h with
  | close => rfl
  | escaped c h ih =>
    rw [List.getLast?_cons, List.getLast?_cons, ih]
    rfl
  | char _ _ h ih =>
    rw [List.getLast?_cons, ih]
    rfl

private theorem Quoted.slash (h : Quoted quote s) (hquote : isQuote quote = true) :
    '/' ∉ s.getLast? := by
  rw [h.getLast?]
  rintro ⟨⟩
  cases hquote

private theorem slash_append (hslash : c = '/' → '*' ∉ cs.head?)
    (hseam : '/' ∉ (c :: cs).getLast? ∨ '*' ∉ rest.head?) : c = '/' → '*' ∉ (cs ++ rest).head? := by
  intro hc
  cases cs with
  | nil => exact hseam.resolve_left fun hlast => hlast (congrArg some hc)
  | cons d cs => exact hslash hc

private theorem Stripped.stripComments (h : Stripped cs ds)
    (hseam : '/' ∉ cs.getLast? ∨ '*' ∉ rest.head?) :
    stripComments (cs ++ rest) = ds ++ stripComments rest := by
  induction h with
  | nil => rfl
  | @char c cs ds hquote hslash h ih =>
    have hfirst : '/' ∉ [c].getLast? ∨ '*' ∉ (cs ++ rest).head? := by
      by_cases hc : c = '/'
      · exact .inr (slash_append hslash hseam hc)
      · exact .inl fun hlast => hc (Option.some.inj hlast)
    have hrest := ih (hseam.imp_left fun hlast => not_mem_getLast? [c] hlast)
    have hstep : Style.stripComments ([c] ++ (cs ++ rest)) = [c] ++ Style.stripComments (cs ++ rest) :=
      unmarked_singleton.stripComments hfirst
    rw [← List.singleton_append, List.append_assoc, hstep, hrest]
    rfl
  | @string quote s s' cs ds hquote hs hcomments hs' h ih =>
    have hfirst : '/' ∉ [quote].getLast? := fun hlast => by
      obtain rfl := Option.some.inj hlast
      cases hquote
    have hrest := ih (hseam.imp_left fun hlast =>
      not_mem_getLast? (quote :: s) (by simpa only [List.cons_append] using hlast))
    have hstep : Style.stripComments ([quote] ++ (s ++ (cs ++ rest))) =
        [quote] ++ Style.stripComments (s ++ (cs ++ rest)) :=
      unmarked_singleton.stripComments (.inl hfirst)
    rw [← List.singleton_append, List.append_assoc, List.append_assoc, hstep,
      hcomments.stripComments (.inl (hs.slash hquote)), hrest]
    simp

/-! The parts of rules are found where they are without the comments. -/

private theorem Scan.next_outside (hquote : isQuote c = false) (depth : Nat) :
    ∃ depth', Scan.next ⟨.none, depth⟩ c = ⟨.none, depth'⟩ := by
  cases hopens : opensBracket c with
  | true => exact ⟨_, Scan.next_opens hopens⟩
  | false =>
    cases hcloses : closesBracket c with
    | true => exact ⟨_, Scan.next_closes hcloses⟩
    | false => exact ⟨_, Scan.next_closed hquote hopens hcloses⟩

private theorem Stripped.after (h : Stripped cs ds) :
    Scan.after ⟨.none, depth⟩ ds = Scan.after ⟨.none, depth⟩ cs := by
  induction h generalizing depth with
  | nil => rfl
  | @char c cs ds hquote _ _ ih =>
    obtain ⟨depth', hnext⟩ := Scan.next_outside hquote depth
    rw [Scan.after_cons, Scan.after_cons, hnext, ih]
  | string hquote hs _ hs' _ ih =>
    rw [← List.cons_append, ← List.cons_append, Scan.after_append, Scan.after_append, hs.after hquote,
      hs'.after hquote, ih]

/-- Where nothing is found in a text, nothing is found without the comments. -/
private theorem Stripped.cutTop? (h : Stripped cs ds) (hnone : cutTop? p ⟨.none, depth⟩ cs = none) :
    Style.cutTop? p ⟨.none, depth⟩ ds = none := by
  induction h generalizing depth with
  | nil => rfl
  | @char c cs ds hquote _ _ ih =>
    obtain ⟨depth', hnext⟩ := Scan.next_outside hquote depth
    rw [Style.cutTop?, hnext] at hnone ⊢
    split_ifs at hnone ⊢
    rw [ih (Option.map_eq_none_iff.1 hnone)]
    rfl
  | @string quote s s' cs ds hquote hs _ hs' _ ih =>
    rw [Style.cutTop?, Scan.next_quote hquote] at hnone ⊢
    split_ifs at hnone ⊢
    rw [hs.cutTop? hquote, Option.map_eq_none_iff, Option.map_eq_none_iff] at hnone
    rw [hs'.cutTop? hquote, ih hnone]
    rfl

private theorem Stripped.skips (h : Stripped cs ds) (hafter : Scan.start.after cs = .start)
    (hskips : Skips p cs) :
    Skips p ds := fun rest => by
  have hnone : Style.cutTop? p .start ds = none := h.cutTop? hskips.none_found
  have hstate : Scan.start.after ds = Scan.start.after cs := h.after
  rw [cutTop?_append hnone, hstate, hafter]

private theorem splitBlock_outside (hquote : isQuote c = false) (depth : Nat) :
    (c = '\x7d' ∧ depth = 0) ∨
    ∃ depth', ∀ cs, splitBlock .none depth (c :: cs) = before [c] (splitBlock .none depth' cs) := by
  cases hbrace : isBrace c with
  | false =>
    refine .inr ⟨depth, fun cs => ?_⟩
    rw [splitBlock_step (.inr hbrace), Quoting.next_closed, hquote]
    rfl
  | true =>
    simp only [isBrace, Bool.or_eq_true, beq_iff_eq] at hbrace
    obtain rfl | rfl := hbrace
    · exact .inr ⟨depth + 1, fun _ => rfl⟩
    · cases depth with
      | zero => exact .inl ⟨rfl, rfl⟩
      | succ depth => exact .inr ⟨depth, fun _ => rfl⟩

private theorem before_injective {β : Type} {x y : List Char × β} (h : before cs x = before cs y) :
    x = y := by
  obtain ⟨hfirst, hsecond⟩ := Prod.mk.inj h
  exact Prod.ext (List.append_cancel_left hfirst) hsecond

/-- Where the search for a closing brace passes over a text, it does so without the comments. -/
private theorem Stripped.splitBlock (h : Stripped cs ds) (hpasses : ∀ rest,
      splitBlock .none depth (cs ++ rest) = before cs (splitBlock .none depth' rest)) (rest : List Char) :
    Style.splitBlock .none depth (ds ++ rest) = before ds (Style.splitBlock .none depth' rest) := by
  -- Both texts have the same braces outside strings, and these alone change the depth.
  induction h generalizing depth with
  | nil => exact hpasses rest
  | @char c cs ds hquote _ _ ih =>
    obtain ⟨rfl, rfl⟩ | ⟨depth₁, hstep⟩ := splitBlock_outside hquote depth
    · cases congrArg Prod.fst (hpasses [])
    · have hrest (rest : List Char) :
          Style.splitBlock .none depth₁ (cs ++ rest) = before cs (Style.splitBlock .none depth' rest) := by
        have hwhole := hpasses rest
        rw [List.cons_append, hstep, ← List.singleton_append, ← before_before] at hwhole
        exact before_injective hwhole
      rw [List.cons_append, hstep, ih hrest, before_before]
      rfl
  | @string quote s s' cs ds hquote hs _ hs' _ ih =>
    have hstep {s : List Char} (hs : Quoted quote s) (cs : List Char) :
        Style.splitBlock .none depth (quote :: (s ++ cs)) =
          before (quote :: s) (Style.splitBlock .none depth cs) := by
      simpa using Passes.string hquote hs .nil depth cs
    have hrest (rest : List Char) :
        Style.splitBlock .none depth (cs ++ rest) = before cs (Style.splitBlock .none depth' rest) := by
      have hwhole := hpasses rest
      rw [List.cons_append, List.append_assoc, hstep hs, ← List.cons_append, ← before_before] at hwhole
      exact before_injective hwhole
    rw [List.cons_append, List.append_assoc, hstep hs', ih hrest, before_before]
    rfl

private theorem Stripped.passes (h : Stripped cs ds) (hpasses : Passes cs) : Passes ds := fun depth =>
  h.splitBlock (hpasses depth)

private theorem Stripped.head? (h : Stripped cs ds) : ds.head? = cs.head? := by
  cases h <;> rfl

private theorem Stripped.getLast? (h : Stripped cs ds) : ds.getLast? = cs.getLast? := by
  induction h with
  | nil => rfl
  | char _ _ _ ih => rw [List.getLast?_cons, List.getLast?_cons, ih]
  | string _ hs _ hs' _ ih =>
    rw [← List.cons_append, ← List.cons_append, List.getLast?_append, List.getLast?_append, ih,
      List.getLast?_cons, List.getLast?_cons, hs.getLast?, hs'.getLast?]

private theorem Stripped.trimmed (h : Stripped cs ds) (htrimmed : Trimmed cs) : Trimmed ds :=
  ⟨by rw [h.head?]; exact htrimmed.first, by rw [h.getLast?]; exact htrimmed.last⟩

/-! Texts that are put together of parts. -/

private theorem Stripped.append (h : Stripped cs ds) (h' : Stripped s s')
    (hseam : '/' ∉ cs.getLast? ∨ '*' ∉ s.head?) : Stripped (cs ++ s) (ds ++ s') := by
  induction h with
  | nil => exact h'
  | @char c cs ds hquote hslash _ ih =>
    exact .char hquote (slash_append hslash hseam)
      (ih (hseam.imp_left fun hlast => not_mem_getLast? [c] hlast))
  | @string quote s cs t ds hquote hs hcomments hs' _ ih =>
    rw [List.cons_append, List.append_assoc, List.cons_append, List.append_assoc]
    refine .string hquote hs hcomments hs' (ih (hseam.imp_left fun hlast => ?_))
    exact not_mem_getLast? (quote :: s) (by simpa only [List.cons_append] using hlast)

private theorem Blank.stripped (hw : Blank w) : Stripped w w := by
  induction w with
  | nil => exact .nil
  | cons c w ih =>
    obtain ⟨hc, hw⟩ := List.forall_mem_cons.1 hw
    exact .char (ordinary_of_blank hc).1 (fun heq => absurd heq (ne_of_blank hc (by decide))) (ih hw)

private theorem Blank.slash (hw : Blank w) : '/' ∉ w.getLast? := fun hlast =>
  ne_of_blank (hw _ (List.mem_of_getLast? hlast)) (by decide) rfl

/-- A part stands between white space, before a sign. -/
private theorem Stripped.between (hw : Blank w) (hs : Stripped s s') (hw' : Blank w')
    (hquote : isQuote c = false) (hslash : c ≠ '/') (hstar : c ≠ '*') (h : Stripped cs ds) :
    Stripped (w ++ (s ++ (w' ++ c :: cs))) (w ++ (s' ++ (w' ++ c :: ds))) := by
  have hsign : Stripped (c :: cs) (c :: ds) := .char hquote (fun heq => absurd heq hslash) h
  have hhead : '*' ∉ (w' ++ c :: cs).head? := by
    intro heq
    cases w' with
    | nil => exact hstar (Option.some.inj heq)
    | cons d w' => exact ne_of_blank (hw' d List.mem_cons_self) (by decide) (Option.some.inj heq)
  exact hw.stripped.append (hs.append (hw'.stripped.append hsign (.inl hw'.slash)) (.inr hhead)) (.inl hw.slash)

/-! Style rules. -/

/-- A selector in whose strings comments may stand, and the selector without them. -/
structure StripsSelector (s s' : List Char) : Prop where
  ne : s ≠ []
  trimmed : Trimmed s
  balanced : Balanced (fun c => c == ';' || c == ',') s
  stripped : Stripped s s'

private theorem StripsSelector.readable (h : StripsSelector s s') : Readable s :=
  ⟨h.ne, h.trimmed, h.balanced.skips_commas rfl, h.balanced.skips_stops rfl⟩

private theorem StripsSelector.readable_stripped (h : StripsSelector s s') : Readable s' := by
  refine ⟨?_, h.stripped.trimmed h.trimmed, h.stripped.skips (h.balanced.bracketed.after 0) h.readable.commas,
    h.stripped.skips (h.balanced.bracketed.after 0) h.readable.stops⟩
  rintro rfl
  exact h.ne (List.head?_eq_none_iff.1 h.stripped.head?.symm)

/-- A style rule in whose strings comments may stand, and the rule without them. -/
inductive Rule.Strips : Rule → Rule → Prop where
  | style {selectors selectors' : List (List Char)} {body body' : List Char} (hne : selectors ≠ [])
    (hselectors : List.Forall₂ StripsSelector selectors selectors')
    (hsign : ∀ s ∈ selectors.head?, ∀ c ∈ s.head?, c ≠ '@') (htrimmed : Trimmed body) (hblock : Block body)
    (hbody : Stripped body body') : Strips (.style selectors body) (.style selectors' body')

inductive Rule.Reads : Rule → Prop where
  | style {selectors : List (List Char)} {body : List Char} (hselectors : ∀ s ∈ selectors, Readable s)
    (hsign : ∀ s ∈ selectors.head?, ∀ c ∈ s.head?, c ≠ '@') (htrimmed : Trimmed body) (hblock : Passes body) :
    Reads (.style selectors body)

private theorem Rule.Strips.reads (h : r.Strips r') : r.Reads ∧ r'.Reads := by
  cases h with
  | @style selectors selectors' body body' hne hselectors hsign htrimmed hblock hbody =>
    have hleft := (List.forall₂_and_left ..).1 (hselectors.imp fun _ _ h => ⟨h.readable, h⟩)
    have hright := (List.forall₂_and_left ..).1 (hselectors.flip.imp fun _ _ h => ⟨h.readable_stripped, h⟩)
    have hsign' : ∀ s ∈ selectors'.head?, ∀ c ∈ s.head?, c ≠ '@' := by
      cases hselectors with
      | nil => exact nofun
      | cons hs =>
        rintro _ ⟨⟩
        rw [hs.stripped.head?]
        exact hsign _ rfl
    exact ⟨.style hleft.1 hsign htrimmed hblock.passes,
      .style hright.1 hsign' (hbody.trimmed htrimmed) (hbody.passes hblock.passes)⟩

/-- Style rules are read before any text. -/
private theorem Prints.readRules_append (h : Prints rules cs) (hrules : ∀ r ∈ rules, r.Reads) :
    Style.readRules (cs ++ rest) = rules ++ Style.readRules rest := by
  induction h with
  | nil hw => exact readRules_blank_append hw
  | style hw hs hw₁ hw₂ hw₃ h ih =>
    obtain ⟨hr, hrs⟩ := List.forall_mem_cons.1 hrules
    cases hr with
    | style hselectors hsign htrimmed hblock =>
      rw [List.cons_append, ← ih hrs, ← readRules_style hw hs hselectors hsign hw₁ hw₂ htrimmed hblock hw₃]
      simp
  | statement | group | verbatim => nomatch hrules _ List.mem_cons_self

private theorem Lists.stripped (h : Lists selectors cs)
    (hs : List.Forall₂ StripsSelector selectors selectors') :
    ∃ ds, Lists selectors' ds ∧ Stripped cs ds := by
  induction h generalizing selectors' with
  | single s =>
    cases hs with
    | cons hs hnil =>
      cases hnil
      exact ⟨_, .single _, hs.stripped⟩
  | cons hw hw' h ih =>
    cases hs with
    | cons hs hss =>
      obtain ⟨ds, hlists, hstripped⟩ := ih hss
      exact ⟨_, .cons hw hw' hlists, .between blank_nil hs.stripped hw rfl (by decide) (by decide)
        (hw'.stripped.append hstripped (.inl hw'.slash))⟩

/-- What is written of style rules is, without its comments, written of the rules without theirs. -/
private theorem Prints.stripped (h : Prints rules cs)
    (hrules : List.Forall₂ Rule.Strips rules rules') :
    ∃ ds, Prints rules' ds ∧ Stripped cs ds ∧ '/' ∉ cs.getLast? := by
  induction h generalizing rules' with
  | nil hw =>
    cases hrules
    exact ⟨_, .nil hw, hw.stripped, hw.slash⟩
  | style hw hs hw₁ hw₂ hw₃ h ih =>
    cases hrules with
    | cons hr hrs =>
      cases hr with
      | style hne hselectors hsign htrimmed hblock hbody =>
        obtain ⟨ss', hlists, hss⟩ := hs.stripped hselectors
        obtain ⟨ds, hprints, hstripped, hslash⟩ := ih hrs
        refine ⟨_, .style hw hlists hw₁ hw₂ hw₃ hprints, ?_, ?_⟩
        · refine .between hw hss hw₁ rfl (by decide) (by decide) ?_
          simpa using Stripped.between hw₂ hbody hw₃ rfl (by decide) (by decide) hstripped
        · simpa [List.getLast?_append, List.getLast?_cons] using getD_getLast?_ne hslash (by decide)
  | statement | group | verbatim =>
    cases hrules with
    | cons hr => nomatch hr

/-- Where comments stand in strings of style rules only, and end in the strings that they begin in, these
comments are all that is removed. Every rule is kept, and so is every rule of what follows. -/
theorem scope_comments {css rest attr : String} (hrules : List.Forall₂ Rule.Strips rules rules')
    (hcss : Prints rules css.toList) :
    scope (css ++ rest) attr = String.ofList (Text.trimEnd (rulesText (scopeRules attr.toList
        (rules' ++ readRules (stripComments rest.toList))))) ∧
      (Unmarked css.toList → rules' = rules) := by
  obtain ⟨ds, hprints, hstripped, hslash⟩ := hcss.stripped hrules
  have hreads := (List.forall₂_and_left ..).1 (hrules.imp fun _ _ h => ⟨h.reads.1, h⟩)
  have hreads' := (List.forall₂_and_left ..).1 (hrules.flip.imp fun _ _ h => ⟨h.reads.2, h⟩)
  refine ⟨?_, fun hunmarked => ?_⟩
  · rw [scope, String.toList_append, hstripped.stripComments (.inl hslash), hprints.readRules_append hreads'.1]
  · -- Both sheets are the same text, and it is read as the rules of either.
    have hds : ds = css.toList := by
      have hstrip : stripComments (css.toList ++ []) = ds ++ stripComments [] :=
        hstripped.stripComments (.inl hslash)
      rw [List.append_nil, stripComments_eq hunmarked, stripComments_eq blank_nil.unmarked, List.append_nil] at hstrip
      exact hstrip.symm
    have hread : readRules (css.toList ++ []) = rules ++ readRules [] := hcss.readRules_append hreads.1
    rw [← hds, hprints.readRules_append hreads'.1] at hread
    exact List.append_cancel_right hread

/-! Strings with comments, and with a sign that would end one. -/

private theorem Stripped.plain (cs : List Char) (h : ∀ c ∈ cs, isQuote c = false ∧ c ≠ '/')
    (hs : Stripped s s') :
    Stripped (cs ++ s) (cs ++ s') := by
  induction cs with
  | nil => exact hs
  | cons c cs ih =>
    obtain ⟨⟨hquote, hslash⟩, hcs⟩ := List.forall_mem_cons.1 h
    exact .char hquote (fun heq => absurd heq hslash) (ih hcs)

def commentedRules : List Rule :=
  [.style ["a[b=\"/* c */d\"]::before".toList, "p".toList] "content: \"x/*y*/\";\ntop: 0".toList,
    .style ["q".toList] "content: \"*/\"".toList]

def strippedRules : List Rule :=
  [.style ["a[b=\"d\"]::before".toList, "p".toList] "content: \"x\";\ntop: 0".toList,
    .style ["q".toList] "content: \"*/\"".toList]

def commentedSheet : String :=
  "a[b=\"/* c */d\"]::before,\tp\x7bcontent: \"x/*y*/\";\ntop: 0\n\x7dq \x7b content: \"*/\" \x7d"

private theorem prints_commentedSheet : Prints commentedRules commentedSheet.toList := by
  have hspace : Blank [' '] := by decide
  have hbreak : Blank ['\n'] := by decide
  have htab : Blank ['\t'] := by decide
  have h : Prints commentedRules _ :=
    .style blank_nil (.cons blank_nil htab (.single _)) blank_nil blank_nil hbreak <|
      .style blank_nil (.single _) hspace hspace hspace (.nil blank_nil)
  refine (congrArg (Prints commentedRules) ?_).mp h
  decide +kernel

private theorem strips_commentedRules : List.Forall₂ Rule.Strips commentedRules strippedRules := by
  have hvalue : Quoted '"' "/* c */d\"".toList := .plain "/* c */d".toList _ (forall_mem_of_all rfl) .close
  have hkept : Quoted '"' "d\"".toList := .plain "d".toList _ (forall_mem_of_all rfl) .close
  have hcomment : Whole ([] ++ (['/', '*'] ++ (" c ".toList ++ (['*', '/'] ++ "d\"".toList)))) "d\"".toList :=
    .comment (by decide) (by decide) (.plain (by decide))
  have hattribute : StripsSelector "a[b=\"/* c */d\"]::before".toList "a[b=\"d\"]::before".toList := by
    have hbrackets : Balanced (fun _ => false) "b=\"/* c */d\"".toList :=
      .plain "b=".toList _ (forall_mem_of_all rfl) (.string rfl hvalue .nil)
    refine ⟨by decide, by decide, ?_, ?_⟩
    · exact .plain "a".toList _ (forall_mem_of_all rfl)
        (.brackets rfl hbrackets rfl (.plain "::before".toList [] (forall_mem_of_all rfl) .nil))
    · exact .plain "a[b=".toList (forall_mem_of_all rfl)
        (.string rfl hvalue hcomment hkept (.plain "]::before".toList (forall_mem_of_all rfl) .nil))
  have hparagraph : StripsSelector "p".toList "p".toList :=
    ⟨by decide, by decide, .plain "p".toList [] (forall_mem_of_all rfl) .nil,
      .plain "p".toList (forall_mem_of_all rfl) .nil⟩
  have hquotation : StripsSelector "q".toList "q".toList :=
    ⟨by decide, by decide, .plain "q".toList [] (forall_mem_of_all rfl) .nil,
      .plain "q".toList (forall_mem_of_all rfl) .nil⟩
  have htext : Quoted '"' "x/*y*/\"".toList := .plain "x/*y*/".toList _ (forall_mem_of_all rfl) .close
  have hletter : Quoted '"' "x\"".toList := .plain "x".toList _ (forall_mem_of_all rfl) .close
  have hcomment' : Whole ("x".toList ++ (['/', '*'] ++ ("y".toList ++ (['*', '/'] ++ "\"".toList)))) "x\"".toList :=
    .comment (by decide) (by decide) (.plain (by decide))
  have hend : Quoted '"' "*/\"".toList := .plain "*/".toList _ (forall_mem_of_all rfl) .close
  refine .cons (.style (by decide) (.cons hattribute (.cons hparagraph .nil)) ?_ (by decide) ?_ ?_)
    (.cons (.style (by decide) (.cons hquotation .nil) ?_ (by decide) ?_ ?_) .nil)
  · rintro _ ⟨⟩ _ ⟨⟩
    decide
  · exact .plain "content: ".toList _ (forall_mem_of_all rfl) (.string rfl htext
      (.plain ";\ntop: 0".toList [] (forall_mem_of_all rfl) .nil))
  · exact .plain "content: ".toList (forall_mem_of_all rfl) (.string rfl htext hcomment' hletter
      (.plain ";\ntop: 0".toList (forall_mem_of_all rfl) .nil))
  · rintro _ ⟨⟩ _ ⟨⟩
    decide
  · exact .plain "content: ".toList _ (forall_mem_of_all rfl) (.string rfl hend .nil)
  · exact .plain "content: ".toList (forall_mem_of_all rfl) (.string rfl hend (.plain (by decide)) hend .nil)

theorem scope_comments_sample : List.Forall₂ Rule.Strips commentedRules strippedRules ∧
    Prints commentedRules commentedSheet.toList ∧
    scope (commentedSheet ++ " /* e */ r \x7b top: 1 \x7d") "s" =
      "a[b=\"d\"][s]::before, p[s] \x7b content: \"x\";\ntop: 0 \x7d\nq[s] \x7b content: \"*/\" \x7d\n" ++
        "r[s] \x7b top: 1 \x7d" := by
  refine ⟨strips_commentedRules, prints_commentedSheet, ?_⟩
  rw [(scope_comments strips_commentedRules prints_commentedSheet).1]
  decide +kernel

/-- A comment that begins in a string and ends nowhere. -/
theorem comment_in_string_open :
    scope "a::before \x7b content: \"/*\"; \x7d b \x7b top: 0 \x7d" "s" = "a[s]::before \x7b content: \" \x7d" := by
  decide +kernel

end LiveMarkup.Style
