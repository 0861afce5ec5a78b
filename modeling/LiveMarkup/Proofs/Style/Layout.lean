import LiveMarkup.Proofs.Style.Sheet
import LiveMarkup.Proofs.Text.Line

/-! The layout of a scoped style sheet: one rule after another, and those of a block two columns
further in. -/

namespace LiveMarkup.Style

variable {c : Char} {cs ds s t w attr text : List Char} {r : Rule} {rules rs : List Rule}
  {selectors : List (List Char)}

/-- Every line of a text after the first one two columns further in, those within strings as well. -/
def insetText (cs : List Char) : List Char :=
  cs.flatMap fun c => if c = '\n' then ['\n', ' ', ' '] else [c]

mutual

def Rule.inset : Rule → Rule
  | .statement text => .statement (insetText text)
  | .style selectors body => .style (selectors.map insetText) (insetText body)
  | .group intro rules => .group (insetText intro) (insetRules rules)
  | .verbatim intro body => .verbatim (insetText intro) (insetText body)

def insetRules : List Rule → List Rule
  | [] => []
  | r :: rs => r.inset :: insetRules rs

end

mutual

/-- The rule as it is laid out: what stands in its block is two columns further in. -/
def Rule.laid : Rule → Rule
  | .group intro rules => .group intro (insetRules (laidRules rules))
  | .statement text => .statement text
  | .style selectors body => .style selectors body
  | .verbatim intro body => .verbatim intro body

def laidRules : List Rule → List Rule
  | [] => []
  | r :: rs => r.laid :: laidRules rs

end

/-! Moving a style sheet in by two columns. -/

private theorem insetText_append : insetText (cs ++ ds) = insetText cs ++ insetText ds :=
  List.flatMap_append

private theorem insetText_cons (hc : c ≠ '\n') : insetText (c :: cs) = c :: insetText cs := by
  rw [insetText, List.flatMap_cons, if_neg hc]
  rfl

private theorem insetText_break : insetText ('\n' :: cs) = '\n' :: ' ' :: ' ' :: insetText cs := rfl

private theorem Blank.inset (hw : Blank w) : Blank (insetText w) := fun c hc => by
  obtain ⟨d, hd, hc⟩ := List.mem_flatMap.1 hc
  split at hc
  · simp only [List.mem_cons, List.not_mem_nil, or_false] at hc
    obtain rfl | rfl | rfl := hc <;> decide
  · rw [List.mem_singleton.1 hc]
    exact hw d hd

private theorem Lists.inset (h : Lists selectors cs) :
    Lists (selectors.map insetText) (insetText cs) := by
  induction h with
  | single s => exact .single _
  | cons hw hw' h ih =>
    rw [insetText_append, insetText_append, insetText_cons (by decide), insetText_append]
    exact .cons hw.inset hw'.inset ih

private theorem Prints.inset (h : Prints rules cs) : Prints (insetRules rules) (insetText cs) := by
  induction h with
  | nil hw => exact .nil hw.inset
  | statement hw h ih =>
    rw [insetText_append, insetText_append]
    exact .statement hw.inset ih
  | style hw hs hw₁ hw₂ hw₃ h ih =>
    simp only [insetText_append, insetText_cons (show '\x7b' ≠ '\n' by decide),
      insetText_cons (show '\x7d' ≠ '\n' by decide)]
    exact .style hw.inset hs.inset hw₁.inset hw₂.inset hw₃.inset ih
  | group hw hw' hinner h ihinner ih =>
    simp only [insetText_append, insetText_cons (show '\x7b' ≠ '\n' by decide),
      insetText_cons (show '\x7d' ≠ '\n' by decide)]
    exact .group hw.inset hw'.inset ihinner ih
  | verbatim hw hw' h ih =>
    simp only [insetText_append, insetText_cons (show '\x7b' ≠ '\n' by decide),
      insetText_cons (show '\x7d' ≠ '\n' by decide)]
    exact .verbatim hw.inset hw'.inset ih

/-! White space before and after a style sheet. -/

private theorem Blank.append {w' : List Char} (hw : Blank w) (hw' : Blank w') :
    Blank (w ++ w') := fun c hc =>
  (List.mem_append.1 hc).elim (hw c) (hw' c)

private theorem Prints.blank_append (hw : Blank w) (h : Prints rules cs) :
    Prints rules (w ++ cs) := by
  cases h with
  | nil hw' => exact .nil (hw.append hw')
  | statement hw' h =>
    rw [← List.append_assoc]
    exact .statement (hw.append hw') h
  | style hw' hs hw₁ hw₂ hw₃ h =>
    rw [← List.append_assoc]
    exact .style (hw.append hw') hs hw₁ hw₂ hw₃ h
  | group hw' hw₁ hinner h =>
    rw [← List.append_assoc]
    exact .group (hw.append hw') hw₁ hinner h
  | verbatim hw' hw₁ h =>
    rw [← List.append_assoc]
    exact .verbatim (hw.append hw') hw₁ h

private theorem Prints.append_blank (h : Prints rules cs) (hw : Blank w) :
    Prints rules (cs ++ w) := by
  induction h with
  | nil hw' => exact .nil (hw'.append hw)
  | statement hw' h ih =>
    rw [List.append_assoc, List.append_assoc]
    exact .statement hw' ih
  | style hw' hs hw₁ hw₂ hw₃ h ih => simpa using Prints.style hw' hs hw₁ hw₂ hw₃ ih
  | group hw' hw₁ hinner h _ ih => simpa using Prints.group hw' hw₁ hinner ih
  | verbatim hw' hw₁ h ih => simpa using Prints.verbatim hw' hw₁ ih

/-! Every line of a block is moved in. -/

/-- A text that ends with a line break is moved in as a whole. -/
private theorem indent_eq (h : '\r' ∉ t) :
    indent (t ++ ['\n']) = ' ' :: ' ' :: (insetText t ++ ['\n']) := by
  induction t with
  | nil => rfl
  | cons c t ih =>
    rw [List.mem_cons, not_or] at h
    have ih := ih h.2
    by_cases hc : c = '\n'
    · subst hc
      have hstep : indent ('\n' :: (t ++ ['\n'])) = ' ' :: ' ' :: '\n' :: indent (t ++ ['\n']) := rfl
      rw [List.cons_append, hstep, ih, insetText_break]
      rfl
    · obtain ⟨l, ls, hl, -⟩ := Text.exists_first_line (by simp : t ++ ['\n'] ≠ [])
      rw [indent, hl] at ih
      rw [List.cons_append, indent, Text.lines_cons hc (fun hreturn => absurd hreturn.symm h.1) hl,
        insetText_cons hc]
      simp only [List.flatMap_cons, List.cons_append] at ih ⊢
      rw [(List.cons_eq_cons.1 (List.cons_eq_cons.1 ih).2).2]

/-! What is written of a well-formed rule. -/

/-- The text is written of the rules, and ends with a sign and a line break. -/
def Writes (rules : List Rule) (text : List Char) : Prop :=
  ∃ t c, text = t ++ [c, '\n'] ∧ Text.isBlank c = false ∧ '\r' ∉ t ∧
    ∀ rs cs, Prints rs cs → Prints (rules ++ rs) (t ++ c :: cs)

private theorem Writes.append {text' : List Char} (h : Writes rules text) (h' : Writes rs text') :
    Writes (rules ++ rs) (text ++ text') := by
  obtain ⟨t, c, rfl, hc, ht, hprints⟩ := h
  obtain ⟨t', c', rfl, hc', ht', hprints'⟩ := h'
  have hreturn : c ≠ '\r' := (ne_of_blank (by decide) hc).symm
  refine ⟨t ++ c :: '\n' :: t', c', by simp, hc', by simp [ht, ht', hreturn.symm], fun more cs hmore => ?_⟩
  have hrest := (hprints' more cs hmore).blank_append (w := ['\n']) (by decide)
  simpa using hprints _ _ hrest

private theorem insetText_single (h : '\r' ∉ cs) : '\r' ∉ insetText cs := fun hmem => by
  obtain ⟨d, hd, hmem⟩ := List.mem_flatMap.1 hmem
  split at hmem
  · simp at hmem
  · exact h (List.mem_singleton.1 hmem ▸ hd)

/-- The rules as they are written in a block. -/
private theorem Writes.inset (h : Writes rules text) :
    '\r' ∉ indent text ∧ Prints (insetRules rules) ('\n' :: indent text) := by
  obtain ⟨t, c, rfl, hc, ht, hprints⟩ := h
  have hreturn : c ≠ '\r' := (ne_of_blank (by decide) hc).symm
  have hsingle : '\r' ∉ t ++ [c] := by simp [ht, hreturn.symm]
  have hindent : indent (t ++ [c, '\n']) = ' ' :: ' ' :: (insetText (t ++ [c]) ++ ['\n']) := by
    rw [← indent_eq hsingle, List.append_assoc, List.singleton_append]
  have hinset : Prints (insetRules rules) (insetText (t ++ [c])) := by
    simpa using (hprints [] [] (.nil blank_nil)).inset
  rw [hindent]
  refine ⟨by simp [insetText_single hsingle], ?_⟩
  exact (hinset.append_blank (w := ['\n']) (by decide)).blank_append (w := ['\n', ' ', ' ']) (by decide)

private theorem lists_intercalate (h : selectors ≠ []) :
    Lists selectors ([',', ' '].intercalate selectors) := by
  induction selectors with
  | nil => exact absurd rfl h
  | cons s ss ih =>
    cases ss with
    | nil =>
      rw [List.intercalate_singleton]
      exact .single s
    | cons s' ss =>
      have hlist := Lists.cons (s := s) blank_nil (show Blank [' '] by decide) (ih (List.cons_ne_nil _ _))
      simpa using hlist

private theorem scopeSelector_single (hs : '\r' ∉ s) (hattr : '\r' ∉ attr) :
    '\r' ∉ scopeSelector attr s := by
  rw [scopeSelector]
  split
  · simp [hattr, mt List.mem_of_mem_take hs, mt List.mem_of_mem_drop hs]
  · simp [hattr, hs]

private theorem intercalate_single {separator : List Char} (hseparator : '\r' ∉ separator)
    (h : ∀ s ∈ selectors, '\r' ∉ s) : '\r' ∉ separator.intercalate selectors := by
  induction selectors with
  | nil => simp
  | cons s ss ih =>
    obtain ⟨hs, hss⟩ := List.forall_mem_cons.1 h
    cases ss with
    | nil => simpa using hs
    | cons s' ss =>
      have hrest := ih hss
      simp_all

mutual

theorem Rule.WellFormed.writes (r : Rule) (hr : r.WellFormed) (hattr : '\r' ∉ attr) :
    Writes [(r.scope attr).laid] (r.scope attr).text := by
  match r, hr with
  | .statement _, .statement (t := t) htrimmed hclean hbalanced =>
    refine ⟨t, ';', by simp [Rule.scope, Rule.text], by decide, hclean.single, fun rs cs h => ?_⟩
    have hprints : Prints (.statement (t ++ [';']) :: rs) _ := .statement blank_nil h
    simpa [Rule.scope, Rule.laid] using hprints
  | .style selectors body, .style hne hselectors _ htrimmed hclean _ =>
    have hlists := lists_intercalate (mt List.map_eq_nil_iff.1 hne : selectors.map (scopeSelector attr) ≠ [])
    have hsingle : '\r' ∉ [',', ' '].intercalate (selectors.map (scopeSelector attr)) := by
      refine intercalate_single (by decide) fun s hs => ?_
      obtain ⟨s, hmem, rfl⟩ := List.mem_map.1 hs
      exact scopeSelector_single (hselectors s hmem).clean.single hattr
    refine ⟨[',', ' '].intercalate (selectors.map (scopeSelector attr)) ++
      ' ' :: '\x7b' :: ' ' :: (body ++ [' ']), '\x7d', by simp [Rule.scope, Rule.text], by decide,
      by simp [hsingle, hclean.single], fun rs cs h => ?_⟩
    have hblank : Blank [' '] := by decide
    have hprints : Prints (.style (selectors.map (scopeSelector attr)) body :: rs) _ :=
      .style blank_nil hlists hblank hblank hblank h
    simpa [Rule.scope, Rule.laid] using hprints
  | .group _ rules, @Rule.WellFormed.group name _ hprelude _ hrules =>
    have hinner : '\r' ∉ indent (rulesText (scopeRules attr rules)) ∧
        Prints (insetRules (laidRules (scopeRules attr rules)))
          ('\n' :: indent (rulesText (scopeRules attr rules))) := by
      obtain rfl | hwrites := writes_rules rules hrules hattr
      · exact ⟨List.not_mem_nil, .nil (show Blank ['\n'] by decide)⟩
      · exact hwrites.inset
    refine ⟨'@' :: name ++ ' ' :: '\x7b' :: '\n' :: indent (rulesText (scopeRules attr rules)), '\x7d',
      by simp [Rule.scope, Rule.text], by decide, by simp [hprelude.clean.single, hinner.1],
      fun rs cs h => ?_⟩
    have hprints :
        Prints (.group ('@' :: name) (insetRules (laidRules (scopeRules attr rules))) :: rs) _ :=
      .group blank_nil (show Blank [' '] by decide) hinner.2 h
    simpa [Rule.scope, Rule.laid] using hprints
  | .verbatim _ body, @Rule.WellFormed.verbatim name _ hprelude _ hclean _ =>
    refine ⟨'@' :: name ++ ' ' :: '\x7b' :: body, '\x7d', by simp [Rule.scope, Rule.text], by decide,
      by simp [hprelude.clean.single, hclean.single], fun rs cs h => ?_⟩
    have hprints : Prints (.verbatim ('@' :: name) body :: rs) _ :=
      .verbatim blank_nil (show Blank [' '] by decide) h
    simpa [Rule.scope, Rule.laid] using hprints

private theorem writes_rules (rs : List Rule) (hrs : ∀ r ∈ rs, r.WellFormed) (hattr : '\r' ∉ attr) :
    rs = [] ∨ Writes (laidRules (scopeRules attr rs)) (rulesText (scopeRules attr rs)) := by
  match rs with
  | [] => exact .inl rfl
  | r :: rs =>
    obtain ⟨hr, hrs⟩ := List.forall_mem_cons.1 hrs
    refine .inr ?_
    have hfirst := hr.writes r hattr
    obtain rfl | hrest := writes_rules rs hrs hattr
    · simpa [scopeRules, laidRules, rulesText] using hfirst
    · exact hfirst.append hrest

end

/-- A style sheet that is written of well-formed rules is scoped by scoping every selector of every
style rule, wherever it stands, and nothing else. The rules are laid out anew, with the further lines
of what stands in a block two columns further in. A line ends at every line feed, so that the rest of a
string with a line feed in it is moved in as well. -/
theorem scope_prints {css attr : String} (hrules : ∀ r ∈ rules, r.WellFormed)
    (hcss : Prints rules css.toList) :
    scope css attr = String.ofList (Text.trimEnd (rulesText (scopeRules attr.toList rules))) ∧
      ('\r' ∉ attr.toList →
        Prints (laidRules (scopeRules attr.toList rules)) (scope css attr).toList) := by
  have hread : readRules (stripComments css.toList) = rules := by
    rw [stripComments_eq (hcss.unmarked hrules), hcss.readRules hrules]
  have hscope : scope css attr =
      String.ofList (Text.trimEnd (rulesText (scopeRules attr.toList rules))) := by
    rw [scope, hread]
  refine ⟨hscope, fun hattr => ?_⟩
  rw [hscope, String.toList_ofList]
  obtain rfl | ⟨t, c, heq, hc, -, hprints⟩ := writes_rules rules hrules hattr
  · exact .nil blank_nil
  · have htrim : Text.trimEnd (t ++ [c, '\n']) = t ++ [c] := by
      have := trimEnd_append (s := t ++ [c]) (w := ['\n']) (by simpa using hc) (by decide)
      simpa using this
    rw [heq, htrim]
    simpa using hprints [] [] (.nil blank_nil)

/-! A sheet with signs in strings and brackets that end nothing. -/

/-- What holds of all characters can be checked one by one. -/
theorem forall_mem_of_all {p : Char → Prop} [DecidablePred p]
    (h : (cs.all fun c => decide (p c)) = true) : ∀ c ∈ cs, p c := by
  simpa using h

theorem Balanced.plain {stop : Char → Bool} (cs ds : List Char) (h : ∀ c ∈ cs, isQuote c = false ∧ c ≠ '\\' ∧
    isBrace c = false ∧ opensBracket c = false ∧ closesBracket c = false ∧ stop c = false)
    (hds : Balanced stop ds) : Balanced stop (cs ++ ds) := by
  induction cs with
  | nil => exact hds
  | cons c cs ih =>
    obtain ⟨⟨hquote, hescape, hbrace, hopens, hcloses, hstop⟩, hcs⟩ := List.forall_mem_cons.1 h
    exact .char hquote hescape hbrace hopens hcloses hstop (ih hcs)

theorem Block.plain (cs ds : List Char) (h : ∀ c ∈ cs, isQuote c = false ∧ c ≠ '\\' ∧ isBrace c = false)
    (hds : Block ds) : Block (cs ++ ds) := by
  induction cs with
  | nil => exact hds
  | cons c cs ih =>
    obtain ⟨⟨hquote, hescape, hbrace⟩, hcs⟩ := List.forall_mem_cons.1 h
    exact .char hquote hescape hbrace (ih hcs)

theorem Quoted.plain {quote : Char} (cs ds : List Char) (h : ∀ c ∈ cs, c ≠ '\\' ∧ c ≠ quote) (hds : Quoted quote ds) :
    Quoted quote (cs ++ ds) := by
  induction cs with
  | nil => exact hds
  | cons c cs ih =>
    obtain ⟨⟨hescape, hquote⟩, hcs⟩ := List.forall_mem_cons.1 h
    exact .char hescape hquote (ih hcs)

def sampleRules : List Rule :=
  [.statement ("@import url(\"a;b\")".toList ++ [';']),
    .group ('@' :: "media (width: 9px)".toList)
      [.style ["a[b=\"\x7d,\"]::after".toList, "p:not(.c, d) > q".toList]
        "content: \"\x7d\\\"\";\ntop: 0".toList],
    .verbatim ('@' :: "keyframes k".toList) " from \x7b top: 0; \x7d ".toList]

def sampleSheet : String :=
  "\n@import url(\"a;b\");@media (width: 9px)\x7b a[b=\"\x7d,\"]::after,\tp:not(.c, d) > q\x7b" ++
    "content: \"\x7d\\\"\";\ntop: 0\n\x7d\n\x7d@keyframes k \x7b from \x7b top: 0; \x7d \x7d"

private theorem prints_sampleSheet : Prints sampleRules sampleSheet.toList := by
  have hspace : Blank [' '] := by decide
  have hbreak : Blank ['\n'] := by decide
  have htab : Blank ['\t'] := by decide
  have h : Prints sampleRules _ :=
    .statement hbreak <|
      .group blank_nil blank_nil
        (.style hspace (.cons blank_nil htab (.single _)) blank_nil blank_nil hbreak (.nil hbreak)) <|
      .verbatim blank_nil hspace (.nil blank_nil)
  refine (congrArg (Prints sampleRules) ?_).mp h
  decide +kernel

private theorem wellFormed_sampleRules : ∀ r ∈ sampleRules, r.WellFormed := by
  have hstring : Balanced (fun _ => false) "\"a;b\"".toList :=
    .string rfl (.plain "a;b".toList _ (forall_mem_of_all rfl) .close) .nil
  have himport : Balanced (· == ';') "@import url(\"a;b\")".toList :=
    .plain "@import url".toList _ (forall_mem_of_all rfl) (.brackets rfl hstring rfl .nil)
  have hwidth : Balanced (fun _ => false) "width: 9px".toList :=
    .plain "width: 9px".toList [] (forall_mem_of_all rfl) .nil
  have hmedia : Balanced (· == ';') "media (width: 9px)".toList :=
    .plain "media ".toList _ (forall_mem_of_all rfl) (.brackets rfl hwidth rfl .nil)
  have hframes : Balanced (· == ';') "keyframes k".toList :=
    .plain "keyframes k".toList [] (forall_mem_of_all rfl) .nil
  have hvalue : Balanced (fun _ => false) "b=\"\x7d,\"".toList :=
    .plain "b=".toList _ (forall_mem_of_all rfl)
      (.string rfl (.plain "\x7d,".toList _ (forall_mem_of_all rfl) .close) .nil)
  have hattribute : Balanced (fun c => c == ';' || c == ',') "a[b=\"\x7d,\"]::after".toList :=
    .plain "a".toList _ (forall_mem_of_all rfl)
      (.brackets rfl hvalue rfl (.plain "::after".toList [] (forall_mem_of_all rfl) .nil))
  have hlist : Balanced (fun _ => false) ".c, d".toList :=
    .plain ".c, d".toList [] (forall_mem_of_all rfl) .nil
  have hnot : Balanced (fun c => c == ';' || c == ',') "p:not(.c, d) > q".toList :=
    .plain "p:not".toList _ (forall_mem_of_all rfl)
      (.brackets rfl hlist rfl (.plain " > q".toList [] (forall_mem_of_all rfl) .nil))
  have hescaped : Quoted '"' ['\x7d', '\\', '"', '"'] :=
    .char (by decide) (by decide) (.escaped _ .close)
  have hbody : Block "content: \"\x7d\\\"\";\ntop: 0".toList :=
    .plain "content: ".toList _ (forall_mem_of_all rfl) (.string rfl hescaped
      (.plain ";\ntop: 0".toList [] (forall_mem_of_all rfl) .nil))
  have hstep : Block " top: 0; ".toList :=
    .plain " top: 0; ".toList [] (forall_mem_of_all rfl) .nil
  have hsteps : Block " from \x7b top: 0; \x7d ".toList :=
    .plain " from ".toList _ (forall_mem_of_all rfl) (.braces hstep (.char rfl (by decide) rfl .nil))
  have hselectors : ∀ s ∈ ["a[b=\"\x7d,\"]::after".toList, "p:not(.c, d) > q".toList], Selector s := by
    simp only [List.forall_mem_cons]
    exact ⟨⟨by decide, by decide, by decide, hattribute⟩, ⟨by decide, by decide, by decide, hnot⟩, nofun⟩
  have hsign : ∀ s ∈ ["a[b=\"\x7d,\"]::after".toList, "p:not(.c, d) > q".toList].head?, ∀ c ∈ s.head?,
      c ≠ '@' := by
    rintro _ ⟨⟩ _ ⟨⟩
    decide
  simp only [sampleRules, List.forall_mem_cons]
  refine ⟨.statement (by decide) (by decide) himport,
    .group ⟨by decide, by decide, hmedia⟩ (by decide) ?_,
    .verbatim ⟨by decide, by decide, hframes⟩ (by decide) (by decide) hsteps, nofun⟩
  simp only [List.forall_mem_cons]
  exact ⟨.style (by decide) hselectors hsign (by decide) (by decide) hbody, nofun⟩

def sampleScoped : String :=
  "@import url(\"a;b\");\n@media (width: 9px) \x7b\n  a[b=\"\x7d,\"][s]::after, p:not(.c, d) > q[s] \x7b " ++
    "content: \"\x7d\\\"\";\n  top: 0 \x7d\n\x7d\n@keyframes k \x7b from \x7b top: 0; \x7d \x7d"

private theorem text_sampleRules : Text.trimEnd (rulesText (scopeRules "s".toList sampleRules)) =
    sampleScoped.toList := by decide +kernel

theorem scope_prints_sample :
    (∀ r ∈ sampleRules, r.WellFormed) ∧ Prints sampleRules sampleSheet.toList ∧
      scope sampleSheet "s" = sampleScoped ∧
      Prints (laidRules (scopeRules "s".toList sampleRules)) (scope sampleSheet "s").toList := by
  obtain ⟨htext, hprints⟩ : scope sampleSheet "s" =
      String.ofList (Text.trimEnd (rulesText (scopeRules "s".toList sampleRules))) ∧ _ :=
    scope_prints wellFormed_sampleRules prints_sampleSheet
  rw [text_sampleRules, String.ofList_toList] at htext
  exact ⟨wellFormed_sampleRules, prints_sampleSheet, htext, hprints (by decide)⟩

end LiveMarkup.Style
