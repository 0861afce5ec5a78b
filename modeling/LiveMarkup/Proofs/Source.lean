import LiveMarkup.Proofs.Text.Cut
import LiveMarkup.Source

/-! The order of the blocks of a source. A block is found wherever it stands, since no tag can begin in the
midst of another one and line breaks are no part of tags. -/

namespace LiveMarkup

namespace Text

variable {needle rest a b b' block before after : List Char} {c : Char}

/-! Where a tag can occur. -/

/-- What begins with a character that a text does not contain does not begin in the text. -/
private theorem infix_of_not_mem (h : c ∉ a) (hin : c :: rest <:+: a ++ b) : c :: rest <:+: b := by
  induction a with
  | nil => exact hin
  | cons d a ih =>
    rw [List.cons_append, List.infix_cons_iff] at hin
    rcases hin with hprefix | hin
    · obtain ⟨rfl, -⟩ := List.cons_prefix_cons.1 hprefix
      exact absurd List.mem_cons_self h
    · exact ih (fun hmem => h (List.mem_cons_of_mem _ hmem)) hin

/-- What begins with a character that does not come again in it can only end before the next such character,
begin with it or begin after it. -/
private theorem infix_append_cons (h : c ∉ rest) (hin : c :: rest <:+: a ++ c :: b) :
    c :: rest <:+: a ∨ c :: rest <+: c :: b ∨ c :: rest <:+: b := by
  induction a with
  | nil => exact .inr (List.infix_cons_iff.1 hin)
  | cons d a ih =>
    rw [List.cons_append, List.infix_cons_iff] at hin
    rcases hin with hprefix | hin
    · obtain ⟨rfl, hrest⟩ := List.cons_prefix_cons.1 hprefix
      rcases List.prefix_or_prefix_of_prefix hrest (List.prefix_append a _) with hend | ⟨q, rfl⟩
      · exact .inl (List.cons_prefix_cons.2 ⟨rfl, hend⟩).isInfix
      · rw [List.prefix_append_right_inj] at hrest
        cases q with
        | nil => exact .inl (by rw [List.append_nil])
        | cons e q =>
          obtain ⟨rfl, -⟩ := List.cons_prefix_cons.1 hrest
          exact absurd (by simp) h
    · exact (ih hin).imp_left (List.IsInfix.trans · (List.suffix_cons d a).isInfix)

/-- A tag begins with an angle bracket and has no other one. -/
def IsTag (cs : List Char) : Prop := cs.head? = some '<' ∧ '<' ∉ cs.tail

instance (cs : List Char) : Decidable (IsTag cs) := inferInstanceAs (Decidable (_ ∧ _))

/-- A tag that is neither in a text nor in another one does not come about when a further tag is put between
them, unless one of the tags begins the other. -/
private theorem not_infix_append_tag {tag : List Char} (hn : IsTag needle) (ht : IsTag tag)
    (h : ¬ needle <+: tag) (h' : ¬ tag <+: needle) (ha : ¬ needle <:+: a) (hb : ¬ needle <:+: b) :
    ¬ needle <:+: a ++ (tag ++ b) := by
  obtain ⟨rest, rfl⟩ := List.head?_eq_some_iff.1 hn.1
  obtain ⟨more, rfl⟩ := List.head?_eq_some_iff.1 ht.1
  intro hin
  rcases infix_append_cons hn.2 hin with hin | hprefix | hin
  · exact ha hin
  · exact (List.prefix_or_prefix_of_prefix hprefix (List.prefix_append ('<' :: more) b)).elim h h'
  · exact hb (infix_of_not_mem ht.2 hin)

/-! One spelling of line breaks. -/

private theorem unifyLineBreaks_append (h : b.head? ≠ some '\n') (a : List Char) :
    unifyLineBreaks (a ++ b) = unifyLineBreaks a ++ unifyLineBreaks b := by
  fun_induction unifyLineBreaks a with
  | case1 => rfl
  | case2 cs ih => rw [List.cons_append, List.cons_append, unifyLineBreaks, ih, List.cons_append]
  | case3 c cs hpair ih =>
    rw [List.cons_append, unifyLineBreaks, ih, List.cons_append]
    rintro rest rfl hrest
    cases cs with
    | nil => exact h (by rw [List.nil_append] at hrest; rw [hrest]; rfl)
    | cons d cs =>
      obtain ⟨rfl, -⟩ := List.cons.inj hrest
      exact hpair cs rfl rfl

/-- A tag stays as it is, and no line break reaches into it. -/
private theorem unifyLineBreaks_tag {tag : List Char} (ht : IsTag tag) (h : '\r' ∉ tag)
    (a b : List Char) :
    unifyLineBreaks (a ++ (tag ++ b)) = unifyLineBreaks a ++ (tag ++ unifyLineBreaks b) := by
  have htag (tag : List Char) (h : '\r' ∉ tag) :
      unifyLineBreaks (tag ++ b) = tag ++ unifyLineBreaks b := by
    induction tag with
    | nil => rfl
    | cons c tag ih =>
      obtain ⟨hc, htag⟩ := not_or.1 (mt List.mem_cons.2 h)
      rw [List.cons_append, unifyLineBreaks, if_neg (Ne.symm hc), ih htag, List.cons_append]
      exact fun _ heq _ => hc heq.symm
  rw [unifyLineBreaks_append, htag tag h]
  obtain ⟨rest, rfl⟩ := List.head?_eq_some_iff.1 ht.1
  simp

/-- Whatever stands on one line of the second text stands in the first one. -/
structure Covers (a b : List Char) : Prop where
  start : ∀ needle, '\n' ∉ needle → needle <+: b → needle <+: a
  within : ∀ needle, '\n' ∉ needle → needle <:+: b → needle <:+: a

theorem Covers.refl (a : List Char) : Covers a a := ⟨fun _ _ h => h, fun _ _ h => h⟩

private theorem Covers.cons (h : Covers a b) (c : Char) : Covers (c :: a) (c :: b) := by
  have hstart (needle : List Char) (hn : '\n' ∉ needle) (hp : needle <+: c :: b) :
      needle <+: c :: a := by
    cases needle with
    | nil => exact List.nil_prefix
    | cons d needle =>
      obtain ⟨rfl, hrest⟩ := List.cons_prefix_cons.1 hp
      exact List.cons_prefix_cons.2 ⟨rfl, h.start needle (fun hm => hn (List.mem_cons_of_mem _ hm)) hrest⟩
  refine ⟨hstart, fun needle hn hin => ?_⟩
  rcases List.infix_cons_iff.1 hin with hp | hin
  · exact (hstart needle hn hp).isInfix
  · exact (h.within needle hn hin).trans (List.suffix_cons c a).isInfix

/-- What stands on one line stands after a line feed or before it. -/
private theorem Covers.lineFeed (h : Covers a b) (cs : List Char) : Covers (cs ++ a) ('\n' :: b) := by
  refine ⟨fun needle hn hp => ?_, fun needle hn hin => ?_⟩
  · cases needle with
    | nil => exact List.nil_prefix
    | cons d needle =>
      obtain ⟨rfl, -⟩ := List.cons_prefix_cons.1 hp
      exact absurd List.mem_cons_self hn
  · have hb : needle <:+: b := by
      cases needle with
      | nil => exact List.nil_infix
      | cons d needle =>
        exact infix_of_not_mem (a := ['\n']) (by simpa [eq_comm] using fun h => hn (by simp [h])) hin
    exact (h.within needle hn hb).trans (List.suffix_append cs a).isInfix

private theorem covers_unifyLineBreaks (h : Covers b b') (a : List Char) :
    Covers (a ++ b) (unifyLineBreaks a ++ b') := by
  fun_induction unifyLineBreaks a with
  | case1 => exact h
  | case2 cs ih => exact ih.lineFeed ['\r', '\n']
  | case3 c cs _ ih =>
    by_cases hc : c = '\r'
    · rw [if_pos hc]
      exact ih.lineFeed [c]
    · rw [if_neg hc]
      exact ih.cons c

end Text

namespace Source

open Text

variable {opening closing needle before after block : List Char} {m₀ m₁ m₂ s t : String}

/-! One block. -/

/-- What a block contains: its text without white space around it, unless there is nothing else. -/
def contentOf (block : List Char) : Option String :=
  if (trim block).isEmpty then none else some (String.ofList (trim block))

private theorem extract_block (hopening : Borderless opening) (hclosing : Borderless closing)
    (ho : opening ≠ []) (hc : closing ≠ []) (hbefore : ¬ opening <:+: before)
    (hblock : ¬ closing <:+: block) :
    extract opening closing (before ++ (opening ++ (block ++ (closing ++ after)))) =
      (before ++ after, contentOf block) := by
  unfold extract
  rw [cut?_append opening hopening ho hbefore]
  dsimp only
  rw [cut?_append closing hclosing hc hblock]
  rfl

private theorem extract_none {text : List Char} (closing : List Char) (h : ¬ opening <:+: text) :
    extract opening closing text = (text, none) := by
  unfold extract
  rw [cut?_eq_none h]

/-! Both blocks. -/

def Occurs (needle text : String) : Prop := needle.toList <:+: text.toList

instance (needle text : String) : Decidable (Occurs needle text) :=
  inferInstanceAs (Decidable (_ <:+: _))

def styleBlock (s : String) : String := "<style>" ++ s ++ "</style>"

def scriptBlock (t : String) : String := "<script>" ++ t ++ "</script>"

def content? (s : String) : Option String := contentOf (unifyLineBreaks s.toList)

def markupOf (ms : List String) : String :=
  String.ofList (trim (ms.flatMap fun m => unifyLineBreaks m.toList))

private theorem split_eq (text : String) {rest rest' : List Char} {style script : Option String}
    (hstyle : extract "<style>".toList "</style>".toList (unifyLineBreaks text.toList) = (rest, style))
    (hscript : extract "<script>".toList "</script>".toList rest = (rest', script)) :
    split text = ⟨String.ofList (trim rest'), style, script⟩ := by
  unfold split
  rw [hstyle]
  dsimp only
  rw [hscript]

private theorem covers_pieces (ms : List String) :
    Covers (ms.flatMap String.toList) (ms.flatMap fun m => unifyLineBreaks m.toList) := by
  induction ms with
  | nil => exact .refl []
  | cons m ms ih => exact covers_unifyLineBreaks ih m.toList

/-- A tag that is not in some text is not in it after line breaks have been unified piece by piece. -/
private theorem not_infix_pieces {tag : String} (ms : List String) (hn : '\n' ∉ tag.toList)
    (h : ¬ Occurs tag (String.join ms)) :
    ¬ tag.toList <:+: ms.flatMap fun m => unifyLineBreaks m.toList := by
  refine fun hin => h ?_
  rw [Occurs, String.toList_join]
  exact (covers_pieces ms).within _ hn hin

private theorem not_infix_unified {tag : String} (hn : '\n' ∉ tag.toList) (h : ¬ Occurs tag s) :
    ¬ tag.toList <:+: unifyLineBreaks s.toList := by
  have hjoin : String.join [s] = s := by simp [String.join]
  have hpieces := not_infix_pieces [s] hn (hjoin.symm ▸ h)
  rwa [List.flatMap_singleton] at hpieces

private theorem extract_styleBlock (after : List Char) (hbefore : ¬ "<style>".toList <:+: before)
    (hs : ¬ Occurs "</style>" s) :
    extract "<style>".toList "</style>".toList
        (before ++ ("<style>".toList ++ (unifyLineBreaks s.toList ++ ("</style>".toList ++ after)))) =
      (before ++ after, content? s) :=
  extract_block (by decide) (by decide) (by decide) (by decide) hbefore
    (not_infix_unified (by decide) hs)

private theorem extract_scriptBlock (after : List Char) (hbefore : ¬ "<script>".toList <:+: before)
    (ht : ¬ Occurs "</script>" t) :
    extract "<script>".toList "</script>".toList
        (before ++ ("<script>".toList ++ (unifyLineBreaks t.toList ++ ("</script>".toList ++ after)))) =
      (before ++ after, content? t) :=
  extract_block (by decide) (by decide) (by decide) (by decide) hbefore
    (not_infix_unified (by decide) ht)

/-- A script block contains a style block only if its text does. -/
private theorem not_infix_scriptBlock (hbefore : ¬ "<style>".toList <:+: before)
    (ht : ¬ Occurs "<style>" t) (hafter : ¬ "<style>".toList <:+: after) :
    ¬ "<style>".toList <:+:
      before ++ ("<script>".toList ++ (unifyLineBreaks t.toList ++ ("</script>".toList ++ after))) := by
  have htext := not_infix_unified (by decide) ht
  exact not_infix_append_tag (by decide) (by decide) (by decide) (by decide) hbefore
    (not_infix_append_tag (by decide) (by decide) (by decide) (by decide) htext hafter)

private theorem unified_styleBlock (before after : List Char) (s : String) :
    unifyLineBreaks (before ++ ((styleBlock s).toList ++ after)) =
      unifyLineBreaks before ++
        ("<style>".toList ++ (unifyLineBreaks s.toList ++ ("</style>".toList ++ unifyLineBreaks after))) := by
  rw [styleBlock, String.toList_append, String.toList_append, List.append_assoc, List.append_assoc,
    unifyLineBreaks_tag (by decide) (by decide), unifyLineBreaks_tag (by decide) (by decide)]

private theorem unified_scriptBlock (before after : List Char) (t : String) :
    unifyLineBreaks (before ++ ((scriptBlock t).toList ++ after)) =
      unifyLineBreaks before ++
        ("<script>".toList ++ (unifyLineBreaks t.toList ++ ("</script>".toList ++ unifyLineBreaks after))) := by
  rw [scriptBlock, String.toList_append, String.toList_append, List.append_assoc, List.append_assoc,
    unifyLineBreaks_tag (by decide) (by decide), unifyLineBreaks_tag (by decide) (by decide)]

/-! Where the blocks stand. -/

private theorem split_style_script (h₀ : ¬ "<style>".toList <:+: unifyLineBreaks m₀.toList)
    (h₀₁ : ¬ "<script>".toList <:+: unifyLineBreaks m₀.toList ++ unifyLineBreaks m₁.toList)
    (hs : ¬ Occurs "</style>" s) (ht : ¬ Occurs "</script>" t) :
    split (m₀ ++ styleBlock s ++ m₁ ++ scriptBlock t ++ m₂) =
      ⟨markupOf [m₀, m₁, m₂], content? s, content? t⟩ := by
  have hstyle := extract_styleBlock (unifyLineBreaks (m₁.toList ++ ((scriptBlock t).toList ++ m₂.toList)))
    h₀ hs
  rw [← unified_styleBlock, unified_scriptBlock, ← List.append_assoc] at hstyle
  have hsplit := split_eq (m₀ ++ styleBlock s ++ m₁ ++ scriptBlock t ++ m₂)
    (by simpa only [String.toList_append, List.append_assoc] using hstyle) (extract_scriptBlock _ h₀₁ ht)
  simpa [markupOf] using hsplit

/-- What is left of a source whose script stands first is the script between the texts around both blocks. -/
private theorem split_script_style (h₀ : ¬ "<style>".toList <:+: unifyLineBreaks m₀.toList)
    (h₁ : ¬ "<style>".toList <:+: unifyLineBreaks m₁.toList)
    (h₀' : ¬ "<script>".toList <:+: unifyLineBreaks m₀.toList)
    (hs : ¬ Occurs "</style>" s) (ht : ¬ Occurs "</script>" t) (ht' : ¬ Occurs "<style>" t) :
    split (m₀ ++ scriptBlock t ++ m₁ ++ styleBlock s ++ m₂) =
      ⟨markupOf [m₀, m₁, m₂], content? s, content? t⟩ := by
  have hstyle := extract_styleBlock (unifyLineBreaks m₂.toList) (not_infix_scriptBlock h₀ ht' h₁) hs
  rw [← unified_scriptBlock, ← unified_styleBlock, unified_scriptBlock] at hstyle
  have hscript := extract_scriptBlock (unifyLineBreaks m₁.toList ++ unifyLineBreaks m₂.toList) h₀' ht
  have hsplit := split_eq (m₀ ++ scriptBlock t ++ m₁ ++ styleBlock s ++ m₂)
    (by simpa only [String.toList_append, List.append_assoc] using hstyle) hscript
  simpa [markupOf] using hsplit

private theorem split_style (h₀ : ¬ "<style>".toList <:+: unifyLineBreaks m₀.toList)
    (h₀₁ : ¬ "<script>".toList <:+: unifyLineBreaks m₀.toList ++ unifyLineBreaks m₁.toList)
    (hs : ¬ Occurs "</style>" s) :
    split (m₀ ++ styleBlock s ++ m₁) = ⟨markupOf [m₀, m₁], content? s, none⟩ := by
  have hstyle := extract_styleBlock (unifyLineBreaks m₁.toList) h₀ hs
  rw [← unified_styleBlock] at hstyle
  have hsplit := split_eq (m₀ ++ styleBlock s ++ m₁)
    (by simpa only [String.toList_append, List.append_assoc] using hstyle) (extract_none _ h₀₁)
  simpa [markupOf] using hsplit

private theorem split_script (h₀ : ¬ "<style>".toList <:+: unifyLineBreaks m₀.toList)
    (h₁ : ¬ "<style>".toList <:+: unifyLineBreaks m₁.toList)
    (h₀' : ¬ "<script>".toList <:+: unifyLineBreaks m₀.toList)
    (ht : ¬ Occurs "</script>" t) (ht' : ¬ Occurs "<style>" t) :
    split (m₀ ++ scriptBlock t ++ m₁) = ⟨markupOf [m₀, m₁], none, content? t⟩ := by
  have hstyle := extract_none "</style>".toList (not_infix_scriptBlock h₀ ht' h₁)
  have hunified := unified_scriptBlock m₀.toList m₁.toList t
  have hsplit := split_eq (m₀ ++ scriptBlock t ++ m₁)
    (by rw [← hunified] at hstyle; simpa only [String.toList_append, List.append_assoc, hunified] using hstyle)
    (extract_scriptBlock (unifyLineBreaks m₁.toList) h₀' ht)
  simpa [markupOf] using hsplit

/-- The order of blocks does not matter. Whichever block stands first, and whether there is another one, a
source has the text of its style block, the text of its script block and what is around them, provided that
no tag of a block stands where it would be taken for another one. The text of the style block may contain
script blocks, but not the other way round. -/
theorem split_blocks (hstyle : ¬ Occurs "<style>" (m₀ ++ m₁ ++ m₂))
    (hscript : ¬ Occurs "<script>" (m₀ ++ m₁ ++ m₂)) (hs : ¬ Occurs "</style>" s)
    (ht : ¬ Occurs "</script>" t) (ht' : ¬ Occurs "<style>" t) :
    split (m₀ ++ styleBlock s ++ m₁ ++ scriptBlock t ++ m₂) =
        ⟨markupOf [m₀, m₁, m₂], content? s, content? t⟩ ∧
      split (m₀ ++ scriptBlock t ++ m₁ ++ styleBlock s ++ m₂) =
        ⟨markupOf [m₀, m₁, m₂], content? s, content? t⟩ ∧
      split (m₀ ++ styleBlock s ++ m₁) = ⟨markupOf [m₀, m₁], content? s, none⟩ ∧
      split (m₀ ++ scriptBlock t ++ m₁) = ⟨markupOf [m₀, m₁], none, content? t⟩ ∧
      split m₀ = ⟨markupOf [m₀], none, none⟩ := by
  have hjoin : String.join [m₀, m₁, m₂] = m₀ ++ m₁ ++ m₂ := by simp [String.join]
  have hpieces {tag : String} (hn : '\n' ∉ tag.toList) (h : ¬ Occurs tag (m₀ ++ m₁ ++ m₂)) :
      ¬ tag.toList <:+: unifyLineBreaks m₀.toList ∧ ¬ tag.toList <:+: unifyLineBreaks m₁.toList ∧
        ¬ tag.toList <:+: unifyLineBreaks m₀.toList ++ unifyLineBreaks m₁.toList := by
    have hall := not_infix_pieces [m₀, m₁, m₂] hn (hjoin.symm ▸ h)
    simp only [List.flatMap_cons, List.flatMap_nil, List.append_nil] at hall
    refine ⟨fun hin => hall (hin.trans (List.prefix_append ..).isInfix), fun hin => hall (hin.trans ?_),
      fun hin => hall (hin.trans ?_)⟩
    · exact ⟨unifyLineBreaks m₀.toList, unifyLineBreaks m₂.toList, by simp⟩
    · exact ⟨[], unifyLineBreaks m₂.toList, by simp⟩
  obtain ⟨hstyle₀, hstyle₁, -⟩ := hpieces (by decide) hstyle
  obtain ⟨hscript₀, -, hscript₀₁⟩ := hpieces (by decide) hscript
  refine ⟨split_style_script hstyle₀ hscript₀₁ hs ht, split_script_style hstyle₀ hstyle₁ hscript₀ hs ht ht',
    split_style hstyle₀ hscript₀₁ hs, split_script hstyle₀ hstyle₁ hscript₀ ht ht', ?_⟩
  have hsplit := split_eq m₀ (extract_none _ hstyle₀) (extract_none _ hscript₀)
  simpa [markupOf] using hsplit

/-- Markup that has parts of a tag on both sides of a block, and a style that has a script block. -/
theorem split_blocks_apart :
    split ("a <sty" ++ styleBlock "p\r\n<script></script> " ++ "\r" ++ scriptBlock " f()\r</style>" ++ "\nle> ") =
        ⟨"a <sty\n\nle>", some "p\n<script></script>", some "f()\n</style>"⟩ ∧
      split ("a <sty" ++ scriptBlock " f()\r</style>" ++ "\r" ++ styleBlock "p\r\n<script></script> " ++ "\nle> ") =
        ⟨"a <sty\n\nle>", some "p\n<script></script>", some "f()\n</style>"⟩ := by
  have h := @split_blocks "a <sty" "\r" "\nle> " "p\r\n<script></script> " " f()\r</style>"
    (by decide) (by decide) (by decide) (by decide) (by decide)
  refine ⟨h.1.trans ?_, h.2.1.trans ?_⟩
  all_goals decide +kernel

end Source

end LiveMarkup
