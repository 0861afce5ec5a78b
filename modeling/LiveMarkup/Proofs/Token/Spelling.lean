import LiveMarkup.Token.Lexer
import Mathlib.Data.List.TakeWhile

/-! Which texts spell a token, and that a token of code is read from a spelling of it. -/

namespace LiveMarkup

/-- The content of a string between its quotes, and the characters it stands for. -/
inductive Decodes (quote : Char) : List Char → List Char → Prop where
  | nil : Decodes quote [] []
  | plain {c : Char} {cs vs : List Char} (hc : c ≠ '\\') (hq : c ≠ quote) (h : Decodes quote cs vs) :
    Decodes quote (c :: cs) (c :: vs)
  | escaped {cs vs : List Char} (c : Char) (h : Decodes quote cs vs) :
    Decodes quote ('\\' :: c :: cs) (Lexer.unescape c :: vs)

def AllDigits (cs : List Char) : Prop := ∀ c ∈ cs, (c.isDigit || c == '_') = true

def IsDigits (cs : List Char) : Prop := Lexer.beginsDigit cs = true ∧ AllDigits cs

def digitsValue (cs : List Char) : Nat := Decimal.natOfDigits (cs.filter Char.isDigit)

def Keyword.spellings : Keyword → List (List Char)
  | declare => ["const".toList, "let".toList, "var".toList]
  | k => [k.spelling.toList]

def Symbol.spellings : Symbol → List (List Char)
  | newline => [['\n']]
  | equal => [['=', '='], ['=', '=', '=']]
  | notEqual => [['!', '='], ['!', '=', '=']]
  | s => [s.spelling.toList]

def Token.SpelledBy : Token → List Char → Prop
  | text s, cs | name s, cs => cs = s.toList
  | literal .null, cs => cs = "null".toList ∨ cs = "undefined".toList
  | literal (.bool b), cs => cs = (if b then "true" else "false").toList
  | literal (.int n), cs => IsDigits cs ∧ n.toInt = digitsValue cs
  | literal (.float x), cs =>
    (IsDigits cs ∧ Nat.pow 2 63 ≤ digitsValue cs ∧ x = Decimal.ofDecimal false (digitsValue cs) 0) ∨
    ∃ whole fraction, cs = whole ++ '.' :: fraction ∧ IsDigits whole ∧ IsDigits fraction ∧
      x = Decimal.ofDecimal false (digitsValue (whole ++ fraction))
        (-(fraction.filter Char.isDigit).length)
  | literal (.string s), cs => ∃ quote content, (quote = '"' ∨ quote = '\'') ∧
      cs = quote :: (content ++ [quote]) ∧ Decodes quote content s.toList
  | keyword k, cs => cs ∈ k.spellings
  | symbol s, cs => cs ∈ s.spellings

def Token.isCode : Token → Bool
  | text _ | symbol .openTag | symbol .closeTag => false
  | _ => true

namespace Lexer

variable {mode : Mode} {ctx : Context} {pos : Pos} {c quote : Char} {cs w whole fraction : List Char}

/-! Numbers. -/

private theorem splitNumeral_true (cs : List Char) : AllDigits (splitNumeral true cs).1 := by
  induction cs with
  | nil => exact List.forall_mem_nil _
  | cons c cs ih =>
    unfold splitNumeral
    split
    · exact List.forall_mem_cons.2 ⟨‹_›, ih⟩
    · simp [AllDigits]

private theorem splitNumeral_false (cs : List Char) : AllDigits (splitNumeral false cs).1 ∨
    ∃ whole fraction, (splitNumeral false cs).1 = whole ++ '.' :: fraction ∧ AllDigits whole ∧
      IsDigits fraction := by
  induction cs with
  | nil => exact .inl (List.forall_mem_nil _)
  | cons c cs ih =>
    unfold splitNumeral
    split
    · next hc =>
      obtain hall | ⟨whole, fraction, heq, hwhole, hfraction⟩ := ih
      · exact .inl (List.forall_mem_cons.2 ⟨hc, hall⟩)
      · refine .inr ⟨c :: whole, fraction, ?_, List.forall_mem_cons.2 ⟨hc, hwhole⟩, hfraction⟩
        simp only [heq, List.cons_append]
    · split
      · next hpoint =>
        simp only [Bool.and_eq_true, beq_iff_eq] at hpoint
        obtain ⟨⟨rfl, -⟩, hbegins⟩ := hpoint
        refine .inr ⟨[], _, rfl, List.forall_mem_nil _, ?_, splitNumeral_true cs⟩
        cases cs with
        | nil => cases hbegins
        | cons d ds =>
          have hd : d.isDigit = true := hbegins
          rw [splitNumeral, hd]
          exact hd
      · exact .inl (List.forall_mem_nil _)

private theorem filter_allDigits (h : AllDigits w) : w.filter (· != '_') = w.filter Char.isDigit := by
  refine List.filter_congr fun c hc => ?_
  obtain hd | hu := Bool.or_eq_true_iff.1 (h c hc)
  · rw [hd, bne_iff_ne]
    rintro rfl
    exact absurd hd (by decide)
  · rw [beq_iff_eq.1 hu]
    decide

theorem numeralValue_digits (h : AllDigits w) :
    numeralValue w = if digitsValue w < Nat.pow 2 63 then .int (Int64.ofNat (digitsValue w))
      else .float (Decimal.ofDecimal false (digitsValue w) 0) := by
  have hall : ∀ c ∈ w.filter Char.isDigit, c.isDigit = true := fun c hc => (List.mem_filter.1 hc).2
  simp only [numeralValue, filter_allDigits h, List.takeWhile_eq_self_iff.2 hall,
    List.dropWhile_eq_nil_iff.2 hall, digitsValue]
  rfl

theorem numeralValue_point (hwhole : AllDigits whole) (hfraction : AllDigits fraction) :
    numeralValue (whole ++ '.' :: fraction) =
      .float (Decimal.ofDecimal false (digitsValue (whole ++ fraction))
        (-(fraction.filter Char.isDigit).length)) := by
  have hall : ∀ c ∈ whole.filter Char.isDigit, c.isDigit = true := fun c hc => (List.mem_filter.1 hc).2
  have hdigits : (whole ++ '.' :: fraction).filter (· != '_') =
      whole.filter Char.isDigit ++ '.' :: fraction.filter Char.isDigit := by
    rw [List.filter_append, List.filter_cons_of_pos (by decide), filter_allDigits hwhole,
      filter_allDigits hfraction]
  simp only [numeralValue, hdigits, List.takeWhile_append_of_pos hall,
    List.dropWhile_append_of_pos hall]
  simp [digitsValue]

private theorem spelledBy_numeral (hw : AllDigits w ∨ ∃ whole fraction, w = whole ++ '.' :: fraction ∧
    AllDigits whole ∧ IsDigits fraction) (hbegins : beginsDigit w = true) :
    (Token.literal (numeralValue w)).SpelledBy w := by
  obtain hw | ⟨whole, fraction, rfl, hwhole, hfraction⟩ := hw
  · rw [numeralValue_digits hw]
    split
    · next hlt =>
      exact ⟨⟨hbegins, hw⟩, Int64.toInt_ofNat_of_lt hlt⟩
    · next hge => exact .inl ⟨⟨hbegins, hw⟩, Nat.le_of_not_lt hge, rfl⟩
  · rw [numeralValue_point hwhole hfraction.2]
    refine .inr ⟨whole, fraction, rfl, ⟨?_, hwhole⟩, hfraction, rfl⟩
    cases whole with
    | nil => exact absurd hbegins nofun
    | cons d ds => exact hbegins

/-! Strings, words and symbols. -/

private theorem splitString?_decodes {s : Split (List Char)} (h : splitString? quote cs = some s) :
    ∃ content, s.spelling = content ++ [quote] ∧ Decodes quote content s.value := by
  fun_induction splitString? quote cs generalizing s with
  | case1 | case2 => cases h
  | case3 c cs ih =>
    obtain ⟨t, ht, rfl⟩ := Option.map_eq_some_iff.1 h
    obtain ⟨content, hspelling, hdecodes⟩ := ih ht
    exact ⟨'\\' :: c :: content, by simp only [hspelling, List.cons_append], hdecodes.escaped c⟩
  | case4 cs =>
    cases h
    exact ⟨[], rfl, .nil⟩
  | case5 c cs hescape hlast hq ih =>
    -- A backslash has been read with the character after it, and ends no string.
    have hc : c ≠ '\\' := by
      rintro rfl
      cases cs with
      | nil => exact hescape rfl rfl
      | cons d ds => exact hlast d ds rfl rfl
    obtain ⟨t, ht, rfl⟩ := Option.map_eq_some_iff.1 h
    obtain ⟨content, hspelling, hdecodes⟩ := ih ht
    exact ⟨c :: content, by simp only [hspelling, List.cons_append], .plain hc hq hdecodes⟩

private theorem wordToken_spelledBy (mode : Mode) (ctx : Context) (word : String) :
    (wordToken mode ctx word).SpelledBy word.toList ∧ (wordToken mode ctx word).isCode := by
  unfold wordToken
  extract_lets afterElse
  split
  · next h => exact h ▸ ⟨rfl, rfl⟩
  split
  · next h => exact h ▸ ⟨rfl, rfl⟩
  split
  · next h =>
    refine ⟨?_, rfl⟩
    rcases h with rfl | rfl
    · exact .inl rfl
    · exact .inr rfl
  cases mode with
  | tag =>
    dsimp only
    split
    · next h => exact ⟨List.mem_singleton.2 (congrArg _ h.1), rfl⟩
    split
    · next h => exact ⟨List.mem_singleton.2 (congrArg _ h.1), rfl⟩
    split
    · next h => exact ⟨List.mem_singleton.2 (congrArg _ h.1), rfl⟩
    split
    · next h => exact ⟨List.mem_singleton.2 (congrArg _ h), rfl⟩
    · exact ⟨rfl, rfl⟩
  | script =>
    dsimp only
    split
    · next h =>
      have hspelling : word.toList ∈ Keyword.declare.spellings := by
        rcases h with rfl | rfl | rfl <;> decide
      exact ⟨hspelling, rfl⟩
    · exact ⟨rfl, rfl⟩

private theorem splitSymbol?_spelledBy {s : Split Symbol} (h : splitSymbol? cs = some s) :
    (Token.symbol s.value).SpelledBy s.spelling ∧ (Token.symbol s.value).isCode := by
  obtain ⟨e, he, h⟩ := List.exists_of_findSome?_eq_some h
  obtain ⟨rest, -, rfl⟩ := Option.map_eq_some_iff.1 h
  have all : ∀ e ∈ symbolSpellings, e.1 ∈ e.2.spellings ∧ (Token.symbol e.2).isCode := by decide
  exact all e he

/-- The symbol that a text begins with stays the same if what follows makes none of the spellings. -/
theorem splitSymbol?_append_of {more : List Char} (h : ∀ e ∈ symbolSpellings,
    Text.dropPrefix? e.1 (cs ++ more) = (Text.dropPrefix? e.1 cs).map (· ++ more)) :
    splitSymbol? (cs ++ more) =
      (splitSymbol? cs).map fun s => ⟨s.value, s.spelling, s.rest ++ more⟩ := by
  unfold splitSymbol?
  generalize symbolSpellings = entries at h
  induction entries with
  | nil => rfl
  | cons e entries ih =>
    obtain ⟨he, hentries⟩ := List.forall_mem_cons.1 h
    rw [List.findSome?_cons, List.findSome?_cons, he]
    cases Text.dropPrefix? e.1 cs with
    | none => exact ih hentries
    | some rest => rfl

/-- What is read is spelled by the characters that were read. -/
theorem splitToken_spelledBy {s : Split Token} (h : splitToken mode ctx pos c cs = .ok s) :
    s.value.SpelledBy s.spelling ∧ s.value.isCode := by
  unfold splitToken at h
  split at h
  · next hd =>
    cases h
    refine ⟨spelledBy_numeral (splitNumeral_false _) ?_, rfl⟩
    simp [splitNumeral, hd, beginsDigit]
  · split at h
    · next hq =>
      split at h
      · next s' hs =>
        cases h
        obtain ⟨content, hspelling, hdecodes⟩ := splitString?_decodes hs
        refine ⟨⟨c, content, hq, by rw [hspelling], ?_⟩, rfl⟩
        rwa [String.toList_ofList]
      · cases h
    · split at h
      · cases h
        have hword := wordToken_spelledBy mode ctx (splitIdentifier (c :: cs)).value
        rwa [splitIdentifier, String.toList_ofList] at hword
      · split at h
        · next hs =>
          cases h
          exact splitSymbol?_spelledBy hs
        · cases h

/-! Reading step by step. -/

theorem code_blank (hc : Text.isBlank c = true) :
    code .tag ctx pos (c :: cs) = code .tag ctx (pos.next c) cs := by
  rw [code, if_neg (fun h => by cases h.2), if_pos hc]

theorem code_blanks {blanks : List Char} (h : ∀ c ∈ blanks, Text.isBlank c = true) :
    code .tag ctx pos (blanks ++ cs) = code .tag ctx (pos.after blanks) cs := by
  induction blanks generalizing pos with
  | nil => rfl
  | cons c blanks ih =>
    obtain ⟨hc, hblanks⟩ := List.forall_mem_cons.1 h
    rw [List.cons_append, code_blank hc, ih hblanks, Pos.after_cons]

/-- The braces that close a tag. -/
theorem code_close (h : ctx.braces = 0) : code .tag ctx pos ('\x7d' :: '\x7d' :: cs) =
    .ok ⟨[⟨.symbol .closeTag, pos⟩], some (pos.after ['\x7d', '\x7d'], cs)⟩ := by
  rw [code, if_neg (fun h => by cases h.2), if_neg (by decide), if_pos ⟨rfl, h, rfl, rfl⟩]
  rfl

/-- Code that begins with a token: not with a line break of a script, white space, the end of a tag or
a comment. -/
theorem code_of_splitToken {s : Split Token} (hc : ¬ (c = '\n' ∧ mode = .script))
    (hb : ¬ Text.isBlank c = true)
    (hclose : ¬ (mode = .tag ∧ ctx.braces = 0 ∧ c = '\x7d' ∧ cs.head? = some '\x7d'))
    (hcomment : ¬ (mode = .script ∧ c = '/' ∧ cs.head? = some '/'))
    (hs : splitToken mode ctx pos c cs = .ok s) : code mode ctx pos (c :: cs) =
      (code mode (ctx.after s.value) (pos.after s.spelling) s.rest).map (Code.cons ⟨s.value, pos⟩) := by
  rw [code, if_neg hc, if_neg hb, if_neg hclose, if_neg hcomment]
  split
  · next e he => cases hs.symm.trans he
  · next s' hs' =>
    cases hs.symm.trans hs'
    rfl

theorem code_token {s : Split Token} (hc : Text.isBlank c = false)
    (hclose : ¬ (ctx.braces = 0 ∧ c = '\x7d')) (hs : splitToken .tag ctx pos c cs = .ok s) :
    code .tag ctx pos (c :: cs) =
      (code .tag (ctx.after s.value) (pos.after s.spelling) s.rest).map (Code.cons ⟨s.value, pos⟩) :=
  code_of_splitToken (fun h => by cases h.2) (by rw [hc]; decide)
    (fun h => hclose ⟨h.2.1, h.2.2.1⟩) (fun h => by cases h.1) hs

theorem template_nil (pos : Pos) : template pos [] = .ok [] := by
  rw [template]
  rfl

/-- Markup up to a tag, the tag, and what follows it. -/
theorem template_tag {text body rest : List Char} {p : Pos} {ls ts : List Lexeme} (pos : Pos)
    (hcut : Text.cut? ['\x7b', '\x7b'] cs = some (text, body))
    (htag : tag (pos.after text) ((pos.after text).after ['\x7b', '\x7b']) body = .ok (ls, p, rest))
    (hrest : template p rest = .ok ts) : template pos cs =
      .ok (textLexemes pos text ++ ⟨.symbol .openTag, pos.after text⟩ :: (ls ++ ts)) := by
  rw [template]
  split
  · next hnone => cases hcut.symm.trans hnone
  · next text' body' hcut' =>
    cases hcut.symm.trans hcut'
    dsimp only
    split
    · next e he => cases htag.symm.trans he
    · next ls' p' rest' htag' =>
      cases htag.symm.trans htag'
      rw [hrest]
      rfl

/-- A tag that does not begin with a closing keyword. -/
theorem tag_of_code {p : Pos} {blanks rest : List Char} {r : Code} (opening : Pos)
    (hblanks : ∀ c ∈ blanks, Text.isBlank c = true) (hc : Text.isBlank c = false)
    (hcloser : splitCloser? (pos.after blanks) (c :: cs) = .ok none)
    (hcode : code .tag (.ofTag (.symbol .openTag)) (pos.after blanks) (c :: cs) = .ok r)
    (ha : r.after = some (p, rest)) :
    tag opening pos (blanks ++ c :: cs) = .ok (r.lexemes, p, rest) := by
  have htake : (blanks ++ c :: cs).takeWhile Text.isBlank = blanks := by
    rw [List.takeWhile_append_of_pos hblanks, List.takeWhile_cons_of_neg (by rw [hc]; decide),
      List.append_nil]
  have hdrop : (blanks ++ c :: cs).dropWhile Text.isBlank = c :: cs := by
    rw [List.dropWhile_append_of_pos hblanks, List.dropWhile_cons_of_neg (by rw [hc]; decide)]
  rw [tag, htake, hdrop, tagCode, hcloser]
  dsimp only
  rw [hcode]
  dsimp only
  rw [ha]

end Lexer

end LiveMarkup
