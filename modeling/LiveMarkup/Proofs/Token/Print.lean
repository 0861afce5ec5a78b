import LiveMarkup.Proofs.Decimal.Digits
import LiveMarkup.Proofs.Text.Class
import LiveMarkup.Proofs.Text.Cut
import LiveMarkup.Proofs.Token.Spelling

/-! The tokens of a tag, printed with white space between them, are read back. -/

namespace LiveMarkup

/-- The character ends every token of code but a string. -/
def EndsWord (c : Char) : Prop := Text.isBlank c = true ∨ c = '\x7d'

instance (c : Char) : Decidable (EndsWord c) := inferInstanceAs (Decidable (_ ∨ _))

private theorem EndsWord.not_ident {c : Char} (h : EndsWord c) : Text.isIdentRest c = false := by
  rcases h with h | rfl
  · exact Text.isIdentRest_of_isBlank h
  · decide

/-- A text in quotes: the quote and the backslash have a backslash in front. -/
def escaped (quote : Char) : List Char → List Char
  | [] => []
  | c :: cs => if c = quote ∨ c = '\\' then '\\' :: c :: escaped quote cs else c :: escaped quote cs

def constantWords : List String := ["true", "false", "null", "undefined", "as"]

namespace Token

/-- A token that can occur in a tag: as the first one or not, right after `else` or not. -/
def Occurs (first afterElse : Bool) : Token → Prop
  | name s =>
      (∃ c cs, s.toList = c :: cs ∧ Text.isIdentStart c = true ∧ ∀ d ∈ cs, Text.isIdentRest d = true) ∧
      s ∉ constantWords ∧ (first = true → s ∉ ["each", "if", "else"]) ∧ (afterElse = true → s ≠ "if")
  | literal .null | literal (.bool _) | literal (.string _) => True
  | literal (.int n) => 0 ≤ n.toInt
  | literal (.float _) => False
  | keyword .asWord => True
  | keyword .each | keyword .elseWord => first = true
  | keyword .ifWord => first = true ∨ afterElse = true
  | keyword _ => False
  | symbol .openTag | symbol .closeTag | symbol .newline => False
  | symbol _ => True
  | text _ => False

def PrintedAs : Token → List Char → Prop
  | literal (.string s), w => ∃ quote, (quote = '"' ∨ quote = '\'') ∧
      w = quote :: (escaped quote s.toList ++ [quote])
  | literal v, w => w = v.text.toList
  | t, w => w = t.spelling.toList

def isElse (t : Token) : Bool := t.isKeyword .elseWord

def OccurAll (first afterElse : Bool) : List Token → Prop
  | [] => True
  | t :: ts => t.Occurs first afterElse ∧ OccurAll false t.isElse ts

/-- The count of open braces after the tokens, unless a brace is closed where none is open. -/
def braces? : Nat → List Token → Option Nat
  | n, [] => some n
  | n, symbol .openCurly :: ts => braces? (n + 1) ts
  | n + 1, symbol .closeCurly :: ts => braces? n ts
  | 0, symbol .closeCurly :: _ => none
  | n, _ :: ts => braces? n ts

/-- The tokens are printed up to the braces that close the tag. White space stands before each token
except perhaps the first one (`first`), and there can be some before the braces. -/
inductive Prints : Bool → List Token → List Char → Prop where
  | close {first : Bool} {gap : List Char} (hgap : ∀ c ∈ gap, Text.isBlank c = true) :
    Prints first [] (gap ++ ['\x7d', '\x7d'])
  | token {first : Bool} {gap w cs : List Char} {t : Token} {ts : List Token}
    (hgap : ∀ c ∈ gap, Text.isBlank c = true) (hsep : first = true ∨ gap ≠ []) (hw : t.PrintedAs w)
    (h : Prints false ts cs) : Prints first (t :: ts) (gap ++ (w ++ cs))

end Token

namespace Lexer

variable {pos : Pos} {ctx : Context} {quote c : Char} {cs w : List Char} {s : String}

/-! Each token is read from what prints it. -/

private theorem splitString?_escaped (hquote : quote = '"' ∨ quote = '\'') (vs : List Char) :
    splitString? quote (escaped quote vs ++ quote :: cs) = some ⟨vs, escaped quote vs ++ [quote], cs⟩ := by
  induction vs with
  | nil =>
    rcases hquote with rfl | rfl <;> simp [escaped, splitString?]
  | cons v vs ih =>
    rw [escaped]
    split
    · next hv =>
      have hunescape : unescape v = v := by
        rcases hv with rfl | rfl
        · rcases hquote with rfl | rfl <;> rfl
        · rfl
      rw [List.cons_append, List.cons_append, splitString?, ih, Option.map_some, hunescape]
      rfl
    · next hv =>
      obtain ⟨hq, hb⟩ := not_or.1 hv
      rw [List.cons_append, splitString?, if_neg hq, ih, Option.map_some]
      · rfl
      · rintro rfl
        exact absurd rfl hb
      · rintro _ _ rfl
        exact absurd rfl hb

def Context.afterElse (ctx : Context) : Bool :=
  match ctx.last with
  | some t => t.isElse
  | none => false

/-- What follows a printed token ends it. -/
def Ended (cs : List Char) : Prop := ∀ c ∈ cs.head?, EndsWord c

/-- What follows a word does not go on with it. -/
def EndsName (cs : List Char) : Prop := ∀ c ∈ cs.head?, Text.isIdentRest c = false

/-- What follows digits goes on with none, nor, if there has been no point, with a point before one. -/
def EndsDigits (pointed : Bool) (cs : List Char) : Prop :=
  ∀ c ∈ cs.head?, (c.isDigit || c == '_') = false ∧
    (pointed = false → c = '.' → beginsDigit cs.tail = false)

private theorem Ended.endsName (h : Ended cs) : EndsName cs := fun c hc => (h c hc).not_ident

private theorem Ended.endsDigits (h : Ended cs) : EndsDigits false cs := by
  intro c hc
  have hident := (h c hc).not_ident
  rw [Text.isIdentRest, Bool.or_eq_false_iff] at hident
  constructor
  · rw [hident.2, Bool.false_or, beq_eq_false_iff_ne]
    rintro rfl
    exact absurd hident.1 (by decide)
  · rintro - rfl
    exact absurd (h _ hc) (by decide)

private theorem splitIdentifier_append (h : EndsName cs) (hw : ∀ c ∈ w, Text.isIdentRest c = true) :
    splitIdentifier (w ++ cs) = ⟨String.ofList w, w, cs⟩ := by
  rw [splitIdentifier, List.takeWhile_append_of_pos hw, List.dropWhile_append_of_pos hw]
  cases cs with
  | nil => rw [List.takeWhile_nil, List.dropWhile_nil, List.append_nil]
  | cons c cs =>
    have hc : ¬ Text.isIdentRest c = true := by
      rw [h c rfl]
      decide
    rw [List.takeWhile_cons_of_neg hc, List.dropWhile_cons_of_neg hc, List.append_nil]

private theorem splitNumeral_of_endsDigits {pointed : Bool} (h : EndsDigits pointed cs) :
    splitNumeral pointed cs = ([], cs) := by
  cases cs with
  | nil => rfl
  | cons c cs =>
    obtain ⟨hdigit, hpoint⟩ := h c rfl
    have hstop : (c == '.' && !pointed && beginsDigit cs) = false := by
      cases pointed with
      | true => simp
      | false =>
        rw [Bool.and_eq_false_iff, Bool.and_eq_false_iff, beq_eq_false_iff_ne]
        by_cases hc : c = '.'
        · exact .inr (hpoint rfl hc)
        · exact .inl (.inl hc)
    rw [splitNumeral, hdigit, hstop]
    rfl

theorem splitNumeral_append_digits {pointed : Bool} (h : EndsDigits pointed cs) (hw : AllDigits w) :
    splitNumeral pointed (w ++ cs) = (w, cs) := by
  induction w with
  | nil => exact splitNumeral_of_endsDigits h
  | cons c w ih =>
    obtain ⟨hc, hw⟩ := List.forall_mem_cons.1 hw
    rw [List.cons_append, splitNumeral, if_pos hc, ih hw]

/-- The symbol that a text begins with does not go on after the end of a word. -/
private theorem splitSymbol?_ended (h : Ended cs) (c : Char) (w : List Char) :
    splitSymbol? (c :: w ++ cs) =
    (splitSymbol? (c :: w)).map fun s => ⟨s.value, s.spelling, s.rest ++ cs⟩ := by
  -- A spelling could only go on after the word's end with a character that ends words.
  have hsymbols : ∀ e ∈ symbolSpellings,
      e.1 ≠ [] ∧ e.1.tail.all (fun c => !decide (EndsWord c)) = true := by
    decide
  refine splitSymbol?_append_of fun e he => ?_
  obtain ⟨hne, htail⟩ := hsymbols e he
  obtain ⟨p, tail, he⟩ := List.exists_cons_of_ne_nil hne
  have hends : ∀ d ∈ cs.head?, d ∉ tail := fun d hd hmem => by
    rw [he] at htail
    have hnot := List.all_eq_true.1 htail d hmem
    simp only [decide_eq_true (h d hd), Bool.not_true, Bool.false_eq_true] at hnot
  rw [he, List.cons_append, Text.dropPrefix?, Text.dropPrefix?]
  split
  · exact Text.dropPrefix?_append_of_not_mem hends
  · rfl

/-! The first character of a token says how it is read. -/

theorem splitToken_word (hc : Text.isIdentStart c = true) (h : EndsName cs)
    (hw : ∀ d ∈ w, Text.isIdentRest d = true) : splitToken .tag ctx pos c (w ++ cs) =
      .ok ⟨wordToken .tag ctx (String.ofList (c :: w)), c :: w, cs⟩ := by
  have hdigit := Text.isDigit_of_isIdentStart hc
  have hquote : ¬ (c = '"' ∨ c = '\'') := by
    rintro (rfl | rfl) <;> exact absurd hc (by decide)
  have hall : ∀ d ∈ c :: w, Text.isIdentRest d = true :=
    List.forall_mem_cons.2 ⟨by rw [Text.isIdentRest, hc, Bool.true_or], hw⟩
  rw [splitToken, hdigit, if_neg (by decide), if_neg hquote, if_pos hc, ← List.cons_append,
    splitIdentifier_append h hall]

theorem splitToken_digits (hc : c.isDigit = true) (hw : AllDigits (c :: w)) (h : EndsDigits false cs) :
    splitToken .tag ctx pos c (w ++ cs) = .ok ⟨.literal (numeralValue (c :: w)), c :: w, cs⟩ := by
  rw [splitToken, if_pos hc, ← List.cons_append, splitNumeral_append_digits h hw]

private theorem splitToken_string (hquote : quote = '"' ∨ quote = '\'') (vs : List Char) :
    splitToken .tag ctx pos quote (escaped quote vs ++ [quote] ++ cs) =
      .ok ⟨.literal (.string (String.ofList vs)), quote :: (escaped quote vs ++ [quote]), cs⟩ := by
  have hdigit : quote.isDigit = false := by
    rcases hquote with rfl | rfl <;> rfl
  rw [splitToken, hdigit, if_neg (by decide), if_pos hquote, List.append_assoc, List.singleton_append,
    splitString?_escaped hquote]

def beginsIdent : List Char → Bool
  | c :: _ => Text.isIdentStart c
  | [] => false

private theorem Ended.beginsIdent (h : Ended cs) : beginsIdent cs = false := by
  cases cs with
  | nil => rfl
  | cons c cs =>
    have hrest := (h c rfl).not_ident
    rw [Text.isIdentRest, Bool.or_eq_false_iff] at hrest
    exact hrest.1

/-- The token is read from its first character and the others, whatever ends it. -/
structure ReadBack (ctx : Context) (t : Token) (c : Char) (w : List Char) : Prop where
  notBlank : Text.isBlank c = false
  brace : c = '\x7d' → t = .symbol .closeCurly
  slash : c = '/' → beginsIdent w = false
  reads : ∀ pos cs, Ended cs → splitToken .tag ctx pos c (w ++ cs) = .ok ⟨t, c :: w, cs⟩

theorem readBack_word {t : Token} (hc : Text.isIdentStart c = true)
    (hw : ∀ d ∈ w, Text.isIdentRest d = true) (ht : wordToken .tag ctx (String.ofList (c :: w)) = t) :
    ReadBack ctx t c w where
  notBlank := Bool.eq_false_iff.2 fun hblank => by
    have hrest := Text.isIdentRest_of_isBlank hblank
    rw [Text.isIdentRest, hc] at hrest
    cases hrest
  brace := by
    rintro rfl
    exact absurd hc (by decide)
  slash := by
    rintro rfl
    exact absurd hc (by decide)
  reads := fun pos cs hcs => by rw [splitToken_word hc hcs.endsName hw, ht]

/-- What the first character of a symbol says. -/
private theorem symbol_begins {s : Symbol} (hs : s ≠ .openTag ∧ s ≠ .closeTag ∧ s ≠ .newline) :
    ∃ c w, s.spelling.toList = c :: w ∧ Text.isBlank c = false ∧ (c = '\x7d' → s = .closeCurly) ∧
      (c = '/' → beginsIdent w = false) ∧ c.isDigit = false ∧ ¬ (c = '"' ∨ c = '\'') ∧
      Text.isIdentStart c = false ∧ splitSymbol? (c :: w) = some ⟨s, c :: w, []⟩ := by
  obtain ⟨hopen, hclose, hline⟩ := hs
  cases s with
  | openTag => exact absurd rfl hopen
  | closeTag => exact absurd rfl hclose
  | newline => exact absurd rfl hline
  | _ =>
    exact ⟨_, _, rfl, by decide, by decide, by decide, by decide, by decide, by decide, rfl⟩

private theorem readBack_symbol {s : Symbol} (hs : s ≠ .openTag ∧ s ≠ .closeTag ∧ s ≠ .newline) :
    ∃ c w, s.spelling.toList = c :: w ∧ ReadBack ctx (.symbol s) c w := by
  obtain ⟨c, w, hw, hblank, hbrace, hslash, hdigit, hquote, hident, hsplit⟩ := symbol_begins hs
  refine ⟨c, w, hw, hblank, fun hc => by rw [hbrace hc], hslash, fun pos cs hcs => ?_⟩
  rw [splitToken, hdigit, if_neg (by decide), if_neg hquote, hident, if_neg (by decide),
    ← List.cons_append, splitSymbol?_ended hcs, hsplit]
  rfl

private theorem readBack_string (hquote : quote = '"' ∨ quote = '\'') (s : String) :
    ReadBack ctx (.literal (.string s)) quote (escaped quote s.toList ++ [quote]) where
  notBlank := by rcases hquote with rfl | rfl <;> decide
  brace := by
    rintro rfl
    exact absurd hquote (by decide)
  slash := by
    rintro rfl
    exact absurd hquote (by decide)
  reads := fun pos cs _ => by rw [splitToken_string hquote, String.ofList_toList]

/-- The digits of a number stand for it. -/
theorem digits_of_nat (n : Nat) : IsDigits (Nat.toDigits 10 n) ∧ digitsValue (Nat.toDigits 10 n) = n := by
  have hall : ∀ c ∈ Nat.toDigits 10 n, c.isDigit = true := fun c hc =>
    Decimal.isDigit_of_mem_toDigits hc
  refine ⟨⟨?_, fun c hc => by rw [hall c hc, Bool.true_or]⟩, ?_⟩
  · obtain ⟨c, w, hw⟩ := List.exists_cons_of_ne_nil (Nat.toDigits_ne_nil (n := n) (b := 10))
    rw [hw]
    exact hall c (by rw [hw]; exact List.mem_cons_self)
  · rw [digitsValue, List.filter_eq_self.2 hall]
    exact Decimal.natOfDigits_toDigits n

private theorem readBack_int {n : Int64} (hn : 0 ≤ n.toInt) :
    ∃ c w, (Literal.int n).text.toList = c :: w ∧ ReadBack ctx (.literal (.int n)) c w := by
  obtain ⟨k, hk⟩ := Int.eq_ofNat_of_zero_le hn
  have htext : (Literal.int n).text.toList = Nat.toDigits 10 k := by
    rw [Literal.text, hk]
    exact Nat.toList_repr
  obtain ⟨⟨hbegins, hall⟩, hvalue⟩ := digits_of_nat k
  have hlt : k < Nat.pow 2 63 := by
    have hmax := n.toInt_lt
    have hpow : Nat.pow 2 63 = 9223372036854775808 := rfl
    omega
  have hliteral : numeralValue (Nat.toDigits 10 k) = .int n := by
    rw [numeralValue_digits hall, hvalue, if_pos hlt]
    exact congrArg Literal.int (Int64.toInt_inj.1 ((Int64.toInt_ofNat_of_lt hlt).trans hk.symm))
  rw [htext]
  obtain ⟨c, w, hw⟩ := List.exists_cons_of_ne_nil (Nat.toDigits_ne_nil (n := k) (b := 10))
  rw [hw] at hbegins hall hliteral
  have hc : c.isDigit = true := hbegins
  refine ⟨c, w, hw, ?_, ?_, ?_, fun pos cs hcs => ?_⟩
  · refine Bool.eq_false_iff.2 fun hblank => ?_
    have hrest := Text.isIdentRest_of_isBlank hblank
    rw [Text.isIdentRest, hc, Bool.or_true] at hrest
    cases hrest
  · rintro rfl
    exact absurd hc (by decide)
  · rintro rfl
    exact absurd hc (by decide)
  · rw [splitToken_digits hc hall hcs.endsDigits, hliteral]

/-- A word without a meaning where it stands is a name. -/
theorem wordToken_name (hconstant : s ∉ constantWords)
    (hfirst : ctx.first = true → s ∉ ["each", "if", "else"]) (helse : ctx.afterElse = true → s ≠ "if") : wordToken .tag ctx s = .name s := by
  simp only [constantWords, List.mem_cons, List.not_mem_nil, or_false, not_or] at hconstant hfirst
  obtain ⟨htrue, hfalse, hnull, hundefined, has⟩ := hconstant
  have heach : ¬ (s = "each" ∧ ctx.first = true) := fun h => (hfirst h.2).1 h.1
  have hif : ¬ (s = "if" ∧ (ctx.first = true ∨ ctx.afterElse = true)) := by
    rintro ⟨rfl, h | h⟩
    · exact (hfirst h).2.1 rfl
    · exact helse h rfl
  have helse' : ¬ (s = "else" ∧ ctx.first = true) := fun h => (hfirst h.2).2.2 h.1
  rw [wordToken, if_neg htrue, if_neg hfalse, if_neg (not_or.2 ⟨hnull, hundefined⟩)]
  exact (if_neg heach).trans ((if_neg hif).trans ((if_neg helse').trans (if_neg has)))

private theorem readBack_of_printed {t : Token} (ctx : Context)
    (hocc : t.Occurs ctx.first ctx.afterElse) (hw : t.PrintedAs w) :
    ∃ c w', w = c :: w' ∧ ReadBack ctx t c w' := by
  match t with
  | .text s => cases hocc
  | .name s =>
    obtain ⟨⟨c, w', hs, hc, hrest⟩, hconstant, hfirst, helse⟩ := hocc
    refine ⟨c, w', hw.trans hs, readBack_word hc hrest ?_⟩
    rw [← hs, String.ofList_toList]
    exact wordToken_name hconstant hfirst helse
  | .literal .null =>
    cases hw
    exact ⟨_, _, rfl, readBack_word (by decide) (List.all_eq_true.1 rfl) rfl⟩
  | .literal (.bool b) =>
    cases hw
    cases b <;> exact ⟨_, _, rfl, readBack_word (by decide) (List.all_eq_true.1 rfl) rfl⟩
  | .literal (.int n) =>
    cases hw
    exact readBack_int hocc
  | .literal (.float x) => cases hocc
  | .literal (.string s) =>
    obtain ⟨quote, hquote, rfl⟩ := hw
    exact ⟨_, _, rfl, readBack_string hquote s⟩
  | .keyword k =>
    cases hw
    cases k with
    | asWord => exact ⟨_, _, rfl, readBack_word (by decide) (List.all_eq_true.1 rfl) rfl⟩
    | each | ifWord | elseWord =>
      exact ⟨_, _, rfl, readBack_word (by decide) (List.all_eq_true.1 rfl) (if_pos ⟨rfl, hocc⟩)⟩
    | closeEach | closeIf | declare => cases hocc
  | .symbol s =>
    cases hw
    refine readBack_symbol ⟨?_, ?_, ?_⟩ <;> rintro rfl <;> exact hocc

/-! A tag is read token by token. -/

/-- What follows a token of a printed tag ends it. -/
private theorem ended_of_prints {ts : List Token} (h : Token.Prints false ts cs) : Ended cs := by
  cases h with
  | @close _ gap hgap =>
    cases gap with
    | nil =>
      rintro c ⟨⟩
      exact .inr rfl
    | cons c gap =>
      rintro d ⟨⟩
      exact .inl (hgap c List.mem_cons_self)
  | @token _ gap w cs t ts hgap hsep =>
    obtain ⟨c, gap, rfl⟩ := List.exists_cons_of_ne_nil (hsep.resolve_left nofun)
    rintro d ⟨⟩
    exact .inl (hgap c List.mem_cons_self)

/-- The braces that are open after a token. -/
private theorem braces_after {t : Token} {ts : List Token} {n : Nat}
    (h : Token.braces? ctx.braces (t :: ts) = some n) :
    Token.braces? (ctx.after t).braces ts = some n ∧ (ctx.braces = 0 → t ≠ .symbol .closeCurly) := by
  cases t with
  | text | name | literal | keyword => exact ⟨h, fun _ => nofun⟩
  | symbol s =>
    cases s with
    | closeCurly =>
      obtain ⟨depth, braces, first, last⟩ := ctx
      cases braces with
      | zero => cases h
      | succ m => exact ⟨h, nofun⟩
    | _ => exact ⟨h, fun _ => nofun⟩

theorem first_after (ctx : Context) (t : Token) : (ctx.after t).first = false := by
  unfold Context.after
  split <;> rfl

theorem afterElse_after (ctx : Context) (t : Token) : (ctx.after t).afterElse = t.isElse := by
  unfold Context.after
  split <;> rfl

theorem splitCloser?_eq_none (h : c = '/' → beginsIdent cs = false) :
    splitCloser? pos (c :: cs) = .ok none := by
  unfold splitCloser?
  split
  · next d rest heq =>
    cases heq
    have hd : Text.isIdentStart d = false := h rfl
    rw [hd]
    rfl
  · rfl

/-- The rest of a printed tag is read as its tokens and the braces that close it. -/
private theorem code_printed {ts : List Token} {first : Bool} (ctx : Context) (pos : Pos)
    (h : Token.Prints first ts cs)
    (hts : Token.OccurAll ctx.first ctx.afterElse ts) (hbraces : Token.braces? ctx.braces ts = some 0) :
    ∃ r p, code .tag ctx pos cs = .ok r ∧ r.after = some (p, []) ∧
      r.lexemes.map Lexeme.token = ts ++ [.symbol .closeTag] := by
  -- What the next word means depends on the token before it, so the context is generalized.
  induction h generalizing ctx pos with
  | close hgap =>
    rw [code_blanks hgap, code_close (Option.some.inj hbraces)]
    exact ⟨_, _, rfl, rfl, rfl⟩
  | @token first gap w cs t ts hgap hsep hw h ih =>
    obtain ⟨hocc, hts⟩ := hts
    obtain ⟨hbraces, hopen⟩ := braces_after hbraces
    obtain ⟨c, w, rfl, hread⟩ := readBack_of_printed ctx hocc hw
    rw [← first_after ctx t, ← afterElse_after ctx t] at hts
    obtain ⟨r, p, hr, ha, hls⟩ := ih (ctx.after t) ((pos.after gap).after (c :: w)) hts hbraces
    have hclose : ¬ (ctx.braces = 0 ∧ c = '\x7d') := fun hz => hopen hz.1 (hread.brace hz.2)
    rw [code_blanks hgap, List.cons_append,
      code_token hread.notBlank hclose (hread.reads _ _ (ended_of_prints h)), hr]
    exact ⟨_, p, rfl, ha, congrArg (List.cons t) hls⟩

private theorem tag_printed {ts : List Token} (opening pos : Pos) (h : Token.Prints true ts cs)
    (hts : Token.OccurAll true false ts) (hbraces : Token.braces? 0 ts = some 0) :
    ∃ ls p, tag opening pos cs = .ok (ls, p, []) ∧
      ls.map Lexeme.token = ts ++ [.symbol .closeTag] := by
  cases h with
  | @close _ gap hgap =>
    exact ⟨_, _, tag_of_code opening hgap (by decide) rfl (code_close rfl) rfl, rfl⟩
  | @token _ gap w cs t ts hgap hsep hw h =>
    obtain ⟨c, w, rfl, hread⟩ := readBack_of_printed (.ofTag (.symbol .openTag)) hts.1 hw
    have htoken : Token.Prints true (t :: ts) ([] ++ (c :: w ++ cs)) := .token nofun (.inl rfl) hw h
    obtain ⟨r, p, hr, ha, hls⟩ :=
      code_printed (.ofTag (.symbol .openTag)) (pos.after gap) htoken hts hbraces
    have hcloser : splitCloser? (pos.after gap) (c :: (w ++ cs)) = .ok none := by
      refine splitCloser?_eq_none fun hc => ?_
      cases w with
      | nil => exact (ended_of_prints h).beginsIdent
      | cons d w => exact hread.slash hc
    exact ⟨r.lexemes, p, tag_of_code opening hgap hread.notBlank hcloser hr ha, hls⟩

/-- The tokens of a tag that is printed are read back. -/
theorem ofTemplate_printed {ts : List Token} (h : Token.Prints true ts cs)
    (hts : Token.OccurAll true false ts) (hbraces : Token.braces? 0 ts = some 0) :
    (ofTemplate (String.ofList ('\x7b' :: '\x7b' :: cs))).map (List.map Lexeme.token) =
      .ok (.symbol .openTag :: (ts ++ [.symbol .closeTag])) := by
  obtain ⟨ls, p, htag, hls⟩ := tag_printed .start (Pos.start.after ['\x7b', '\x7b']) h hts hbraces
  have hcut : Text.cut? ['\x7b', '\x7b'] ('\x7b' :: '\x7b' :: cs) = some ([], cs) := rfl
  rw [ofTemplate, String.toList_ofList, template_tag .start hcut htag (template_nil p)]
  simp only [Except.map, textLexemes, List.isEmpty_nil, if_true, List.nil_append, List.append_nil,
    List.map_cons, hls]

/-- A tag with both words of `else if`, and a string with closing braces in a hash. -/
def elseTag : List Token :=
  [.keyword .elseWord, .keyword .ifWord, .name "a", .symbol .openCurly, .literal (.string "\x7d\x7d\""),
    .symbol .closeCurly, .symbol .equal, .literal (.int 42)]

def elseTagText : List Char :=
  [' '] ++ ("else".toList ++ ([' '] ++ ("if".toList ++ (['\n'] ++ ("a".toList ++ ([' '] ++
    (['\x7b'] ++ ([' ', ' '] ++ (['"', '\x7d', '\x7d', '\\', '"', '"'] ++ ([' '] ++ (['\x7d'] ++
    ([' '] ++ ("==".toList ++ ([' '] ++ ("42".toList ++ ([] ++ ['\x7d', '\x7d']))))))))))))))))

private theorem prints_elseTag : Token.Prints true elseTag elseTagText :=
  .token (List.all_eq_true.1 rfl) (.inl rfl) rfl <|
    .token (List.all_eq_true.1 rfl) (.inr nofun) rfl <|
    .token (List.all_eq_true.1 rfl) (.inr nofun) rfl <|
    .token (List.all_eq_true.1 rfl) (.inr nofun) rfl <|
    .token (List.all_eq_true.1 rfl) (.inr nofun) ⟨'"', .inl rfl, rfl⟩ <|
    .token (List.all_eq_true.1 rfl) (.inr nofun) rfl <|
    .token (List.all_eq_true.1 rfl) (.inr nofun) rfl <|
    .token (List.all_eq_true.1 rfl) (.inr nofun) rfl <| .close nofun

private theorem occurAll_elseTag : Token.OccurAll true false elseTag := by
  have ha : Token.Occurs false false (.name "a") :=
    ⟨⟨'a', [], rfl, by decide, nofun⟩, by decide, nofun, nofun⟩
  have hint : 0 ≤ (42 : Int64).toInt := by decide
  exact ⟨rfl, .inr rfl, ha, trivial, trivial, trivial, trivial, hint, trivial⟩

theorem ofTemplate_printed_elseTag :
    Token.Prints true elseTag elseTagText ∧ Token.OccurAll true false elseTag ∧
      Token.braces? 0 elseTag = some 0 ∧
      (ofTemplate (String.ofList ('\x7b' :: '\x7b' :: elseTagText))).map (List.map Lexeme.token) =
        .ok (.symbol .openTag :: (elseTag ++ [.symbol .closeTag])) :=
  ⟨prints_elseTag, occurAll_elseTag, rfl, ofTemplate_printed prints_elseTag occurAll_elseTag rfl⟩

end Lexer

end LiveMarkup
