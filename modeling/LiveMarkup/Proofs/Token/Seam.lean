import LiveMarkup.Proofs.Text.Cut
import LiveMarkup.Proofs.Token.Shift

/-! Sources one after the other. A tag ends where it did whatever follows it, so that the tokens of two
templates are those of both, but for the text across the seam. -/

namespace LiveMarkup.Lexer

variable {mode : Mode} {ctx : Context} {pos p : Pos} {c quote : Char} {cs more rest : List Char} {r : Code}

/-- What is left after a token and what comes after that say where the token ends: there are two more
characters, or a line feed comes next. -/
def Settles (rest more : List Char) : Prop := 2 ≤ rest.length ∨ more.head? = some '\n'

/-! Tokens. -/

private theorem takeWhile_extend {p : Char → Bool}
    (h : cs.dropWhile p ≠ [] ∨ ∀ c ∈ more.head?, p c = false) :
    (cs ++ more).takeWhile p = cs.takeWhile p ∧ (cs ++ more).dropWhile p = cs.dropWhile p ++ more := by
  induction cs with
  | nil =>
    have hmore : ∀ c ∈ more.head?, p c = false := h.resolve_left fun hne => hne rfl
    cases more with
    | nil => exact ⟨rfl, rfl⟩
    | cons c more =>
      have hc : ¬ p c = true := Bool.eq_false_iff.1 (hmore c rfl)
      exact ⟨List.takeWhile_cons_of_neg hc, List.dropWhile_cons_of_neg hc⟩
  | cons c cs ih =>
    by_cases hc : p c = true
    · rw [List.dropWhile_cons_of_pos hc] at h
      obtain ⟨htake, hdrop⟩ := ih h
      rw [List.cons_append, List.takeWhile_cons_of_pos hc, List.takeWhile_cons_of_pos hc,
        List.dropWhile_cons_of_pos hc, List.dropWhile_cons_of_pos hc, htake, hdrop]
      exact ⟨rfl, rfl⟩
    · rw [List.cons_append, List.takeWhile_cons_of_neg hc, List.takeWhile_cons_of_neg hc,
        List.dropWhile_cons_of_neg hc, List.dropWhile_cons_of_neg hc]
      exact ⟨rfl, rfl⟩

private theorem splitIdentifier_extend (h : Settles (splitIdentifier cs).rest more) :
    splitIdentifier (cs ++ more) =
      ⟨(splitIdentifier cs).value, (splitIdentifier cs).spelling, (splitIdentifier cs).rest ++ more⟩ := by
  have hstop : cs.dropWhile Text.isIdentRest ≠ [] ∨ ∀ c ∈ more.head?, Text.isIdentRest c = false := by
    refine h.imp (fun hlength => List.ne_nil_of_length_pos (by exact Nat.lt_of_lt_of_le Nat.two_pos hlength))
      fun hline c hc => ?_
    rw [hline] at hc
    cases hc
    decide
  obtain ⟨htake, hdrop⟩ := takeWhile_extend hstop
  rw [splitIdentifier, htake, hdrop]
  rfl

private theorem splitNumeral_extend {pointed : Bool} (h : Settles (splitNumeral pointed cs).2 more) :
    splitNumeral pointed (cs ++ more) =
      ((splitNumeral pointed cs).1, (splitNumeral pointed cs).2 ++ more) := by
  fun_induction splitNumeral pointed cs with
  | case1 pointed =>
    obtain hlength | hline := h
    · cases hlength
    · obtain ⟨more, rfl⟩ := List.head?_eq_some_iff.1 hline
      rfl
  | case2 pointed c cs hc tail ih =>
    rw [List.cons_append, splitNumeral, if_pos hc, ih h]
  | case3 pointed c cs hc hpoint tail ih =>
    obtain ⟨d, ds, rfl⟩ : ∃ d ds, cs = d :: ds := by
      cases cs with
      | nil => simp [beginsDigit] at hpoint
      | cons d ds => exact ⟨d, ds, rfl⟩
    have hgoes : (c == '.' && !pointed && beginsDigit (d :: ds ++ more)) = true := hpoint
    rw [List.cons_append, splitNumeral, if_neg hc, if_pos hgoes, ih h]
  | case4 pointed c cs hc hpoint =>
    have hstop : ¬ (c == '.' && !pointed && beginsDigit (cs ++ more)) = true := by
      cases cs with
      | nil =>
        obtain hlength | hline := h
        · exact absurd hlength (Nat.not_succ_le_self 1)
        · obtain ⟨more, rfl⟩ := List.head?_eq_some_iff.1 hline
          simp [beginsDigit]
      | cons d ds => exact hpoint
    rw [List.cons_append, splitNumeral, if_neg hc, if_neg hstop]

private theorem splitString?_cons (hc : c ≠ '\\') : splitString? quote (c :: cs) =
    if c = quote then some ⟨[], [c], cs⟩
    else (splitString? quote cs).map fun s => ⟨c :: s.value, c :: s.spelling, s.rest⟩ := by
  rw [splitString?]
  · exact fun h => absurd h hc
  · exact fun _ _ h => absurd h hc

private theorem splitString?_extend {s : Split (List Char)} (h : splitString? quote cs = some s) :
    splitString? quote (cs ++ more) = some ⟨s.value, s.spelling, s.rest ++ more⟩ := by
  have hplain {c : Char} {cs : List Char} (hnil : c = '\\' → cs = [] → False)
      (hcons : ∀ d ds, c = '\\' → cs = d :: ds → False) : c ≠ '\\' := by
    intro hc
    cases cs with
    | nil => exact hnil hc rfl
    | cons d ds => exact hcons d ds hc rfl
  fun_induction splitString? quote cs generalizing s with
  | case1 => cases h
  | case2 => cases h
  | case3 c cs ih =>
    obtain ⟨s, hs, rfl⟩ := Option.map_eq_some_iff.1 h
    rw [List.cons_append, List.cons_append, splitString?, ih hs]
    rfl
  | case4 cs hnil hcons =>
    cases h
    rw [List.cons_append, splitString?_cons (hplain hnil hcons), if_pos rfl]
  | case5 c cs hnil hcons hc ih =>
    obtain ⟨s, hs, rfl⟩ := Option.map_eq_some_iff.1 h
    rw [List.cons_append, splitString?_cons (hplain hnil hcons), if_neg hc, ih hs]
    rfl

private theorem splitSymbol?_extend {s : Split Symbol} (h : splitSymbol? cs = some s)
    (hs : Settles s.rest more) : splitSymbol? (cs ++ more) = some ⟨s.value, s.spelling, s.rest ++ more⟩ := by
  obtain ⟨hspelled, hne⟩ := splitSymbol?_append h
  have hsymbols : ∀ e ∈ symbolSpellings, e.1.length ≤ 3 ∧ '\n' ∉ e.1 := by decide
  rw [splitSymbol?_append_of fun e he => ?_, h]
  · rfl
  · obtain hlength | hline := hs
    · have hpos := List.length_pos_iff.2 hne
      refine Text.dropPrefix?_append_of_le ((hsymbols e he).1.trans ?_) more
      rw [← hspelled, List.length_append]
      omega
    · refine Text.dropPrefix?_append_of_not_mem fun d hd => ?_
      rw [hline] at hd
      cases hd
      exact (hsymbols e he).2

/-- A token stays what it is, whatever follows, if its end is settled. -/
private theorem splitToken_extend {s : Split Token} (h : splitToken mode ctx pos c cs = .ok s)
    (hs : Settles s.rest more) :
    splitToken mode ctx pos c (cs ++ more) = .ok ⟨s.value, s.spelling, s.rest ++ more⟩ := by
  unfold splitToken at h ⊢
  split at h
  · next hc =>
    cases h
    rw [if_pos hc, ← List.cons_append, splitNumeral_extend hs]
  · next hc =>
    rw [if_neg hc]
    split at h
    · next hq =>
      rw [if_pos hq]
      split at h
      · next hstring =>
        cases h
        rw [splitString?_extend hstring]
      · cases h
    · next hq =>
      rw [if_neg hq]
      split at h
      · next hi =>
        cases h
        rw [if_pos hi, ← List.cons_append, splitIdentifier_extend hs]
      · next hi =>
        rw [if_neg hi]
        split at h
        · next hsymbol =>
          cases h
          rw [← List.cons_append, splitSymbol?_extend hsymbol hs]
        · cases h

/-! Tags. -/

/-- A tag's end takes its closing braces. -/
private theorem code_after_le (h : code mode ctx pos cs = .ok r) (ha : r.after = some (p, rest)) :
    rest.length + 2 ≤ cs.length := by
  fun_induction code mode ctx pos cs generalizing r with
  | case1 =>
    cases h
    cases ha
  | case2 ctx pos c cs _ _ ih =>
    obtain ⟨tail, htail, rfl⟩ := exists_of_map_eq_ok h
    exact (ih htail ha).trans (Nat.le_succ _)
  | case3 ctx pos c cs _ _ ih | case4 ctx pos c cs _ _ ih => exact (ih h ha).trans (Nat.le_succ _)
  | case5 ctx pos c cs _ _ hclose =>
    obtain ⟨cs, rfl⟩ := List.head?_eq_some_iff.1 hclose.2.2.2
    cases h
    cases ha
    exact Nat.le_refl _
  | case6 ctx pos c cs _ _ _ _ ih =>
    have hdrop := (List.dropWhile_suffix (l := cs) (· != '\n')).length_le
    exact (ih h ha).trans (hdrop.trans (Nat.le_succ _))
  | case7 => cases h
  | case8 ctx pos c cs _ _ _ _ s hs ih =>
    obtain ⟨tail, htail, rfl⟩ := exists_of_map_eq_ok h
    exact (ih htail ha).trans ((splitToken_rest_length hs).trans (Nat.le_succ _))

private theorem code_extend (h : code .tag ctx pos cs = .ok r) (ha : r.after = some (p, rest))
    (more : List Char) :
    code .tag ctx pos (cs ++ more) = .ok ⟨r.lexemes, some (p, rest ++ more)⟩ := by
  fun_induction code .tag ctx pos cs generalizing r with
  | case1 =>
    cases h
    cases ha
  | case2 ctx pos c cs hc => cases hc.2
  | case3 ctx pos c cs hc => cases hc.2
  | case4 ctx pos c cs _ hb ih => rw [List.cons_append, code_blank hb, ih h ha]
  | case5 ctx pos c cs _ _ hclose =>
    obtain ⟨-, hbraces, rfl, hnext⟩ := hclose
    obtain ⟨cs, rfl⟩ := List.head?_eq_some_iff.1 hnext
    cases h
    cases ha
    exact code_close hbraces
  | case6 ctx pos c cs _ _ _ hcomment => cases hcomment.1
  | case7 => cases h
  | case8 ctx pos c cs hc hb hclose hcomment s hs ih =>
    obtain ⟨tail, htail, rfl⟩ := exists_of_map_eq_ok h
    have hrest : 2 ≤ s.rest.length := (Nat.le_add_left ..).trans (code_after_le htail ha)
    have hne : cs ≠ [] := List.ne_nil_of_length_pos (by have := splitToken_rest_length hs; omega)
    have hhead : (cs ++ more).head? = cs.head? := List.head?_append_of_ne_nil cs hne
    rw [← hhead] at hclose hcomment
    have htoken := splitToken_extend hs (.inl hrest : Settles _ more)
    rw [List.cons_append, code_of_splitToken hc hb hclose hcomment htoken, ih htail ha]
    rfl

private theorem splitCloser?_extend {s : Split Token} (h : splitCloser? pos cs = .ok (some s))
    (hs : 2 ≤ s.rest.length) (more : List Char) :
    splitCloser? pos (cs ++ more) = .ok (some ⟨s.value, s.spelling, s.rest ++ more⟩) := by
  unfold splitCloser? at h
  split at h
  · next c r =>
    split at h
    · next hc =>
      have hword : (splitIdentifier (c :: r)).rest = s.rest := by
        dsimp only at h
        split_ifs at h <;> cases h <;> rfl
      have hextend := splitIdentifier_extend (.inl (hword ▸ hs) : Settles _ more)
      rw [List.cons_append, List.cons_append, splitCloser?, if_pos hc, ← List.cons_append, hextend]
      dsimp only at h ⊢
      split_ifs at h ⊢ <;> cases h <;> rfl
    · cases h
  · cases h

private theorem splitCloser?_extend_none (h : splitCloser? pos cs = .ok none) (hcs : 2 ≤ cs.length)
    (more : List Char) : splitCloser? pos (cs ++ more) = .ok none := by
  match cs, hcs with
  | c :: d :: ds, _ =>
    by_cases hc : c = '/' ∧ Text.isIdentStart d = true
    · obtain ⟨rfl, hd⟩ := hc
      rw [splitCloser?, if_pos hd] at h
      dsimp only at h
      split_ifs at h <;> cases h
    · unfold splitCloser?
      split
      · next heq =>
        cases heq
        rw [if_neg fun hd => hc ⟨rfl, hd⟩]
      · rfl

private theorem tagCode_extend (h : tagCode pos cs = .ok r) (ha : r.after = some (p, rest))
    (more : List Char) :
    tagCode pos (cs ++ more) = .ok ⟨r.lexemes, some (p, rest ++ more)⟩ := by
  unfold tagCode at h ⊢
  split at h
  · cases h
  · next hs =>
    have hlength : 2 ≤ cs.length := (Nat.le_add_left ..).trans (code_after_le h ha)
    rw [splitCloser?_extend_none hs hlength more]
    exact code_extend h ha more
  · next s hs =>
    obtain ⟨tail, htail, rfl⟩ := exists_of_map_eq_ok h
    have hlength : 2 ≤ s.rest.length := (Nat.le_add_left ..).trans (code_after_le htail ha)
    rw [splitCloser?_extend hs hlength more]
    dsimp only
    rw [code_extend htail ha more]
    rfl

/-- A tag is read alike whatever follows its closing braces. -/
private theorem tag_extend {opening : Pos} {ls : List Lexeme}
    (h : tag opening pos cs = .ok (ls, p, rest)) (more : List Char) :
    tag opening pos (cs ++ more) = .ok (ls, p, rest ++ more) := by
  unfold tag at h ⊢
  split at h
  · cases h
  · next r hr =>
    split at h
    · next ha =>
      cases h
      have hne : cs.dropWhile Text.isBlank ≠ [] :=
        List.ne_nil_of_length_pos (Nat.zero_lt_of_lt (tagCode_after_length hr ha))
      obtain ⟨htake, hdrop⟩ : (cs ++ more).takeWhile Text.isBlank = _ ∧
          (cs ++ more).dropWhile Text.isBlank = _ := takeWhile_extend (.inl hne)
      rw [htake, hdrop, tagCode_extend hr ha more]
    · cases h

/-! Templates. -/

/-- A template whose first tag has been found. -/
private theorem template_of_cut {text body : List Char} {ts : List Lexeme}
    (hcut : Text.cut? ['\x7b', '\x7b'] cs = some (text, body)) (h : template pos cs = .ok ts) :
    ∃ ls p rest tail, tag (pos.after text) ((pos.after text).after ['\x7b', '\x7b']) body = .ok (ls, p, rest) ∧
      template p rest = .ok tail ∧
      ts = textLexemes pos text ++ ⟨.symbol .openTag, pos.after text⟩ :: (ls ++ tail) := by
  rw [template] at h
  split at h
  · next hnone => cases hcut.symm.trans hnone
  · next text' body' hcut' =>
    cases hcut.symm.trans hcut'
    dsimp only at h
    split at h
    · cases h
    · next ls p rest htag =>
      obtain ⟨tail, htail, rfl⟩ := exists_of_map_eq_ok h
      exact ⟨ls, p, rest, tail, htag, htail, rfl⟩

/-- A template without tags is a text. -/
theorem template_of_text (hcut : Text.cut? ['\x7b', '\x7b'] cs = none) (pos : Pos) :
    template pos cs = .ok (textLexemes pos cs) := by
  rw [template]
  split
  · rfl
  · next hcut' => cases hcut.symm.trans hcut'

/-- Braces that open a tag do not stand across the seam. -/
def Seamless (a b : List Char) : Prop := ¬ (a.getLast? = some '\x7b' ∧ b.head? = some '\x7b')

private theorem Seamless.cut?_eq (hab : Seamless cs more) (h : Text.cut? ['\x7b', '\x7b'] cs = none) :
    Text.cut? ['\x7b', '\x7b'] (cs ++ more) =
      (Text.cut? ['\x7b', '\x7b'] more).map fun x => (cs ++ x.1, x.2) := by
  refine Text.cut?_append_left h fun u v huv hu hv hsuffix hprefix => hab ?_
  obtain ⟨a, u, rfl⟩ := List.exists_cons_of_ne_nil hu
  obtain ⟨b, v, rfl⟩ := List.exists_cons_of_ne_nil hv
  obtain ⟨hbefore, rfl⟩ := hsuffix
  obtain ⟨hafter, rfl⟩ := hprefix
  have hlength := congrArg List.length huv
  simp only [List.length_append, List.length_cons, List.length_nil] at hlength
  obtain rfl := List.eq_nil_of_length_eq_zero (l := u) (by omega)
  obtain rfl := List.eq_nil_of_length_eq_zero (l := v) (by omega)
  cases huv
  exact ⟨List.getLast?_concat, rfl⟩

private theorem Seamless.of_suffix (hab : Seamless cs more) (h : rest <:+ cs) :
    Seamless rest more := by
  obtain ⟨before, rfl⟩ := h
  rintro ⟨hlast, hhead⟩
  exact hab ⟨by rw [List.getLast?_append, hlast, Option.some_or], hhead⟩

private theorem length_textLexemes (p q : Pos) (cs : List Char) :
    (textLexemes p cs).length = (textLexemes q cs).length := by
  cases cs <;> rfl

/-- The tokens of two templates one after the other are those of both, the second ones being moved and
the texts on both sides of the seam being one. -/
theorem template_append {f : Pos → Pos} {start : Pos} {la lb : List Lexeme}
    (ha : template pos cs = .ok la) (hb : template start more = .ok lb) (hab : Seamless cs more)
    (hf : Shifts f start (pos.after cs) more) :
    ∃ before text text' after p q, la = before ++ textLexemes p text ∧ lb = textLexemes q text' ++ after ∧
      template pos (cs ++ more) =
        .ok (before ++ (textLexemes p (text ++ text') ++ after.map (Lexeme.move f))) := by
  fun_induction template pos cs generalizing la with
  | case1 pos cs hcut =>
    cases ha
    have hjoint := hab.cut?_eq hcut
    cases hcut' : Text.cut? ['\x7b', '\x7b'] more with
    | none =>
      rw [hcut', Option.map_none] at hjoint
      cases (template_of_text hcut' start).symm.trans hb
      refine ⟨[], cs, more, [], pos, start, rfl, (List.append_nil _).symm, ?_⟩
      rw [template_of_text hjoint]
      simp
    | some x =>
      obtain ⟨text, body⟩ := x
      rw [hcut', Option.map_some] at hjoint
      obtain ⟨ls, p, rest, tail, -, -, rfl⟩ := template_of_cut hcut' hb
      obtain ⟨ls', p', rest', tail', htag, htail, hlb⟩ := template_of_cut hcut' (template_shift hf hb)
      refine ⟨[], cs, text, _, pos, start, rfl, rfl, ?_⟩
      rw [← Pos.after_append] at htag
      rw [List.map_append] at hlb
      obtain ⟨-, hafter⟩ := List.append_inj hlb ((List.length_map _).trans (length_textLexemes ..))
      rw [template_tag pos hjoint htag htail, hafter, Pos.after_append]
      rfl
  | case2 => cases ha
  | case3 pos cs text body hcut opening ls p rest htag =>
    rename_i ih
    obtain ⟨tail, htail, rfl⟩ := exists_of_map_eq_ok ha
    have hcs := Text.cut?_eq_some hcut
    obtain ⟨u, rfl, rfl, -⟩ := tag_shift (f := fun q => q) (fun _ _ _ _ => rfl) htag opening
    have hend : ((opening.after ['\x7b', '\x7b']).after u).after rest = pos.after cs := by
      rw [hcs, Pos.after_append, Pos.after_append, Pos.after_append]
    obtain ⟨before, text', text'', after, q, q', rfl, hb', hjoint⟩ :=
      ih htail (hab.of_suffix ⟨text ++ ['\x7b', '\x7b'] ++ u, by rw [hcs, List.append_assoc]⟩) (hend ▸ hf)
    refine ⟨textLexemes pos text ++ ⟨.symbol .openTag, opening⟩ :: (ls ++ before), text', text'', after,
      q, q', by simp, hb', ?_⟩
    have hcut' := Text.cut?_append_right hcut more
    rw [template_tag pos hcut' (tag_extend htag more) hjoint]
    simp [opening]

/-! Scripts. -/

private theorem script_not_tag {q : Prop} : ¬ (Mode.script = .tag ∧ q) := nofun

def Context.afterAll (ctx : Context) (ls : List Lexeme) : Context :=
  ls.foldl (fun ctx l => ctx.after l.token) ctx

/-- A script is read alike up to a line feed, whatever follows it. -/
theorem code_append (h : code .script ctx pos cs = .ok r) (more : List Char) :
    code .script ctx pos (cs ++ '\n' :: more) =
      (code .script (ctx.afterAll r.lexemes) (pos.after cs) ('\n' :: more)).map
        fun tail => ⟨r.lexemes ++ tail.lexemes, tail.after⟩ := by
  have hmap {x : Except CompileError Code} {l : Lexeme} {ls : List Lexeme} :
      (x.map fun tail => (⟨ls ++ tail.lexemes, tail.after⟩ : Code)).map (Code.cons l) =
        x.map fun tail => ⟨l :: ls ++ tail.lexemes, tail.after⟩ := by
    cases x <;> rfl
  fun_induction code .script ctx pos cs generalizing r with
  | case1 ctx pos =>
    cases h
    cases hcode : code .script ctx pos ('\n' :: more) <;> simp [Context.afterAll, hcode, Except.map]
  | case2 ctx pos c cs hc hends ih =>
    obtain ⟨tail, htail, rfl⟩ := exists_of_map_eq_ok h
    rw [List.cons_append, code, if_pos hc, if_pos hends, ih htail, hmap]
    rfl
  | case3 ctx pos c cs hc hends ih =>
    rw [List.cons_append, code, if_pos hc, if_neg hends, ih h, Pos.after_cons]
  | case4 ctx pos c cs hc hb ih =>
    rw [List.cons_append, code, if_neg hc, if_pos hb, ih h, Pos.after_cons]
  | case5 ctx pos c cs _ _ hclose => cases hclose.1
  | case6 ctx pos c cs hc hb hclose hcomment ih =>
    obtain ⟨-, rfl, hnext⟩ := id hcomment
    have hstop : ∀ d ∈ ('\n' :: more).head?, (d != '\n') = false := by
      rintro d hd
      cases hd
      rfl
    have hslash : ('/' :: cs ++ '\n' :: more).takeWhile (· != '\n') = ('/' :: cs).takeWhile (· != '\n') :=
      (takeWhile_extend (.inr hstop)).1
    have hrest : (cs ++ '\n' :: more).dropWhile (· != '\n') = cs.dropWhile (· != '\n') ++ '\n' :: more :=
      (takeWhile_extend (.inr hstop)).2
    have hsplit : ('/' :: cs).takeWhile (· != '\n') ++ cs.dropWhile (· != '\n') = '/' :: cs :=
      List.takeWhile_append_dropWhile (p := (· != '\n')) (l := '/' :: cs)
    have hnext' : (cs ++ '\n' :: more).head? = some '/' := by rw [List.head?_append, hnext, Option.some_or]
    rw [List.cons_append, code, if_neg hc, if_neg hb, if_neg script_not_tag,
      if_pos ⟨rfl, rfl, hnext'⟩, hrest, ← List.cons_append, hslash, ih h, ← Pos.after_append, hsplit]
  | case7 => cases h
  | case8 ctx pos c cs hc hb hclose hcomment s hs ih =>
    obtain ⟨tail, htail, rfl⟩ := exists_of_map_eq_ok h
    obtain ⟨hspelled, -⟩ := splitToken_append hs
    have hcomment' : ¬ (Mode.script = .script ∧ c = '/' ∧ (cs ++ '\n' :: more).head? = some '/') := by
      rintro ⟨-, rfl, hnext⟩
      cases cs with
      | nil => cases hnext
      | cons d cs => exact hcomment ⟨rfl, rfl, hnext⟩
    rw [List.cons_append, code_of_splitToken hc hb script_not_tag hcomment'
      (splitToken_extend hs (.inr rfl)), ih htail, hmap, ← Pos.after_append, hspelled]
    rfl

/-- What the tokens of a script depend on in the context before them. -/
structure Context.Alike (ctx ctx' : Context) : Prop where
  depth : ctx.depth = ctx'.depth
  ends : (ctx.last.any fun t => !continuesLine t) = ctx'.last.any fun t => !continuesLine t

theorem Context.endsLine_eq (ctx : Context) :
    ctx.endsLine = (ctx.depth == 0 && ctx.last.any fun t => !continuesLine t) := by
  rw [endsLine]
  cases ctx.last <;> rfl

private theorem Context.Alike.endsLine {ctx ctx' : Context} (h : Alike ctx ctx') :
    ctx.endsLine = ctx'.endsLine := by
  rw [ctx.endsLine_eq, ctx'.endsLine_eq, h.depth, h.ends]

private theorem Context.Alike.after {ctx ctx' : Context} (h : Alike ctx ctx') (t : Token) :
    Alike (ctx.after t) (ctx'.after t) := by
  have hdepth := h.depth
  cases t with
  | symbol s => cases s <;> exact ⟨by simp [Context.after, hdepth], rfl⟩
  | _ => exact ⟨hdepth, rfl⟩

theorem code_alike {ctx' : Context} (h : ctx.Alike ctx') (pos : Pos) (cs : List Char) :
    code .script ctx pos cs = code .script ctx' pos cs := by
  fun_induction code .script ctx pos cs generalizing ctx' with
  | case1 => rw [code]
  | case2 ctx pos c cs hc hends ih =>
    rw [code, if_pos hc, if_pos (h.endsLine ▸ hends), ih (h.after _)]
  | case3 ctx pos c cs hc hends ih =>
    rw [code, if_pos hc, if_neg (h.endsLine ▸ hends), ih h]
  | case4 ctx pos c cs hc hb ih => rw [code, if_neg hc, if_pos hb, ih h]
  | case5 ctx pos c cs _ _ hclose => cases hclose.1
  | case6 ctx pos c cs hc hb hclose hcomment ih =>
    rw [code, if_neg hc, if_neg hb, if_neg script_not_tag, if_pos hcomment, ih h]
  | case7 ctx pos c cs hc hb hclose hcomment e hs =>
    have hs' : splitToken .script ctx' pos c cs = .error e := hs
    rw [code, if_neg hc, if_neg hb, if_neg script_not_tag, if_neg hcomment]
    split
    · next he =>
      cases hs'.symm.trans he
      rfl
    · next he => cases hs'.symm.trans he
  | case8 ctx pos c cs hc hb hclose hcomment s hs ih =>
    have hs' : splitToken .script ctx' pos c cs = .ok s := hs
    rw [code_of_splitToken hc hb script_not_tag hcomment hs', ih (h.after _)]

end LiveMarkup.Lexer
