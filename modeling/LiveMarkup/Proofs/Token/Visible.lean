import LiveMarkup.Proofs.Expr.Blame
import LiveMarkup.Proofs.Text.Class
import LiveMarkup.Proofs.Token.Blame

/-! No token of a tag begins with white space, and neither does what an error of reading tokens blames. -/

namespace LiveMarkup

variable {t : Token} {e : CompileError} {w : List Char} {c : Char}

/-- Something that is spelled `w` does not begin with white space. -/
def BeginsVisibly (w : List Char) : Prop := ∀ c ∈ w.head?, Text.isBlank c = false


/-- No spelling of the token begins with white space. -/
def Token.Visible (t : Token) : Prop := ∀ w, t.SpelledBy w → BeginsVisibly w

def CompileError.Visible (e : CompileError) : Prop := ∀ w, e.About w → BeginsVisibly w

theorem beginsVisibly_cons {cs : List Char} : BeginsVisibly (c :: cs) ↔ Text.isBlank c = false := by
  simp [BeginsVisibly]

instance : (w : List Char) → Decidable (BeginsVisibly w)
  | [] => .isTrue nofun
  | c :: _ => decidable_of_iff (Text.isBlank c = false) beginsVisibly_cons.symm

private theorem IsDigits.beginsVisibly (h : IsDigits w) (cs : List Char) :
    BeginsVisibly (w ++ cs) := by
  obtain ⟨hbegins, -⟩ := h
  cases w with
  | nil => cases hbegins
  | cons c w => exact beginsVisibly_cons.2 (Text.not_isBlank_of_isDigit hbegins)

private theorem Keyword.beginsVisibly (k : Keyword) : ∀ w ∈ k.spellings, BeginsVisibly w := by
  cases k <;> decide

private theorem Symbol.beginsVisibly {s : Symbol} (hs : s ≠ .newline) :
    ∀ w ∈ s.spellings, BeginsVisibly w := by
  cases s with
  | newline => exact absurd rfl hs
  | _ => decide

/-- Either all spellings of a token begin with white space or none does. -/
private theorem Token.SpelledBy.visible (h : t.SpelledBy (c :: w)) (hc : Text.isBlank c = false) :
    t.Visible := by
  intro w' h'
  cases t with
  | text s | name s =>
    obtain rfl : w' = c :: w := h'.trans h.symm
    exact beginsVisibly_cons.2 hc
  | keyword k => exact k.beginsVisibly w' h'
  | symbol s =>
    refine s.beginsVisibly (fun hs => ?_) w' h'
    rw [hs] at h
    obtain ⟨rfl, -⟩ := List.cons.inj (List.mem_singleton.1 h)
    exact absurd hc (by decide)
  | literal v =>
    cases v with
    | null => rcases h' with rfl | rfl <;> decide
    | bool b =>
      obtain rfl : w' = (if b then "true" else "false").toList := h'
      cases b <;> decide
    | int n => exact List.append_nil w' ▸ h'.1.beginsVisibly []
    | float x =>
      rcases h' with ⟨hdigits, -⟩ | ⟨whole, fraction, rfl, hdigits, -⟩
      · exact List.append_nil w' ▸ hdigits.beginsVisibly []
      · exact hdigits.beginsVisibly _
    | string s =>
      obtain ⟨quote, content, hquote, rfl, -⟩ := h'
      rcases hquote with rfl | rfl <;> exact beginsVisibly_cons.2 (by decide)

/-- An error that blames a token is as visible as the token. -/
theorem CompileError.visible_of_lexeme {t : Lexeme} (he : e.lexeme? = some t) (ht : t.token.Visible) :
    e.Visible := by
  cases e with
  | misplaced | unexpected | mismatched | strayClose | neverClosed =>
    cases he
    exact ht
  | _ => cases he

namespace Lexer

variable {ctx : Context} {pos opening p : Pos} {cs rest : List Char} {ls ts : List Lexeme}

private theorem splitToken_visible {mode : Mode} {s : Split Token} (hc : Text.isBlank c = false)
    (h : splitToken mode ctx pos c cs = .ok s) : s.value.Visible := by
  obtain ⟨hspelled, -⟩ := splitToken_spelledBy h
  obtain ⟨happend, hne⟩ := splitToken_append h
  obtain ⟨d, w, hw⟩ := List.ne_nil_iff_exists_cons.1 hne
  rw [hw, List.cons_append] at happend
  obtain ⟨rfl, -⟩ := List.cons.inj happend
  rw [hw] at hspelled
  exact hspelled.visible hc

private theorem splitToken_error_visible {mode : Mode} (hc : Text.isBlank c = false)
    (h : splitToken mode ctx pos c cs = .error e) : e.Visible := by
  unfold splitToken at h
  split at h
  · cases h
  · split at h
    · split at h
      · cases h
      · cases h
        rintro w (rfl | rfl) <;> decide
    · split at h
      · cases h
      · split at h
        · cases h
        · cases h
          rintro w rfl
          exact beginsVisibly_cons.2 hc

private theorem closeTag_visible : (Token.symbol .closeTag).Visible := Symbol.beginsVisibly
    (by decide)

private theorem code_visible {r : Code} (h : code .tag ctx pos cs = .ok r) :
    ∀ t ∈ r.lexemes, t.token.Visible := by
  -- Line feeds and comments (the second, third and sixth case) are tokens of scripts only.
  fun_induction code .tag ctx pos cs generalizing r with
  | case1 =>
    cases h
    exact List.forall_mem_nil _
  | case2 ctx pos c cs hc => cases hc.2
  | case3 ctx pos c cs hc => cases hc.2
  | case4 ctx pos c cs _ _ ih => exact ih h
  | case5 =>
    cases h
    exact List.forall_mem_singleton.2 closeTag_visible
  | case6 ctx pos c cs _ _ _ hcomment => cases hcomment.1
  | case7 => cases h
  | case8 ctx pos c cs _ hc _ _ s hs ih =>
    obtain ⟨tail, htail, rfl⟩ := exists_of_map_eq_ok h
    exact List.forall_mem_cons.2 ⟨splitToken_visible (Bool.eq_false_iff.2 hc) hs, ih htail⟩

private theorem code_error_visible (h : code .tag ctx pos cs = .error e) : e.Visible := by
  fun_induction code .tag ctx pos cs with
  | case1 => cases h
  | case2 ctx pos c cs hc => cases hc.2
  | case3 ctx pos c cs hc => cases hc.2
  | case4 ctx pos c cs _ _ ih => exact ih h
  | case5 => cases h
  | case6 ctx pos c cs _ _ _ hcomment => cases hcomment.1
  | case7 ctx pos c cs _ hc _ _ e' hs =>
    cases h
    exact splitToken_error_visible (Bool.eq_false_iff.2 hc) hs
  | case8 ctx pos c cs _ _ _ _ s hs ih => exact ih (exists_of_map_eq_error h)

private theorem splitCloser?_visible {s : Split Token} (h : splitCloser? pos cs = .ok (some s)) :
    s.value.Visible := by
  unfold splitCloser? at h
  split at h
  · split at h
    · dsimp only at h
      split at h
      · cases h
        exact Keyword.beginsVisibly .closeEach
      · split at h
        · cases h
          exact Keyword.beginsVisibly .closeIf
        · cases h
    · cases h
  · cases h

private theorem splitCloser?_error_visible (h : splitCloser? pos cs = .error e) : e.Visible := by
  unfold splitCloser? at h
  split at h
  · split at h
    · dsimp only at h
      split at h
      · cases h
      · split at h
        · cases h
        · cases h
          intro w hw
          obtain rfl : w = ("/" ++ _).toList := hw
          rw [String.toList_append]
          exact beginsVisibly_cons.2 (by decide)
    · cases h
  · cases h

private theorem tag_visible (h : tag opening pos cs = .ok (ls, p, rest)) :
    ∀ t ∈ ls, t.token.Visible := by
  unfold tag at h
  split at h
  · cases h
  · next r hr =>
    split at h
    · cases h
      unfold tagCode at hr
      split at hr
      · cases hr
      · exact code_visible hr
      · next s hs =>
        obtain ⟨tail, htail, rfl⟩ := exists_of_map_eq_ok hr
        exact List.forall_mem_cons.2 ⟨splitCloser?_visible hs, code_visible htail⟩
    · cases h

private theorem tag_error_visible (h : tag opening pos cs = .error e) : e.Visible := by
  unfold tag at h
  split at h
  · next hcode =>
    cases h
    unfold tagCode at hcode
    split at hcode
    · next hcloser =>
      cases hcode
      exact splitCloser?_error_visible hcloser
    · exact code_error_visible hcode
    · exact code_error_visible (exists_of_map_eq_error hcode)
  · split at h
    · cases h
    · cases h
      rintro w rfl
      decide

/-- The tokens of a template that are not text begin visibly. -/
theorem template_visible (h : template pos cs = .ok ts) :
    ∀ t ∈ ts, (∀ s, t.token ≠ .text s) → t.token.Visible := by
  have htexts (pos : Pos) (cs : List Char) : ∀ t ∈ textLexemes pos cs, (∀ s, t.token ≠ .text s) →
      t.token.Visible := by
    intro t ht hno
    unfold textLexemes at ht
    split at ht
    · cases ht
    · cases List.mem_singleton.1 ht
      exact absurd rfl (hno _)
  fun_induction template pos cs generalizing ts with
  | case1 =>
    cases h
    exact htexts _ _
  | case2 => cases h
  | case3 pos cs text body hcut opening ls p rest htag =>
    rename_i ih
    obtain ⟨more, hmore, rfl⟩ := exists_of_map_eq_ok h
    refine List.forall_mem_append.2 ⟨htexts _ _, List.forall_mem_cons.2 ⟨fun _ => ?_, ?_⟩⟩
    · exact Symbol.beginsVisibly (by decide)
    · exact List.forall_mem_append.2 ⟨fun t ht _ => tag_visible htag t ht, ih hmore⟩

theorem template_error_visible (h : template pos cs = .error e) : e.Visible := by
  fun_induction template pos cs with
  | case1 => cases h
  | case2 pos cs text body hcut opening e' htag =>
    cases h
    exact tag_error_visible htag
  | case3 pos cs text body hcut opening ls p rest htag =>
    rename_i ih
    exact ih (exists_of_map_eq_error h)

end Lexer

end LiveMarkup
