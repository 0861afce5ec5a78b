import LiveMarkup.Proofs.Expr.Move
import LiveMarkup.Proofs.Token.Tiling

/-! Reading the same characters from another place. The tokens are the same and stand at the places
that correspond to theirs. -/

namespace LiveMarkup.Lexer

variable {f : Pos → Pos} {mode : Mode} {ctx : Context} {pos start p : Pos} {u cs rest : List Char}
  {c : Char} {r r' : Code} {ls : List Lexeme}

/-- The places within a text that begins at `pos` correspond to those within the same text that begins
at `start`. The place of its end need not. -/
def Shifts (f : Pos → Pos) (pos start : Pos) (cs : List Char) : Prop :=
  ∀ w w', cs = w ++ w' → w' ≠ [] → f (pos.after w) = start.after w

private theorem Shifts.here (h : Shifts f pos start cs) (hcs : cs ≠ []) :
    f pos = start := h [] cs rfl hcs

private theorem Shifts.drop (h : Shifts f pos start (u ++ cs)) :
    Shifts f (pos.after u) (start.after u) cs := by
  rintro w w' rfl hne
  rw [← Pos.after_append, ← Pos.after_append]
  exact h (u ++ w) w' (List.append_assoc ..).symm hne

theorem Shifts.take (h : Shifts f pos start (u ++ cs)) : Shifts f pos start u := by
  rintro w w' rfl hne
  exact h w (w' ++ cs) (List.append_assoc ..) (List.append_ne_nil_of_left_ne_nil hne cs)

private theorem Shifts.tail (h : Shifts f pos start (c :: cs)) :
    Shifts f (pos.next c) (start.next c) cs :=
  h.drop (u := [c])

/-- Code that is read from another place: what follows a tag begins where the tag ends. -/
inductive Shifted (f : Pos → Pos) (pos start : Pos) (cs : List Char) : Code → Code → Prop where
  | unclosed (ls : List Lexeme) : Shifted f pos start cs ⟨ls, none⟩ ⟨ls.map (Lexeme.move f), none⟩
  | closed (ls : List Lexeme) {u rest : List Char} (hcs : u ++ rest = cs) :
    Shifted f pos start cs ⟨ls, some (pos.after u, rest)⟩
      ⟨ls.map (Lexeme.move f), some (start.after u, rest)⟩

theorem Shifted.lexemes (h : Shifted f pos start cs r r') :
    r'.lexemes = r.lexemes.map (Lexeme.move f) := by
  cases h <;> rfl

private theorem Shifted.before (h : Shifted f (pos.after u) (start.after u) cs r r') :
    Shifted f pos start (u ++ cs) r r' := by
  cases h with
  | unclosed ls => exact .unclosed ls
  | closed ls hcs =>
    rw [← Pos.after_append, ← Pos.after_append]
    exact .closed ls (by rw [List.append_assoc, hcs])

private theorem Shifted.cons (h : Shifted f pos start cs r r') (t : Token) {p q : Pos}
    (hpq : f p = q) :
    Shifted f pos start cs (r.cons ⟨t, p⟩) (r'.cons ⟨t, q⟩) := by
  subst hpq
  cases h with
  | unclosed ls => exact .unclosed (⟨t, p⟩ :: ls)
  | closed ls hcs => exact .closed (⟨t, p⟩ :: ls) hcs

/-- Where the code begins only matters if there is no token. -/
private theorem splitToken_shift {s : Split Token} (h : splitToken mode ctx pos c cs = .ok s)
    (start : Pos) :
    splitToken mode ctx start c cs = .ok s := by
  unfold splitToken at h ⊢
  generalize splitString? c cs = string at h ⊢
  generalize splitSymbol? (c :: cs) = symbol at h ⊢
  cases string <;> cases symbol <;> split_ifs at h ⊢ <;> exact h

theorem code_shift (hf : Shifts f pos start cs) (h : code mode ctx pos cs = .ok r) :
    ∃ r', code mode ctx start cs = .ok r' ∧ Shifted f pos start cs r r' := by
  fun_induction code mode ctx pos cs generalizing r start with
  | case1 =>
    cases h
    exact ⟨⟨[], none⟩, by rw [code], .unclosed []⟩
  | case2 ctx pos c cs hc hends ih =>
    obtain ⟨tail, htail, rfl⟩ := exists_of_map_eq_ok h
    obtain ⟨tail', hcode, hshifted⟩ := ih hf.tail htail
    refine ⟨_, ?_, (hshifted.before (u := [c])).cons _ (hf.here (List.cons_ne_nil _ _))⟩
    rw [code, if_pos hc, if_pos hends, hcode]
    rfl
  | case3 ctx pos c cs hc hends ih =>
    obtain ⟨r', hcode, hshifted⟩ := ih hf.tail h
    refine ⟨r', ?_, hshifted.before (u := [c])⟩
    rw [code, if_pos hc, if_neg hends, hcode]
  | case4 ctx pos c cs hc hb ih =>
    obtain ⟨r', hcode, hshifted⟩ := ih hf.tail h
    refine ⟨r', ?_, hshifted.before (u := [c])⟩
    rw [code, if_neg hc, if_pos hb, hcode]
  | case5 ctx pos c cs hc hb hclose =>
    obtain ⟨-, -, rfl, hnext⟩ := id hclose
    obtain ⟨cs, rfl⟩ := List.head?_eq_some_iff.1 hnext
    cases h
    refine ⟨_, by rw [code, if_neg hc, if_neg hb, if_pos hclose], ?_⟩
    rw [← hf.here (List.cons_ne_nil _ _)]
    exact .closed (u := ['\x7d', '\x7d']) [⟨.symbol .closeTag, pos⟩] rfl
  | case6 ctx pos c cs hc hb hclose hcomment ih =>
    obtain ⟨-, rfl, -⟩ := id hcomment
    have hsplit : ('/' :: cs).takeWhile (· != '\n') ++ cs.dropWhile (· != '\n') = '/' :: cs :=
      List.takeWhile_append_dropWhile (p := (· != '\n')) (l := '/' :: cs)
    obtain ⟨r', hcode, hshifted⟩ := ih (hsplit ▸ hf).drop h
    refine ⟨r', ?_, hsplit ▸ hshifted.before⟩
    rw [code, if_neg hc, if_neg hb, if_neg hclose, if_pos hcomment, hcode]
  | case7 => cases h
  | case8 ctx pos c cs hc hb hclose hcomment s hs ih =>
    obtain ⟨tail, htail, rfl⟩ := exists_of_map_eq_ok h
    obtain ⟨hspelled, -⟩ := splitToken_append hs
    obtain ⟨tail', hcode, hshifted⟩ := ih (hspelled ▸ hf).drop htail
    refine ⟨_, ?_, hspelled ▸ hshifted.before.cons _ (hf.here (List.cons_ne_nil _ _))⟩
    rw [code_of_splitToken hc hb hclose hcomment (splitToken_shift hs start), hcode]
    rfl

private theorem splitCloser?_shift {o : Option (Split Token)} (h : splitCloser? pos cs = .ok o)
    (start : Pos) :
    splitCloser? start cs = .ok o := by
  unfold splitCloser? at h ⊢
  split at h
  · dsimp only at h ⊢
    split_ifs at h ⊢ <;> exact h
  · exact h

private theorem tagCode_shift (hf : Shifts f pos start cs) (h : tagCode pos cs = .ok r) :
    ∃ r', tagCode start cs = .ok r' ∧ Shifted f pos start cs r r' := by
  unfold tagCode at h ⊢
  split at h
  · cases h
  · next hs =>
    rw [splitCloser?_shift hs start]
    exact code_shift hf h
  · next s hs =>
    obtain ⟨tail, htail, rfl⟩ := exists_of_map_eq_ok h
    have hspelled := splitCloser?_append hs
    obtain ⟨tail', hcode, hshifted⟩ := code_shift (hspelled ▸ hf).drop htail
    rw [splitCloser?_shift hs start]
    have hne : cs ≠ [] := fun hnil =>
      (splitCloser?_spelledBy hs).2.1 (List.append_eq_nil_iff.1 (hspelled.trans hnil)).1
    refine ⟨_, ?_, hspelled ▸ hshifted.before.cons _ (hf.here hne)⟩
    dsimp only
    rw [hcode]
    rfl

/-- A tag that is read from another place. -/
theorem tag_shift {opening : Pos} (hf : Shifts f pos start cs) (h : tag opening pos cs = .ok (ls, p, rest))
    (opening' : Pos) : ∃ u, u ++ rest = cs ∧ p = pos.after u ∧
      tag opening' start cs = .ok (ls.map (Lexeme.move f), start.after u, rest) := by
  have hsplit : cs.takeWhile Text.isBlank ++ cs.dropWhile Text.isBlank = cs :=
    List.takeWhile_append_dropWhile
  unfold tag at h ⊢
  split at h
  · cases h
  · next r hr =>
    obtain ⟨r', hcode, hshifted⟩ := tagCode_shift (hsplit.symm ▸ hf).drop hr
    rw [hcode]
    cases hshifted with
    | unclosed ls => cases h
    | @closed ls u rest hcs =>
      cases h
      refine ⟨cs.takeWhile Text.isBlank ++ u, by rw [List.append_assoc, hcs, hsplit], ?_, ?_⟩
      · rw [Pos.after_append]
      · rw [Pos.after_append]

private theorem textLexemes_shift (hf : Shifts f pos start cs) :
    textLexemes start cs = (textLexemes pos cs).map (Lexeme.move f) := by
  cases cs with
  | nil => rfl
  | cons c cs =>
    rw [← hf.here (List.cons_ne_nil _ _)]
    rfl

/-- A template that is read from another place. -/
theorem template_shift (hf : Shifts f pos start cs) (h : template pos cs = .ok ls) :
    template start cs = .ok (ls.map (Lexeme.move f)) := by
  fun_induction template pos cs generalizing ls start with
  | case1 pos cs hcut =>
    cases h
    rw [template]
    split
    · rw [textLexemes_shift hf]
    · next hcut' => cases hcut.symm.trans hcut'
  | case2 => cases h
  | case3 pos cs text body hcut opening tags p rest htag =>
    rename_i ih
    obtain ⟨tail, htail, rfl⟩ := exists_of_map_eq_ok h
    have hcs := Text.cut?_eq_some hcut
    rw [List.append_assoc] at hcs
    have htext : Shifts f pos start (text ++ (['\x7b', '\x7b'] ++ body)) := hcs ▸ hf
    obtain ⟨u, rfl, rfl, htag'⟩ := tag_shift htext.drop.drop htag (start.after text)
    have htail' := ih htext.drop.drop.drop htail
    have hopening : f (pos.after text) = start.after text := htext.drop.here (List.cons_ne_nil _ _)
    rw [template_tag start hcut htag' htail', textLexemes_shift htext.take, List.map_append, List.map_cons,
      List.map_append, Lexeme.move, hopening]

end LiveMarkup.Lexer
