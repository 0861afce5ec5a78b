import LiveMarkup.Proofs.Token.Tiling

/-! Where the errors are that end the reading of tokens: each blames characters of the source and records
the place of the first of them. -/

namespace LiveMarkup

namespace CompileError

/-- The characters are what the error blames: a spelling of its token, or the characters that no token can be
read from. -/
def About : CompileError → List Char → Prop
  | misplaced t, w | unexpected t, w | mismatched t, w | strayClose t, w | neverClosed t, w =>
    t.token.SpelledBy w
  | endOfInput _, _ => False
  | unexpectedCharacter c _, w => w = [c]
  | unterminatedString _, w => w = ['"'] ∨ w = ['\'']
  | unclosedTag _, w => w = ['\x7b', '\x7b']

/-- The error is in the source: `w` is what it blames, and it is blamed at the place right after `pre`. -/
inductive Located (source : List Char) (e : CompileError) : Prop where
  | intro {pre w cs : List Char} {blame : Blame} (hsource : source = pre ++ (w ++ cs)) (hne : w ≠ [])
    (habout : e.About w) (hblame : e.blame? = some blame) (hpos : blame.pos = Pos.start.after pre)

end CompileError

namespace Lexer

open CompileError (Located)

variable {e : CompileError} {ctx : Context} {pos opening : Pos} {pre cs : List Char} {c : Char}

theorem exists_of_map_eq_error {α β : Type} {f : α → β} {x : Except CompileError α}
    (h : x.map f = .error e) : x = .error e := by
  cases x with
  | error e' => cases h; rfl
  | ok a => cases h

/-- An error at a place further on is in the same source. -/
private theorem located_further {w : List Char} (h : Located (pre ++ w ++ cs) e) :
    Located (pre ++ (w ++ cs)) e := by
  rwa [List.append_assoc] at h

/-- A comment, and what is left from the end of its line on. -/
theorem comment_append (hc : c = '/') (cs : List Char) :
    (c :: cs).takeWhile (· != '\n') ++ cs.dropWhile (· != '\n') = c :: cs := by
  rw [List.takeWhile_cons_of_pos (by rw [hc]; decide), List.cons_append, List.takeWhile_append_dropWhile]

private theorem splitToken_located {mode : Mode} (h : splitToken mode ctx pos c cs = .error e)
    (hpos : pos = Pos.start.after pre) : Located (pre ++ c :: cs) e := by
  unfold splitToken at h
  split at h
  · cases h
  · split at h
    · next hquote =>
      split at h
      · cases h
      · cases h
        refine .intro (w := [c]) rfl (List.cons_ne_nil _ _) ?_ rfl hpos
        exact hquote.imp (congrArg fun c => [c]) (congrArg fun c => [c])
    · split at h
      · cases h
      · split at h
        · cases h
        · cases h
          exact .intro (w := [c]) rfl (List.cons_ne_nil _ _) rfl rfl hpos

theorem code_located {mode : Mode} (h : code mode ctx pos cs = .error e) (hpos : pos = Pos.start.after pre) :
    Located (pre ++ cs) e := by
  fun_induction code mode ctx pos cs generalizing pre with
  | case1 => cases h
  | case2 ctx pos c cs _ _ ih =>
    refine located_further (w := [c]) (ih (exists_of_map_eq_error h) ?_)
    rw [hpos, Pos.after_append]
    rfl
  | case3 ctx pos c cs _ _ ih | case4 ctx pos c cs _ _ ih =>
    refine located_further (w := [c]) (ih h ?_)
    rw [hpos, Pos.after_append]
    rfl
  | case5 => cases h
  | case6 ctx pos c cs _ _ _ hcomment ih =>
    rw [← comment_append hcomment.2.1 cs]
    refine located_further (ih h ?_)
    rw [hpos, Pos.after_append]
  | case7 ctx pos c cs _ _ _ _ e' hs =>
    cases h
    exact splitToken_located hs hpos
  | case8 ctx pos c cs _ _ _ _ s hs ih =>
    rw [← (splitToken_append hs).1]
    refine located_further (ih (exists_of_map_eq_error h) ?_)
    rw [hpos, Pos.after_append]

private theorem splitCloser?_located (h : splitCloser? pos cs = .error e)
    (hpos : pos = Pos.start.after pre) :
    Located (pre ++ cs) e := by
  unfold splitCloser? at h
  split at h
  · next c r =>
    split at h
    · dsimp only at h
      split at h
      · cases h
      · split at h
        · cases h
        · cases h
          have hrest : (splitIdentifier (c :: r)).spelling ++ (splitIdentifier (c :: r)).rest = c :: r :=
            List.takeWhile_append_dropWhile
          have hsource : pre ++ '/' :: c :: r = pre ++ ('/' :: (splitIdentifier (c :: r)).spelling ++
              (splitIdentifier (c :: r)).rest) := by rw [List.cons_append, hrest]
          refine .intro hsource (List.cons_ne_nil _ _) ?_ rfl hpos
          · change _ = ("/" ++ String.ofList _).toList
            rw [String.toList_append, String.toList_ofList, String.toList_ofList]
            rfl
    · cases h
  · cases h

private theorem tagCode_located (h : tagCode pos cs = .error e) (hpos : pos = Pos.start.after pre) :
    Located (pre ++ cs) e := by
  unfold tagCode at h
  split at h
  · next hcloser =>
    cases h
    exact splitCloser?_located hcloser hpos
  · exact code_located h hpos
  · next s hs =>
    rw [← splitCloser?_append hs]
    refine located_further (code_located (exists_of_map_eq_error h) ?_)
    rw [hpos, Pos.after_append]

/-- A tag without closing braces is to blame for it with its opening ones. -/
private theorem tag_located (h : tag opening pos cs = .error e)
    (hopening : opening = Pos.start.after pre) (hpos : pos = opening.after ['\x7b', '\x7b']) :
    Located (pre ++ (['\x7b', '\x7b'] ++ cs)) e := by
  unfold tag at h
  split at h
  · next hcode =>
    cases h
    rw [← List.takeWhile_append_dropWhile (p := Text.isBlank) (l := cs)]
    refine located_further (located_further (tagCode_located hcode ?_))
    rw [hpos, hopening, Pos.after_append, Pos.after_append]
  · split at h
    · cases h
    · cases h
      exact .intro rfl (List.cons_ne_nil _ _) rfl rfl hopening

/-- Reading leaves the source as it is. -/
private theorem Scans.source_eq {a b : Reader} {spans : List Span} (h : Scans a spans b) :
    a.read ++ a.left = b.read ++ b.left := by
  induction h with
  | refl => rfl
  | blank hc _ ih =>
    rw [← ih, List.append_assoc]
    rfl
  | token ht hw hne _ ih => rw [← ih, List.append_assoc]

theorem template_located (h : template pos cs = .error e) (hpos : pos = Pos.start.after pre) :
    Located (pre ++ cs) e := by
  fun_induction template pos cs generalizing pre with
  | case1 => cases h
  | case2 pos cs text body hcut opening e' =>
    rename_i htag
    cases h
    rw [Text.cut?_eq_some hcut, List.append_assoc]
    refine located_further (tag_located htag ?_ rfl)
    rw [Pos.after_append, ← hpos]
  | case3 pos cs text body hcut opening ls p rest htag =>
    rename_i ih
    have hbody : opening.after ['\x7b', '\x7b'] = Pos.start.after (pre ++ text ++ ['\x7b', '\x7b']) := by
      rw [Pos.after_append, Pos.after_append, ← hpos]
    obtain ⟨pre₂, spans, hp, -, hscans⟩ := tag_reads htag hbody
    have hlocated := ih (exists_of_map_eq_error h) hp
    rw [← hscans.source_eq] at hlocated
    dsimp only at hlocated
    rwa [List.append_assoc, List.append_assoc, ← List.append_assoc text, ← Text.cut?_eq_some hcut]
      at hlocated

end Lexer

end LiveMarkup
