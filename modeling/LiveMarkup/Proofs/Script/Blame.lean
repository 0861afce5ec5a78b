import LiveMarkup.Proofs.Script.Lines
import LiveMarkup.Proofs.Template.Blame

/-! What a script is refused for: characters at their place, or one of its tokens, or its end within a line. -/

namespace LiveMarkup

open LiveMarkup.Expr (Inside Names inside_of_forall names_of_read outcome_eq_ok outcome_error)
open CompileError (Located)

variable {P : Lexeme → Prop} {ts : List Lexeme} {t : Lexeme} {e : CompileError}

namespace Lexer

variable {mode : Mode} {ctx : Context} {pos : Pos} {pre cs : List Char} {r : Code}

private theorem covers_further {w : List Char} (h : ∃ s, s.lexeme = t ∧ Covers (pre ++ w ++ cs) s) :
    ∃ s, s.lexeme = t ∧ Covers (pre ++ (w ++ cs)) s := by
  rwa [List.append_assoc] at h

/-- Each token of code stands in the source, at the place that it records. -/
private theorem code_covers (h : code mode ctx pos cs = .ok r) (hpos : pos = Pos.start.after pre)
    (ht : t ∈ r.lexemes) : ∃ s, s.lexeme = t ∧ Covers (pre ++ cs) s := by
  fun_induction code mode ctx pos cs generalizing pre r with
  | case1 =>
    cases h
    cases ht
  | case2 ctx pos c cs hc _ ih =>
    obtain ⟨tail, htail, rfl⟩ := exists_of_map_eq_ok h
    rcases List.mem_cons.1 ht with rfl | ht
    · refine ⟨Span.after pre [c] (.symbol .newline), by rw [hpos]; rfl, .intro rfl ?_ (List.cons_ne_nil _ _)⟩
      rw [hc.1]
      exact List.mem_singleton.2 rfl
    · refine covers_further (w := [c]) (ih htail ?_ ht)
      rw [hpos, Pos.after_append]
      rfl
  | case3 ctx pos c cs _ _ ih | case4 ctx pos c cs _ _ ih =>
    refine covers_further (w := [c]) (ih h ?_ ht)
    rw [hpos, Pos.after_append]
    rfl
  | case5 ctx pos c cs _ _ hclose =>
    obtain ⟨-, -, rfl, hnext⟩ := hclose
    obtain ⟨cs, rfl⟩ := List.head?_eq_some_iff.1 hnext
    cases h
    obtain rfl := List.mem_singleton.1 ht
    refine ⟨Span.after pre ['\x7d', '\x7d'] (.symbol .closeTag), by rw [hpos]; rfl, .intro rfl ?_ (List.cons_ne_nil _ _)⟩
    exact List.mem_singleton.2 rfl
  | case6 ctx pos c cs _ _ _ hcomment ih =>
    rw [← comment_append hcomment.2.1 cs]
    refine covers_further (ih h ?_ ht)
    rw [hpos, Pos.after_append]
  | case7 => cases h
  | case8 ctx pos c cs _ _ _ _ s hs ih =>
    obtain ⟨tail, htail, rfl⟩ := exists_of_map_eq_ok h
    obtain ⟨happend, hne⟩ := splitToken_append hs
    rw [← happend]
    rcases List.mem_cons.1 ht with rfl | ht
    · exact ⟨Span.after pre s.spelling s.value, by rw [hpos]; rfl,
        .intro rfl (splitToken_spelledBy hs).1 hne⟩
    · refine covers_further (ih htail ?_ ht)
      rw [hpos, Pos.after_append]

end Lexer

namespace ScriptLine

private theorem read_names (hts : ∀ t ∈ ts, P t) (h : read ts = .error e) : Names P True e := by
  have hin := inside_of_forall hts
  cases ts with
  | nil =>
    cases h
    exact hin.names_end _
  | cons t ts =>
    unfold read at h
    dsimp only at h
    have hts := (List.forall_mem_cons.1 hts).2
    split at h
    · have hin := inside_of_forall hts
      split at h
      · cases h
        exact hin.names_end _
      · next n ts =>
        have hts := (List.forall_mem_cons.1 hts).2
        split at h
        · split at h
          · split at h
            · next hread =>
              cases h
              have hin := inside_of_forall (List.forall_mem_cons.1 hts).2
              exact names_of_read (p := .expr) trivial hin (outcome_error hread)
            · cases h
          · cases h
        · cases h
          exact hin.names rfl
    · split at h
      · next hread =>
        cases h
        exact names_of_read (p := .expr) trivial hin (outcome_error hread)
      · cases h

private theorem readAll_names (hts : ∀ t ∈ ts, P t) (h : readAll ts = .error e) : Names P True e := by
  fun_induction readAll ts with
  | case1 => cases h
  | case2 t ts _ ih => exact ih (List.forall_mem_cons.1 hts).2 h
  | case3 t ts _ e' hread =>
    cases h
    exact read_names hts hread
  | case4 => cases h
  | case5 t ts _ line next rest hlt hread _ e' hmore ih =>
    cases h
    obtain ⟨used, hused, -⟩ := spelled_of_read (outcome_eq_ok.2 ⟨_, hread⟩)
    rw [hused] at hts
    exact ih (fun t ht => hts t (List.mem_append_right _ (List.mem_cons_of_mem _ ht))) hmore
  | case6 => cases h
  | case7 t ts _ line next rest hlt hread _ =>
    cases h
    obtain ⟨used, hused, -⟩ := spelled_of_read (outcome_eq_ok.2 ⟨_, hread⟩)
    rw [hused] at hts
    exact .inl ⟨next, hts next (List.mem_append_right _ List.mem_cons_self), rfl⟩

end ScriptLine

namespace Script

private theorem exists_lexeme_of_mem_ofScript {source : String} (h : Lexer.ofScript source = .ok ts)
    (ht : t ∈ ts) :
    ∃ s, s.lexeme = t ∧ Lexer.Covers source.toList s := by
  obtain ⟨r, hcode, rfl⟩ := Lexer.exists_of_map_eq_ok h
  exact Lexer.code_covers hcode (Pos.after_nil .start).symm ht

/-- Unless it ends within a line, a script that does not compile is refused for characters of it. -/
theorem compile_located {source : String} (h : compile source = .error e) (he : e.blame?.isSome) :
    Located source.toList e := by
  unfold compile at h
  split at h
  · next hlexer =>
    cases h
    exact Lexer.code_located (Lexer.exists_of_map_eq_error hlexer) (Pos.after_nil .start).symm
  · next ts hlexer =>
    split at h
    · next hlines =>
      cases h
      obtain ⟨t, hmem, ht⟩ | ⟨-, within, rfl⟩ := ScriptLine.readAll_names (P := (· ∈ ts)) (fun _ => id) hlines
      · obtain ⟨s, rfl, hcovers⟩ := exists_lexeme_of_mem_ofScript hlexer hmem
        obtain @⟨pre, w, cs, token, hsource, hw, hne⟩ := hcovers
        exact located_of_lexeme hsource hw hne ht
      · cases he
    · cases h

end Script

end LiveMarkup
