import LiveMarkup.Proofs.Eval.Relocate
import LiveMarkup.Proofs.Expr.Used
import LiveMarkup.Script.Parser

/-! The grammar of scripts: lines, with separators between them and any number of further ones. Brackets
are balanced in what it allows, and at the end either a line is complete or a separator stands. -/

namespace LiveMarkup

namespace ScriptLine

open LiveMarkup.Expr (Clear Continues EndsLine depthAfter depthAfterAll isKeyword_iff isSymbol_iff outcome
  outcome_eq_ok parse_append parse_begins read_eq)

variable {l : ScriptLine} {ls ls' : List ScriptLine} {ts ts' us rest : List Lexeme} {t : Lexeme} {e : Expr}

/-- The tokens of a line. Its expression is what its tokens are by themselves. -/
inductive Spelled : ScriptLine → List Lexeme → Prop where
  | bare (x : String) (p q : Pos) : Spelled (declare x none) [⟨.keyword .declare, p⟩, ⟨.name x, q⟩]
  | defined {ts : List Lexeme} {e : Expr} (x : String) (p q r : Pos)
    (he : Expr.parse ts = .ok (e, [])) : Spelled (declare x (some e))
      (⟨.keyword .declare, p⟩ :: ⟨.name x, q⟩ :: ⟨.symbol .assign, r⟩ :: ts)
  | run {ts : List Lexeme} {e : Expr} (he : Expr.parse ts = .ok (e, [])) : Spelled (run e) ts

inductive SpelledAll : List ScriptLine → List Lexeme → Prop where
  | nil : SpelledAll [] []
  | separator {ls : List ScriptLine} {t : Lexeme} {ts : List Lexeme} (ht : isSeparator t = true)
    (hrest : SpelledAll ls ts) : SpelledAll ls (t :: ts)
  | last {l : ScriptLine} {ts : List Lexeme} (h : Spelled l ts) : SpelledAll [l] ts
  | line {l : ScriptLine} {ls : List ScriptLine} {t : Lexeme} {ts us : List Lexeme} (h : Spelled l us)
    (ht : isSeparator t = true) (hrest : SpelledAll ls ts) : SpelledAll (l :: ls) (us ++ t :: ts)

/-- No token follows, or one that ends a line. -/
def Ended (ts : List Lexeme) : Prop := ∀ t ∈ ts.head?, isSeparator t = true

private theorem ended_cons (ht : isSeparator t = true) (ts : List Lexeme) : Ended (t :: ts) := by
  rintro t' ht'
  cases ht'
  exact ht

theorem isSeparator_iff :
    isSeparator t = true ↔ t.token = .symbol .semicolon ∨ t.token = .symbol .newline := by
  rw [isSeparator, Bool.or_eq_true, isSymbol_iff, isSymbol_iff]

private theorem Ended.clear (h : Ended ts) : Clear Continues ts := by
  intro t ht
  obtain hs | hs := isSeparator_iff.1 (h t ht) <;> rw [hs] <;> decide

/-! Reading. -/

/-- The tokens of a line are read as the line. -/
private theorem Spelled.read (h : Spelled l ts) (hrest : Ended rest) :
    outcome (ScriptLine.read (ts ++ rest)) = .ok (l, rest) := by
  cases h with
  | bare x p q =>
    cases rest with
    | nil => rfl
    | cons t rest =>
      obtain ⟨token, r⟩ := t
      obtain rfl | rfl := isSeparator_iff.1 (hrest _ rfl) <;> rfl
  | defined x p q r he =>
    have hparse := parse_append he hrest.clear
    rw [Expr.parse_eq] at hparse
    obtain ⟨_, hread⟩ := outcome_eq_ok.1 hparse
    simp only [List.cons_append, ScriptLine.read, Token.isKeyword, beq_self_eq_true, if_true, hread]
    rfl
  | run he =>
    obtain ⟨t, ts, rfl, ht⟩ := parse_begins he
    have hparse := parse_append he hrest.clear
    rw [Expr.parse_eq, List.cons_append] at hparse
    obtain ⟨_, hread⟩ := outcome_eq_ok.1 hparse
    have hkeyword : t.token.isKeyword .declare = false := by
      refine Bool.eq_false_iff.2 fun hk => ?_
      rw [isKeyword_iff.1 hk] at ht
      cases ht
    simp only [List.cons_append, ScriptLine.read, hkeyword, Bool.false_eq_true, if_false, hread]
    rfl

/-- A line takes tokens, and begins with none that ends a line. -/
private theorem Spelled.begins (h : Spelled l ts) :
    ∃ t ts', ts = t :: ts' ∧ isSeparator t = false := by
  cases h with
  | bare => exact ⟨_, _, rfl, rfl⟩
  | defined => exact ⟨_, _, rfl, rfl⟩
  | run he =>
    obtain ⟨t, ts, rfl, ht⟩ := parse_begins he
    refine ⟨t, ts, rfl, Bool.eq_false_iff.2 fun hs => ?_⟩
    obtain hs | hs := isSeparator_iff.1 hs <;> rw [hs] at ht <;> cases ht

/-- A line that is read is spelled by the tokens that it takes. -/
theorem spelled_of_read (h : outcome (ScriptLine.read ts) = .ok (l, rest)) :
    ∃ used, ts = used ++ rest ∧ Spelled l used := by
  cases ts with
  | nil => cases h
  | cons t ts =>
    obtain ⟨token, p⟩ := t
    unfold ScriptLine.read at h
    dsimp only at h
    split at h
    · next hk =>
      obtain rfl := isKeyword_iff.1 hk
      split at h
      · cases h
      · next n ts =>
        obtain ⟨token, q⟩ := n
        split at h
        · next x hx =>
          obtain rfl : token = .name x := hx
          split at h
          · next r ts =>
            split at h
            · cases h
            · next he =>
              cases h
              obtain ⟨used, rfl, hused⟩ := read_eq (outcome_eq_ok.2 ⟨_, he⟩)
              exact ⟨_, rfl, .defined x p q r hused⟩
          · cases h
            exact ⟨_, rfl, .bare x p q⟩
        · cases h
    · split at h
      · cases h
      · next he =>
        cases h
        obtain ⟨used, hts, hused⟩ := read_eq (outcome_eq_ok.2 ⟨_, he⟩)
        exact ⟨used, hts, .run hused⟩

/-- Tokens are read as lines exactly if they spell them. -/
theorem readAll_eq_ok_iff : readAll ts = .ok ls ↔ SpelledAll ls ts := by
  constructor
  · intro h
    fun_induction readAll ts generalizing ls with
    | case1 =>
      cases h
      exact .nil
    | case2 t ts ht ih => exact .separator ht (ih h)
    | case3 => cases h
    | case4 t ts ht line hlt hread =>
      cases h
      obtain ⟨used, hused, hspelled⟩ := spelled_of_read (outcome_eq_ok.2 ⟨_, hread⟩)
      rw [List.append_nil] at hused
      exact hused ▸ .last hspelled
    | case5 => cases h
    | case6 t ts ht line next rest hlt hread hnext more hmore ih =>
      cases h
      obtain ⟨used, hused, hspelled⟩ := spelled_of_read (outcome_eq_ok.2 ⟨_, hread⟩)
      exact hused ▸ .line hspelled hnext (ih hmore)
    | case7 => cases h
  · intro h
    induction h with
    | nil => rw [readAll]
    | separator ht _ ih => rw [readAll, if_pos ht, ih]
    | @last l ts h =>
      obtain ⟨t, ts, rfl, ht⟩ := h.begins
      have hread := h.read (show Ended [] from nofun)
      rw [List.append_nil] at hread
      obtain ⟨_, hread⟩ := outcome_eq_ok.1 hread
      rw [readAll, if_neg (Bool.eq_false_iff.1 ht), hread]
    | @line l ls sep ts us h hsep _ ih =>
      obtain ⟨t, us, rfl, ht⟩ := h.begins
      have hread := h.read (ended_cons hsep ts)
      rw [List.cons_append] at hread ⊢
      obtain ⟨_, hread⟩ := outcome_eq_ok.1 hread
      rw [readAll, if_neg (Bool.eq_false_iff.1 ht), hread]
      simp only [hsep, if_true, ih]

/-! Moved lines. -/

private theorem Spelled.move (f : Pos → Pos) (h : Spelled l ts) :
    Spelled (l.move f) (ts.map (Lexeme.move f)) := by
  cases h with
  | bare x p q => exact .bare x (f p) (f q)
  | defined x p q r he => exact .defined x (f p) (f q) (f r) (Expr.parse_move f he)
  | run he => exact .run (Expr.parse_move f he)

theorem SpelledAll.move (f : Pos → Pos) (h : SpelledAll ls ts) :
    SpelledAll (ls.map (ScriptLine.move f)) (ts.map (Lexeme.move f)) := by
  induction h with
  | nil => exact .nil
  | separator ht _ ih => exact .separator ht ih
  | last h => exact .last (h.move f)
  | line h ht _ ih =>
    rw [List.map_append]
    exact .line (h.move f) ht ih

/-! The ends of lines. -/

/-- There is no token, or the last one ends a line. -/
def Separated (ts : List Lexeme) : Prop := ∀ t ∈ ts.getLast?, isSeparator t = true

private theorem separated_cons (ht : isSeparator t = true) (h : Separated ts) :
    Separated (t :: ts) := by
  cases ts with
  | nil =>
    rintro t' ht'
    cases ht'
    exact ht
  | cons u ts => exact h

private theorem Separated.after (h : Separated (t :: ts)) (us : List Lexeme) :
    Separated (us ++ t :: ts) := by
  intro t' ht'
  exact h t' (by simpa [List.getLast?_append, List.getLast?_cons] using ht')

private theorem Separated.behind (us : List Lexeme) (h : Separated (us ++ ts)) : Separated ts := by
  intro t ht
  exact h t (by simp [List.getLast?_append, Option.mem_def.1 ht])

/-- A line is complete: its brackets are balanced, and it can end after its last token. -/
private theorem Spelled.uses (h : Spelled l ts) : (∀ n, depthAfterAll n ts = n) ∧ EndsLine ts := by
  have huses {ts : List Lexeme} {e : Expr} (he : Expr.parse ts = .ok (e, [])) :
      (∀ n, depthAfterAll n ts = n) ∧ EndsLine ts := by
    rw [Expr.parse_eq] at he
    obtain ⟨used, hused, h⟩ := (Expr.derives_of_read he).uses trivial
    rw [List.append_nil] at hused
    exact hused ▸ h
  cases h with
  | bare => exact ⟨fun _ => rfl, ⟨_, rfl, rfl⟩⟩
  | defined x p q r he =>
    obtain ⟨hbalanced, hends⟩ := huses he
    exact ⟨hbalanced, ((hends.cons _).cons _).cons _⟩
  | run he => exact huses he

private theorem not_separated_of_endsLine (h : EndsLine ts) : ¬ Separated ts := by
  obtain ⟨t, ht, hends⟩ := h
  intro hs
  obtain h | h := isSeparator_iff.1 (hs t ht) <;> rw [h] at hends <;> cases hends

private theorem depthAfter_separator (ht : isSeparator t = true) (n : Nat) :
    depthAfter n t.token = n := by
  obtain h | h := isSeparator_iff.1 ht <;> rw [h] <;> rfl

/-- Brackets are balanced in a script. -/
theorem SpelledAll.balanced (h : SpelledAll ls ts) (n : Nat) : depthAfterAll n ts = n := by
  induction h with
  | nil => rfl
  | separator ht _ ih => rw [Expr.depthAfterAll_cons, depthAfter_separator ht, ih]
  | last h => exact h.uses.1 n
  | line h ht _ ih =>
    rw [Expr.depthAfterAll_append, h.uses.1, Expr.depthAfterAll_cons, depthAfter_separator ht, ih]

/-- At the end of a script a line can end, or one has ended. -/
theorem SpelledAll.ends (h : SpelledAll ls ts) : EndsLine ts ∨ Separated ts := by
  induction h with
  | nil => exact .inr nofun
  | separator ht _ ih => exact ih.imp (fun h => h.cons _) (separated_cons ht)
  | last h => exact .inl h.uses.2
  | line _ ht _ ih =>
    exact ih.imp (fun h => (h.cons _).after _) fun h => (separated_cons ht h).after _

/-! Scripts one after the other. -/

theorem SpelledAll.append (h : SpelledAll ls ts) (ht : isSeparator t = true) (h' : SpelledAll ls' ts') :
    SpelledAll (ls ++ ls') (ts ++ t :: ts') := by
  induction h with
  | nil => exact .separator ht h'
  | separator hsep _ ih => exact .separator hsep ih
  | last h => exact .line h ht h'
  | line h hsep _ ih =>
    rw [List.append_assoc]
    exact .line h hsep ih

/-- No separator is needed where one stands. -/
theorem SpelledAll.append_of_separated (h : SpelledAll ls ts) (hs : Separated ts)
    (h' : SpelledAll ls' ts') : SpelledAll (ls ++ ls') (ts ++ ts') := by
  induction h with
  | nil => exact h'
  | @separator ls t ts ht _ ih => exact .separator ht (ih (hs.behind [t]))
  | last h => exact absurd hs (not_separated_of_endsLine h.uses.2)
  | line h ht _ ih =>
    rw [List.append_assoc]
    exact .line h ht (ih ((hs.behind _).behind [_]))

end ScriptLine

end LiveMarkup
