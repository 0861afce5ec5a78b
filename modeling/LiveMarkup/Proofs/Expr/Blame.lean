import LiveMarkup.Proofs.Expr.Reading

/-! What an expression is refused for. No reader of expressions takes the braces that close a tag, so that
in a tag that is closed none of them comes to the end of the tokens, and each of their errors blames a
token of the tag. In code that no braces close, they may come to the end instead. -/

namespace LiveMarkup

def CompileError.lexeme? : CompileError → Option Lexeme
  | misplaced t | unexpected t | mismatched t | strayClose t | neverClosed t => some t
  | endOfInput _ | unexpectedCharacter .. | unterminatedString _ | unclosedTag _ => none

namespace Expr

variable {P : Lexeme → Prop} {ended : Prop} {p : Part} {ts rest : List Lexeme} {t : Lexeme} {a : p.Value}
  {e : CompileError} {n : Nat}

/-- `P` holds of the tokens up to the braces that close the tag. Only if `ended` holds, the tokens may come
to an end without them. -/
inductive Inside (P : Lexeme → Prop) (ended : Prop) : List Lexeme → Prop where
  | nil (h : ended) : Inside P ended []
  | close {t : Lexeme} {ts : List Lexeme} (ht : P t) (hclose : t.token = .symbol .closeTag) :
    Inside P ended (t :: ts)
  | token {t : Lexeme} {ts : List Lexeme} (ht : P t) (h : Inside P ended ts) : Inside P ended (t :: ts)

theorem Inside.tail (h : Inside P ended (t :: ts)) (ht : t.token ≠ .symbol .closeTag) :
    Inside P ended ts := by
  cases h with
  | close _ hclose => exact absurd hclose ht
  | token _ h => exact h

theorem Inside.head (h : Inside P ended (t :: ts)) : P t := by
  cases h with
  | close ht => exact ht
  | token ht => exact ht

/-- Tokens before the braces that close a tag. -/
theorem inside_append {inner after : List Lexeme} (hinner : ∀ t ∈ inner, P t) (ht : P t)
    (hclose : t.token = .symbol .closeTag) : Inside P ended (inner ++ t :: after) := by
  induction inner with
  | nil => exact .close ht hclose
  | cons t inner ih =>
    obtain ⟨ht, hinner⟩ := List.forall_mem_cons.1 hinner
    exact .token ht (ih hinner)

/-- All tokens of code that no braces close. -/
theorem inside_of_forall (h : ∀ t ∈ ts, P t) : Inside P True ts := by
  induction ts with
  | nil => exact .nil trivial
  | cons t ts ih =>
    obtain ⟨ht, hts⟩ := List.forall_mem_cons.1 h
    exact .token ht (ih hts)

section Kinds

variable {token : Token}

private theorem ne_closeTag_of_assigns {op : Option CompoundOp}
    (h : token.symbol?.bind Symbol.assignment? = some op) : token ≠ .symbol .closeTag := by
  rintro rfl
  cases h

private theorem ne_closeTag_of_binary {op : BinaryOp}
    (h : token.symbol?.bind Symbol.binary? = some op) :
    token ≠ .symbol .closeTag := by
  rintro rfl
  cases h

private theorem ne_closeTag_of_count {step : Count}
    (h : token.symbol?.bind Symbol.count? = some step) :
    token ≠ .symbol .closeTag := by
  rintro rfl
  cases h

private theorem ne_closeTag_of_unary {op : UnaryOp} (h : token.symbol?.bind Symbol.unary? = some op) :
    token ≠ .symbol .closeTag := by
  rintro rfl
  cases h

private theorem ne_closeTag_of_memberName {x : String} (h : memberName? token = some x) :
    token ≠ .symbol .closeTag := by
  rintro rfl
  cases h

private theorem ne_closeTag_of_hashKey {x : String} (h : hashKey? token = some x) :
    token ≠ .symbol .closeTag := by
  rintro rfl
  cases h

end Kinds

/-- The part is not one that is read up to the braces that close a tag. -/
def Part.Bracketed : Part → Prop
  | sequence close | items close => close ≠ .closeTag
  | _ => True

private theorem bracketed_round : (Part.sequence .closeRound).Bracketed := by
  rw [Part.Bracketed]
  decide

private theorem bracketed_square : (Part.sequence .closeSquare).Bracketed := by
  rw [Part.Bracketed]
  decide

/-- A part leaves the braces that close a tag, and the tokens before them. -/
private theorem Derives.inside (h : Derives p ts a rest) (hp : p.Bracketed)
    (hin : Inside P ended ts) :
    Inside P ended rest := by
  induction h with
  | plain _ _ ih | unconditional _ _ ih => exact ih trivial hin
  | assign _ hop _ ih ihvalue =>
    exact ihvalue trivial ((ih trivial hin).tail (ne_closeTag_of_assigns hop))
  | cond _ _ _ ihtest ihyes ihno =>
    exact ihno trivial ((ihyes trivial ((ihtest trivial hin).tail nofun)).tail nofun)
  | binary _ _ ihleft ih => exact ih trivial (ihleft trivial hin)
  | operand | accessed => exact hin
  | operator hop _ _ _ ihright ih =>
    exact ih trivial (ihright trivial (hin.tail (ne_closeTag_of_binary hop)))
  | countBefore hstep => exact (hin.tail (ne_closeTag_of_count hstep)).tail nofun
  | unary hop _ ih => exact ih trivial (hin.tail (ne_closeTag_of_unary hop))
  | operandTerm _ _ _ _ ih => exact ih trivial hin
  | countAfter _ _ _ hstep ih => exact (ih trivial hin).tail (ne_closeTag_of_count hstep)
  | literal _ ih | name _ _ ih => exact ih trivial (hin.tail nofun)
  | lambdaOne _ ih => exact ih trivial ((hin.tail nofun).tail nofun)
  | lambda _ _ _ ihitems ih => exact ih trivial ((ihitems nofun (hin.tail nofun)).tail nofun)
  | bracketed _ _ _ ihitems ih | list _ _ ihitems ih | call _ _ ihitems ih =>
    exact ih trivial (ihitems nofun (hin.tail nofun))
  | hash _ _ ihentries ih => exact ih trivial (ihentries trivial (hin.tail nofun))
  | noItems => exact hin.tail fun hclose => hp (Token.symbol.inj hclose)
  | someItems _ _ ih => exact ih hp hin
  | itemsMore _ _ ihe ih => exact ih hp ((ihe trivial hin).tail nofun)
  | itemsLast _ _ ihe => exact (ihe trivial hin).tail fun hclose => hp (Token.symbol.inj hclose)
  | noEntries | entriesEnd => exact hin.tail nofun
  | entry hkey _ _ ihvalue ih =>
    exact ih trivial (ihvalue trivial ((hin.tail (ne_closeTag_of_hashKey hkey)).tail nofun))
  | shorthand hkey _ _ ih => exact ih trivial (hin.tail (ne_closeTag_of_hashKey hkey))
  | entriesMore _ ih => exact ih trivial (hin.tail nofun)
  | member hfield _ _ ih => exact ih trivial ((hin.tail nofun).tail (ne_closeTag_of_memberName hfield))
  | method hfield _ _ ihargs ih =>
    exact ih trivial (ihargs nofun (((hin.tail nofun).tail (ne_closeTag_of_memberName hfield)).tail nofun))
  | index _ _ ihkey ih => exact ih trivial ((ihkey trivial (hin.tail nofun)).tail nofun)

theorem Inside.after (hin : Inside P ended ts) (h : Derives p ts a rest) (hp : p.Bracketed) :
    Inside P ended rest :=
  h.inside hp hin

/-- The error blames a token that `P` holds of, or, if `ended` holds, the end of the tokens. -/
def Names (P : Lexeme → Prop) (ended : Prop) (e : CompileError) : Prop :=
  (∃ t, P t ∧ e.lexeme? = some t) ∨ ended ∧ ∃ within, e = .endOfInput within

theorem Inside.names (h : Inside P ended (t :: ts)) (he : e.lexeme? = some t) : Names P ended e :=
  .inl ⟨t, h.head, he⟩

theorem Inside.names_end (h : Inside P ended []) (within : String) :
    Names P ended (.endOfInput within) := by
  cases h with
  | nil h => exact .inr ⟨h, within, rfl⟩

/-- Readers whose calls are bounded by `n` blame tokens. -/
def NamesBelow (P : Lexeme → Prop) (ended : Prop) (n : Nat) : Prop :=
  ∀ (p : Part) (ts : List Lexeme) (e : CompileError), 8 * ts.length + p.rank < n → p.Bracketed →
    Inside P ended ts → p.read ts = .error e → Names P ended e

section

variable {α : Type} {m : Nat} {r : Except CompileError (Reads α m)}

theorem outcome_error (h : r = .error e) : outcome r = .error e := by rw [h]; rfl

theorem outcome_eq_error : outcome r = .error e ↔ r = .error e := by
  refine ⟨fun h => ?_, outcome_error⟩
  cases r with
  | error e' => cases h; rfl
  | ok r => cases h

end

/-! One lemma for each reader: it blames a token if the readers that it calls do. -/

private theorem expr_names (hs : NamesBelow P ended (8 * ts.length + Part.expr.rank))
    (hin : Inside P ended ts) (h : Part.expr.read ts = .error e) : Names P ended e := by
  rw [Part.read, outcome_eq_error, Expr.read] at h
  split at h
  · next hc =>
    cases h
    exact hs .conditional _ _ (by simp [Part.rank]) trivial hin (outcome_error hc)
  · cases h
  · next left t rest hlt hc =>
    have hrest := hin.after (derives_of_read (p := .conditional) (outcome_ok hc)) trivial
    split at h
    · cases h
    · next op hop =>
      split at h
      · split at h
        · next hv =>
          cases h
          simp only [List.length_cons] at hlt
          exact hs .expr _ _ (by omega) trivial (hrest.tail (ne_closeTag_of_assigns hop)) (outcome_error hv)
        · cases h
      · cases h
        exact hrest.names rfl

private theorem conditional_names (hs : NamesBelow P ended (8 * ts.length + Part.conditional.rank))
    (hin : Inside P ended ts) (h : Part.conditional.read ts = .error e) : Names P ended e := by
  rw [Part.read, outcome_eq_error, readConditional] at h
  split at h
  · next hb =>
    cases h
    exact hs (.binary 0) _ _ (by simp [Part.rank]) trivial hin (outcome_error hb)
  · cases h
  · next test t rest hlt hb =>
    have hrest := hin.after (derives_of_read (p := .binary 0) (outcome_ok hb)) trivial
    simp only [List.length_cons] at hlt
    split at h
    · next hq =>
      have hyes := hrest.tail (by simp [isSymbol_iff.1 hq])
      split at h
      · next hy =>
        cases h
        exact hs .expr _ _ (by simp only [Part.rank]; omega) trivial hyes (outcome_error hy)
      · next hy =>
        cases h
        exact (hyes.after (derives_of_read (p := .expr) (outcome_ok hy)) trivial).names_end _
      · next yes colon rest' hlt' hy =>
        have hcolon := hyes.after (derives_of_read (p := .expr) (outcome_ok hy)) trivial
        simp only [List.length_cons] at hlt'
        split at h
        · next hc =>
          split at h
          · next hno =>
            cases h
            exact hs .expr _ _ (by simp only [Part.rank]; omega) trivial
              (hcolon.tail (by simp [isSymbol_iff.1 hc])) (outcome_error hno)
          · cases h
        · cases h
          exact hcolon.names rfl
    · cases h

private theorem binary_names {least : Nat}
    (hs : NamesBelow P ended (8 * ts.length + (Part.binary least).rank)) (hin : Inside P ended ts)
    (h : (Part.binary least).read ts = .error e) : Names P ended e := by
  rw [Part.read, outcome_eq_error, readBinary] at h
  split at h
  · next hu =>
    cases h
    exact hs .unary _ _ (by simp [Part.rank]) trivial hin (outcome_error hu)
  · next left rest hlt hu =>
    split at h
    · next ho =>
      cases h
      exact hs (.operators least left) _ _ (by simp only [Part.rank]; omega) trivial
        (hin.after (derives_of_read (p := .unary) (outcome_ok hu)) trivial) (outcome_error ho)
    · cases h

private theorem operators_names {least : Nat} {left : Expr}
    (hs : NamesBelow P ended (8 * ts.length + (Part.operators least left).rank)) (hin : Inside P ended ts)
    (h : (Part.operators least left).read ts = .error e) : Names P ended e := by
  rw [Part.read, outcome_eq_error, readOperators.eq_def] at h
  cases ts with
  | nil => cases h
  | cons t rest =>
    dsimp only at h
    split at h
    · cases h
    · next op hop =>
      have hright := hin.tail (ne_closeTag_of_binary hop)
      split at h
      · split at h
        · next hr =>
          cases h
          exact hs (.binary _) _ _ (by simp only [Part.rank, List.length_cons]; omega) trivial hright
            (outcome_error hr)
        · next right rest' hlt hr =>
          split at h
          · next ho =>
            cases h
            exact hs (.operators _ _) _ _ (by simp only [Part.rank, List.length_cons]; omega) trivial
              (hright.after (derives_of_read (p := .binary _) (outcome_ok hr)) trivial) (outcome_error ho)
          · cases h
      · cases h

private theorem unary_names (hs : NamesBelow P ended (8 * ts.length + Part.unary.rank))
    (hin : Inside P ended ts) (h : Part.unary.read ts = .error e) : Names P ended e := by
  rw [Part.read, outcome_eq_error, readUnary.eq_def] at h
  cases ts with
  | nil =>
    cases h
    exact hin.names_end _
  | cons t rest =>
    dsimp only at h
    split at h
    · next step hstep =>
      have htarget := hin.tail (ne_closeTag_of_count hstep)
      split at h
      · cases h
        exact htarget.names_end _
      · cases h
      · cases h
        exact htarget.names rfl
    · split at h
      · next op hop =>
        split at h
        · next hu =>
          cases h
          exact hs .unary _ _ (by simp only [Part.rank, List.length_cons]; omega) trivial
            (hin.tail (ne_closeTag_of_unary hop)) (outcome_error hu)
        · cases h
      · split at h
        · next ht =>
          cases h
          exact hs .term _ _ (by simp [Part.rank]) trivial hin (outcome_error ht)
        · cases h
        · next term t' rest' hlt ht =>
          split at h
          · cases h
          · split at h
            · cases h
            · cases h
              exact (hin.after (derives_of_read (p := .term) (outcome_ok ht)) trivial).names rfl

/-- What begins with a round bracket: a lambda, or an expression in brackets. -/
private theorem round_names {pos : Pos} (hs : NamesBelow P ended (8 * (ts.length + 1)))
    (hin : Inside P ended (⟨.symbol .openRound, pos⟩ :: ts))
    (h : Part.term.read (⟨.symbol .openRound, pos⟩ :: ts) = .error e) : Names P ended e := by
  rw [Part.read, outcome_eq_error, readTerm.eq_def] at h
  dsimp only at h
  have hseq := hin.tail (by simp)
  split at h
  · next hitems =>
    cases h
    exact hs (.sequence .closeRound) _ _ (by simp only [Part.rank]; omega) bracketed_round hseq
      (outcome_error hitems)
  · next items rest hlt hitems =>
    have hrest := hseq.after (derives_of_read (p := .sequence .closeRound) (outcome_ok hitems))
      bracketed_round
    split at h
    · next arrow body hlt' =>
      split at h
      · cases h
        exact hin.names rfl
      · split at h
        · next hbody =>
          cases h
          simp only [List.length_cons] at hlt'
          exact hs .expr _ _ (by simp only [Part.rank]; omega) trivial (hrest.tail (by simp))
            (outcome_error hbody)
        · cases h
    · split at h
      · split at h
        · next ha =>
          cases h
          exact hs (.accesses _) _ _ (by simp only [Part.rank]; omega) trivial hrest (outcome_error ha)
        · cases h
      · cases h
        exact hin.names rfl

private theorem term_names (hs : NamesBelow P ended (8 * ts.length + Part.term.rank))
    (hin : Inside P ended ts) (h : Part.term.read ts = .error e) : Names P ended e := by
  have h' := h
  rw [Part.read, outcome_eq_error, readTerm.eq_def] at h
  cases ts with
  | nil =>
    cases h
    exact hin.names_end _
  | cons t rest =>
    obtain ⟨token, pos⟩ := t
    simp only [List.length_cons, Part.rank] at hs
    dsimp only at h
    split at h
    · exact hs (.accesses _) _ _ (by simp only [Part.rank]; omega) trivial (hin.tail (by simp))
        (outcome_error h)
    · have hrest := hin.tail (by simp)
      split at h
      · split at h
        · next hbody =>
          cases h
          exact hs .expr _ _ (by simp only [Part.rank, List.length_cons]; omega) trivial
            (hrest.tail (by simp)) (outcome_error hbody)
        · cases h
      · exact hs (.accesses _) _ _ (by simp only [Part.rank]; omega) trivial hrest (outcome_error h)
    · exact round_names hs hin h'
    · have hseq := hin.tail (by simp)
      split at h
      · next hitems =>
        cases h
        exact hs (.sequence .closeSquare) _ _ (by simp only [Part.rank]; omega) bracketed_square hseq
          (outcome_error hitems)
      · next items rest' hlt hitems =>
        split at h
        · next ha =>
          cases h
          exact hs (.accesses _) _ _ (by simp only [Part.rank]; omega) trivial
            (hseq.after (derives_of_read (p := .sequence _) (outcome_ok hitems)) bracketed_square)
            (outcome_error ha)
        · cases h
    · have hentries := hin.tail (by simp)
      split at h
      · next he =>
        cases h
        exact hs .entries _ _ (by simp only [Part.rank]; omega) trivial hentries (outcome_error he)
      · next entries rest' hlt he =>
        split at h
        · next ha =>
          cases h
          exact hs (.accesses _) _ _ (by simp only [Part.rank]; omega) trivial
            (hentries.after (derives_of_read (p := .entries) (outcome_ok he)) trivial) (outcome_error ha)
        · cases h
    · cases h
      exact hin.names rfl

private theorem sequence_names {close : Symbol} (hclose : close ≠ .closeTag)
    (hs : NamesBelow P ended (8 * ts.length + (Part.sequence close).rank)) (hin : Inside P ended ts)
    (h : (Part.sequence close).read ts = .error e) : Names P ended e := by
  rw [Part.read, outcome_eq_error, readSequence.eq_def] at h
  cases ts with
  | nil => exact hs (.items _) _ _ (by simp [Part.rank]) hclose hin (outcome_error h)
  | cons t rest =>
    dsimp only at h
    split at h
    · cases h
    · exact hs (.items _) _ _ (by simp [Part.rank]) hclose hin (outcome_error h)

private theorem items_names {close : Symbol} (hclose : close ≠ .closeTag)
    (hs : NamesBelow P ended (8 * ts.length + (Part.items close).rank)) (hin : Inside P ended ts)
    (h : (Part.items close).read ts = .error e) : Names P ended e := by
  rw [Part.read, outcome_eq_error, readItems] at h
  split at h
  · next he =>
    cases h
    exact hs .expr _ _ (by simp [Part.rank]) trivial hin (outcome_error he)
  · next he =>
    cases h
    exact (hin.after (derives_of_read (p := .expr) (outcome_ok he)) trivial).names_end _
  · next e' t rest hlt he =>
    have hrest := hin.after (derives_of_read (p := .expr) (outcome_ok he)) trivial
    simp only [List.length_cons] at hlt
    split at h
    · next hcomma =>
      split at h
      · next hseq =>
        cases h
        exact hs (.sequence _) _ _ (by simp only [Part.rank]; omega) hclose
          (hrest.tail (by simp [isSymbol_iff.1 hcomma])) (outcome_error hseq)
      · cases h
    · split at h
      · cases h
      · cases h
        exact hrest.names rfl

private theorem entries_names (hs : NamesBelow P ended (8 * ts.length + Part.entries.rank))
    (hin : Inside P ended ts) (h : Part.entries.read ts = .error e) : Names P ended e := by
  rw [Part.read, outcome_eq_error, readEntries.eq_def] at h
  cases ts with
  | nil =>
    cases h
    exact hin.names_end _
  | cons key rest =>
    simp only [List.length_cons, Part.rank] at hs
    dsimp only at h
    split at h
    · cases h
    · split at h
      · cases h
        exact hin.names rfl
      · next k hkey =>
        have hrest := hin.tail (ne_closeTag_of_hashKey hkey)
        split at h
        · next pos rest' =>
          simp only [List.length_cons] at hs
          have hvalue := hrest.tail (by simp)
          split at h
          · next hv =>
            cases h
            exact hs .expr _ _ (by simp only [Part.rank]; omega) trivial hvalue (outcome_error hv)
          · next value rest₁ hlt hv =>
            split at h
            · next hmore =>
              cases h
              exact hs .moreEntries _ _ (by simp only [Part.rank]; omega) trivial
                (hvalue.after (derives_of_read (p := .expr) (outcome_ok hv)) trivial) (outcome_error hmore)
            · cases h
        · split at h
          · next hmore =>
            cases h
            exact hs .moreEntries _ _ (by simp only [Part.rank]; omega) trivial hrest (outcome_error hmore)
          · cases h

private theorem moreEntries_names (hs : NamesBelow P ended (8 * ts.length + Part.moreEntries.rank))
    (hin : Inside P ended ts) (h : Part.moreEntries.read ts = .error e) : Names P ended e := by
  rw [Part.read, outcome_eq_error, readMoreEntries.eq_def] at h
  cases ts with
  | nil =>
    cases h
    exact hin.names_end _
  | cons t rest =>
    simp only [List.length_cons, Part.rank] at hs
    dsimp only at h
    split at h
    · next hcomma =>
      split at h
      · next he =>
        cases h
        exact hs .entries _ _ (by simp only [Part.rank]; omega) trivial
          (hin.tail (by simp [isSymbol_iff.1 hcomma])) (outcome_error he)
      · cases h
    · split at h
      · cases h
      · cases h
        exact hin.names rfl

/-- What begins with a dot: a method call, or a member. -/
private theorem dot_names {target : Expr} {pos : Pos} (hs : NamesBelow P ended (8 * (ts.length + 1)))
    (hin : Inside P ended (⟨.symbol .dot, pos⟩ :: ts))
    (h : (Part.accesses target).read (⟨.symbol .dot, pos⟩ :: ts) = .error e) : Names P ended e := by
  rw [Part.read, outcome_eq_error, readAccesses.eq_def] at h
  dsimp only at h
  have hname := hin.tail (by simp)
  split at h
  · cases h
    exact hname.names_end _
  · next n rest =>
    simp only [List.length_cons] at hs
    split at h
    · cases h
      exact hname.names rfl
    · next field hfield =>
      have hrest := hname.tail (ne_closeTag_of_memberName hfield)
      split at h
      · next pos' args =>
        simp only [List.length_cons] at hs
        have hseq := hrest.tail (by simp)
        split at h
        · next hargs =>
          cases h
          exact hs (.sequence .closeRound) _ _ (by simp only [Part.rank]; omega) bracketed_round hseq
            (outcome_error hargs)
        · next args rest₁ hlt hargs =>
          split at h
          · next ha =>
            cases h
            exact hs (.accesses _) _ _ (by simp only [Part.rank]; omega) trivial
              (hseq.after (derives_of_read (p := .sequence _) (outcome_ok hargs)) bracketed_round)
              (outcome_error ha)
          · cases h
      · split at h
        · next ha =>
          cases h
          exact hs (.accesses _) _ _ (by simp only [Part.rank]; omega) trivial hrest (outcome_error ha)
        · cases h

private theorem accesses_names {target : Expr}
    (hs : NamesBelow P ended (8 * ts.length + (Part.accesses target).rank))
    (hin : Inside P ended ts) (h : (Part.accesses target).read ts = .error e) : Names P ended e := by
  have h' := h
  rw [Part.read, outcome_eq_error, readAccesses.eq_def] at h
  cases ts with
  | nil => cases h
  | cons t rest =>
    obtain ⟨token, pos⟩ := t
    simp only [List.length_cons, Part.rank] at hs
    dsimp only at h
    split at h
    · exact dot_names hs hin h'
    · have hkey := hin.tail (by simp)
      split at h
      · next hk =>
        cases h
        exact hs .expr _ _ (by simp only [Part.rank]; omega) trivial hkey (outcome_error hk)
      · next hk =>
        cases h
        exact (hkey.after (derives_of_read (p := .expr) (outcome_ok hk)) trivial).names_end _
      · next key close rest' hlt hk =>
        have hclose := hkey.after (derives_of_read (p := .expr) (outcome_ok hk)) trivial
        simp only [List.length_cons] at hlt
        split at h
        · next hc =>
          split at h
          · next ha =>
            cases h
            exact hs (.accesses _) _ _ (by simp only [Part.rank]; omega) trivial
              (hclose.tail (by simp [isSymbol_iff.1 hc])) (outcome_error ha)
          · cases h
        · cases h
          exact hclose.names rfl
    · have hseq := hin.tail (by simp)
      split at h
      · next hargs =>
        cases h
        exact hs (.sequence .closeRound) _ _ (by simp only [Part.rank]; omega) bracketed_round hseq
          (outcome_error hargs)
      · next args rest' hlt hargs =>
        split at h
        · next ha =>
          cases h
          exact hs (.accesses _) _ _ (by simp only [Part.rank]; omega) trivial
            (hseq.after (derives_of_read (p := .sequence _) (outcome_ok hargs)) bracketed_round)
            (outcome_error ha)
        · cases h
    · cases h

/-- What cannot be read is refused for a token before the braces that close the tag, or for these. -/
theorem names_of_read (hp : p.Bracketed) (hin : Inside P ended ts) (h : p.read ts = .error e) :
    Names P ended e := by
  -- Readers call each other in a circle, so the induction is on the measure that they all go down.
  generalize hn : 8 * ts.length + p.rank = n
  induction n using Nat.strongRecOn generalizing p ts e with
  | ind n ih =>
    have hs : NamesBelow P ended n := fun p ts e hlt hp hin h => ih _ hlt hp hin h rfl
    subst hn
    cases p with
    | expr => exact expr_names hs hin h
    | conditional => exact conditional_names hs hin h
    | binary => exact binary_names hs hin h
    | operators => exact operators_names hs hin h
    | unary => exact unary_names hs hin h
    | term => exact term_names hs hin h
    | sequence => exact sequence_names hp hs hin h
    | items => exact items_names hp hs hin h
    | entries => exact entries_names hs hin h
    | moreEntries => exact moreEntries_names hs hin h
    | accesses => exact accesses_names hs hin h

end Expr

end LiveMarkup
