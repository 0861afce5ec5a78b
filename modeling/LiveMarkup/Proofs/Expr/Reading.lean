import LiveMarkup.Proofs.Expr.Grammar

/-! Readers follow the grammar: what they read is derived. Whether a derivation goes on as it is when
more tokens follow depends on the first of them only. -/

namespace LiveMarkup.Expr

variable {p : Part} {ts rest more : List Lexeme} {a : p.Value} {e : Expr} {n : Nat}

def Part.rank : Part → Nat
  | .expr => 4
  | .conditional => 3
  | .binary _ => 2
  | .operators _ _ => 0
  | .unary => 1
  | .term => 0
  | .sequence _ => 6
  | .items _ => 5
  | .entries => 0
  | .moreEntries => 1
  | .accesses _ => 0

/-- Readers whose calls are bounded by `n` derive what they read. -/
def SoundBelow (n : Nat) : Prop :=
  ∀ (p : Part) (ts : List Lexeme) (a : p.Value) (rest : List Lexeme),
    8 * ts.length + p.rank < n → p.read ts = .ok (a, rest) → Derives p ts a rest

section

variable {α : Type} {m : Nat} {r : Except CompileError (Reads α m)} {b : Reads α m}

theorem outcome_ok (h : r = .ok b) : outcome r = .ok (b.value, b.rest) := by rw [h]; rfl

end

/-- A list that does not begin with a symbol. -/
private theorem clear_symbol {s : Symbol} (h : ∀ pos more, ts = ⟨.symbol s, pos⟩ :: more → False) :
    Clear (· = .symbol s) ts := by
  cases ts with
  | nil => exact clear_nil _
  | cons t more =>
    obtain ⟨token, pos⟩ := t
    refine (clear_cons ..).2 fun ht => ?_
    cases ht
    exact h pos more rfl

/-! One lemma for each reader: it derives what it reads if the readers that it calls do. -/

private theorem expr_derives (hs : SoundBelow (8 * ts.length + Part.expr.rank))
    (h : Part.expr.read ts = .ok (e, rest)) : Derives .expr ts e rest := by
  rw [Part.read, outcome_eq_ok] at h
  obtain ⟨_, h⟩ := h
  rw [Expr.read] at h
  split at h
  · cases h
  · next hc =>
    cases h
    exact .plain (hs .conditional _ _ _ (by simp [Part.rank]) (outcome_ok hc)) (clear_nil _)
  · next left t rest' hlt hc =>
    have hleft : Derives .conditional ts left (t :: rest') :=
      hs .conditional _ _ _ (by simp [Part.rank]) (outcome_ok hc)
    split at h
    · next hop =>
      cases h
      exact .plain hleft ((clear_cons ..).2 (not_assigns.2 hop))
    · next op hop =>
      split at h
      · split at h
        · cases h
        · next hv =>
          cases h
          simp only [List.length_cons] at hlt
          exact .assign hleft hop (hs .expr _ _ _ (by omega) (outcome_ok hv))
      · cases h

private theorem conditional_derives (hs : SoundBelow (8 * ts.length + Part.conditional.rank))
    (h : Part.conditional.read ts = .ok (e, rest)) : Derives .conditional ts e rest := by
  rw [Part.read, outcome_eq_ok] at h
  obtain ⟨_, h⟩ := h
  rw [readConditional] at h
  split at h
  · cases h
  · next hb =>
    cases h
    exact .unconditional (hs (.binary 0) _ _ _ (by simp [Part.rank]) (outcome_ok hb)) (clear_nil _)
  · next test t rest' hlt hb =>
    obtain ⟨token, pos⟩ := t
    have htest : Derives (.binary 0) ts test (⟨token, pos⟩ :: rest') :=
      hs (.binary 0) _ _ _ (by simp [Part.rank]) (outcome_ok hb)
    simp only [List.length_cons] at hlt
    split at h
    · next hq =>
      obtain rfl : token = .symbol .question := isSymbol_iff.1 hq
      split at h
      · cases h
      · cases h
      · next yes colon rest'' hlt' hyes =>
        obtain ⟨token, pos'⟩ := colon
        simp only [List.length_cons] at hlt'
        split at h
        · next hcolon =>
          obtain rfl : token = .symbol .colon := isSymbol_iff.1 hcolon
          split at h
          · cases h
          · next hno =>
            cases h
            exact .cond htest (hs .expr _ _ _ (by simp only [Part.rank]; omega) (outcome_ok hyes))
              (hs .expr _ _ _ (by simp only [Part.rank]; omega) (outcome_ok hno))
        · cases h
    · next hq =>
      cases h
      exact .unconditional htest ((clear_cons ..).2 (mt isSymbol_iff.2 hq))

private theorem binary_derives {least : Nat}
    (hs : SoundBelow (8 * ts.length + (Part.binary least).rank))
    (h : (Part.binary least).read ts = .ok (e, rest)) : Derives (.binary least) ts e rest := by
  rw [Part.read, outcome_eq_ok] at h
  obtain ⟨_, h⟩ := h
  rw [readBinary] at h
  split at h
  · cases h
  · next left rest' hlt hu =>
    split at h
    · cases h
    · next r ho =>
      cases h
      exact .binary (hs .unary _ _ _ (by simp [Part.rank]) (outcome_ok hu))
        (hs (.operators least left) _ _ _ (by simp only [Part.rank]; omega) (outcome_ok ho))

private theorem operators_derives {least : Nat} {left : Expr}
    (hs : SoundBelow (8 * ts.length + (Part.operators least left).rank))
    (h : (Part.operators least left).read ts = .ok (e, rest)) :
    Derives (.operators least left) ts e rest := by
  rw [Part.read, outcome_eq_ok] at h
  obtain ⟨_, h⟩ := h
  rw [readOperators.eq_def] at h
  cases ts with
  | nil =>
    cases h
    exact .operand (clear_nil _)
  | cons t rest' =>
    dsimp only at h
    split at h
    · next hop =>
      cases h
      refine .operand ((clear_cons ..).2 ?_)
      rintro ⟨op, hop', -⟩
      cases hop.symm.trans hop'
    · next op hop =>
      split at h
      · next hleast =>
        split at h
        · cases h
        · next right rest'' hlt hr =>
          split at h
          · cases h
          · next r ho =>
            cases h
            exact .operator hop hleast
              (hs (.binary _) _ _ _ (by simp only [Part.rank, List.length_cons]; omega) (outcome_ok hr))
              (hs (.operators _ _) _ _ _ (by simp only [Part.rank, List.length_cons]; omega)
                (outcome_ok ho))
      · next hleast =>
        cases h
        refine .operand ((clear_cons ..).2 ?_)
        rintro ⟨op', hop', hleast'⟩
        cases hop.symm.trans hop'
        exact hleast hleast'

private theorem unary_derives (hs : SoundBelow (8 * ts.length + Part.unary.rank))
    (h : Part.unary.read ts = .ok (e, rest)) : Derives .unary ts e rest := by
  rw [Part.read, outcome_eq_ok] at h
  obtain ⟨_, h⟩ := h
  rw [readUnary.eq_def] at h
  cases ts with
  | nil => cases h
  | cons t rest' =>
    dsimp only at h
    split at h
    · next step hstep =>
      split at h
      · cases h
      · cases h
        exact .countBefore hstep
      · cases h
    · next hcount =>
      split at h
      · next op hop =>
        split at h
        · cases h
        · next hu =>
          cases h
          exact .unary hop (hs .unary _ _ _ (by simp only [Part.rank, List.length_cons]; omega)
            (outcome_ok hu))
      · next hop =>
        split at h
        · cases h
        · next ht =>
          cases h
          exact .operandTerm (not_counts.2 hcount) (not_negates.2 hop)
            (hs .term _ _ _ (by simp [Part.rank]) (outcome_ok ht)) (clear_nil _)
        · next term t' rest'' hlt ht =>
          have hterm : Derives .term (t :: rest') term (t' :: rest'') :=
            hs .term _ _ _ (by simp [Part.rank]) (outcome_ok ht)
          split at h
          · next hcount' =>
            cases h
            exact .operandTerm (not_counts.2 hcount) (not_negates.2 hop) hterm
              ((clear_cons ..).2 (not_counts.2 hcount'))
          · next step hstep =>
            split at h
            · cases h
              exact .countAfter (not_counts.2 hcount) (not_negates.2 hop) hterm hstep
            · cases h

/-- What begins with a round bracket: a lambda, or an expression in brackets. -/
private theorem round_derives {pos : Pos} (hs : SoundBelow (8 * (ts.length + 1)))
    (h : Part.term.read (⟨.symbol .openRound, pos⟩ :: ts) = .ok (e, rest)) :
    Derives .term (⟨.symbol .openRound, pos⟩ :: ts) e rest := by
  rw [Part.read, outcome_eq_ok] at h
  obtain ⟨_, h⟩ := h
  rw [readTerm.eq_def] at h
  dsimp only at h
  split at h
  · cases h
  · next items rest'' hlt hitems =>
    have hseq : Derives (.sequence .closeRound) ts items rest'' :=
      hs (.sequence _) _ _ _ (by simp only [Part.rank]; omega) (outcome_ok hitems)
    split at h
    · next arrow body hlt' =>
      split at h
      · cases h
      · next params hparams =>
        split at h
        · cases h
        · next hbody =>
          cases h
          simp only [List.length_cons] at hlt'
          exact .lambda hseq hparams
            (hs .expr _ _ _ (by simp only [Part.rank]; omega) (outcome_ok hbody))
    · next harrow =>
      split at h
      · split at h
        · cases h
        · next ha =>
          cases h
          -- The reader looks for the arrow together with the bound on what is left, and so does `harrow`.
          have hclear : Clear (· = .symbol .arrow) rest'' := by
            refine clear_symbol fun pos more he => ?_
            subst he
            exact harrow pos more hlt rfl HEq.rfl
          exact .bracketed hseq hclear
            (hs (.accesses _) _ _ _ (by simp only [Part.rank]; omega) (outcome_ok ha))
      · cases h

private theorem term_derives (hs : SoundBelow (8 * ts.length + Part.term.rank))
    (h : Part.term.read ts = .ok (e, rest)) : Derives .term ts e rest := by
  have h' := h
  rw [Part.read, outcome_eq_ok] at h
  obtain ⟨_, h⟩ := h
  rw [readTerm.eq_def] at h
  cases ts with
  | nil => cases h
  | cons t rest' =>
    obtain ⟨token, pos⟩ := t
    simp only [List.length_cons, Part.rank] at hs
    dsimp only at h
    split at h
    · next v =>
      exact .literal (hs (.accesses _) _ _ _ (by simp only [Part.rank]; omega) (outcome_ok h))
    · next x =>
      split at h
      · next arrow body =>
        split at h
        · cases h
        · next hbody =>
          cases h
          exact .lambdaOne (hs .expr _ _ _ (by simp only [Part.rank, List.length_cons]; omega)
            (outcome_ok hbody))
      · next harrow =>
        exact .name (clear_symbol harrow)
          (hs (.accesses _) _ _ _ (by simp only [Part.rank]; omega) (outcome_ok h))
    · exact round_derives hs h'
    · split at h
      · cases h
      · next items rest'' hlt hitems =>
        split at h
        · cases h
        · next ha =>
          cases h
          exact .list (hs (.sequence _) _ _ _ (by simp only [Part.rank]; omega) (outcome_ok hitems))
            (hs (.accesses _) _ _ _ (by simp only [Part.rank]; omega) (outcome_ok ha))
    · split at h
      · cases h
      · next entries rest'' hlt hentries =>
        split at h
        · cases h
        · next ha =>
          cases h
          exact .hash (hs .entries _ _ _ (by simp only [Part.rank]; omega) (outcome_ok hentries))
            (hs (.accesses _) _ _ _ (by simp only [Part.rank]; omega) (outcome_ok ha))
    · cases h

private theorem sequence_derives {close : Symbol} {es : List Expr}
    (hs : SoundBelow (8 * ts.length + (Part.sequence close).rank))
    (h : (Part.sequence close).read ts = .ok (es, rest)) : Derives (.sequence close) ts es rest := by
  rw [Part.read, outcome_eq_ok] at h
  obtain ⟨_, h⟩ := h
  rw [readSequence.eq_def] at h
  cases ts with
  | nil => exact .someItems (clear_nil _) (hs (.items _) _ _ _ (by simp [Part.rank]) (outcome_ok h))
  | cons t rest' =>
    obtain ⟨token, pos⟩ := t
    dsimp only at h
    split at h
    · next hclose =>
      obtain rfl : token = .symbol close := isSymbol_iff.1 hclose
      cases h
      exact .noItems
    · next hclose =>
      exact .someItems ((clear_cons ..).2 (mt isSymbol_iff.2 hclose))
        (hs (.items _) _ _ _ (by simp [Part.rank]) (outcome_ok h))

private theorem items_derives {close : Symbol} {es : List Expr}
    (hs : SoundBelow (8 * ts.length + (Part.items close).rank))
    (h : (Part.items close).read ts = .ok (es, rest)) : Derives (.items close) ts es rest := by
  rw [Part.read, outcome_eq_ok] at h
  obtain ⟨_, h⟩ := h
  rw [readItems] at h
  split at h
  · cases h
  · cases h
  · next e t rest' hlt he =>
    obtain ⟨token, pos⟩ := t
    have hexpr : Derives .expr ts e (⟨token, pos⟩ :: rest') :=
      hs .expr _ _ _ (by simp [Part.rank]) (outcome_ok he)
    simp only [List.length_cons] at hlt
    split at h
    · next hcomma =>
      obtain rfl : token = .symbol .comma := isSymbol_iff.1 hcomma
      split at h
      · cases h
      · next hseq =>
        cases h
        exact .itemsMore hexpr
          (hs (.sequence _) _ _ _ (by simp only [Part.rank]; omega) (outcome_ok hseq))
    · next hcomma =>
      split at h
      · next hclose =>
        obtain rfl : token = .symbol close := isSymbol_iff.1 hclose
        cases h
        exact .itemsLast (mt isSymbol_symbol.2 hcomma) hexpr
      · cases h

private theorem entries_derives {es : List (String × Expr)}
    (hs : SoundBelow (8 * ts.length + Part.entries.rank))
    (h : Part.entries.read ts = .ok (es, rest)) : Derives .entries ts es rest := by
  rw [Part.read, outcome_eq_ok] at h
  obtain ⟨_, h⟩ := h
  rw [readEntries.eq_def] at h
  cases ts with
  | nil => cases h
  | cons key rest' =>
    simp only [List.length_cons, Part.rank] at hs
    dsimp only at h
    split at h
    · next hclose =>
      obtain ⟨token, pos⟩ := key
      obtain rfl : token = .symbol .closeCurly := isSymbol_iff.1 hclose
      cases h
      exact .noEntries
    · split at h
      · cases h
      · next k hkey =>
        split at h
        · next pos rest'' =>
          simp only [List.length_cons] at hs
          split at h
          · cases h
          · next value rest₁ hlt hvalue =>
            split at h
            · cases h
            · next hmore =>
              cases h
              exact .entry hkey (hs .expr _ _ _ (by simp only [Part.rank]; omega) (outcome_ok hvalue))
                (hs .moreEntries _ _ _ (by simp only [Part.rank]; omega) (outcome_ok hmore))
        · next hcolon =>
          split at h
          · cases h
          · next hmore =>
            cases h
            exact .shorthand hkey (clear_symbol hcolon)
              (hs .moreEntries _ _ _ (by simp only [Part.rank]; omega) (outcome_ok hmore))

private theorem moreEntries_derives {es : List (String × Expr)}
    (hs : SoundBelow (8 * ts.length + Part.moreEntries.rank))
    (h : Part.moreEntries.read ts = .ok (es, rest)) : Derives .moreEntries ts es rest := by
  rw [Part.read, outcome_eq_ok] at h
  obtain ⟨_, h⟩ := h
  rw [readMoreEntries.eq_def] at h
  cases ts with
  | nil => cases h
  | cons t rest' =>
    obtain ⟨token, pos⟩ := t
    simp only [List.length_cons, Part.rank] at hs
    dsimp only at h
    split at h
    · next hcomma =>
      obtain rfl : token = .symbol .comma := isSymbol_iff.1 hcomma
      split at h
      · cases h
      · next hentries =>
        cases h
        exact .entriesMore (hs .entries _ _ _ (by simp only [Part.rank]; omega) (outcome_ok hentries))
    · split at h
      · next hclose =>
        obtain rfl : token = .symbol .closeCurly := isSymbol_iff.1 hclose
        cases h
        exact .entriesEnd
      · cases h

/-- What begins with a dot: a method call, or a member. -/
private theorem dot_derives {target : Expr} {pos : Pos} (hs : SoundBelow (8 * (ts.length + 1)))
    (h : (Part.accesses target).read (⟨.symbol .dot, pos⟩ :: ts) = .ok (e, rest)) :
    Derives (.accesses target) (⟨.symbol .dot, pos⟩ :: ts) e rest := by
  rw [Part.read, outcome_eq_ok] at h
  obtain ⟨_, h⟩ := h
  rw [readAccesses.eq_def] at h
  dsimp only at h
  split at h
  · cases h
  · next n rest'' =>
    simp only [List.length_cons] at hs
    split at h
    · cases h
    · next field hfield =>
      split at h
      · next pos' args =>
        simp only [List.length_cons] at hs
        split at h
        · cases h
        · next args rest₁ hlt hargs =>
          split at h
          · cases h
          · next ha =>
            cases h
            exact .method hfield
              (hs (.sequence _) _ _ _ (by simp only [Part.rank]; omega) (outcome_ok hargs))
              (hs (.accesses _) _ _ _ (by simp only [Part.rank]; omega) (outcome_ok ha))
      · next hopen =>
        split at h
        · cases h
        · next ha =>
          cases h
          exact .member hfield (clear_symbol hopen)
            (hs (.accesses _) _ _ _ (by simp only [Part.rank]; omega) (outcome_ok ha))

private theorem accesses_derives {target : Expr}
    (hs : SoundBelow (8 * ts.length + (Part.accesses target).rank))
    (h : (Part.accesses target).read ts = .ok (e, rest)) : Derives (.accesses target) ts e rest := by
  have h' := h
  rw [Part.read, outcome_eq_ok] at h
  obtain ⟨_, h⟩ := h
  rw [readAccesses.eq_def] at h
  cases ts with
  | nil =>
    cases h
    exact .accessed (clear_nil _)
  | cons t rest' =>
    obtain ⟨token, pos⟩ := t
    simp only [List.length_cons, Part.rank] at hs
    dsimp only at h
    split at h
    · exact dot_derives hs h'
    · split at h
      · cases h
      · cases h
      · next key close rest'' hlt hkey =>
        obtain ⟨token, pos'⟩ := close
        simp only [List.length_cons] at hlt
        split at h
        · next hclose =>
          obtain rfl : token = .symbol .closeSquare := isSymbol_iff.1 hclose
          split at h
          · cases h
          · next ha =>
            cases h
            exact .index (hs .expr _ _ _ (by simp only [Part.rank]; omega) (outcome_ok hkey))
              (hs (.accesses _) _ _ _ (by simp only [Part.rank]; omega) (outcome_ok ha))
        · cases h
    · split at h
      · cases h
      · next args rest'' hlt hargs =>
        split at h
        · cases h
        · next ha =>
          cases h
          exact .call (hs (.sequence _) _ _ _ (by simp only [Part.rank]; omega) (outcome_ok hargs))
            (hs (.accesses _) _ _ _ (by simp only [Part.rank]; omega) (outcome_ok ha))
    · next hdot hsquare hround =>
      cases h
      refine .accessed ((clear_cons ..).2 ?_)
      rintro (ht | ht | ht)
      · exact hdot ht
      · exact hsquare ht
      · exact hround ht

/-- What is read is derived. -/
theorem derives_of_read (h : p.read ts = .ok (a, rest)) : Derives p ts a rest := by
  -- Readers call each other in a circle, so the induction is on the measure that they all go down.
  generalize hn : 8 * ts.length + p.rank = n
  induction n using Nat.strongRecOn generalizing p ts rest with
  | ind n ih =>
    have hs : SoundBelow n := fun p ts a rest hlt h => ih _ hlt h rfl
    subst hn
    cases p with
    | expr => exact expr_derives hs h
    | conditional => exact conditional_derives hs h
    | binary => exact binary_derives hs h
    | operators => exact operators_derives hs h
    | unary => exact unary_derives hs h
    | term => exact term_derives hs h
    | sequence => exact sequence_derives hs h
    | items => exact items_derives hs h
    | entries => exact entries_derives hs h
    | moreEntries => exact moreEntries_derives hs h
    | accesses => exact accesses_derives hs h

theorem derives_iff_read : Derives p ts a rest ↔ p.read ts = .ok (a, rest) :=
  ⟨Derives.read, derives_of_read⟩

/-! Tokens that follow. -/

/-- A token that can go on with an expression that stands before it. -/
def Continues (t : Token) : Prop :=
  Joins 0 t ∨ Assigns t ∨ Counts t ∨ Accesses t ∨ t = .symbol .question ∨ t = .symbol .arrow

instance (t : Token) : Decidable (Continues t) := inferInstanceAs (Decidable (_ ∨ _))

/-- The items of a sequence, and the entries of a hash, take at least one token. -/
private theorem Derives.items_ne_nil {close : Symbol} {es : List Expr}
    (h : Derives (.items close) ts es rest) :
    ts ≠ [] := by
  obtain ⟨hlt, -⟩ := outcome_eq_ok.1 h.read
  exact List.ne_nil_of_length_pos (by omega)

private theorem Derives.moreEntries_ne_nil {es : List (String × Expr)}
    (h : Derives .moreEntries ts es rest) :
    ts ≠ [] := by
  obtain ⟨hlt, -⟩ := outcome_eq_ok.1 h.read
  exact List.ne_nil_of_length_pos (by omega)

def Part.hasOperand : Part → Bool
  | .expr | .conditional | .binary _ | .unary | .term | .items _ => true
  | _ => false

def begins : Token → Bool
  | .literal _ | .name _ => true
  | .symbol s =>
    s.count?.isSome || s.unary?.isSome || s == .openRound || s == .openSquare || s == .openCurly
  | _ => false

private theorem Derives.begins (h : Derives p ts a rest) (hp : p.hasOperand = true) :
    ∃ t ts', ts = t :: ts' ∧ begins t.token = true := by
  induction h with
  | plain _ _ ih | assign _ _ _ ih _ | unconditional _ _ ih | cond _ _ _ ih _ _ | binary _ _ ih _
  | operandTerm _ _ _ _ ih | countAfter _ _ _ _ ih | itemsMore _ _ ih _ | itemsLast _ _ ih => exact ih rfl
  | @countBefore _ t _ _ _ hstep =>
    obtain ⟨token, pos⟩ := t
    refine ⟨_, _, rfl, ?_⟩
    cases token with
    | symbol s =>
      have hcount : s.count?.isSome = true := Option.isSome_of_eq_some hstep
      simp [Expr.begins, hcount]
    | _ => cases hstep
  | @unary _ _ t _ _ hop =>
    obtain ⟨token, pos⟩ := t
    refine ⟨_, _, rfl, ?_⟩
    cases token with
    | symbol s =>
      have hunary : s.unary?.isSome = true := Option.isSome_of_eq_some hop
      simp [Expr.begins, hunary]
    | _ => cases hop
  | literal | lambdaOne | name | lambda | bracketed | list | hash => exact ⟨_, _, rfl, rfl⟩
  | _ => cases hp

/-- A bracket that ends a sequence. -/
def Closes (t : Token) : Prop := t = .symbol .closeRound ∨ t = .symbol .closeSquare

instance (t : Token) : Decidable (Closes t) := inferInstanceAs (Decidable (_ ∨ _))

/-- No operand begins with a closing bracket. -/
theorem Derives.not_closes (h : Derives p ts a rest) (hp : p.hasOperand = true) : Clear Closes ts := by
  obtain ⟨t, ts', rfl, ht⟩ := h.begins hp
  refine (clear_cons ..).2 fun hclose => ?_
  rcases hclose with hclose | hclose <;> rw [hclose] at ht <;> cases ht

/-- What is left is an end of the tokens. -/
private theorem Derives.suffix (h : Derives p ts a rest) : rest <:+ ts := by
  induction h with
  | plain _ _ ih | unconditional _ _ ih | someItems _ _ ih => exact ih
  | assign _ _ _ ih ihvalue => exact ihvalue.trans ((List.suffix_cons ..).trans ih)
  | cond _ _ _ ihtest ihyes ihno =>
    exact ihno.trans ((List.suffix_cons ..).trans (ihyes.trans ((List.suffix_cons ..).trans ihtest)))
  | binary _ _ ihleft ih => exact ih.trans ihleft
  | operand | accessed => exact List.suffix_rfl
  | operator _ _ _ _ ihright ih => exact ih.trans (ihright.trans (List.suffix_cons ..))
  | countBefore => exact (List.suffix_cons ..).trans (List.suffix_cons ..)
  | unary _ _ ih | literal _ ih | name _ _ ih | entriesMore _ ih => exact ih.trans (List.suffix_cons ..)
  | operandTerm _ _ _ _ ih => exact ih
  | countAfter _ _ _ _ ih => exact (List.suffix_cons ..).trans ih
  | lambdaOne _ ih => exact ih.trans ((List.suffix_cons ..).trans (List.suffix_cons ..))
  | lambda _ _ _ ihitems ih =>
    exact ih.trans ((List.suffix_cons ..).trans (ihitems.trans (List.suffix_cons ..)))
  | bracketed _ _ _ ihe ih => exact ih.trans (ihe.trans (List.suffix_cons ..))
  | list _ _ ihitems ih | hash _ _ ihitems ih | call _ _ ihitems ih =>
    exact ih.trans (ihitems.trans (List.suffix_cons ..))
  | noItems | noEntries | entriesEnd => exact List.suffix_cons ..
  | itemsMore _ _ ihe ih => exact ih.trans ((List.suffix_cons ..).trans ihe)
  | itemsLast _ _ ihe => exact (List.suffix_cons ..).trans ihe
  | entry _ _ _ ihvalue ih =>
    exact ih.trans (ihvalue.trans ((List.suffix_cons ..).trans (List.suffix_cons ..)))
  | shorthand _ _ _ ih => exact ih.trans (List.suffix_cons ..)
  | member _ _ _ ih => exact ih.trans ((List.suffix_cons ..).trans (List.suffix_cons ..))
  | method _ _ _ ihargs ih =>
    exact ih.trans (ihargs.trans ((List.suffix_cons ..).trans
      ((List.suffix_cons ..).trans (List.suffix_cons ..))))
  | index _ _ ihkey ih =>
    exact ih.trans ((List.suffix_cons ..).trans (ihkey.trans (List.suffix_cons ..)))

private theorem Derives.rest_eq_nil (h : Derives p ts a rest) (hts : ts = []) : rest = [] :=
  List.suffix_nil.1 (hts ▸ h.suffix)

private theorem Clear.append {kind : Token → Prop} (h : Clear kind ts)
    (hkind : ∀ t, kind t → Continues t) (hmore : ts = [] → Clear Continues more) :
    Clear kind (ts ++ more) := by
  cases ts with
  | nil => exact fun t ht hk => hmore rfl t ht (hkind _ hk)
  | cons t ts => exact h

private theorem Clear.append_of_ne_nil {kind : Token → Prop} (h : Clear kind ts) (hts : ts ≠ []) :
    Clear kind (ts ++ more) := by
  cases ts with
  | nil => exact absurd rfl hts
  | cons t ts => exact h

theorem Clear.mono {kind kind' : Token → Prop} (h : Clear kind' ts) (hk : ∀ t, kind t → kind' t) :
    Clear kind ts := fun t ht hkind => h t ht (hk _ hkind)

/-! The kinds of tokens that go on with an expression. -/

section

variable {t : Token}

theorem Joins.continues {least : Nat} (h : Joins least t) : Continues t := by
  obtain ⟨op, hop, -⟩ := h
  exact .inl ⟨op, hop, Nat.zero_le _⟩

theorem Assigns.continues (h : Assigns t) : Continues t := .inr (.inl h)

private theorem Counts.continues (h : Counts t) : Continues t := .inr (.inr (.inl h))

private theorem Accesses.continues (h : Accesses t) : Continues t := .inr (.inr (.inr (.inl h)))

theorem continues_of_question (h : t = .symbol .question) : Continues t :=
  .inr (.inr (.inr (.inr (.inl h))))

private theorem continues_of_arrow (h : t = .symbol .arrow) : Continues t :=
  .inr (.inr (.inr (.inr (.inr h))))

end

theorem Clear.accesses (h : Clear Continues ts) : Clear Accesses ts := h.mono fun _ h => h.continues

/-- Tokens that follow are left as well, unless they go on with what ended with the tokens. -/
private theorem Derives.append (h : Derives p ts a rest) (hmore : rest = [] → Clear Continues more) :
    Derives p (ts ++ more) a (rest ++ more) := by
  -- A part that leaves a token has been looked ahead from already.
  have hcons {t : Lexeme} {ts : List Lexeme} : t :: ts = [] → Clear Continues more := nofun
  induction h with
  | plain _ hrest ih => exact .plain (ih hmore) (hrest.append (fun _ h => h.continues) hmore)
  | assign _ hop _ ih ihvalue => exact .assign (ih hcons) hop (ihvalue hmore)
  | unconditional _ hrest ih =>
    exact .unconditional (ih hmore)
      (hrest.append (fun _ => continues_of_question) hmore)
  | cond _ _ _ ihtest ihyes ihno => exact .cond (ihtest hcons) (ihyes hcons) (ihno hmore)
  | binary _ h ihleft ih =>
    exact .binary (ihleft fun hnil => hmore (h.rest_eq_nil hnil)) (ih hmore)
  | operand hrest => exact .operand (hrest.append (fun _ h => h.continues) hmore)
  | operator hop hleast _ h ihright ih =>
    exact .operator hop hleast (ihright fun hnil => hmore (h.rest_eq_nil hnil)) (ih hmore)
  | countBefore hstep => exact .countBefore hstep
  | unary hop _ ih => exact .unary hop (ih hmore)
  | operandTerm hcount hunary _ hrest ih =>
    exact .operandTerm hcount hunary (ih hmore)
      (hrest.append (fun _ h => h.continues) hmore)
  | countAfter hcount hunary _ hstep ih => exact .countAfter hcount hunary (ih hcons) hstep
  | literal _ ih => exact .literal (ih hmore)
  | lambdaOne _ ih => exact .lambdaOne (ih hmore)
  | name hrest h ih =>
    exact .name (hrest.append (fun _ => continues_of_arrow)
      fun hnil => hmore (h.rest_eq_nil hnil)) (ih hmore)
  | lambda _ hparams _ ihitems ih => exact .lambda (ihitems hcons) hparams (ih hmore)
  | bracketed _ hrest h ihe ih =>
    exact .bracketed (ihe fun hnil => hmore (h.rest_eq_nil hnil))
      (hrest.append (fun _ => continues_of_arrow) fun hnil => hmore (h.rest_eq_nil hnil))
      (ih hmore)
  | list _ h ihitems ih =>
    exact .list (ihitems fun hnil => hmore (h.rest_eq_nil hnil)) (ih hmore)
  | hash _ h ihentries ih =>
    exact .hash (ihentries fun hnil => hmore (h.rest_eq_nil hnil)) (ih hmore)
  | noItems => exact .noItems
  | someItems hts h ih => exact .someItems (hts.append_of_ne_nil h.items_ne_nil) (ih hmore)
  | itemsMore _ _ ihe ih => exact .itemsMore (ihe hcons) (ih hmore)
  | itemsLast hclose _ ihe => exact .itemsLast hclose (ihe hcons)
  | noEntries => exact .noEntries
  | entry hkey _ h ihvalue ih =>
    exact .entry hkey (ihvalue fun hnil => absurd hnil h.moreEntries_ne_nil) (ih hmore)
  | shorthand hkey hrest h ih =>
    exact .shorthand hkey (hrest.append_of_ne_nil h.moreEntries_ne_nil) (ih hmore)
  | entriesMore _ ih => exact .entriesMore (ih hmore)
  | entriesEnd => exact .entriesEnd
  | accessed hrest => exact .accessed (hrest.append (fun _ h => h.continues) hmore)
  | member hfield hrest h ih =>
    refine .member hfield (hrest.append (fun _ h => ?_) fun hnil => hmore (h.rest_eq_nil hnil))
      (ih hmore)
    exact Accesses.continues (.inr (.inr h))
  | method hfield _ h ihargs ih =>
    exact .method hfield (ihargs fun hnil => hmore (h.rest_eq_nil hnil)) (ih hmore)
  | index _ _ ihkey ih => exact .index (ihkey hcons) (ih hmore)
  | call _ h ihargs ih =>
    exact .call (ihargs fun hnil => hmore (h.rest_eq_nil hnil)) (ih hmore)

/-- An expression that tokens are by themselves is the same before tokens that do not go on with it. -/
theorem parse_append (h : parse ts = .ok (e, [])) (hmore : Clear Continues more) :
    parse (ts ++ more) = .ok (e, more) := by
  rw [parse_eq] at h ⊢
  exact ((derives_of_read h).append fun _ => hmore).read

theorem read_before (token : Token) (p : Pos) (rest : List Lexeme) (h : parse ts = .ok (e, []))
    (ht : ¬ Continues token) :
    ∃ hlt, Expr.read (ts ++ ⟨token, p⟩ :: rest) = .ok ⟨e, ⟨token, p⟩ :: rest, hlt⟩ := by
  have hparse := parse_append h ((clear_cons _ ⟨token, p⟩ rest).2 ht)
  rw [parse_eq] at hparse
  exact outcome_eq_ok.1 hparse

/-- The tokens of an expression begin with none that has a meaning of its own in a tag or a line. -/
theorem parse_begins (h : parse ts = .ok (e, [])) : ∃ t ts', ts = t :: ts' ∧ begins t.token = true := by
  rw [parse_eq] at h
  exact (derives_of_read h).begins rfl

/-! Operands. -/

def Binds (t : Token) : Prop := Accesses t ∨ Counts t ∨ t = .symbol .arrow

instance (t : Token) : Decidable (Binds t) := inferInstanceAs (Decidable (_ ∨ _))

theorem Binds.continues {t : Token} (h : Binds t) : Continues t := by
  rcases h with h | h | h
  · exact h.continues
  · exact h.continues
  · exact continues_of_arrow h

/-- A term by itself is an operand. -/
theorem Derives.unary_of_term (h : Derives .term ts e rest) (hrest : Clear Counts rest) :
    Derives .unary ts e rest := by
  have hbegins : ∀ t ∈ ts.head?, ¬ Counts t.token ∧ ¬ Negates t.token := by
    cases h with
    | literal | lambdaOne | name =>
      rintro t ⟨⟩
      exact ⟨nofun, nofun⟩
    | lambda | bracketed | list | hash =>
      rintro t ⟨⟩
      exact ⟨nofun, nofun⟩
  obtain ⟨t, ts, rfl⟩ : ∃ t ts', ts = t :: ts' := by
    cases h <;> exact ⟨_, _, rfl⟩
  obtain ⟨hcounts, hnegates⟩ := hbegins t rfl
  exact .operandTerm hcounts hnegates h hrest

/-- An operand by itself is an expression. -/
theorem Derives.expr_of_unary (h : Derives .unary ts e rest) (hrest : Clear Continues rest) :
    Derives .expr ts e rest :=
  .plain (.unconditional (.binary h (.operand (hrest.mono fun _ h => h.continues)))
      (hrest.mono fun _ => continues_of_question))
    (hrest.mono fun _ h => h.continues)

theorem Derives.expr_of_term (h : Derives .term ts e rest) (hrest : Clear Continues rest) :
    Derives .expr ts e rest :=
  (h.unary_of_term (hrest.mono fun _ h => h.continues)).expr_of_unary hrest

theorem derives_name {x : String} {p : Pos} (hrest : Clear Binds rest) :
    Derives .term (⟨.name x, p⟩ :: rest) (.name x) rest :=
  .name (hrest.mono fun _ h => .inr (.inr h)) (.accessed (hrest.mono fun _ h => .inl h))

theorem parse_name (x : String) (p : Pos) : parse [⟨.name x, p⟩] = .ok (.name x, []) := by
  rw [parse_eq]
  exact ((derives_name (clear_nil _)).expr_of_term (clear_nil _)).read

/-- An expression in round brackets. -/
theorem Derives.in_brackets {p q : Pos} {e' : Expr} {rest' : List Lexeme}
    (h : Derives .expr ts e (⟨.symbol .closeRound, q⟩ :: rest)) (hrest : Clear (· = .symbol .arrow) rest)
    (ha : Derives (.accesses e) rest e' rest') : Derives .term (⟨.symbol .openRound, p⟩ :: ts) e' rest' :=
  .bracketed (.someItems ((h.not_closes rfl).mono fun _ h => .inl h) (.itemsLast (by decide) h)) hrest ha

end LiveMarkup.Expr
