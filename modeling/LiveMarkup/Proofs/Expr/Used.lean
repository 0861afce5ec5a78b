import LiveMarkup.Proofs.Expr.Reading
import LiveMarkup.Token.Lexer

/-! The tokens that an expression uses. They are the expression without the tokens after them, their
brackets are balanced, and the last of them ends a line. -/

namespace LiveMarkup.Expr

variable {p : Part} {ts rest more s : List Lexeme} {a : p.Value} {e : Expr}

private theorem Clear.cut {kind : Token → Prop} (h : Clear kind (ts ++ more)) : Clear kind ts := by
  cases ts with
  | nil => exact clear_nil kind
  | cons t ts => exact h

/-- Tokens at the end that are not used can be left out. -/
private theorem Derives.cut (h : Derives p ts a rest) (hrest : rest = s ++ more) :
    ∃ used, ts = used ++ more ∧ Derives p used a s := by
  induction h generalizing s with
  | plain _ hclear ih =>
    obtain ⟨us, rfl, h⟩ := ih hrest
    exact ⟨us, rfl, .plain h (Clear.cut (hrest ▸ hclear))⟩
  | @assign _ _ _ t _ _ _ _ hop _ ih ihvalue =>
    obtain ⟨vs, rfl, hvalue⟩ := ihvalue hrest
    obtain ⟨us, rfl, h⟩ := ih (s := t :: vs) rfl
    exact ⟨us, rfl, .assign h hop hvalue⟩
  | unconditional _ hclear ih =>
    obtain ⟨us, rfl, h⟩ := ih hrest
    exact ⟨us, rfl, .unconditional h (Clear.cut (hrest ▸ hclear))⟩
  | cond _ _ _ ihtest ihyes ihno =>
    obtain ⟨ns, rfl, hno⟩ := ihno hrest
    obtain ⟨ys, rfl, hyes⟩ := ihyes (s := _ :: ns) rfl
    obtain ⟨us, rfl, htest⟩ := ihtest (s := _ :: ys) rfl
    exact ⟨us, rfl, .cond htest hyes hno⟩
  | binary _ _ ihleft ih =>
    obtain ⟨vs, rfl, h⟩ := ih hrest
    obtain ⟨us, rfl, hleft⟩ := ihleft rfl
    exact ⟨us, rfl, .binary hleft h⟩
  | operand hclear =>
    subst hrest
    exact ⟨s, rfl, .operand hclear.cut⟩
  | operator hop hleast _ _ ihright ih =>
    obtain ⟨vs, rfl, h⟩ := ih hrest
    obtain ⟨us, rfl, hright⟩ := ihright rfl
    exact ⟨_ :: us, rfl, .operator hop hleast hright h⟩
  | countBefore hstep =>
    subst hrest
    exact ⟨_ :: _ :: s, rfl, .countBefore hstep⟩
  | unary hop _ ih =>
    obtain ⟨us, rfl, h⟩ := ih hrest
    exact ⟨_ :: us, rfl, .unary hop h⟩
  | operandTerm hcount hunary _ hclear ih =>
    obtain ⟨us, hus, h⟩ := ih hrest
    cases us with
    | nil => cases h
    | cons t us =>
      cases hus
      exact ⟨_ :: us, rfl, .operandTerm hcount hunary h (Clear.cut (hrest ▸ hclear))⟩
  | @countAfter _ _ _ t' _ _ hcount hunary _ hstep ih =>
    subst hrest
    obtain ⟨us, hus, h⟩ := ih (s := t' :: s) rfl
    cases us with
    | nil => cases h
    | cons t us =>
      cases hus
      exact ⟨_ :: us, rfl, .countAfter hcount hunary h hstep⟩
  | literal _ ih =>
    obtain ⟨us, rfl, h⟩ := ih hrest
    exact ⟨_ :: us, rfl, .literal h⟩
  | lambdaOne _ ih =>
    obtain ⟨us, rfl, h⟩ := ih hrest
    exact ⟨_ :: _ :: us, rfl, .lambdaOne h⟩
  | name hclear _ ih =>
    obtain ⟨us, rfl, h⟩ := ih hrest
    exact ⟨_ :: us, rfl, .name hclear.cut h⟩
  | lambda _ hparams _ ihitems ih =>
    obtain ⟨vs, rfl, h⟩ := ih hrest
    obtain ⟨us, rfl, hitems⟩ := ihitems (s := _ :: vs) rfl
    exact ⟨_ :: us, rfl, .lambda hitems hparams h⟩
  | bracketed _ hclear _ ihe ih =>
    obtain ⟨vs, rfl, h⟩ := ih hrest
    obtain ⟨us, rfl, he⟩ := ihe rfl
    exact ⟨_ :: us, rfl, .bracketed he hclear.cut h⟩
  | list _ _ ihitems ih =>
    obtain ⟨vs, rfl, h⟩ := ih hrest
    obtain ⟨us, rfl, hitems⟩ := ihitems rfl
    exact ⟨_ :: us, rfl, .list hitems h⟩
  | hash _ _ ihentries ih =>
    obtain ⟨vs, rfl, h⟩ := ih hrest
    obtain ⟨us, rfl, hentries⟩ := ihentries rfl
    exact ⟨_ :: us, rfl, .hash hentries h⟩
  | noItems =>
    subst hrest
    exact ⟨_ :: s, rfl, .noItems⟩
  | someItems hclear _ ih =>
    obtain ⟨us, rfl, h⟩ := ih hrest
    exact ⟨us, rfl, .someItems hclear.cut h⟩
  | itemsMore _ _ ihe ih =>
    obtain ⟨vs, rfl, h⟩ := ih hrest
    obtain ⟨us, rfl, he⟩ := ihe (s := _ :: vs) rfl
    exact ⟨us, rfl, .itemsMore he h⟩
  | itemsLast hclose _ ihe =>
    subst hrest
    obtain ⟨us, rfl, he⟩ := ihe (s := _ :: s) rfl
    exact ⟨us, rfl, .itemsLast hclose he⟩
  | noEntries =>
    subst hrest
    exact ⟨_ :: s, rfl, .noEntries⟩
  | entry hkey _ _ ihvalue ih =>
    obtain ⟨vs, rfl, h⟩ := ih hrest
    obtain ⟨us, rfl, hvalue⟩ := ihvalue rfl
    exact ⟨_ :: _ :: us, rfl, .entry hkey hvalue h⟩
  | shorthand hkey hclear _ ih =>
    obtain ⟨us, rfl, h⟩ := ih hrest
    exact ⟨_ :: us, rfl, .shorthand hkey hclear.cut h⟩
  | entriesMore _ ih =>
    obtain ⟨us, rfl, h⟩ := ih hrest
    exact ⟨_ :: us, rfl, .entriesMore h⟩
  | entriesEnd =>
    subst hrest
    exact ⟨_ :: s, rfl, .entriesEnd⟩
  | accessed hclear =>
    subst hrest
    exact ⟨s, rfl, .accessed hclear.cut⟩
  | member hfield hclear _ ih =>
    obtain ⟨us, rfl, h⟩ := ih hrest
    exact ⟨_ :: _ :: us, rfl, .member hfield hclear.cut h⟩
  | method hfield _ _ ihargs ih =>
    obtain ⟨vs, rfl, h⟩ := ih hrest
    obtain ⟨us, rfl, hargs⟩ := ihargs rfl
    exact ⟨_ :: _ :: _ :: us, rfl, .method hfield hargs h⟩
  | index _ _ ihkey ih =>
    obtain ⟨vs, rfl, h⟩ := ih hrest
    obtain ⟨us, rfl, hkey⟩ := ihkey (s := _ :: vs) rfl
    exact ⟨_ :: us, rfl, .index hkey h⟩
  | call _ _ ihargs ih =>
    obtain ⟨vs, rfl, h⟩ := ih hrest
    obtain ⟨us, rfl, hargs⟩ := ihargs rfl
    exact ⟨_ :: us, rfl, .call hargs h⟩

/-- An expression that is read is what the tokens it uses are by themselves. -/
private theorem parse_cut (h : parse ts = .ok (e, rest)) :
    ∃ used, ts = used ++ rest ∧ parse used = .ok (e, []) := by
  rw [parse_eq] at h
  obtain ⟨used, rfl, hused⟩ := (derives_of_read h).cut (List.nil_append rest).symm
  exact ⟨used, rfl, by rw [parse_eq]; exact hused.read⟩

theorem read_eq (h : outcome (Expr.read ts) = .ok (e, rest)) :
    ∃ used, ts = used ++ rest ∧ parse used = .ok (e, []) :=
  parse_cut ((parse_eq ts).trans h)

/-! Brackets and the ends of lines. -/

/-- The count of open brackets after a token, as the lexer keeps it. -/
def depthAfter (n : Nat) : Token → Nat
  | .symbol .openRound | .symbol .openSquare | .symbol .openCurly => n + 1
  | .symbol .closeRound | .symbol .closeSquare | .symbol .closeCurly => n - 1
  | _ => n

def depthAfterAll (n : Nat) (ts : List Lexeme) : Nat := ts.foldl (fun n t => depthAfter n t.token) n

@[simp] theorem depthAfterAll_nil (n : Nat) : depthAfterAll n [] = n := rfl

@[simp] theorem depthAfterAll_cons (n : Nat) (t : Lexeme) (ts : List Lexeme) :
    depthAfterAll n (t :: ts) = depthAfterAll (depthAfter n t.token) ts := rfl

@[simp] theorem depthAfterAll_append (n : Nat) (ts us : List Lexeme) :
    depthAfterAll n (ts ++ us) = depthAfterAll (depthAfterAll n ts) us := List.foldl_append

/-- There is a last token, and a line can end after it. -/
def EndsLine (ts : List Lexeme) : Prop := ∃ t ∈ ts.getLast?, Lexer.continuesLine t.token = false

theorem EndsLine.after (h : EndsLine ts) (us : List Lexeme) : EndsLine (us ++ ts) := by
  obtain ⟨t, ht, hline⟩ := h
  exact ⟨t, by simp [List.getLast?_append, Option.mem_def.1 ht], hline⟩

theorem EndsLine.cons (h : EndsLine ts) (t : Lexeme) : EndsLine (t :: ts) := h.after [t]

private theorem EndsLine.before (h : EndsLine ts) (hmore : more = [] ∨ EndsLine more) :
    EndsLine (ts ++ more) := by
  rcases hmore with rfl | hmore
  · rwa [List.append_nil]
  · exact hmore.after ts

private theorem endsLine_singleton {t : Lexeme} (h : Lexer.continuesLine t.token = false) :
    EndsLine [t] :=
  ⟨t, rfl, h⟩

/-- What can be said of the tokens that a part uses: outside of brackets all brackets are balanced, and
inside of brackets all but the one that is closed. Only the parts that come after an operand may use
no token. -/
@[reducible] def Part.Uses (ts : List Lexeme) : Part → Prop
  | operators .. | accesses _ => (∀ n, depthAfterAll n ts = n) ∧ (ts = [] ∨ EndsLine ts)
  | sequence _ | items _ | entries | moreEntries => (∀ n, depthAfterAll (n + 1) ts = n) ∧ EndsLine ts
  | expr | conditional | binary _ | unary | term => (∀ n, depthAfterAll n ts = n) ∧ EndsLine ts

/-- The part is read up to a closing bracket if it is one that has to be. -/
def Part.Proper : Part → Prop
  | sequence close | items close => Closes (.symbol close)
  | _ => True

section Kinds

variable {t : Token} {n : Nat}

private theorem depthAfter_assigns {op : Option CompoundOp}
    (h : t.symbol?.bind Symbol.assignment? = some op) :
    depthAfter n t = n := by
  cases t with
  | symbol s => cases s <;> first | rfl | cases h
  | _ => rfl

private theorem depthAfter_binary {op : BinaryOp} (h : t.symbol?.bind Symbol.binary? = some op) :
    depthAfter n t = n := by
  cases t with
  | symbol s => cases s <;> first | rfl | cases h
  | _ => rfl

private theorem depthAfter_unary {op : UnaryOp} (h : t.symbol?.bind Symbol.unary? = some op) :
    depthAfter n t = n := by
  cases t with
  | symbol s => cases s <;> first | rfl | cases h
  | _ => rfl

private theorem depthAfter_counts {step : Count} (h : t.symbol?.bind Symbol.count? = some step) :
    depthAfter n t = n ∧ Lexer.continuesLine t = false := by
  cases t with
  | symbol s => cases s <;> first | exact ⟨rfl, rfl⟩ | cases h
  | _ => exact ⟨rfl, rfl⟩

private theorem depthAfter_hashKey {k : String} (h : hashKey? t = some k) : depthAfter n t = n := by
  cases t with
  | symbol s => cases h
  | _ => rfl

private theorem depthAfter_memberName {k : String} (h : memberName? t = some k) :
    depthAfter n t = n ∧ Lexer.continuesLine t = false := by
  cases t with
  | symbol s => cases h
  | _ => exact ⟨rfl, rfl⟩

private theorem depthAfter_closes (h : Closes t) :
    depthAfter (n + 1) t = n ∧ Lexer.continuesLine t = false := by
  rcases h with rfl | rfl <;> exact ⟨rfl, rfl⟩

end Kinds

/-- The tokens that a part uses have balanced brackets and end a line. -/
theorem Derives.uses (h : Derives p ts a rest) (hp : p.Proper) :
    ∃ used, ts = used ++ rest ∧ p.Uses used := by
  induction h with
  | plain _ _ ih | unconditional _ _ ih => exact ih trivial
  | assign _ hop _ ih ihvalue =>
    obtain ⟨us, hus, hb, -⟩ := ih trivial
    obtain ⟨vs, rfl, hb', he⟩ := ihvalue trivial
    refine ⟨us ++ _ :: vs, hus.trans (List.append_assoc us (_ :: vs) _).symm, fun n => ?_,
      (he.cons _).after _⟩
    simp [hb, hb', depthAfter_assigns hop]
  | cond _ _ _ ihtest ihyes ihno =>
    obtain ⟨us, hus, hb, -⟩ := ihtest trivial
    obtain ⟨vs, hvs, hb', -⟩ := ihyes trivial
    obtain ⟨ws, rfl, hb'', he⟩ := ihno trivial
    subst hvs
    refine ⟨us ++ _ :: (vs ++ _ :: ws), hus.trans (by rw [List.append_assoc, List.cons_append,
      List.append_assoc, List.cons_append]), fun n => ?_, (((he.cons _).after _).cons _).after _⟩
    simp [hb, hb', hb'', depthAfter]
  | binary _ _ ihleft ih =>
    obtain ⟨us, hus, hb, he⟩ := ihleft trivial
    obtain ⟨vs, rfl, hb', he'⟩ := ih trivial
    exact ⟨us ++ vs, hus.trans (List.append_assoc us vs _).symm, fun n => by simp [hb, hb'], he.before he'⟩
  | operand | accessed => exact ⟨[], rfl, fun n => rfl, .inl rfl⟩
  | operator hop _ _ _ ihright ih =>
    obtain ⟨us, hus, hb, he⟩ := ihright trivial
    obtain ⟨vs, rfl, hb', he'⟩ := ih trivial
    subst hus
    refine ⟨_ :: (us ++ vs), (List.append_assoc (_ :: us) vs _).symm, fun n => ?_,
      .inr ((he.before he').cons _)⟩
    simp [hb, hb', depthAfter_binary hop]
  | countBefore hstep =>
    refine ⟨[_, _], rfl, fun n => ?_, (endsLine_singleton rfl).cons _⟩
    rw [depthAfterAll_cons, (depthAfter_counts hstep).1]
    rfl
  | unary hop _ ih =>
    obtain ⟨us, rfl, hb, he⟩ := ih trivial
    exact ⟨_ :: us, rfl, fun n => by simp [hb, depthAfter_unary hop], he.cons _⟩
  | operandTerm _ _ _ _ ih => exact ih trivial
  | countAfter _ _ _ hstep ih =>
    obtain ⟨us, hus, hb, he⟩ := ih trivial
    refine ⟨us ++ [_], hus.trans (List.append_assoc us [_] _).symm, fun n => ?_,
      (endsLine_singleton (depthAfter_counts hstep (n := 0)).2).after us⟩
    simp [hb, (depthAfter_counts hstep).1]
  | literal _ ih | name _ _ ih =>
    obtain ⟨us, rfl, hb, he⟩ := ih trivial
    exact ⟨_ :: us, rfl, fun n => by simp [hb, depthAfter], (endsLine_singleton rfl).before he⟩
  | lambdaOne _ ih =>
    obtain ⟨us, rfl, hb, he⟩ := ih trivial
    exact ⟨_ :: _ :: us, rfl, fun n => by simp [hb, depthAfter], (he.cons _).cons _⟩
  | lambda _ _ _ ihitems ih =>
    obtain ⟨us, hus, hb, -⟩ := ihitems (.inl rfl)
    obtain ⟨vs, rfl, hb', he⟩ := ih trivial
    subst hus
    refine ⟨_ :: (us ++ _ :: vs), (List.append_assoc (_ :: us) (_ :: vs) _).symm, fun n => ?_,
      ((he.cons _).after _).cons _⟩
    simp [hb, hb', depthAfter]
  | bracketed _ _ _ ihe ih =>
    obtain ⟨us, hus, hb, he⟩ := ihe (.inl rfl)
    obtain ⟨vs, rfl, hb', he'⟩ := ih trivial
    subst hus
    refine ⟨_ :: (us ++ vs), (List.append_assoc (_ :: us) vs _).symm, fun n => ?_, (he.before he').cons _⟩
    simp [hb, hb', depthAfter]
  | list _ _ ihitems ih =>
    obtain ⟨us, hus, hb, he⟩ := ihitems (.inr rfl)
    obtain ⟨vs, rfl, hb', he'⟩ := ih trivial
    subst hus
    refine ⟨_ :: (us ++ vs), (List.append_assoc (_ :: us) vs _).symm, fun n => ?_, (he.before he').cons _⟩
    simp [hb, hb', depthAfter]
  | hash _ _ ihitems ih =>
    obtain ⟨us, hus, hb, he⟩ := ihitems trivial
    obtain ⟨vs, rfl, hb', he'⟩ := ih trivial
    subst hus
    refine ⟨_ :: (us ++ vs), (List.append_assoc (_ :: us) vs _).symm, fun n => ?_, (he.before he').cons _⟩
    simp [hb, hb', depthAfter]
  | noItems =>
    exact ⟨[_], rfl, fun n => (depthAfter_closes hp).1,
      endsLine_singleton (depthAfter_closes (n := 0) hp).2⟩
  | someItems _ _ ih => exact ih hp
  | itemsMore _ _ ihe ih =>
    obtain ⟨us, hus, hb, -⟩ := ihe trivial
    obtain ⟨vs, rfl, hb', he⟩ := ih hp
    refine ⟨us ++ _ :: vs, hus.trans (List.append_assoc us (_ :: vs) _).symm, fun n => ?_,
      (he.cons _).after _⟩
    simp [hb, hb', depthAfter]
  | itemsLast _ _ ihe =>
    obtain ⟨us, hus, hb, -⟩ := ihe trivial
    refine ⟨us ++ [_], hus.trans (List.append_assoc us [_] _).symm, fun n => ?_,
      (endsLine_singleton (depthAfter_closes (n := 0) hp).2).after us⟩
    simp [hb, (depthAfter_closes hp).1]
  | noEntries | entriesEnd => exact ⟨[_], rfl, fun n => rfl, endsLine_singleton rfl⟩
  | entry hkey _ _ ihvalue ih =>
    obtain ⟨us, hus, hb, -⟩ := ihvalue trivial
    obtain ⟨vs, rfl, hb', he⟩ := ih trivial
    subst hus
    refine ⟨_ :: _ :: (us ++ vs), (List.append_assoc (_ :: _ :: us) vs _).symm, fun n => ?_,
      ((he.after _).cons _).cons _⟩
    rw [depthAfterAll_cons, depthAfter_hashKey hkey]
    simp [hb, hb', depthAfter]
  | shorthand hkey _ _ ih =>
    obtain ⟨us, rfl, hb, he⟩ := ih trivial
    exact ⟨_ :: us, rfl, fun n => by simp [hb, depthAfter_hashKey hkey], he.cons _⟩
  | entriesMore _ ih =>
    obtain ⟨us, rfl, hb, he⟩ := ih trivial
    exact ⟨_ :: us, rfl, fun n => by simp [hb, depthAfter], he.cons _⟩
  | member hfield _ _ ih =>
    obtain ⟨us, rfl, hb, he⟩ := ih trivial
    refine ⟨_ :: _ :: us, rfl, fun n => ?_,
      .inr (((endsLine_singleton (depthAfter_memberName (n := 0) hfield).2).before he).cons _)⟩
    rw [depthAfterAll_cons, depthAfterAll_cons, (depthAfter_memberName hfield).1]
    simp [hb, depthAfter]
  | method hfield _ _ ihargs ih =>
    obtain ⟨us, hus, hb, he⟩ := ihargs (.inl rfl)
    obtain ⟨vs, rfl, hb', he'⟩ := ih trivial
    subst hus
    refine ⟨_ :: _ :: _ :: (us ++ vs), (List.append_assoc (_ :: _ :: _ :: us) vs _).symm, fun n => ?_,
      .inr ((((he.before he').cons _).cons _).cons _)⟩
    rw [depthAfterAll_cons, depthAfterAll_cons, (depthAfter_memberName hfield).1]
    simp [hb, hb', depthAfter]
  | index _ _ ihkey ih =>
    obtain ⟨us, hus, hb, -⟩ := ihkey trivial
    obtain ⟨vs, rfl, hb', he⟩ := ih trivial
    subst hus
    refine ⟨_ :: (us ++ _ :: vs), (List.append_assoc (_ :: us) (_ :: vs) _).symm, fun n => ?_,
      .inr ((((endsLine_singleton rfl).before he).after us).cons _)⟩
    simp [hb, hb', depthAfter]
  | call _ _ ihargs ih =>
    obtain ⟨us, hus, hb, he⟩ := ihargs (.inl rfl)
    obtain ⟨vs, rfl, hb', he'⟩ := ih trivial
    subst hus
    refine ⟨_ :: (us ++ vs), (List.append_assoc (_ :: us) vs _).symm, fun n => ?_,
      .inr ((he.before he').cons _)⟩
    simp [hb, hb', depthAfter]

end LiveMarkup.Expr
