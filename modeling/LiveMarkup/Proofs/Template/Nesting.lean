import LiveMarkup.Proofs.Template.Pieces

/-! The block grammar: which sequences of pieces are templates, which statements they stand for, and
which piece or block is to blame if they are none. -/

namespace LiveMarkup

def Piece.keyword? : Piece → Option Lexeme
  | .elseIf k _ | .otherwise k | .closeEach k | .closeIf k => some k
  | .text _ | .value _ | .openEach .. | .openIf .. => none

def Piece.opens? : Piece → Option Lexeme
  | .openEach k .. | .openIf k _ => some k
  | .text _ | .value _ | .elseIf .. | .otherwise _ | .closeEach _ | .closeIf _ => none

namespace Statement

/-- What pieces can stand for: the statements of a body, or what follows the body of a branch of a
conditional, which is its further branches, its last body if there is one, and its close. -/
inductive Form where
  | body (statements : List Statement)
  | tail (branches : List (Expr × List Statement)) (otherwise : Option (List Statement))

inductive Generates : Form → List Piece → Prop where
  | nil : Generates (.body []) []
  | text {ss : List Statement} {ps : List Piece} (s : String) (h : Generates (.body ss) ps) :
    Generates (.body (.text s :: ss)) (.text s :: ps)
  | value {ss : List Statement} {ps : List Piece} (e : Expr) (h : Generates (.body ss) ps) :
    Generates (.body (.value e :: ss)) (.value e :: ps)
  | each {body ss : List Statement} {inner ps : List Piece} (k k' : Lexeme) (items : Expr)
    (item : String) (index : Option String) (hbody : Generates (.body body) inner)
    (h : Generates (.body ss) ps) :
    Generates (.body (.each items item index body :: ss))
      (.openEach k items item index :: (inner ++ .closeEach k' :: ps))
  | cond {b ss : List Statement} {bs : List (Expr × List Statement)} {o : Option (List Statement)}
    {inner tail ps : List Piece} (k : Lexeme) (test : Expr) (hbody : Generates (.body b) inner)
    (htail : Generates (.tail bs o) tail) (h : Generates (.body ss) ps) :
    Generates (.body (.cond ((test, b) :: bs) o :: ss)) (.openIf k test :: (inner ++ (tail ++ ps)))
  | elseIf {b : List Statement} {bs : List (Expr × List Statement)} {o : Option (List Statement)}
    {inner tail : List Piece} (k : Lexeme) (test : Expr) (hbody : Generates (.body b) inner)
    (htail : Generates (.tail bs o) tail) :
    Generates (.tail ((test, b) :: bs) o) (.elseIf k test :: (inner ++ tail))
  | otherwise {b : List Statement} {inner : List Piece} (k k' : Lexeme)
    (hbody : Generates (.body b) inner) :
    Generates (.tail [] (some b)) (.otherwise k :: (inner ++ [.closeIf k']))
  | close (k : Lexeme) : Generates (.tail [] none) [.closeIf k]

/-- Pieces that more pieces can complete. -/
def Extendable (ps : List Piece) : Prop := ∃ more ss, Generates (.body ss) (ps ++ more)

/-- The piece is the last one of the shortest prefix that nothing completes. -/
def FirstStray (ps : List Piece) (p : Piece) : Prop :=
  ∃ before, before ++ [p] <+: ps ∧ ¬ Extendable (before ++ [p]) ∧
    ∀ q, q <+: ps → ¬ Extendable q → before.length < q.length

/-- The keyword is the one of the innermost block that is open at the end of the pieces: it only
takes the block's close to make one statement of all that follows. -/
def InnermostOpen (ps : List Piece) (k : Lexeme) : Prop :=
  ∃ before opening inner close st, ps = before ++ opening :: inner ∧ opening.opens? = some k ∧
    Generates (.body [st]) (opening :: (inner ++ [close]))

variable {ss ss' current : List Statement} {ps ps' head : List Piece} {levels outer : List Level}
  {level : Level} {st : Statement} {k : Lexeme}

private theorem Generates.append_of_form {form : Form} (h : Generates form ps)
    (hps : Generates (.body ss') ps') :
    ∀ ss, form = .body ss → Generates (.body (ss ++ ss')) (ps ++ ps') := by
  induction h with
  | nil =>
    rintro _ ⟨⟩
    exact hps
  | text s _ ih =>
    rintro _ ⟨⟩
    exact .text s (ih _ rfl)
  | value e _ ih =>
    rintro _ ⟨⟩
    exact .value e (ih _ rfl)
  | each k k' items item index hbody _ _ ih =>
    rintro _ ⟨⟩
    simpa only [List.cons_append, List.append_assoc] using
      Generates.each k k' items item index hbody (ih _ rfl)
  | cond k test hbody htail _ _ _ ih =>
    rintro _ ⟨⟩
    simpa only [List.cons_append, List.append_assoc] using
      Generates.cond k test hbody htail (ih _ rfl)
  | elseIf | otherwise | close => nofun

theorem Generates.append (h : Generates (.body ss) ps) (h' : Generates (.body ss') ps') :
    Generates (.body (ss ++ ss')) (ps ++ ps') :=
  h.append_of_form h' ss rfl

/-- One more statement at the end of a body, given by the statements in reverse. -/
private theorem Generates.snoc (h : Generates (.body current.reverse) ps)
    (h' : Generates (.body [st]) ps') :
    Generates (.body (st :: current).reverse) (ps ++ ps') := by
  rw [List.reverse_cons]
  exact h.append h'

/-! Every sequence of the grammar is nested as the grammar says. -/

/-- What becomes of pieces of the grammar inside open blocks. -/
def Nests : Form → List Piece → Prop
  | .body ss, ps => ∀ levels current more,
    nest none levels current (ps ++ more) = nest none levels (ss.reverse ++ current) more
  | .tail bs o, ps => ∀ k branches test before outer current more,
    nest none (⟨k, .cond branches (some test), before⟩ :: outer) current (ps ++ more) =
      nest none outer (.cond (branches ++ (test, current.reverse) :: bs) o :: before) more

private theorem Generates.nests {form : Form} (h : Generates form ps) : Nests form ps := by
  induction h with
  | nil =>
    intro levels current more
    rfl
  | text s _ ih | value e _ ih =>
    intro levels current more
    rw [List.cons_append, nest, ih, List.reverse_cons, List.append_assoc]
    rfl
  | each k k' items item index _ _ ihbody ih =>
    intro levels current more
    rw [List.cons_append, nest, List.append_assoc, ihbody, List.cons_append, nest, ih,
      List.append_nil, List.reverse_reverse, List.reverse_cons, List.append_assoc]
    rfl
  | cond k test _ _ _ ihbody ihtail ih =>
    intro levels current more
    rw [List.cons_append, nest, List.append_assoc, ihbody, List.append_assoc, ihtail, ih,
      List.append_nil, List.reverse_reverse, List.reverse_cons, List.append_assoc]
    rfl
  | elseIf k test _ _ ihbody ihtail =>
    intro k' branches test' before outer current more
    rw [List.cons_append, nest, List.append_assoc, ihbody, ihtail, List.append_nil,
      List.reverse_reverse, List.append_assoc]
    rfl
  | otherwise k k' _ ihbody =>
    intro k₀ branches test before outer current more
    rw [List.cons_append, nest, List.append_assoc, ihbody, List.singleton_append, nest,
      List.append_nil, List.reverse_reverse]
  | close k =>
    intro k' branches test before outer current more
    rw [List.singleton_append, nest]

theorem nest_of_generates (h : Generates (.body ss) ps) : nest none [] [] ps = .ok ss := by
  have hnest := h.nests [] [] []
  rw [List.append_nil, List.append_nil] at hnest
  rw [hnest, nest, List.reverse_reverse]

/-! What the open blocks say of the pieces that have been read. -/

/-- The pieces open a block and lead into it, up to the body that is being read: they are part of the
block's statement once that body and the rest of the block follow. -/
structure Begins (k : Lexeme) (block : OpenBlock) (head : List Piece) : Prop where
  opening : ∃ p inner, head = p :: inner ∧ p.opens? = some k
  completes : match block with
    | .each items item index => ∀ b inner k', Generates (.body b) inner →
      Generates (.body [.each items item index b]) (head ++ (inner ++ [.closeEach k']))
    | .cond branches (some test) => ∀ b inner bs o tail, Generates (.body b) inner →
      Generates (.tail bs o) tail →
      Generates (.body [.cond (branches ++ (test, b) :: bs) o]) (head ++ (inner ++ tail))
    | .cond branches none => ∀ b inner k', Generates (.body b) inner →
      Generates (.body [.cond branches (some b)]) (head ++ (inner ++ [.closeIf k']))

/-- After the pieces `ps` the blocks `levels` are open, and `current` are the statements of the
innermost one so far. -/
inductive Reached : List Level → List Statement → List Piece → Prop where
  | bottom {current : List Statement} {ps : List Piece} (h : Generates (.body current.reverse) ps) :
    Reached [] current ps
  | level {k : Lexeme} {block : OpenBlock} {before current : List Statement} {outer : List Level}
    {ps head inner : List Piece} (houter : Reached outer before ps) (hhead : Begins k block head)
    (h : Generates (.body current.reverse) inner) :
    Reached (⟨k, block, before⟩ :: outer) current (ps ++ (head ++ inner))

/-- A block opens. -/
private theorem Reached.open {block : OpenBlock} (h : Reached levels current ps)
    (hhead : Begins k block head) :
    Reached (⟨k, block, current⟩ :: levels) [] (ps ++ head) := by
  have hlevel : Reached (⟨k, block, current⟩ :: levels) [] (ps ++ (head ++ [])) := .level h hhead .nil
  rwa [List.append_nil] at hlevel

/-- A statement is complete. -/
private theorem Reached.snoc (h : Reached levels current ps) (h' : Generates (.body [st]) ps') :
    Reached levels (st :: current) (ps ++ ps') := by
  cases h with
  | bottom h => exact .bottom (h.snoc h')
  | level houter hhead h =>
    rw [List.append_assoc, List.append_assoc]
    exact .level houter hhead (h.snoc h')

private theorem begins_each (k : Lexeme) (items : Expr) (item : String) (index : Option String) :
    Begins k (.each items item index) [.openEach k items item index] where
  opening := ⟨_, _, rfl, rfl⟩
  completes := fun _ _ k' h => .each k k' items item index h .nil

private theorem begins_cond (k : Lexeme) (test : Expr) :
    Begins k (.cond [] (some test)) [.openIf k test] where
  opening := ⟨_, _, rfl, rfl⟩
  completes := fun b inner bs o tail h htail => by
    have hcond := Generates.cond k test h htail .nil
    rwa [List.append_nil] at hcond

/-- A branch ends at the test of the next one. -/
private theorem Begins.elseIf {branches : List (Expr × List Statement)} {test : Expr}
    {inner : List Piece} (hhead : Begins k (.cond branches (some test)) head)
    (h : Generates (.body ss) inner) (k' : Lexeme) (test' : Expr) :
    Begins k (.cond (branches ++ [(test, ss)]) (some test')) (head ++ (inner ++ [.elseIf k' test'])) where
  opening := by
    obtain ⟨p, inner', rfl, hp⟩ := hhead.opening
    exact ⟨p, _, rfl, hp⟩
  completes := fun b inner' bs o tail hb htail => by
    have hcond := hhead.completes _ _ _ _ _ h (.elseIf k' test' hb htail)
    simpa only [List.append_assoc, List.singleton_append] using hcond

/-- The last branch ends where the last body begins. -/
private theorem Begins.otherwise {branches : List (Expr × List Statement)} {test : Expr}
    {inner : List Piece} (hhead : Begins k (.cond branches (some test)) head)
    (h : Generates (.body ss) inner) (k' : Lexeme) :
    Begins k (.cond (branches ++ [(test, ss)]) none) (head ++ (inner ++ [.otherwise k'])) where
  opening := by
    obtain ⟨p, inner', rfl, hp⟩ := hhead.opening
    exact ⟨p, _, rfl, hp⟩
  completes := fun b inner' k'' hb => by
    have hcond := hhead.completes _ _ _ _ _ h (.otherwise k' k'' hb)
    simpa only [List.append_assoc, List.singleton_append] using hcond

/-- The next piece either leads on or is a stray one, whatever follows it. -/
private theorem Reached.next (h : Reached levels current ps) (p : Piece) :
    (∃ levels' current', Reached levels' current' (ps ++ [p]) ∧
      ∀ more, nest none levels current (p :: more) = nest none levels' current' more) ∨
    (∃ k, p.keyword? = some k ∧
      ∀ more, nest none levels current (p :: more) = .error (.strayClose k)) := by
  cases p with
  | text s => exact .inl ⟨_, _, h.snoc (.text s .nil), fun _ => rfl⟩
  | value e => exact .inl ⟨_, _, h.snoc (.value e .nil), fun _ => rfl⟩
  | openEach k items item index => exact .inl ⟨_, _, h.open (begins_each k items item index), fun _ => rfl⟩
  | openIf k test => exact .inl ⟨_, _, h.open (begins_cond k test), fun _ => rfl⟩
  | elseIf k test =>
    cases h with
    | bottom => exact .inr ⟨k, rfl, fun _ => rfl⟩
    | @level _ block _ _ _ _ _ _ houter hhead h =>
      match block with
      | .each .. | .cond _ none => exact .inr ⟨k, rfl, fun _ => rfl⟩
      | .cond _ (some _) =>
        rw [List.append_assoc, List.append_assoc]
        exact .inl ⟨_, _, houter.open (hhead.elseIf h k test), fun _ => rfl⟩
  | otherwise k =>
    cases h with
    | bottom => exact .inr ⟨k, rfl, fun _ => rfl⟩
    | @level _ block _ _ _ _ _ _ houter hhead h =>
      match block with
      | .each .. | .cond _ none => exact .inr ⟨k, rfl, fun _ => rfl⟩
      | .cond _ (some _) =>
        rw [List.append_assoc, List.append_assoc]
        exact .inl ⟨_, _, houter.open (hhead.otherwise h k), fun _ => rfl⟩
  | closeEach k =>
    cases h with
    | bottom => exact .inr ⟨k, rfl, fun _ => rfl⟩
    | @level _ block _ _ _ _ _ _ houter hhead h =>
      match block with
      | .cond _ none | .cond _ (some _) => exact .inr ⟨k, rfl, fun _ => rfl⟩
      | .each .. =>
        rw [List.append_assoc, List.append_assoc]
        exact .inl ⟨_, _, houter.snoc (hhead.completes _ _ k h), fun _ => rfl⟩
  | closeIf k =>
    cases h with
    | bottom => exact .inr ⟨k, rfl, fun _ => rfl⟩
    | @level _ block _ _ _ _ _ _ houter hhead h =>
      rw [List.append_assoc, List.append_assoc]
      match block with
      | .each .. => exact .inr ⟨k, rfl, fun _ => rfl⟩
      | .cond _ none => exact .inl ⟨_, _, houter.snoc (hhead.completes _ _ k h), fun _ => rfl⟩
      | .cond _ (some _) =>
        exact .inl ⟨_, _, houter.snoc (hhead.completes _ _ _ _ _ h (.close k)), fun _ => rfl⟩

/-- Pieces lead on to the end, or up to the first stray one. -/
theorem Reached.run (h : Reached levels current ps) (ps' : List Piece) :
    (∃ levels' current', Reached levels' current' (ps ++ ps') ∧
      ∀ more, nest none levels current (ps' ++ more) = nest none levels' current' more) ∨
    (∃ before p after k, ps' = before ++ p :: after ∧ p.keyword? = some k ∧
      (∃ levels' current', Reached levels' current' (ps ++ before)) ∧
      ∀ more, nest none levels current (before ++ p :: more) = .error (.strayClose k)) := by
  -- On the pieces to come; all there is to know of those before is in `Reached`.
  induction ps' generalizing levels current ps with
  | nil => exact .inl ⟨levels, current, by rwa [List.append_nil], fun _ => rfl⟩
  | cons p ps' ih =>
    obtain ⟨levels₁, current₁, h₁, hstep⟩ | ⟨k, hk, hstray⟩ := h.next p
    · obtain ⟨levels₂, current₂, h₂, hrun⟩ |
          ⟨before, q, after, k, rfl, hk, ⟨levels₂, current₂, h₂⟩, hstray⟩ := ih h₁
      · rw [List.append_assoc] at h₂
        refine .inl ⟨levels₂, current₂, h₂, fun more => ?_⟩
        rw [List.cons_append, hstep, hrun]
      · rw [List.append_assoc] at h₂
        refine .inr ⟨p :: before, q, after, k, rfl, hk, ⟨levels₂, current₂, h₂⟩, fun more => ?_⟩
        rw [List.cons_append, hstep, hstray]
    · exact .inr ⟨[], p, ps', k, rfl, hk, ⟨levels, current, by rwa [List.append_nil]⟩, hstray⟩

/-- The innermost block can be closed, which makes a statement of it. -/
private theorem Begins.close {block : OpenBlock} {inner : List Piece} (hhead : Begins k block head)
    (h : Generates (.body ss) inner) :
    ∃ close st, Generates (.body [st]) (head ++ (inner ++ [close])) := by
  match block with
  | .each .. | .cond _ none => exact ⟨_, _, hhead.completes _ _ k h⟩
  | .cond _ (some _) => exact ⟨_, _, hhead.completes _ _ _ _ _ h (.close k)⟩

/-- Wherever the pieces have led, more of them lead to the end. -/
private theorem Reached.extendable (h : Reached levels current ps) : Extendable ps := by
  -- On the open blocks: the close of the innermost one makes a statement of the next one out.
  induction levels generalizing current ps with
  | nil =>
    cases h with
    | bottom h => exact ⟨[], current.reverse, by rwa [List.append_nil]⟩
  | cons level outer ih =>
    cases h with
    | level houter hhead h =>
      obtain ⟨close, st, hst⟩ := hhead.close h
      obtain ⟨more, ss, hss⟩ := ih (houter.snoc hst)
      exact ⟨close :: more, ss, by simpa only [List.append_assoc, List.singleton_append] using hss⟩

private theorem Reached.innermostOpen (h : Reached (level :: outer) current ps) :
    InnermostOpen ps level.keyword := by
  cases h with
  | @level k block before _ _ ps head inner houter hhead h =>
    obtain ⟨close, st, hst⟩ := hhead.close h
    obtain ⟨p, inner', rfl, hp⟩ := hhead.opening
    refine ⟨ps, p, inner' ++ inner, close, st, rfl, hp, ?_⟩
    simpa only [List.cons_append, List.append_assoc] using hst

/-! The verdict on pieces. -/

private theorem Extendable.of_prefix (h : Extendable ps) (hps : ps' <+: ps) : Extendable ps' := by
  obtain ⟨rest, rfl⟩ := hps
  obtain ⟨more, ss, hss⟩ := h
  exact ⟨rest ++ more, ss, by rwa [← List.append_assoc]⟩

/-- From the start, pieces lead to the end, or to the last piece of their shortest prefix that nothing
completes. -/
private theorem run_start (ps : List Piece) :
    (∃ levels current, Reached levels current ps ∧ nest none [] [] ps = nest none levels current []) ∨
    (∃ p k, FirstStray ps p ∧ p.keyword? = some k ∧ nest none [] [] ps = .error (.strayClose k)) := by
  have hstart : Reached [] [] [] := .bottom .nil
  obtain ⟨levels, current, h, hrun⟩ | ⟨before, p, after, k, rfl, hk, ⟨_, _, h⟩, hstray⟩ :=
    hstart.run ps
  · have hend := hrun []
    rw [List.append_nil] at hend
    exact .inl ⟨levels, current, h, hend⟩
  · refine .inr ⟨p, k, ⟨before, ?_, ?_, fun q hq hbad => ?_⟩, hk, hstray after⟩
    · exact ⟨after, by rw [List.append_assoc, List.singleton_append]⟩
    · rintro ⟨more, ss, hss⟩
      have hok := nest_of_generates hss
      rw [List.append_assoc, List.singleton_append, hstray] at hok
      cases hok
    · -- A shorter prefix is one of the pieces before, which have led on.
      refine Nat.lt_of_not_le fun hle => ?_
      have hbefore : q <+: before := List.prefix_of_prefix_length_le hq (List.prefix_append _ _) hle
      exact hbad (h.extendable.of_prefix hbefore)

private theorem FirstStray.not_extendable {p : Piece} (h : FirstStray ps p) :
    ∃ q, q <+: ps ∧ ¬ Extendable q := by
  obtain ⟨before, hprefix, hbad, -⟩ := h
  exact ⟨_, hprefix, hbad⟩

theorem nest_eq_ok_iff : nest none [] [] ps = .ok ss ↔ Generates (.body ss) ps := by
  refine ⟨fun hnest => ?_, nest_of_generates⟩
  obtain ⟨levels, current, h, hend⟩ | ⟨p, k, -, -, hstray⟩ := run_start ps
  · rw [hnest] at hend
    cases h with
    | bottom h =>
      rw [nest] at hend
      cases hend
      exact h
    | level => cases hend
  · rw [hstray] at hnest
    cases hnest

/-- Pieces that do not lead to the end fail at the last piece of their shortest prefix that nothing
completes. -/
private theorem nest_of_stray (h : ∃ q, q <+: ps ∧ ¬ Extendable q) :
    ∃ p k, FirstStray ps p ∧ p.keyword? = some k ∧ nest none [] [] ps = .error (.strayClose k) := by
  obtain ⟨levels, current, hreached, -⟩ | hstray := run_start ps
  · obtain ⟨q, hq, hbad⟩ := h
    exact absurd (hreached.extendable.of_prefix hq) hbad
  · exact hstray

/-- Pieces that only lack their closes fail at the innermost open block. -/
private theorem nest_of_open (h : ∀ q, q <+: ps → Extendable q)
    (hnone : ¬ ∃ ss, Generates (.body ss) ps) :
    ∃ k, InnermostOpen ps k ∧ nest none [] [] ps = .error (.neverClosed k) := by
  obtain ⟨levels, current, hreached, hend⟩ | ⟨p, k, hp, -, -⟩ := run_start ps
  · cases levels with
    | nil => exact absurd ⟨_, nest_eq_ok_iff.1 hend⟩ hnone
    | cons level outer => exact ⟨level.keyword, hreached.innermostOpen, hend⟩
  · obtain ⟨q, hq, hbad⟩ := hp.not_extendable
    exact absurd (h q hq) hbad

end Statement

namespace Template

open Statement

theorem ofLexemes_eq_ok_iff {ts : List Lexeme} {ps : List Piece} {ss : List Statement}
    (h : Piece.SpelledAll ps ts) : ofLexemes ts = .ok ⟨ss⟩ ↔ nest none [] [] ps = .ok ss := by
  rw [ofLexemes, h.readAll]
  dsimp only
  cases hnest : nest none [] [] ps <;> simp

private theorem ofLexemes_eq_error {ts : List Lexeme} {ps : List Piece} {e : CompileError}
    (h : Piece.SpelledAll ps ts) (hnest : nest none [] [] ps = .error e) : ofLexemes ts = .error e := by
  rw [ofLexemes, h.readAll]
  dsimp only
  rw [hnest]

/-- Tokens of pieces compile to the statements that the grammar makes of the pieces. If it makes none,
the error names the last piece of the shortest prefix that nothing completes, or the innermost block
that is still open if there is no such prefix. -/
theorem ofLexemes_follows_grammar {ts : List Lexeme} {ps : List Piece} (h : Piece.SpelledAll ps ts) :
    (∀ ss, ofLexemes ts = .ok ⟨ss⟩ ↔ Generates (.body ss) ps) ∧
    ((∃ q, q <+: ps ∧ ¬ Extendable q) →
      ∃ p k, FirstStray ps p ∧ p.keyword? = some k ∧ ofLexemes ts = .error (.strayClose k)) ∧
    ((∀ q, q <+: ps → Extendable q) → (¬ ∃ ss, Generates (.body ss) ps) →
      ∃ k, InnermostOpen ps k ∧ ofLexemes ts = .error (.neverClosed k)) := by
  refine ⟨fun ss => ?_, fun hstray => ?_, fun hall hnone => ?_⟩
  · rw [ofLexemes_eq_ok_iff h, nest_eq_ok_iff]
  · obtain ⟨p, k, hp, hk, hnest⟩ := nest_of_stray hstray
    exact ⟨p, k, hp, hk, ofLexemes_eq_error h hnest⟩
  · obtain ⟨k, hk, hnest⟩ := nest_of_open hall hnone
    exact ⟨k, hk, ofLexemes_eq_error h hnest⟩

/-! Three sequences, a tag or text a line: a loop in the last body of a conditional, a last body
outside of conditionals, and a conditional that is not closed. -/

def tagOnLine (line : Nat) (inner : List Lexeme) : List Lexeme :=
  ⟨.symbol .openTag, ⟨line, 1⟩⟩ :: (inner ++ [⟨.symbol .closeTag, ⟨line, 30⟩⟩])

def keywordOnLine (line : Nat) (word : Keyword) : Lexeme := ⟨.keyword word, ⟨line, 3⟩⟩

def loopInLastBody : List Piece :=
  [.openIf (keywordOnLine 1 .ifWord) (.name "a"), .text "x", .otherwise (keywordOnLine 3 .elseWord),
    .openEach (keywordOnLine 4 .each) (.name "b") "c" none, .closeEach (keywordOnLine 5 .closeEach),
    .closeIf (keywordOnLine 6 .closeIf)]

def loopInLastBodyTokens : List Lexeme :=
  tagOnLine 1 [keywordOnLine 1 .ifWord, ⟨.name "a", ⟨1, 6⟩⟩] ++ ([⟨.text "x", ⟨2, 1⟩⟩] ++
    (tagOnLine 3 [keywordOnLine 3 .elseWord] ++
    (tagOnLine 4 [keywordOnLine 4 .each, ⟨.name "b", ⟨4, 8⟩⟩, ⟨.keyword .asWord, ⟨4, 10⟩⟩,
      ⟨.name "c", ⟨4, 13⟩⟩] ++
    (tagOnLine 5 [keywordOnLine 5 .closeEach] ++ (tagOnLine 6 [keywordOnLine 6 .closeIf] ++ [])))))

def strayLastBody : List Piece := [.text "x", .otherwise (keywordOnLine 2 .elseWord)]

def strayLastBodyTokens : List Lexeme :=
  [⟨.text "x", ⟨1, 1⟩⟩] ++ (tagOnLine 2 [keywordOnLine 2 .elseWord] ++ [])

def openConditional : List Piece := [.openIf (keywordOnLine 1 .ifWord) (.name "a")]

def openConditionalTokens : List Lexeme :=
  tagOnLine 1 [keywordOnLine 1 .ifWord, ⟨.name "a", ⟨1, 6⟩⟩] ++ []

private theorem spelled_loopInLastBody : Piece.SpelledAll loopInLastBody loopInLastBodyTokens :=
  .cons (.openIf _ _ _ (Expr.parse_name _ _)) <| .cons (.text _ _) <| .cons (.otherwise _ _ _) <|
    .cons (.openEach _ _ _ _ _ _ (Expr.parse_name _ _)) <| .cons (.closeEach _ _ _) <|
    .cons (.closeIf _ _ _) .nil

private theorem spelled_strayLastBody : Piece.SpelledAll strayLastBody strayLastBodyTokens :=
  .cons (.text _ _) (.cons (.otherwise _ _ _) .nil)

private theorem spelled_openConditional : Piece.SpelledAll openConditional openConditionalTokens :=
  .cons (.openIf _ _ _ (Expr.parse_name _ _)) .nil

private theorem extendable_openConditional : Extendable openConditional :=
  ⟨[.closeIf (keywordOnLine 2 .closeIf)], _, .cond _ _ .nil (.close _) .nil⟩

theorem ofLexemes_follows_grammar_on_samples :
    (Piece.SpelledAll loopInLastBody loopInLastBodyTokens ∧
      ofLexemes loopInLastBodyTokens =
        .ok ⟨[.cond [(.name "a", [.text "x"])] (some [.each (.name "b") "c" none []])]⟩) ∧
    (Piece.SpelledAll strayLastBody strayLastBodyTokens ∧
      ∃ p k, FirstStray strayLastBody p ∧ p.keyword? = some k ∧
        ofLexemes strayLastBodyTokens = .error (.strayClose k)) ∧
    (Piece.SpelledAll openConditional openConditionalTokens ∧
      ∃ k, InnermostOpen openConditional k ∧
        ofLexemes openConditionalTokens = .error (.neverClosed k)) := by
  refine ⟨⟨spelled_loopInLastBody, ?_⟩, ⟨spelled_strayLastBody, ?_⟩, ⟨spelled_openConditional, ?_⟩⟩
  · exact ((ofLexemes_follows_grammar spelled_loopInLastBody).1 _).2 (nest_eq_ok_iff.1 rfl)
  · refine (ofLexemes_follows_grammar spelled_strayLastBody).2.1 ⟨_, List.prefix_rfl, ?_⟩
    rintro ⟨more, ss, h⟩
    cases nest_of_generates h
  · refine (ofLexemes_follows_grammar spelled_openConditional).2.2
      (fun q hq => extendable_openConditional.of_prefix hq) ?_
    rintro ⟨ss, h⟩
    cases nest_of_generates h

end Template

end LiveMarkup
