import LiveMarkup.Expr.Parser

/-! The grammar of expressions as rules, and that reading an expression is deriving it. What a rule
looks ahead at is a condition on the tokens that are left. -/

namespace LiveMarkup.Expr

inductive Part where
  | expr
  | conditional
  /-- Operands joined by operators that bind at least as tightly as `least`. -/
  | binary (least : Nat)
  /-- The operators that follow a left operand. -/
  | operators (least : Nat) (left : Expr)
  | unary
  | term
  /-- Expressions up to and including a closing bracket. -/
  | sequence (close : Symbol)
  | items (close : Symbol)
  /-- The entries of a hash up to and including the closing brace. -/
  | entries
  | moreEntries
  /-- The members, indices and calls that follow a term. -/
  | accesses (target : Expr)

@[reducible] def Part.Value : Part → Type
  | expr | conditional | binary _ | operators _ _ | unary | term | accesses _ => Expr
  | sequence _ | items _ => List Expr
  | entries | moreEntries => List (String × Expr)

/-- The first token, if there is one, is not of the kind. -/
def Clear (kind : Token → Prop) (ts : List Lexeme) : Prop := ∀ t ∈ ts.head?, ¬ kind t.token

/-! Kinds of tokens that a reader looks ahead for. -/

def Assigns (t : Token) : Prop := (t.symbol?.bind Symbol.assignment?).isSome

def Counts (t : Token) : Prop := (t.symbol?.bind Symbol.count?).isSome

def Negates (t : Token) : Prop := (t.symbol?.bind Symbol.unary?).isSome

/-- An operator that binds at least as tightly as `least`. -/
def Joins (least : Nat) (t : Token) : Prop :=
  ∃ op, t.symbol?.bind Symbol.binary? = some op ∧ least ≤ op.precedence

def Accesses (t : Token) : Prop :=
  t = .symbol .dot ∨ t = .symbol .openSquare ∨ t = .symbol .openRound

/-- The rules. `Derives p ts a rest` says that `p` can be read at the start of the tokens `ts`, that it
is `a`, and that `rest` is left. -/
inductive Derives : (p : Part) → List Lexeme → p.Value → List Lexeme → Prop where
  | plain {ts rest : List Lexeme} {e : Expr} (h : Derives .conditional ts e rest)
    (hrest : Clear Assigns rest) : Derives .expr ts e rest
  | assign {ts rest rest' : List Lexeme} {t : Lexeme} {x : String} {op : Option CompoundOp}
    {value : Expr} (h : Derives .conditional ts (.name x) (t :: rest))
    (hop : t.token.symbol?.bind Symbol.assignment? = some op)
    (hvalue : Derives .expr rest value rest') : Derives .expr ts (.assign x op value) rest'
  | unconditional {ts rest : List Lexeme} {e : Expr} (h : Derives (.binary 0) ts e rest)
    (hrest : Clear (· = .symbol .question) rest) : Derives .conditional ts e rest
  | cond {ts rest rest' rest'' : List Lexeme} {p q : Pos} {test yes no : Expr}
    (htest : Derives (.binary 0) ts test (⟨.symbol .question, p⟩ :: rest))
    (hyes : Derives .expr rest yes (⟨.symbol .colon, q⟩ :: rest'))
    (hno : Derives .expr rest' no rest'') : Derives .conditional ts (.cond test yes no) rest''
  | binary {ts rest rest' : List Lexeme} {least : Nat} {left e : Expr}
    (hleft : Derives .unary ts left rest) (h : Derives (.operators least left) rest e rest') :
    Derives (.binary least) ts e rest'
  | operand {ts : List Lexeme} {least : Nat} {left : Expr} (hrest : Clear (Joins least) ts) :
    Derives (.operators least left) ts left ts
  | operator {rest rest' rest'' : List Lexeme} {t : Lexeme} {op : BinaryOp} {least : Nat}
    {left right e : Expr} (hop : t.token.symbol?.bind Symbol.binary? = some op)
    (hleast : least ≤ op.precedence) (hright : Derives (.binary (op.precedence + 1)) rest right rest')
    (h : Derives (.operators least (.binary op left right)) rest' e rest'') :
    Derives (.operators least left) (t :: rest) e rest''
  | countBefore {rest : List Lexeme} {t : Lexeme} {p : Pos} {x : String} {step : Count}
    (hstep : t.token.symbol?.bind Symbol.count? = some step) :
    Derives .unary (t :: ⟨.name x, p⟩ :: rest) (.count x step true) rest
  | unary {rest rest' : List Lexeme} {t : Lexeme} {op : UnaryOp} {e : Expr}
    (hop : t.token.symbol?.bind Symbol.unary? = some op) (h : Derives .unary rest e rest') :
    Derives .unary (t :: rest) (.unary op e) rest'
  | operandTerm {rest rest' : List Lexeme} {t : Lexeme} {e : Expr} (hcount : ¬ Counts t.token)
    (hunary : ¬ Negates t.token) (h : Derives .term (t :: rest) e rest')
    (hrest : Clear Counts rest') : Derives .unary (t :: rest) e rest'
  | countAfter {rest rest' : List Lexeme} {t t' : Lexeme} {x : String} {step : Count}
    (hcount : ¬ Counts t.token) (hunary : ¬ Negates t.token)
    (h : Derives .term (t :: rest) (.name x) (t' :: rest'))
    (hstep : t'.token.symbol?.bind Symbol.count? = some step) :
    Derives .unary (t :: rest) (.count x step false) rest'
  | literal {rest rest' : List Lexeme} {p : Pos} {v : Literal} {e : Expr}
    (h : Derives (.accesses (.literal v)) rest e rest') :
    Derives .term (⟨.literal v, p⟩ :: rest) e rest'
  | lambdaOne {body rest : List Lexeme} {p arrow : Pos} {x : String} {e : Expr}
    (h : Derives .expr body e rest) :
    Derives .term (⟨.name x, p⟩ :: ⟨.symbol .arrow, arrow⟩ :: body) (.lambda arrow [x] e) rest
  | name {rest rest' : List Lexeme} {p : Pos} {x : String} {e : Expr}
    (hrest : Clear (· = .symbol .arrow) rest) (h : Derives (.accesses (.name x)) rest e rest') :
    Derives .term (⟨.name x, p⟩ :: rest) e rest'
  | lambda {rest body rest' : List Lexeme} {p arrow : Pos} {items : List Expr} {params : List String}
    {e : Expr} (hitems : Derives (.sequence .closeRound) rest items (⟨.symbol .arrow, arrow⟩ :: body))
    (hparams : names? items = some params) (h : Derives .expr body e rest') :
    Derives .term (⟨.symbol .openRound, p⟩ :: rest) (.lambda arrow params e) rest'
  | bracketed {rest rest' rest'' : List Lexeme} {p : Pos} {e e' : Expr}
    (he : Derives (.sequence .closeRound) rest [e] rest') (hrest : Clear (· = .symbol .arrow) rest')
    (h : Derives (.accesses e) rest' e' rest'') :
    Derives .term (⟨.symbol .openRound, p⟩ :: rest) e' rest''
  | list {rest rest' rest'' : List Lexeme} {p : Pos} {items : List Expr} {e : Expr}
    (hitems : Derives (.sequence .closeSquare) rest items rest')
    (h : Derives (.accesses (.list items)) rest' e rest'') :
    Derives .term (⟨.symbol .openSquare, p⟩ :: rest) e rest''
  | hash {rest rest' rest'' : List Lexeme} {p : Pos} {entries : List (String × Expr)} {e : Expr}
    (hentries : Derives .entries rest entries rest')
    (h : Derives (.accesses (.hash entries)) rest' e rest'') :
    Derives .term (⟨.symbol .openCurly, p⟩ :: rest) e rest''
  | noItems {rest : List Lexeme} {p : Pos} {close : Symbol} :
    Derives (.sequence close) (⟨.symbol close, p⟩ :: rest) [] rest
  | someItems {ts rest : List Lexeme} {close : Symbol} {items : List Expr}
    (hts : Clear (· = .symbol close) ts) (h : Derives (.items close) ts items rest) :
    Derives (.sequence close) ts items rest
  | itemsMore {ts rest rest' : List Lexeme} {p : Pos} {close : Symbol} {e : Expr} {items : List Expr}
    (he : Derives .expr ts e (⟨.symbol .comma, p⟩ :: rest))
    (h : Derives (.sequence close) rest items rest') : Derives (.items close) ts (e :: items) rest'
  | itemsLast {ts rest : List Lexeme} {p : Pos} {close : Symbol} {e : Expr} (hclose : close ≠ .comma)
    (he : Derives .expr ts e (⟨.symbol close, p⟩ :: rest)) : Derives (.items close) ts [e] rest
  | noEntries {rest : List Lexeme} {p : Pos} :
    Derives .entries (⟨.symbol .closeCurly, p⟩ :: rest) [] rest
  | entry {rest rest' rest'' : List Lexeme} {t : Lexeme} {p : Pos} {k : String} {value : Expr}
    {more : List (String × Expr)} (hkey : hashKey? t.token = some k)
    (hvalue : Derives .expr rest value rest') (h : Derives .moreEntries rest' more rest'') :
    Derives .entries (t :: ⟨.symbol .colon, p⟩ :: rest) ((k, value) :: more) rest''
  | shorthand {rest rest' : List Lexeme} {t : Lexeme} {k : String} {more : List (String × Expr)}
    (hkey : hashKey? t.token = some k) (hrest : Clear (· = .symbol .colon) rest)
    (h : Derives .moreEntries rest more rest') :
    Derives .entries (t :: rest) ((k, .name k) :: more) rest'
  | entriesMore {rest rest' : List Lexeme} {p : Pos} {entries : List (String × Expr)}
    (h : Derives .entries rest entries rest') :
    Derives .moreEntries (⟨.symbol .comma, p⟩ :: rest) entries rest'
  | entriesEnd {rest : List Lexeme} {p : Pos} :
    Derives .moreEntries (⟨.symbol .closeCurly, p⟩ :: rest) [] rest
  | accessed {ts : List Lexeme} {target : Expr} (hrest : Clear Accesses ts) :
    Derives (.accesses target) ts target ts
  | member {rest rest' : List Lexeme} {p : Pos} {n : Lexeme} {target e : Expr} {field : String}
    (hfield : memberName? n.token = some field) (hrest : Clear (· = .symbol .openRound) rest)
    (h : Derives (.accesses (.member target field)) rest e rest') :
    Derives (.accesses target) (⟨.symbol .dot, p⟩ :: n :: rest) e rest'
  | method {rest rest' rest'' : List Lexeme} {p q : Pos} {n : Lexeme} {target e : Expr}
    {field : String} {args : List Expr} (hfield : memberName? n.token = some field)
    (hargs : Derives (.sequence .closeRound) rest args rest')
    (h : Derives (.accesses (.method target field args)) rest' e rest'') :
    Derives (.accesses target) (⟨.symbol .dot, p⟩ :: n :: ⟨.symbol .openRound, q⟩ :: rest) e rest''
  | index {rest rest' rest'' : List Lexeme} {p q : Pos} {target key e : Expr}
    (hkey : Derives .expr rest key (⟨.symbol .closeSquare, q⟩ :: rest'))
    (h : Derives (.accesses (.index target key)) rest' e rest'') :
    Derives (.accesses target) (⟨.symbol .openSquare, p⟩ :: rest) e rest''
  | call {rest rest' rest'' : List Lexeme} {p : Pos} {target e : Expr} {args : List Expr}
    (hargs : Derives (.sequence .closeRound) rest args rest')
    (h : Derives (.accesses (.call target args)) rest' e rest'') :
    Derives (.accesses target) (⟨.symbol .openRound, p⟩ :: rest) e rest''

/-! Looking ahead. -/

@[simp] theorem clear_nil (kind : Token → Prop) : Clear kind [] := by simp [Clear]

@[simp] theorem clear_cons (kind : Token → Prop) (t : Lexeme) (ts : List Lexeme) :
    Clear kind (t :: ts) ↔ ¬ kind t.token := by simp [Clear]

/-- The kind of a symbol does not depend on its place. -/
theorem clear_of_symbol {kind : Token → Prop} {s : Symbol} {pos : Pos} {ts : List Lexeme}
    (h : ¬ kind (.symbol s)) : Clear kind (⟨.symbol s, pos⟩ :: ts) := (clear_cons ..).2 h

theorem not_assigns {t : Token} : ¬ Assigns t ↔ t.symbol?.bind Symbol.assignment? = none := by
  simp [Assigns]

theorem not_counts {t : Token} : ¬ Counts t ↔ t.symbol?.bind Symbol.count? = none := by
  simp [Counts]

theorem not_negates {t : Token} : ¬ Negates t ↔ t.symbol?.bind Symbol.unary? = none := by
  simp [Negates]

theorem isSymbol_iff {t : Token} {s : Symbol} : t.isSymbol s = true ↔ t = .symbol s := by
  cases t <;> simp [Token.isSymbol]

theorem isKeyword_iff {t : Token} {k : Keyword} : t.isKeyword k = true ↔ t = .keyword k := by
  cases t <;> simp [Token.isKeyword]

theorem isSymbol_symbol {s s' : Symbol} : (Token.symbol s).isSymbol s' = true ↔ s = s' := by
  simp [Token.isSymbol]

instance (t : Token) (s : Symbol) : Decidable (t = .symbol s) :=
  decidable_of_iff (t.isSymbol s = true) isSymbol_iff

instance (least : Nat) (t : Token) : Decidable (Joins least t) :=
  match h : t.symbol?.bind Symbol.binary? with
  | none => .isFalse fun ⟨_, hop, _⟩ => nomatch h.symm.trans hop
  | some op => decidable_of_iff (least ≤ op.precedence)
    ⟨fun hle => ⟨op, h, hle⟩, fun ⟨_, hop, hle⟩ => by cases h.symm.trans hop; exact hle⟩

instance (t : Token) : Decidable (Assigns t) := inferInstanceAs (Decidable (_ = true))

instance (t : Token) : Decidable (Counts t) := inferInstanceAs (Decidable (_ = true))

instance (t : Token) : Decidable (Negates t) := inferInstanceAs (Decidable (_ = true))

instance (t : Token) : Decidable (Accesses t) := inferInstanceAs (Decidable (_ ∨ _))

private theorem isSymbol_eq_false {t : Token} {s : Symbol} (h : ¬ t = .symbol s) :
    t.isSymbol s = false :=
  Bool.eq_false_iff.2 (mt isSymbol_iff.1 h)

/-- A token that negates does not count. -/
private theorem not_counts_of_unary {t : Token} {op : UnaryOp}
    (h : t.symbol?.bind Symbol.unary? = some op) :
    t.symbol?.bind Symbol.count? = none := by
  cases t with
  | symbol s => cases s <;> first | rfl | cases h
  | _ => rfl

private theorem not_closeCurly_of_hashKey {t : Token} {k : String} (h : hashKey? t = some k) :
    t.isSymbol .closeCurly = false := by
  cases t with
  | symbol s => cases h
  | _ => rfl

/-! Readers. -/

variable {α : Type} {n : Nat} {p : Part} {ts rest : List Lexeme} {a : α} {b : p.Value}

def outcome (r : Except CompileError (Reads α n)) : Except CompileError (α × List Lexeme) :=
  r.map fun r => (r.value, r.rest)

theorem outcome_eq_ok {r : Except CompileError (Reads α n)} :
    outcome r = .ok (a, rest) ↔ ∃ h, r = .ok ⟨a, rest, h⟩ := by
  cases r with
  | error e => simp [outcome, Except.map]
  | ok r =>
    obtain ⟨b, rest', h⟩ := r
    simp only [outcome, Except.map, Except.ok.injEq, Prod.mk.injEq, Reads.mk.injEq]
    constructor
    · rintro ⟨rfl, rfl⟩
      exact ⟨h, rfl, rfl⟩
    · rintro ⟨-, rfl, rfl⟩
      exact ⟨rfl, rfl⟩

def Part.read : (p : Part) → List Lexeme → Except CompileError (p.Value × List Lexeme)
  | .expr, ts => outcome (Expr.read ts)
  | .conditional, ts => outcome (readConditional ts)
  | .binary least, ts => outcome (readBinary least ts)
  | .operators least left, ts => outcome (readOperators least left ts)
  | .unary, ts => outcome (readUnary ts)
  | .term, ts => outcome (readTerm ts)
  | .sequence close, ts => outcome (readSequence close ts)
  | .items close, ts => outcome (readItems close ts)
  | .entries, ts => outcome (readEntries ts)
  | .moreEntries, ts => outcome (readMoreEntries ts)
  | .accesses target, ts => outcome (readAccesses target ts)

theorem parse_eq (ts : List Lexeme) : parse ts = Part.expr.read ts := by
  rw [parse, Part.read]
  cases Expr.read ts <;> rfl

section Rules

variable {rest' rest'' : List Lexeme} {t t' : Lexeme} {pos pos' : Pos} {least : Nat}
  {e e' left right value target : Expr} {items args : List Expr} {more : List (String × Expr)}
  {x field k : String} {step : Count} {close : Symbol}

/-! One rule at a time: when its parts are read, the whole is. An expression and its conditions: -/

private theorem read_plain (h : Part.conditional.read ts = .ok (e, rest))
    (hrest : Clear Assigns rest) :
    Part.expr.read ts = .ok (e, rest) := by
  obtain ⟨_, h⟩ := outcome_eq_ok.1 h
  rw [Part.read, Expr.read, h]
  cases rest with
  | nil => rfl
  | cons t rest =>
    simp only [not_assigns.1 ((clear_cons ..).1 hrest)]
    rfl

private theorem read_assign {op : Option CompoundOp}
    (h : Part.conditional.read ts = .ok (.name x, t :: rest))
    (hop : t.token.symbol?.bind Symbol.assignment? = some op)
    (hvalue : Part.expr.read rest = .ok (value, rest')) :
    Part.expr.read ts = .ok (.assign x op value, rest') := by
  obtain ⟨_, h⟩ := outcome_eq_ok.1 h
  obtain ⟨_, hvalue⟩ := outcome_eq_ok.1 hvalue
  rw [Part.read, Expr.read, h]
  simp only [hop, hvalue]
  rfl

private theorem read_unconditional (h : (Part.binary 0).read ts = .ok (e, rest))
    (hrest : Clear (· = .symbol .question) rest) : Part.conditional.read ts = .ok (e, rest) := by
  obtain ⟨_, h⟩ := outcome_eq_ok.1 h
  rw [Part.read, readConditional, h]
  cases rest with
  | nil => rfl
  | cons t rest =>
    simp only [isSymbol_eq_false ((clear_cons ..).1 hrest), Bool.false_eq_true, if_false]
    rfl

private theorem read_cond {test yes no : Expr}
    (htest : (Part.binary 0).read ts = .ok (test, ⟨.symbol .question, pos⟩ :: rest))
    (hyes : Part.expr.read rest = .ok (yes, ⟨.symbol .colon, pos'⟩ :: rest'))
    (hno : Part.expr.read rest' = .ok (no, rest'')) :
    Part.conditional.read ts = .ok (.cond test yes no, rest'') := by
  obtain ⟨_, htest⟩ := outcome_eq_ok.1 htest
  obtain ⟨_, hyes⟩ := outcome_eq_ok.1 hyes
  obtain ⟨_, hno⟩ := outcome_eq_ok.1 hno
  rw [Part.read, readConditional, htest]
  simp only [isSymbol_symbol, if_true, hyes, hno]
  rfl

/-! Operators: -/

private theorem read_binary (hleft : Part.unary.read ts = .ok (left, rest))
    (h : (Part.operators least left).read rest = .ok (e, rest')) :
    (Part.binary least).read ts = .ok (e, rest') := by
  obtain ⟨_, hleft⟩ := outcome_eq_ok.1 hleft
  obtain ⟨_, h⟩ := outcome_eq_ok.1 h
  rw [Part.read, readBinary, hleft]
  simp only [h]
  rfl

private theorem read_operand (hrest : Clear (Joins least) ts) :
    (Part.operators least left).read ts = .ok (left, ts) := by
  rw [Part.read, readOperators.eq_def]
  cases ts with
  | nil => rfl
  | cons t rest =>
    have ht := (clear_cons ..).1 hrest
    cases hop : t.token.symbol?.bind Symbol.binary? with
    | none =>
      simp only [hop]
      rfl
    | some op =>
      have hleast : ¬ least ≤ op.precedence := fun h => ht ⟨op, hop, h⟩
      simp only [hop, if_neg hleast]
      rfl

private theorem read_operator {op : BinaryOp} (hop : t.token.symbol?.bind Symbol.binary? = some op)
    (hleast : least ≤ op.precedence)
    (hright : (Part.binary (op.precedence + 1)).read rest = .ok (right, rest'))
    (h : (Part.operators least (.binary op left right)).read rest' = .ok (e, rest'')) :
    (Part.operators least left).read (t :: rest) = .ok (e, rest'') := by
  obtain ⟨_, hright⟩ := outcome_eq_ok.1 hright
  obtain ⟨_, h⟩ := outcome_eq_ok.1 h
  rw [Part.read, readOperators]
  simp only [hop, if_pos hleast, hright, h]
  rfl

private theorem read_countBefore (hstep : t.token.symbol?.bind Symbol.count? = some step) :
    Part.unary.read (t :: ⟨.name x, pos⟩ :: rest) = .ok (.count x step true, rest) := by
  rw [Part.read, readUnary]
  simp only [hstep]
  rfl

private theorem read_unary {op : UnaryOp} (hop : t.token.symbol?.bind Symbol.unary? = some op)
    (h : Part.unary.read rest = .ok (e, rest')) :
    Part.unary.read (t :: rest) = .ok (.unary op e, rest') := by
  obtain ⟨_, h⟩ := outcome_eq_ok.1 h
  rw [Part.read, readUnary]
  simp only [not_counts_of_unary hop, hop, h]
  rfl

private theorem read_operandTerm (hcount : ¬ Counts t.token) (hunary : ¬ Negates t.token)
    (h : Part.term.read (t :: rest) = .ok (e, rest')) (hrest : Clear Counts rest') :
    Part.unary.read (t :: rest) = .ok (e, rest') := by
  obtain ⟨_, h⟩ := outcome_eq_ok.1 h
  rw [Part.read, readUnary]
  simp only [not_counts.1 hcount, not_negates.1 hunary, h]
  cases rest' with
  | nil => rfl
  | cons t' rest' =>
    simp only [not_counts.1 ((clear_cons ..).1 hrest)]
    rfl

private theorem read_countAfter (hcount : ¬ Counts t.token) (hunary : ¬ Negates t.token)
    (h : Part.term.read (t :: rest) = .ok (.name x, t' :: rest'))
    (hstep : t'.token.symbol?.bind Symbol.count? = some step) :
    Part.unary.read (t :: rest) = .ok (.count x step false, rest') := by
  obtain ⟨_, h⟩ := outcome_eq_ok.1 h
  rw [Part.read, readUnary]
  simp only [not_counts.1 hcount, not_negates.1 hunary, h, hstep]
  rfl

/-! Terms: -/

private theorem read_literal {v : Literal}
    (h : (Part.accesses (.literal v)).read rest = .ok (e, rest')) :
    Part.term.read (⟨.literal v, pos⟩ :: rest) = .ok (e, rest') := by
  obtain ⟨_, h⟩ := outcome_eq_ok.1 h
  rw [Part.read, readTerm]
  simp only [h]
  rfl

private theorem read_lambdaOne (h : Part.expr.read rest = .ok (e, rest')) :
    Part.term.read (⟨.name x, pos⟩ :: ⟨.symbol .arrow, pos'⟩ :: rest) =
      .ok (.lambda pos' [x] e, rest') := by
  obtain ⟨_, h⟩ := outcome_eq_ok.1 h
  rw [Part.read, readTerm]
  simp only [h]
  rfl

private theorem read_name (hrest : Clear (· = .symbol .arrow) rest)
    (h : (Part.accesses (.name x)).read rest = .ok (e, rest')) :
    Part.term.read (⟨.name x, pos⟩ :: rest) = .ok (e, rest') := by
  obtain ⟨_, h⟩ := outcome_eq_ok.1 h
  rw [Part.read, readTerm]
  dsimp only
  split
  · simp at hrest
  · simp only [h]
    rfl

private theorem read_lambda {params : List String}
    (hitems : (Part.sequence .closeRound).read rest = .ok (items, ⟨.symbol .arrow, pos'⟩ :: rest'))
    (hparams : names? items = some params) (h : Part.expr.read rest' = .ok (e, rest'')) :
    Part.term.read (⟨.symbol .openRound, pos⟩ :: rest) = .ok (.lambda pos' params e, rest'') := by
  obtain ⟨_, hitems⟩ := outcome_eq_ok.1 hitems
  obtain ⟨_, h⟩ := outcome_eq_ok.1 h
  rw [Part.read, readTerm]
  simp only [hitems, hparams, h]
  rfl

private theorem read_bracketed (he : (Part.sequence .closeRound).read rest = .ok ([e], rest'))
    (hrest : Clear (· = .symbol .arrow) rest') (h : (Part.accesses e).read rest' = .ok (e', rest'')) :
    Part.term.read (⟨.symbol .openRound, pos⟩ :: rest) = .ok (e', rest'') := by
  obtain ⟨_, he⟩ := outcome_eq_ok.1 he
  obtain ⟨_, h⟩ := outcome_eq_ok.1 h
  rw [Part.read, readTerm]
  simp only [he]
  split
  · simp at hrest
  · simp only [h]
    rfl

private theorem read_list (hitems : (Part.sequence .closeSquare).read rest = .ok (items, rest'))
    (h : (Part.accesses (.list items)).read rest' = .ok (e, rest'')) :
    Part.term.read (⟨.symbol .openSquare, pos⟩ :: rest) = .ok (e, rest'') := by
  obtain ⟨_, hitems⟩ := outcome_eq_ok.1 hitems
  obtain ⟨_, h⟩ := outcome_eq_ok.1 h
  rw [Part.read, readTerm]
  simp only [hitems, h]
  rfl

private theorem read_hash (hmore : Part.entries.read rest = .ok (more, rest'))
    (h : (Part.accesses (.hash more)).read rest' = .ok (e, rest'')) :
    Part.term.read (⟨.symbol .openCurly, pos⟩ :: rest) = .ok (e, rest'') := by
  obtain ⟨_, hmore⟩ := outcome_eq_ok.1 hmore
  obtain ⟨_, h⟩ := outcome_eq_ok.1 h
  rw [Part.read, readTerm]
  simp only [hmore, h]
  rfl

/-! Sequences: -/

private theorem read_noItems : (Part.sequence close).read (⟨.symbol close, pos⟩ :: rest) = .ok
    ([], rest) := by
  rw [Part.read, readSequence]
  simp only [isSymbol_symbol, if_true]
  rfl

private theorem read_someItems (hts : Clear (· = .symbol close) ts)
    (h : (Part.items close).read ts = .ok (items, rest)) :
    (Part.sequence close).read ts = .ok (items, rest) := by
  rw [Part.read, readSequence.eq_def]
  cases ts with
  | nil => exact h
  | cons t ts =>
    simp only [isSymbol_eq_false ((clear_cons ..).1 hts), Bool.false_eq_true, if_false]
    exact h

private theorem read_itemsMore (he : Part.expr.read ts = .ok (e, ⟨.symbol .comma, pos⟩ :: rest))
    (h : (Part.sequence close).read rest = .ok (items, rest')) :
    (Part.items close).read ts = .ok (e :: items, rest') := by
  obtain ⟨_, he⟩ := outcome_eq_ok.1 he
  obtain ⟨_, h⟩ := outcome_eq_ok.1 h
  rw [Part.read, readItems, he]
  simp only [isSymbol_symbol, if_true, h]
  rfl

private theorem read_itemsLast (hclose : close ≠ .comma)
    (he : Part.expr.read ts = .ok (e, ⟨.symbol close, pos⟩ :: rest)) :
    (Part.items close).read ts = .ok ([e], rest) := by
  obtain ⟨_, he⟩ := outcome_eq_ok.1 he
  rw [Part.read, readItems, he]
  simp only [isSymbol_symbol, if_neg hclose, if_true]
  rfl

/-! Entries of a hash: -/

private theorem read_noEntries : Part.entries.read (⟨.symbol .closeCurly, pos⟩ :: rest) = .ok
    ([], rest) := by
  rw [Part.read, readEntries]
  simp only [isSymbol_symbol, if_true]
  rfl

private theorem read_entry (hkey : hashKey? t.token = some k)
    (hvalue : Part.expr.read rest = .ok (value, rest'))
    (h : Part.moreEntries.read rest' = .ok (more, rest'')) :
    Part.entries.read (t :: ⟨.symbol .colon, pos⟩ :: rest) = .ok ((k, value) :: more, rest'') := by
  obtain ⟨_, hvalue⟩ := outcome_eq_ok.1 hvalue
  obtain ⟨_, h⟩ := outcome_eq_ok.1 h
  rw [Part.read, readEntries]
  simp only [not_closeCurly_of_hashKey hkey, Bool.false_eq_true, if_false, hkey, hvalue, h]
  rfl

private theorem read_shorthand (hkey : hashKey? t.token = some k)
    (hrest : Clear (· = .symbol .colon) rest) (h : Part.moreEntries.read rest = .ok (more, rest')) :
    Part.entries.read (t :: rest) = .ok ((k, .name k) :: more, rest') := by
  obtain ⟨_, h⟩ := outcome_eq_ok.1 h
  rw [Part.read, readEntries]
  simp only [not_closeCurly_of_hashKey hkey, Bool.false_eq_true, if_false, hkey]
  split
  · simp at hrest
  · simp only [h]
    rfl

private theorem read_entriesMore (h : Part.entries.read rest = .ok (more, rest')) :
    Part.moreEntries.read (⟨.symbol .comma, pos⟩ :: rest) = .ok (more, rest') := by
  obtain ⟨_, h⟩ := outcome_eq_ok.1 h
  rw [Part.read, readMoreEntries]
  simp only [isSymbol_symbol, if_true, h]
  rfl

private theorem read_entriesEnd :
    Part.moreEntries.read (⟨.symbol .closeCurly, pos⟩ :: rest) = .ok ([], rest) := by
  rw [Part.read, readMoreEntries]
  rfl

/-! Accesses: -/

private theorem read_accessed (hrest : Clear Accesses ts) :
    (Part.accesses target).read ts = .ok (target, ts) := by
  rw [Part.read, readAccesses.eq_def]
  cases ts with
  | nil => rfl
  | cons t ts =>
    have ht := (clear_cons ..).1 hrest
    dsimp only
    split
    · next h => exact absurd (.inl h) ht
    · next h => exact absurd (.inr (.inl h)) ht
    · next h => exact absurd (.inr (.inr h)) ht
    · rfl

private theorem read_member (hfield : memberName? t.token = some field)
    (hrest : Clear (· = .symbol .openRound) rest)
    (h : (Part.accesses (.member target field)).read rest = .ok (e, rest')) :
    (Part.accesses target).read (⟨.symbol .dot, pos⟩ :: t :: rest) = .ok (e, rest') := by
  obtain ⟨_, h⟩ := outcome_eq_ok.1 h
  rw [Part.read, readAccesses.eq_def]
  simp only [hfield]
  split
  · simp at hrest
  · simp only [h]
    rfl

private theorem read_method (hfield : memberName? t.token = some field)
    (hargs : (Part.sequence .closeRound).read rest = .ok (args, rest'))
    (h : (Part.accesses (.method target field args)).read rest' = .ok (e, rest'')) :
    (Part.accesses target).read (⟨.symbol .dot, pos⟩ :: t :: ⟨.symbol .openRound, pos'⟩ :: rest) =
      .ok (e, rest'') := by
  obtain ⟨_, hargs⟩ := outcome_eq_ok.1 hargs
  obtain ⟨_, h⟩ := outcome_eq_ok.1 h
  rw [Part.read, readAccesses.eq_def]
  simp only [hfield, hargs, h]
  rfl

private theorem read_index {key : Expr}
    (hkey : Part.expr.read rest = .ok (key, ⟨.symbol .closeSquare, pos'⟩ :: rest'))
    (h : (Part.accesses (.index target key)).read rest' = .ok (e, rest'')) :
    (Part.accesses target).read (⟨.symbol .openSquare, pos⟩ :: rest) = .ok (e, rest'') := by
  obtain ⟨_, hkey⟩ := outcome_eq_ok.1 hkey
  obtain ⟨_, h⟩ := outcome_eq_ok.1 h
  rw [Part.read, readAccesses.eq_def]
  simp only [hkey, isSymbol_symbol, if_true, h]
  rfl

private theorem read_call (hargs : (Part.sequence .closeRound).read rest = .ok (args, rest'))
    (h : (Part.accesses (.call target args)).read rest' = .ok (e, rest'')) :
    (Part.accesses target).read (⟨.symbol .openRound, pos⟩ :: rest) = .ok (e, rest'') := by
  obtain ⟨_, hargs⟩ := outcome_eq_ok.1 hargs
  obtain ⟨_, h⟩ := outcome_eq_ok.1 h
  rw [Part.read, readAccesses.eq_def]
  simp only [hargs, h]
  rfl

end Rules

/-- What is derived is read. -/
theorem Derives.read (h : Derives p ts b rest) : p.read ts = .ok (b, rest) := by
  induction h with
  | plain _ hrest ih => exact read_plain ih hrest
  | assign _ hop _ ih ihvalue => exact read_assign ih hop ihvalue
  | unconditional _ hrest ih => exact read_unconditional ih hrest
  | cond _ _ _ ihtest ihyes ihno => exact read_cond ihtest ihyes ihno
  | binary _ _ ihleft ih => exact read_binary ihleft ih
  | operand hrest => exact read_operand hrest
  | operator hop hleast _ _ ihright ih => exact read_operator hop hleast ihright ih
  | countBefore hstep => exact read_countBefore hstep
  | unary hop _ ih => exact read_unary hop ih
  | operandTerm hcount hunary _ hrest ih => exact read_operandTerm hcount hunary ih hrest
  | countAfter hcount hunary _ hstep ih => exact read_countAfter hcount hunary ih hstep
  | literal _ ih => exact read_literal ih
  | lambdaOne _ ih => exact read_lambdaOne ih
  | name hrest _ ih => exact read_name hrest ih
  | lambda _ hparams _ ihitems ih => exact read_lambda ihitems hparams ih
  | bracketed _ hrest _ ihe ih => exact read_bracketed ihe hrest ih
  | list _ _ ihitems ih => exact read_list ihitems ih
  | hash _ _ ihentries ih => exact read_hash ihentries ih
  | noItems => exact read_noItems
  | someItems hts _ ih => exact read_someItems hts ih
  | itemsMore _ _ ihe ih => exact read_itemsMore ihe ih
  | itemsLast hclose _ ihe => exact read_itemsLast hclose ihe
  | noEntries => exact read_noEntries
  | entry hkey _ _ ihvalue ih => exact read_entry hkey ihvalue ih
  | shorthand hkey hrest _ ih => exact read_shorthand hkey hrest ih
  | entriesMore _ ih => exact read_entriesMore ih
  | entriesEnd => exact read_entriesEnd
  | accessed hrest => exact read_accessed hrest
  | member hfield hrest _ ih => exact read_member hfield hrest ih
  | method hfield _ _ ihargs ih => exact read_method hfield ihargs ih
  | index _ _ ihkey ih => exact read_index ihkey ih
  | call _ _ ihargs ih => exact read_call ihargs ih

end LiveMarkup.Expr
