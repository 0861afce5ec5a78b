import LiveMarkup.CompileError
import LiveMarkup.Expr.Basic

/-! Reading expressions from tokens. Every function hands back the tokens that it has not used,
together with the fact that they have become fewer. -/

namespace LiveMarkup.Expr

/-- What was read, and fewer than `n` tokens that are left. -/
structure Reads (α : Type) (n : Nat) where
  value : α
  rest : List Lexeme
  fewer : rest.length < n

def Reads.within {α : Type} {m n : Nat} (r : Reads α m) (h : m ≤ n) : Reads α n :=
  ⟨r.value, r.rest, Nat.lt_of_lt_of_le r.fewer h⟩

theorem lt_length_cons (t : Lexeme) (ts : List Lexeme) : ts.length < (t :: ts).length :=
  Nat.lt_succ_self _

theorem length_cons_lt (t : Lexeme) (ts : List Lexeme) : (t :: ts).length < (t :: ts).length + 1 :=
  Nat.lt_succ_self _

theorem length_le_succ (ts : List Lexeme) : ts.length ≤ ts.length + 1 := Nat.le_succ _

theorem length_nil_lt : ([] : List Lexeme).length < ([] : List Lexeme).length + 1 :=
  Nat.lt_succ_self _

/-- The name that a token is as a member of a value; the words of blocks are names there. -/
def memberName? : Token → Option String
  | .name x => some x
  | .literal (.int n) => some (toString n.toInt)
  | .keyword .ifWord => some "if"
  | .keyword .elseWord => some "else"
  | .keyword .each => some "each"
  | .keyword .asWord => some "as"
  | _ => none

def hashKey? : Token → Option String
  | .name x => some x
  | .literal (.string s) => some s
  | .literal (.int n) => some (toString n.toInt)
  | _ => none

def names? : List Expr → Option (List String)
  | [] => some []
  | .name x :: es => (names? es).map (x :: ·)
  | _ :: _ => none

mutual

/-- An expression: an assignment, which associates to the right, or what a condition can be part
of. -/
def read (ts : List Lexeme) : Except CompileError (Reads Expr ts.length) :=
  match readConditional ts with
  | .error e => .error e
  | .ok ⟨left, [], h⟩ => .ok ⟨left, [], h⟩
  | .ok ⟨left, t :: rest, h⟩ =>
    match t.token.symbol?.bind Symbol.assignment? with
    | none => .ok ⟨left, t :: rest, h⟩
    | some op =>
      match left with
      | .name x =>
        match read rest with
        | .error e => .error e
        | .ok ⟨value, rest', h'⟩ =>
          .ok ⟨.assign x op value, rest', by simp only [List.length_cons] at h; omega⟩
      | _ => .error (.unexpected t)
termination_by 8 * ts.length + 4
decreasing_by
  · omega
  · simp only [List.length_cons] at h; omega

def readConditional (ts : List Lexeme) : Except CompileError (Reads Expr ts.length) :=
  match readBinary 0 ts with
  | .error e => .error e
  | .ok ⟨test, [], h⟩ => .ok ⟨test, [], h⟩
  | .ok ⟨test, t :: rest, h⟩ =>
    if t.token.isSymbol .question then
      match read rest with
      | .error e => .error e
      | .ok ⟨_, [], _⟩ => .error (.endOfInput "ternary")
      | .ok ⟨yes, colon :: rest', h'⟩ =>
        if colon.token.isSymbol .colon then
          match read rest' with
          | .error e => .error e
          | .ok ⟨no, rest'', h''⟩ =>
            .ok ⟨.cond test yes no, rest'', by simp only [List.length_cons] at h h'; omega⟩
        else .error (.mismatched colon)
    else .ok ⟨test, t :: rest, h⟩
termination_by 8 * ts.length + 3
decreasing_by
  · omega
  · simp only [List.length_cons] at h; omega
  · simp only [List.length_cons] at h h'; omega

/-- Operands joined by operators that bind at least as tightly as `least`. -/
def readBinary (least : Nat) (ts : List Lexeme) : Except CompileError (Reads Expr ts.length) :=
  match readUnary ts with
  | .error e => .error e
  | .ok ⟨left, rest, h⟩ =>
    match readOperators least left rest with
    | .error e => .error e
    | .ok r => .ok (r.within (by omega))
termination_by 8 * ts.length + 2
decreasing_by
  · omega
  · omega

/-- The operators that follow a left operand and bind at least as tightly as `least`, each with its
right operand. -/
def readOperators (least : Nat) (left : Expr) (ts : List Lexeme) :
    Except CompileError (Reads Expr (ts.length + 1)) :=
  match ts with
  | [] => .ok ⟨left, [], length_nil_lt⟩
  | t :: rest =>
    match t.token.symbol?.bind Symbol.binary? with
    | none => .ok ⟨left, t :: rest, length_cons_lt t rest⟩
    | some op =>
      if least ≤ op.precedence then
        match readBinary (op.precedence + 1) rest with
        | .error e => .error e
        | .ok ⟨right, rest', h⟩ =>
          match readOperators least (.binary op left right) rest' with
          | .error e => .error e
          | .ok r => .ok (r.within (by simp only [List.length_cons]; omega))
      else .ok ⟨left, t :: rest, length_cons_lt t rest⟩
termination_by 8 * ts.length
decreasing_by
  · simp only [List.length_cons]; omega
  · simp only [List.length_cons]; omega

def readUnary (ts : List Lexeme) : Except CompileError (Reads Expr ts.length) :=
  match ts with
  | [] => .error (.endOfInput "term")
  | t :: rest =>
    match t.token.symbol?.bind Symbol.count? with
    | some step =>
      match rest with
      | [] => .error (.endOfInput "prefix update target")
      | ⟨.name x, _⟩ :: rest' =>
        .ok ⟨.count x step true, rest', by simp only [List.length_cons]; omega⟩
      | target :: _ => .error (.unexpected target)
    | none =>
      match t.token.symbol?.bind Symbol.unary? with
      | some op =>
        match readUnary rest with
        | .error e => .error e
        | .ok ⟨operand, rest', h⟩ =>
          .ok ⟨.unary op operand, rest', by simp only [List.length_cons]; omega⟩
      | none =>
        match readTerm (t :: rest) with
        | .error e => .error e
        | .ok ⟨term, [], h⟩ => .ok ⟨term, [], h⟩
        | .ok ⟨term, t' :: rest', h⟩ =>
          match t'.token.symbol?.bind Symbol.count? with
          | none => .ok ⟨term, t' :: rest', h⟩
          | some step =>
            match term with
            | .name x =>
              .ok ⟨.count x step false, rest', by simp only [List.length_cons] at *; omega⟩
            | _ => .error (.unexpected t')
termination_by 8 * ts.length + 1
decreasing_by
  · simp only [List.length_cons]; omega
  · simp only [List.length_cons]; omega

/-- A constant, a name, a bracketed expression, a list, a hash or a lambda. All but a lambda can be
followed by accesses. -/
def readTerm (ts : List Lexeme) : Except CompileError (Reads Expr ts.length) :=
  match ts with
  | [] => .error (.endOfInput "term")
  | t :: rest =>
    match t.token with
    | .literal v => readAccesses (.literal v) rest
    | .name x =>
      match rest with
      | ⟨.symbol .arrow, arrow⟩ :: body =>
        match read body with
        | .error e => .error e
        | .ok ⟨e, rest', h⟩ =>
          .ok ⟨.lambda arrow [x] e, rest', by simp only [List.length_cons]; omega⟩
      | rest => readAccesses (.name x) rest
    | .symbol .openRound =>
      match readSequence .closeRound rest with
      | .error e => .error e
      | .ok ⟨items, rest', h⟩ =>
        match rest', h with
        | ⟨.symbol .arrow, arrow⟩ :: body, h =>
          match names? items with
          | none => .error (.unexpected t)
          | some params =>
            match read body with
            | .error e => .error e
            | .ok ⟨e, rest'', h'⟩ =>
              .ok ⟨.lambda arrow params e, rest'', by simp only [List.length_cons] at *; omega⟩
        | rest', h =>
          match items with
          | [e] =>
            match readAccesses e rest' with
            | .error e => .error e
            | .ok r => .ok (r.within (by simp only [List.length_cons]; omega))
          | _ => .error (.unexpected t)
    | .symbol .openSquare =>
      match readSequence .closeSquare rest with
      | .error e => .error e
      | .ok ⟨items, rest', h⟩ =>
        match readAccesses (.list items) rest' with
        | .error e => .error e
        | .ok r => .ok (r.within (by simp only [List.length_cons]; omega))
    | .symbol .openCurly =>
      match readEntries rest with
      | .error e => .error e
      | .ok ⟨entries, rest', h⟩ =>
        match readAccesses (.hash entries) rest' with
        | .error e => .error e
        | .ok r => .ok (r.within (by simp only [List.length_cons]; omega))
    | _ => .error (.unexpected t)
termination_by 8 * ts.length
decreasing_by
  all_goals simp only [List.length_cons] at *; omega

def readSequence (close : Symbol) (ts : List Lexeme) :
    Except CompileError (Reads (List Expr) ts.length) :=
  match ts with
  | [] => readItems close []
  | t :: rest =>
    if t.token.isSymbol close then .ok ⟨[], rest, lt_length_cons t rest⟩ else readItems close (t :: rest)
termination_by 8 * ts.length + 6
decreasing_by
  · simp
  · simp

/-- At least one expression, and all that follow up to the closing bracket. A comma may stand
before the bracket. -/
def readItems (close : Symbol) (ts : List Lexeme) :
    Except CompileError (Reads (List Expr) ts.length) :=
  match read ts with
  | .error e => .error e
  | .ok ⟨_, [], _⟩ => .error (.endOfInput "list")
  | .ok ⟨e, t :: rest, h⟩ =>
    if t.token.isSymbol .comma then
      match readSequence close rest with
      | .error e => .error e
      | .ok ⟨es, rest', h'⟩ => .ok ⟨e :: es, rest', by simp only [List.length_cons] at h; omega⟩
    else if t.token.isSymbol close then
      .ok ⟨[e], rest, by simp only [List.length_cons] at h; omega⟩
    else .error (.unexpected t)
termination_by 8 * ts.length + 5
decreasing_by
  · omega
  · simp only [List.length_cons] at h; omega

/-- The entries of a hash up to and including the closing brace. A key without a value stands for
the variable of that name. -/
def readEntries (ts : List Lexeme) : Except CompileError (Reads (List (String × Expr)) ts.length) :=
  match ts with
  | [] => .error (.endOfInput "hash")
  | key :: rest =>
    if key.token.isSymbol .closeCurly then .ok ⟨[], rest, lt_length_cons key rest⟩
    else
      match hashKey? key.token with
      | none => .error (.unexpected key)
      | some k =>
        match rest with
        | ⟨.symbol .colon, _⟩ :: rest' =>
          match read rest' with
          | .error e => .error e
          | .ok ⟨value, rest'', h⟩ =>
            match readMoreEntries rest'' with
            | .error e => .error e
            | .ok ⟨more, rest''', h'⟩ =>
              .ok ⟨(k, value) :: more, rest''', by simp only [List.length_cons]; omega⟩
        | rest' =>
          match readMoreEntries rest' with
          | .error e => .error e
          | .ok ⟨more, rest'', h'⟩ =>
            .ok ⟨(k, .name k) :: more, rest'', by simp only [List.length_cons]; omega⟩
termination_by 8 * ts.length
decreasing_by
  all_goals simp only [List.length_cons]; omega

/-- What follows an entry of a hash: the closing brace, or a comma and further entries. -/
def readMoreEntries (ts : List Lexeme) :
    Except CompileError (Reads (List (String × Expr)) ts.length) :=
  match ts with
  | [] => .error (.endOfInput "hash")
  | t :: rest =>
    if t.token.isSymbol .comma then
      match readEntries rest with
      | .error e => .error e
      | .ok r => .ok (r.within (by simp only [List.length_cons]; omega))
    else if t.token.isSymbol .closeCurly then .ok ⟨[], rest, lt_length_cons t rest⟩
    else .error (.unexpected t)
termination_by 8 * ts.length + 1
decreasing_by
  simp only [List.length_cons]; omega

def readAccesses (target : Expr) (ts : List Lexeme) :
    Except CompileError (Reads Expr (ts.length + 1)) :=
  match ts with
  | [] => .ok ⟨target, [], length_nil_lt⟩
  | t :: rest =>
    match t.token with
    | .symbol .dot =>
      match rest with
      | [] => .error (.endOfInput "accessor name")
      | n :: rest' =>
        match memberName? n.token with
        | none => .error (.unexpected n)
        | some field =>
          match rest' with
          | ⟨.symbol .openRound, _⟩ :: args =>
            match readSequence .closeRound args with
            | .error e => .error e
            | .ok ⟨args, rest'', h⟩ =>
              match readAccesses (.method target field args) rest'' with
              | .error e => .error e
              | .ok r => .ok (r.within (by simp only [List.length_cons]; omega))
          | rest' =>
            match readAccesses (.member target field) rest' with
            | .error e => .error e
            | .ok r => .ok (r.within (by simp only [List.length_cons]; omega))
    | .symbol .openSquare =>
      match read rest with
      | .error e => .error e
      | .ok ⟨_, [], _⟩ => .error (.endOfInput "expected closing bracket")
      | .ok ⟨key, close :: rest', h⟩ =>
        if close.token.isSymbol .closeSquare then
          match readAccesses (.index target key) rest' with
          | .error e => .error e
          | .ok r => .ok (r.within (by simp only [List.length_cons] at *; omega))
        else .error (.mismatched close)
    | .symbol .openRound =>
      match readSequence .closeRound rest with
      | .error e => .error e
      | .ok ⟨args, rest', h⟩ =>
        match readAccesses (.call target args) rest' with
        | .error e => .error e
        | .ok r => .ok (r.within (by simp only [List.length_cons]; omega))
    | _ => .ok ⟨target, t :: rest, length_cons_lt t rest⟩
termination_by 8 * ts.length
decreasing_by
  all_goals simp only [List.length_cons] at *; omega

end

def parse (ts : List Lexeme) : Except CompileError (Expr × List Lexeme) :=
  match read ts with
  | .error e => .error e
  | .ok r => .ok (r.value, r.rest)

end LiveMarkup.Expr
