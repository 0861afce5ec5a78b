import LiveMarkup.Proofs.Expr.Reading

/-! Moving tokens to other places. What is read does not depend on where the tokens stand, but for the
places that lambdas keep of their arrows. -/

namespace LiveMarkup

def Lexeme.move (f : Pos → Pos) (l : Lexeme) : Lexeme := ⟨l.token, f l.pos⟩

namespace Expr

mutual

def move (f : Pos → Pos) : Expr → Expr
  | literal v => literal v
  | name x => name x
  | binary op left right => binary op (move f left) (move f right)
  | unary op operand => unary op (move f operand)
  | list items => list (moveItems f items)
  | hash entries => hash (moveEntries f entries)
  | member target x => member (move f target) x
  | method target x args => method (move f target) x (moveItems f args)
  | index target key => index (move f target) (move f key)
  | call callee args => call (move f callee) (moveItems f args)
  | cond test yes no => cond (move f test) (move f yes) (move f no)
  | lambda arrow params body => lambda (f arrow) params (move f body)
  | assign x op value => assign x op (move f value)
  | count x step before => count x step before

def moveItems (f : Pos → Pos) : List Expr → List Expr
  | [] => []
  | e :: es => move f e :: moveItems f es

def moveEntries (f : Pos → Pos) : List (String × Expr) → List (String × Expr)
  | [] => []
  | (k, e) :: es => (k, move f e) :: moveEntries f es

end

variable {f : Pos → Pos} {p : Part} {ts rest : List Lexeme} {a : p.Value} {e : Expr}

theorem moveItems_eq_map (f : Pos → Pos) (es : List Expr) : moveItems f es = es.map (move f) := by
  induction es with
  | nil => rfl
  | cons e es ih => rw [moveItems, ih, List.map_cons]

theorem moveEntries_eq_map (f : Pos → Pos) (es : List (String × Expr)) :
    moveEntries f es = es.map fun e => (e.1, move f e.2) := by
  induction es with
  | nil => rfl
  | cons e es ih => rw [moveEntries, ih, List.map_cons]

mutual

/-- Places that stay leave the expression as it is. -/
theorem move_id (e : Expr) : e.move (fun p => p) = e := by
  cases e with
  | literal | name | count => rfl
  | binary op left right => rw [move, move_id left, move_id right]
  | unary op operand => rw [move, move_id operand]
  | list items => rw [move, moveItems_id items]
  | hash entries => rw [move, moveEntries_id entries]
  | member target x => rw [move, move_id target]
  | method target x args => rw [move, move_id target, moveItems_id args]
  | index target key => rw [move, move_id target, move_id key]
  | call callee args => rw [move, move_id callee, moveItems_id args]
  | cond test yes no => rw [move, move_id test, move_id yes, move_id no]
  | lambda arrow params body => rw [move, move_id body]
  | assign x op value => rw [move, move_id value]

theorem moveItems_id (es : List Expr) : moveItems (fun p => p) es = es := by
  cases es with
  | nil => rfl
  | cons e es => rw [moveItems, move_id e, moveItems_id es]

theorem moveEntries_id (es : List (String × Expr)) : moveEntries (fun p => p) es = es := by
  cases es with
  | nil => rfl
  | cons e es => rw [moveEntries, move_id e.2, moveEntries_id es]

end

private theorem names?_moveItems (es : List Expr) : names? (moveItems f es) = names? es := by
  induction es with
  | nil => rfl
  | cons e es ih =>
    cases e with
    | name x => rw [moveItems, move, names?, names?, ih]
    | _ => rfl

def Part.move (f : Pos → Pos) : Part → Part
  | operators least left => operators least (left.move f)
  | accesses target => accesses (target.move f)
  | expr => expr
  | conditional => conditional
  | binary least => binary least
  | unary => unary
  | term => term
  | sequence close => sequence close
  | items close => items close
  | entries => entries
  | moreEntries => moreEntries

def Part.moved (f : Pos → Pos) : (p : Part) → p.Value → (p.move f).Value
  | expr, e | conditional, e | binary _, e | operators _ _, e | unary, e | term, e | accesses _, e =>
    Expr.move f e
  | sequence _, es | items _, es => moveItems f es
  | entries, es | moreEntries, es => moveEntries f es

private theorem Clear.move {kind : Token → Prop} (h : Clear kind ts) :
    Clear kind (ts.map (Lexeme.move f)) := by
  cases ts with
  | nil => exact h
  | cons t ts =>
    have ht : ¬ kind t.token := (clear_cons ..).1 h
    exact (clear_cons ..).2 ht

/-- Tokens that are moved are read as before, but for the places of arrows. -/
private theorem Derives.move (f : Pos → Pos) (h : Derives p ts a rest) :
    Derives (p.move f) (ts.map (Lexeme.move f)) (p.moved f a) (rest.map (Lexeme.move f)) := by
  induction h with
  | plain _ hrest ih => exact .plain ih hrest.move
  | assign _ hop _ ih ihvalue => exact .assign ih hop ihvalue
  | unconditional _ hrest ih => exact .unconditional ih hrest.move
  | cond _ _ _ ihtest ihyes ihno => exact .cond ihtest ihyes ihno
  | binary _ _ ihleft ih => exact .binary ihleft ih
  | operand hrest => exact .operand hrest.move
  | operator hop hleast _ _ ihright ih => exact .operator hop hleast ihright ih
  | countBefore hstep => exact .countBefore hstep
  | unary hop _ ih => exact .unary hop ih
  | operandTerm hcount hunary _ hrest ih => exact .operandTerm hcount hunary ih hrest.move
  | countAfter hcount hunary _ hstep ih => exact .countAfter hcount hunary ih hstep
  | literal _ ih => exact .literal ih
  | lambdaOne _ ih => exact .lambdaOne ih
  | name hrest _ ih => exact .name hrest.move ih
  | lambda _ hparams _ ihitems ih => exact .lambda ihitems ((names?_moveItems _).trans hparams) ih
  | bracketed _ hrest _ ihe ih => exact .bracketed ihe hrest.move ih
  | list _ _ ihitems ih => exact .list ihitems ih
  | hash _ _ ihentries ih => exact .hash ihentries ih
  | noItems => exact .noItems
  | someItems hts _ ih => exact .someItems hts.move ih
  | itemsMore _ _ ihe ih => exact .itemsMore ihe ih
  | itemsLast hclose _ ihe => exact .itemsLast hclose ihe
  | noEntries => exact .noEntries
  | entry hkey _ _ ihvalue ih => exact .entry hkey ihvalue ih
  | shorthand hkey hrest _ ih => exact .shorthand hkey hrest.move ih
  | entriesMore _ ih => exact .entriesMore ih
  | entriesEnd => exact .entriesEnd
  | accessed hrest => exact .accessed hrest.move
  | member hfield hrest _ ih => exact .member hfield hrest.move ih
  | method hfield _ _ ihargs ih => exact .method hfield ihargs ih
  | index _ _ ihkey ih => exact .index ihkey ih
  | call _ _ ihargs ih => exact .call ihargs ih

/-- An expression of moved tokens is the moved expression. -/
theorem parse_move (f : Pos → Pos) (h : parse ts = .ok (e, rest)) :
    parse (ts.map (Lexeme.move f)) = .ok (e.move f, rest.map (Lexeme.move f)) := by
  rw [parse_eq] at h ⊢
  exact ((derives_of_read h).move f).read

end Expr

end LiveMarkup
