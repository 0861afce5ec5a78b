import LiveMarkup.Script.Parser
import LiveMarkup.Template.Basic

/-! The names that a program mentions, those that are free in an expression, and the lambdas that are written in
it. What is so in one of the parts of an expression, which are evaluated where it is, is so in the whole. -/

namespace LiveMarkup

namespace Expr

mutual

/-- The names that an expression reads or assigns to, in the bodies of its lambdas as well. A name that
it only binds is not among them, nor are the names of members, methods and keys. -/
def names : Expr → List String
  | literal _ => []
  | name x => [x]
  | binary _ left right => names left ++ names right
  | unary _ operand => names operand
  | list items => namesOfItems items
  | hash entries => namesOfEntries entries
  | member target _ => names target
  | method target _ args => names target ++ namesOfItems args
  | index target key => names target ++ names key
  | call callee args => names callee ++ namesOfItems args
  | cond test yes no => names test ++ (names yes ++ names no)
  | lambda _ _ body => names body
  | assign x _ value => x :: names value
  | count x _ _ => [x]

def namesOfItems : List Expr → List String
  | [] => []
  | e :: es => names e ++ namesOfItems es

def namesOfEntries : List (String × Expr) → List String
  | [] => []
  | (_, e) :: es => names e ++ namesOfEntries es

end

/-- All names in the expression are of a kind. -/
def Within (N : String → Prop) (e : Expr) : Prop := ∀ x ∈ e.names, N x

end Expr

/-- The names that an expression may read or assign to when it is shown, otherwise than to show the value of
a name. A function that is shown is not called. -/
def Expr.operands : Expr → List String
  | name _ => []
  | lambda .. => []
  | binary .and left right => left.names ++ right.operands
  | binary .or left right => left.names ++ right.operands
  | cond test yes no => test.names ++ (yes.operands ++ no.operands)
  | e => e.names

mutual

/-- The names that a statement reads or assigns to, those being given that count where a value is shown. -/
def Statement.namesBy (shown : Expr → List String) : Statement → List String
  | text _ => []
  | value e => shown e
  | each items _ _ body => items.names ++ namesOfBody shown body
  | cond branches otherwise => namesOfBranches shown branches ++ namesOfOtherwise shown otherwise

def Statement.namesOfBody (shown : Expr → List String) : List Statement → List String
  | [] => []
  | s :: ss => s.namesBy shown ++ namesOfBody shown ss

def Statement.namesOfBranches (shown : Expr → List String) : List (Expr × List Statement) → List String
  | [] => []
  | (test, body) :: more => (test.names ++ namesOfBody shown body) ++ namesOfBranches shown more

def Statement.namesOfOtherwise (shown : Expr → List String) : Option (List Statement) → List String
  | none => []
  | some body => namesOfBody shown body

end

theorem Statement.namesOfBody_eq (shown : Expr → List String) (ss : List Statement) :
    namesOfBody shown ss = ss.flatMap (namesBy shown) := by
  induction ss with
  | nil => rfl
  | cons s ss ih => rw [namesOfBody, ih, List.flatMap_cons]

theorem Statement.namesOfBranches_eq (shown : Expr → List String) (bs : List (Expr × List Statement)) :
    namesOfBranches shown bs = bs.flatMap fun b => b.1.names ++ namesOfBody shown b.2 := by
  induction bs with
  | nil => rfl
  | cons b bs ih => rw [namesOfBranches, ih, List.flatMap_cons]

def Template.names (t : Template) : List String := Statement.namesOfBody Expr.names t.statements

/-- The names that a template may read or assign to otherwise than to show the value of a name. -/
def Template.operands (t : Template) : List String := Statement.namesOfBody Expr.operands t.statements

def ScriptLine.names : ScriptLine → List String
  | declare x none => [x]
  | declare x (some e) => x :: e.names
  | run e => e.names

def Script.names (s : Script) : List String := s.lines.flatMap ScriptLine.names

structure Lambda where
  arrow : Pos
  params : List String
  body : Expr

namespace Expr

mutual

def lambdas : Expr → List Lambda
  | literal _ => []
  | name _ => []
  | binary _ left right => lambdas left ++ lambdas right
  | unary _ operand => lambdas operand
  | list items => lambdasOfItems items
  | hash entries => lambdasOfEntries entries
  | member target _ => lambdas target
  | method target _ args => lambdas target ++ lambdasOfItems args
  | index target key => lambdas target ++ lambdas key
  | call callee args => lambdas callee ++ lambdasOfItems args
  | cond test yes no => lambdas test ++ (lambdas yes ++ lambdas no)
  | lambda arrow params body => ⟨arrow, params, body⟩ :: lambdas body
  | assign _ _ value => lambdas value
  | count .. => []

def lambdasOfItems : List Expr → List Lambda
  | [] => []
  | e :: es => lambdas e ++ lambdasOfItems es

def lambdasOfEntries : List (String × Expr) → List Lambda
  | [] => []
  | (_, e) :: es => lambdas e ++ lambdasOfEntries es

end

mutual

/-- The names that an expression reads or assigns to and that no lambda in it binds. -/
def free : Expr → List String
  | literal _ => []
  | name x => [x]
  | binary _ left right => free left ++ free right
  | unary _ operand => free operand
  | list items => freeInItems items
  | hash entries => freeInEntries entries
  | member target _ => free target
  | method target _ args => free target ++ freeInItems args
  | index target key => free target ++ free key
  | call callee args => free callee ++ freeInItems args
  | cond test yes no => free test ++ (free yes ++ free no)
  | lambda _ params body => (free body).filter fun x => !params.contains x
  | assign x _ value => x :: free value
  | count x _ _ => [x]

def freeInItems : List Expr → List String
  | [] => []
  | e :: es => free e ++ freeInItems es

def freeInEntries : List (String × Expr) → List String
  | [] => []
  | (_, e) :: es => free e ++ freeInEntries es

end

/-- The expressions that an expression refers to, its own parts: the body of a lambda is not evaluated
where the lambda is. -/
def parts : Expr → List Expr
  | literal _ | name _ | lambda .. | count .. => []
  | binary _ left right => [left, right]
  | unary _ operand => [operand]
  | list items => items
  | hash entries => entries.map (·.2)
  | member target _ => [target]
  | method target _ args => target :: args
  | index target key => [target, key]
  | call callee args => callee :: args
  | cond test yes no => [test, yes, no]
  | assign _ _ value => [value]

def ownName? : Expr → Option String
  | name x | assign x _ _ | count x _ _ => some x
  | _ => none

variable {e part : Expr} {l l' : Lambda} {x : String}

private theorem lambdasOfItems_eq (es : List Expr) : lambdasOfItems es = es.flatMap lambdas := by
  induction es with
  | nil => rfl
  | cons e es ih => rw [lambdasOfItems, ih, List.flatMap_cons]

private theorem lambdasOfEntries_eq (es : List (String × Expr)) :
    lambdasOfEntries es = (es.map (·.2)).flatMap lambdas := by
  induction es with
  | nil => rfl
  | cons e es ih => rw [lambdasOfEntries, ih, List.map_cons, List.flatMap_cons]

private theorem freeInItems_eq (es : List Expr) : freeInItems es = es.flatMap free := by
  induction es with
  | nil => rfl
  | cons e es ih => rw [freeInItems, ih, List.flatMap_cons]

private theorem freeInEntries_eq (es : List (String × Expr)) :
    freeInEntries es = (es.map (·.2)).flatMap free := by
  induction es with
  | nil => rfl
  | cons e es ih => rw [freeInEntries, ih, List.map_cons, List.flatMap_cons]

/-- Outside of the lambdas themselves, the lambdas of an expression are those of its parts. -/
private theorem lambdas_eq_parts (h : ∀ arrow params body, e ≠ lambda arrow params body) :
    e.lambdas = e.parts.flatMap lambdas := by
  cases e with
  | lambda arrow params body => exact absurd rfl (h arrow params body)
  | list | hash | method | call => simp [lambdas, parts, lambdasOfItems_eq, lambdasOfEntries_eq]
  | _ => simp [lambdas, parts]

theorem mem_lambdas_of_part (hpart : part ∈ e.parts) (h : l ∈ part.lambdas) : l ∈ e.lambdas := by
  have hne : ∀ arrow params body, e ≠ lambda arrow params body := by
    rintro arrow params body rfl
    cases hpart
  rw [lambdas_eq_parts hne]
  exact List.mem_flatMap_of_mem hpart h

mutual

/-- The lambdas in the body of a lambda in an expression are lambdas in the expression. -/
theorem mem_lambdas_of_body (e : Expr) (hl : l ∈ e.lambdas) (h : l' ∈ l.body.lambdas) : l' ∈ e.lambdas := by
  cases e with
  | literal | name | count => cases hl
  | binary _ left right =>
    rw [lambdas, List.mem_append] at hl ⊢
    exact hl.imp (mem_lambdas_of_body left · h) (mem_lambdas_of_body right · h)
  | index target key =>
    rw [lambdas, List.mem_append] at hl ⊢
    exact hl.imp (mem_lambdas_of_body target · h) (mem_lambdas_of_body key · h)
  | unary _ operand => exact mem_lambdas_of_body operand hl h
  | member target _ => exact mem_lambdas_of_body target hl h
  | assign _ _ value => exact mem_lambdas_of_body value hl h
  | list items => exact mem_lambdasOfItems_of_body items hl h
  | hash entries => exact mem_lambdasOfEntries_of_body entries hl h
  | method target _ args =>
    rw [lambdas, List.mem_append] at hl ⊢
    exact hl.imp (mem_lambdas_of_body target · h) (mem_lambdasOfItems_of_body args · h)
  | call callee args =>
    rw [lambdas, List.mem_append] at hl ⊢
    exact hl.imp (mem_lambdas_of_body callee · h) (mem_lambdasOfItems_of_body args · h)
  | cond test yes no =>
    rw [lambdas, List.mem_append, List.mem_append] at hl ⊢
    exact hl.imp (mem_lambdas_of_body test · h)
      (Or.imp (mem_lambdas_of_body yes · h) (mem_lambdas_of_body no · h))
  | lambda arrow params body =>
    rw [lambdas, List.mem_cons] at hl ⊢
    rcases hl with rfl | hl
    · exact .inr h
    · exact .inr (mem_lambdas_of_body body hl h)

theorem mem_lambdasOfItems_of_body (es : List Expr) (hl : l ∈ lambdasOfItems es) (h : l' ∈ l.body.lambdas) :
    l' ∈ lambdasOfItems es := by
  cases es with
  | nil => cases hl
  | cons e es =>
    rw [lambdasOfItems, List.mem_append] at hl ⊢
    exact hl.imp (mem_lambdas_of_body e · h) (mem_lambdasOfItems_of_body es · h)

theorem mem_lambdasOfEntries_of_body (es : List (String × Expr)) (hl : l ∈ lambdasOfEntries es)
    (h : l' ∈ l.body.lambdas) : l' ∈ lambdasOfEntries es := by
  cases es with
  | nil => cases hl
  | cons e es =>
    rw [lambdasOfEntries, List.mem_append] at hl ⊢
    exact hl.imp (mem_lambdas_of_body e.2 · h) (mem_lambdasOfEntries_of_body es · h)

end

/-- Outside of lambdas, what is free in an expression is its own name and what is free in its parts. -/
private theorem mem_free_iff (h : ∀ arrow params body, e ≠ lambda arrow params body) :
    x ∈ e.free ↔ x ∈ e.ownName? ∨ ∃ part ∈ e.parts, x ∈ part.free := by
  cases e with
  | lambda arrow params body => exact absurd rfl (h arrow params body)
  | name | assign | count => simp [free, parts, ownName?, eq_comm]
  | _ => simp [free, parts, ownName?, freeInItems_eq, freeInEntries_eq]

theorem mem_free_of_part (hpart : part ∈ e.parts) (h : x ∈ part.free) : x ∈ e.free := by
  have hne : ∀ arrow params body, e ≠ lambda arrow params body := by
    rintro arrow params body rfl
    cases hpart
  exact (mem_free_iff hne).2 (.inr ⟨part, hpart, h⟩)

theorem mem_free_of_ownName? (h : x ∈ e.ownName?) : x ∈ e.free := by
  have hne : ∀ arrow params body, e ≠ lambda arrow params body := by
    rintro arrow params body rfl
    cases h
  exact (mem_free_iff hne).2 (.inl h)

theorem mem_free_lambda {arrow : Pos} {params : List String} {body : Expr} :
    x ∈ (lambda arrow params body).free ↔ x ∈ body.free ∧ x ∉ params := by
  simp [free]

/-! All names of an expression are its own name and those of its parts, or of its body. -/

private theorem namesOfItems_eq (es : List Expr) : namesOfItems es = es.flatMap names := by
  induction es with
  | nil => rfl
  | cons e es ih => rw [namesOfItems, ih, List.flatMap_cons]

private theorem namesOfEntries_eq (es : List (String × Expr)) :
    namesOfEntries es = (es.map (·.2)).flatMap names := by
  induction es with
  | nil => rfl
  | cons e es ih => rw [namesOfEntries, ih, List.map_cons, List.flatMap_cons]

theorem mem_names_of_part (hpart : part ∈ e.parts) (h : x ∈ part.names) : x ∈ e.names := by
  cases e with
  | literal | name | lambda | count => cases hpart
  | list items =>
    rw [names, namesOfItems_eq]
    exact List.mem_flatMap_of_mem hpart h
  | hash entries =>
    rw [names, namesOfEntries_eq]
    exact List.mem_flatMap_of_mem hpart h
  | method target name args | call target args =>
    rw [names, namesOfItems_eq]
    rcases List.mem_cons.1 hpart with rfl | hpart
    · exact List.mem_append_left _ h
    · exact List.mem_append_right _ (List.mem_flatMap_of_mem hpart h)
  | unary | member | assign =>
    simp only [parts, List.mem_singleton] at hpart
    simp [names, ← hpart, h]
  | binary | index | cond =>
    simp only [parts, List.mem_cons, List.not_mem_nil, or_false] at hpart
    rcases hpart with rfl | rfl | rfl <;> simp [names, h]

theorem mem_names_of_ownName? (h : x ∈ e.ownName?) : x ∈ e.names := by
  cases e with
  | name | assign | count =>
    cases h
    exact List.mem_cons_self
  | _ => cases h

end Expr

end LiveMarkup
