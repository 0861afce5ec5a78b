import LiveMarkup.EvalError
import LiveMarkup.Value.Text

/-! Scopes: the properties that expressions read and write. Public properties stand in the order in
which they became public; the others are internal. -/

namespace LiveMarkup

abbrev Bindings := List (String × Value)

namespace Bindings

def get? (x : String) : Bindings → Option Value
  | [] => none
  | (y, v) :: bs => if y = x then some v else get? x bs

def set? (x : String) (v : Value) : Bindings → Option Bindings
  | [] => none
  | (y, w) :: bs => if y = x then some ((y, v) :: bs) else (set? x v bs).map ((y, w) :: ·)

def erase (x : String) (bs : Bindings) : Bindings := bs.filter fun b => b.1 != x

/-- A name has a binding exactly if it can be set. -/
theorem set?_isSome (x : String) (v : Value) (bs : Bindings) :
    (set? x v bs).isSome = (get? x bs).isSome := by
  induction bs with
  | nil => rfl
  | cons b bs ih =>
    obtain ⟨y, w⟩ := b
    by_cases h : y = x <;> simp [set?, get?, h, ih]

/-- Setting a name keeps all names and their order. -/
theorem map_fst_set? {x : String} {v : Value} {bs bs' : Bindings} (h : set? x v bs = some bs') :
    bs'.map (·.1) = bs.map (·.1) := by
  induction bs generalizing bs' with
  | nil => simp [set?] at h
  | cons b bs ih =>
    obtain ⟨y, w⟩ := b
    by_cases hy : y = x
    · simp only [set?, hy, if_true, Option.some.injEq] at h
      simp [← h, hy]
    · simp only [set?, hy, if_false] at h
      obtain ⟨bs'', hb, rfl⟩ := Option.map_eq_some_iff.1 h
      simp [ih hb]

end Bindings

/-- The properties of an instance. -/
structure Scope where
  shown : Bindings
  internal : Bindings
  deriving Inhabited

namespace Scope

def empty : Scope := ⟨[], []⟩

/-- The scope whose properties are all public, in the given order. Of two with one name the first
gives the place and the last the value. -/
def ofProps (props : Bindings) : Scope :=
  { shown := props.foldl (fun bs p => (bs.set? p.1 p.2).getD (bs ++ [p])) [], internal := [] }

def get? (x : String) (s : Scope) : Option Value :=
  (s.shown.get? x).orElse fun _ => s.internal.get? x

def contains (x : String) (s : Scope) : Bool := (s.get? x).isSome

def isPublic (x : String) (s : Scope) : Bool := (s.shown.get? x).isSome

def getPublic? (x : String) (s : Scope) : Option Value := s.shown.get? x

def keys (s : Scope) : List String := s.shown.map (·.1)

/-- The scope with a value for a name. A new property is internal. -/
def put (x : String) (v : Value) (s : Scope) : Scope :=
  match s.shown.set? x v with
  | some shown => { s with shown }
  | none =>
    match s.internal.set? x v with
    | some internal => { s with internal }
    | none => { s with internal := s.internal ++ [(x, v)] }

/-- The scope with a public value for a name. An internal property becomes the last public one. -/
def putPublic (x : String) (v : Value) (s : Scope) : Scope :=
  match s.shown.set? x v with
  | some shown => { s with shown }
  | none => { shown := s.shown ++ [(x, v)], internal := s.internal.erase x }

/-- Whether writing a value over an earlier one leaves a view out of date. -/
def isDirty (previous : Option Value) (next : Value) : Bool :=
  match previous with
  | some v => next.isComposite || !v.same next
  | none => true

/-- The properties that JSON stands for: the entries of an object in order, or none for null. -/
def readProps : Json → Except EvalError Bindings
  | .null => .ok []
  | .object entries => .ok (Value.ofEntries entries)
  | _ => .error .badProps

/-- The public properties as JSON. Functions are null. -/
def toJson (s : Scope) : Json :=
  .object (Dictionary.ofEntries (s.shown.map fun p => (p.1, p.2.toJson)))

end Scope

end LiveMarkup
