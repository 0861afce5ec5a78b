import LiveMarkup.Value.Basic

/-! Changes of a value in place. -/

namespace LiveMarkup

/-- A change of a value. One that does not fit the kind of the value leaves it as it is. -/
inductive Change where
  | push (v : Value)
  | pop
  | put (key : String) (v : Value)
  | replace (v : Value)
  | keep

def Change.apply : Change → Value → Value
  | push v, .list vs => .list (vs ++ [v])
  | pop, .list vs => .list vs.dropLast
  | put key v, .hash es => .hash (Dictionary.insert key v es)
  | replace v, _ => v
  | _, v => v

end LiveMarkup
