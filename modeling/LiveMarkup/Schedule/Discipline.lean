import LiveMarkup.Text.Case
import LiveMarkup.Text.Trim

/-! When a view is rendered again after its properties have changed. -/

namespace LiveMarkup

/-- Whether a write renders at once, or all writes up to the next frame are rendered together. -/
inductive Discipline where
  | sync
  | batched
  deriving DecidableEq, Repr

def Discipline.ofName? (name : String) : Option Discipline :=
  let name := Text.lower (Text.trimmed name)
  if name = "sync" ∨ name = "synchronous" then some .sync
  else if name = "batched" ∨ name = "batch" then some .batched
  else none

def Discipline.name : Discipline → String
  | sync => "sync"
  | batched => "batched"

end LiveMarkup
