import LiveMarkup.Document.Dispatch
import LiveMarkup.Eval.Expr

/-! Pages: documents whose listeners all run in one scope. -/

namespace LiveMarkup

structure Page where
  document : Document Value
  scope : Scope

namespace Page

def empty : Page := ⟨Document.empty, Scope.empty⟩

def host : Host Page where
  scope := Page.scope
  withScope scope p := { p with scope }
  notify _ := pure ()
  native _ _ := pure .null

def dispatch (event : String) (target : NodeId) : Run Page Nat :=
  Document.dispatch Page.document
    (fun _ f => do let _ ← Eval.callFunction host f [.string (Text.lower event)])
    event target

end Page

end LiveMarkup
