import LiveMarkup.EvalError
import LiveMarkup.Report

/-! What a template can fail with, and how a failure is shown. -/

namespace LiveMarkup

/-- The failure of a template: it does not compile, or it fails while it is evaluated. A failure can be
replaced by its report. -/
inductive Failure where
  | compile (e : CompileError)
  | eval (e : EvalError)
  | report (text : String)

namespace Failure

def message : Failure → String
  | compile e => e.message
  | eval e => e.message
  | report text => text

def blame? : Failure → Option Blame
  | compile e => e.blame?
  | eval _ => none
  | report _ => none

def isSyntax (f : Failure) : Bool :=
  f.blame?.isSome || match f with
    | compile (.endOfInput _) => true
    | _ => false

/-- The report of the failure: the line that it is in with the place underlined, or under a path its text
if there is no place. A failure stays as it is if the source has no such line, and if there is neither a
place nor a path. -/
def pretty (source : String) (path : Option String) (f : Failure) : Failure :=
  match f.blame? with
  | some blame => ((Report.ofBlame? source path blame).map report).getD f
  | none => (path.map fun p => report (Report.ofMessage p f.message)).getD f

end Failure

end LiveMarkup
