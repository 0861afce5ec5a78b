import LiveMarkup.Document.Page
import LiveMarkup.Eval.Observed
import LiveMarkup.Main
import LiveMarkup.Proofs.Command.Blame
import LiveMarkup.Proofs.Eval.Coincide
import LiveMarkup.Proofs.Eval.Interchange
import LiveMarkup.Proofs.Eval.Locals
import LiveMarkup.Proofs.Eval.Overflow
import LiveMarkup.Proofs.Eval.Reading
import LiveMarkup.Proofs.Expr.Climbing
import LiveMarkup.Proofs.Forest.Operations
import LiveMarkup.Proofs.Html.Canonical
import LiveMarkup.Proofs.Html.Mold
import LiveMarkup.Proofs.Html.Recase
import LiveMarkup.Proofs.Schedule.Ends
import LiveMarkup.Proofs.Scope.Clean
import LiveMarkup.Proofs.Script.Compose
import LiveMarkup.Proofs.Source
import LiveMarkup.Proofs.Style.Comment
import LiveMarkup.Proofs.Style.Escape
import LiveMarkup.Proofs.Template.Compose
import LiveMarkup.Proofs.Template.Path
import LiveMarkup.Proofs.Token.Print
import LiveMarkup.Proofs.Token.Tiling
import LiveMarkup.Proofs.View.Bubbling
import LiveMarkup.Proofs.View.Converge
import LiveMarkup.Proofs.View.Failure
import LiveMarkup.Proofs.View.Fixpoint
import LiveMarkup.Proofs.View.Handlers
import LiveMarkup.Proofs.View.Listeners
import LiveMarkup.Proofs.View.Pending
import LiveMarkup.Proofs.View.Reentry
import LiveMarkup.Proofs.View.Requests
import LiveMarkup.Proofs.View.Scoped
import LiveMarkup.Proofs.View.Siblings
import LiveMarkup.Schedule.Agenda
