import LiveMarkup.Command.Basic
import LiveMarkup.Config
import LiveMarkup.Json.Reader
import LiveMarkup.Template.Load
import LiveMarkup.View.Handle

/-! Carrying out a command: what is written where, and whether it succeeds. -/

namespace LiveMarkup

/-- What a command depends on: files by their paths, the environment, and identifiers for the
attributes of styled views. -/
structure Surroundings where
  read : String → Except FileError String
  environment : Environment
  identifiers : Nat → String

/-- What a command leaves: lines of output, lines of messages, and the code that it exits with. -/
structure Outcome where
  output : List String
  messages : List String
  code : Nat
  deriving DecidableEq, Repr

inductive CommandError where
  | unreadable (reason : FileError)
  | badJson
  | definition (e : LoadError)
  | eval (e : EvalError)
  | attributesTaken

namespace CommandError

def message : CommandError → String
  | unreadable reason => "io error: " ++ reason.message
  | badJson => "json"
  | definition e => e.message
  | eval e => e.message
  | attributesTaken => "no attribute is left"

/-- The lines that tell of the error: its report, or its text after what it is about. -/
def line (about : String) : CommandError → String
  | definition (.report text) => text
  | e => "error: " ++ about ++ e.message

end CommandError

namespace Command

/-- Compiles the view in a file. Errors are reported in its markup. -/
def compile (s : Surroundings) (c : Config) (catalog : Catalog) (path : String) :
    Except CommandError (Definition × Catalog) :=
  match s.read path with
  | .error reason => .error (.unreadable reason)
  | .ok text =>
    match catalog.compile c.beginning [s.identifiers catalog.registry.size] text with
    | .ok r => .ok r
    | .error .attributesTaken => .error .attributesTaken
    | .error (.compile e) => .error (.definition (.ofCompile (Source.split text).markup path e))

def okLine (path : String) (d : Definition) : String :=
  let ending := match d.attr? with
    | some attr => ", scoped to " ++ attr
    | none => ""
  "ok " ++ path ++ " (" ++ toString d.template.statements.length ++ " statements" ++ ending ++ ")"

def checkAll (s : Surroundings) (c : Config) : Catalog → List String → List (String × Bool)
  | _, [] => []
  | catalog, path :: paths =>
    match compile s c catalog path with
    | .ok (d, catalog) => (okLine path d, true) :: checkAll s c catalog paths
    | .error e => (e.line (path ++ ": "), false) :: checkAll s c catalog paths

def readProps : Option String → Except CommandError Bindings
  | none => .ok []
  | some text =>
    match Json.read? text with
    | none => .error .badJson
    | some json => (Scope.readProps json).mapError .eval

def documentLines {α : Type} (d : Document α) : List String :=
  (d.stylesheets.flatMap fun (attr, css) => ["/* " ++ attr ++ " */", css]) ++
    [d.forest.innerMarkup d.body]

def failed (e : CommandError) : Outcome := ⟨[], [e.line ""], 1⟩

def renderView (c : Config) (path : String) (d : Definition) (props : Bindings) :
    Except Fault Outcome :=
  let s := Session.empty
  match Session.mount ⟨d, c.discipline, c.escaped⟩ props false [] s.document.body s with
  | .ok (i, _) s =>
    let message := "rendered " ++ path ++ " " ++ (s.propsJson i).text
    .ok ⟨documentLines s.document, [message], 0⟩
  | .error (.error e) _ => .ok (failed (.eval e))
  | .error (.fault f) _ => .error f

def renderFile (s : Surroundings) (c : Config) (path : String) (props : Option String) :
    Except Fault Outcome :=
  match readProps props with
  | .error e => .ok (failed e)
  | .ok props =>
    match compile s c .empty path with
    | .error e => .ok (failed e)
    | .ok (d, _) => renderView c path d props

def run (s : Surroundings) (command : Command) : Except Fault Outcome :=
  let c := Config.find s.read s.environment
  match command with
  | .check paths =>
    let results := checkAll s c .empty paths
    .ok ⟨[], results.map (·.1), if results.all (·.2) then 0 else 1⟩
  | .render path props => renderFile s c path props

end Command

end LiveMarkup
