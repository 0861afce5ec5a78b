import LiveMarkup.Command.Run

/-! The program: it reads the files that a command names, carries it out and prints what it
leaves. -/

open LiveMarkup

/-- Why a file cannot be read, given the error of the system. A directory can be opened but not read,
and a name with a NUL is refused before the system is asked. -/
def fileErrorOf : IO.Error → FileError
  | .inappropriateType _ code _ => if code = 21 then .isDirectory else .notDirectory
  | .invalidArgument _ code _ => if code = 22 then .nulInName else .nameTooLong
  | _ => .missing

def readPath (path : String) : IO (Except FileError String) := do
  try
    return .ok (← IO.FS.readFile path)
  catch e => return .error (fileErrorOf e)

def pathsOf : Command → List String
  | .check paths => paths
  | .render path _ => [path]

def main (args : List String) : IO UInt32 := do
  match Command.ofArgs? args with
  | none =>
    IO.eprintln "usage: check FILE... | render FILE [--props JSON]"
    return 2
  | some command =>
    let paths := Config.fileNames ++ pathsOf command
    let files ← paths.mapM fun path => return (path, ← readPath path)
    let read (path : String) : Except FileError String :=
      ((files.find? fun f => f.1 == path).map (·.2)).getD (.error .missing)
    let environment : Environment :=
      ⟨← IO.getEnv "VIEWDOO_DISCIPLINE", ← IO.getEnv "VIEWDOO_SCOPE_PREFIX"⟩
    let first ← IO.rand 0 (Nat.pow 36 9 - 1)
    match command.run ⟨read, environment, fun n => Style.identifier (first + n)⟩ with
    | .error .overflow =>
      IO.eprintln "attempt to calculate the remainder with overflow"
      return 101
    | .error .outOfFuel =>
      IO.eprintln "the evaluation does not end"
      return 101
    | .ok outcome =>
      outcome.output.forM fun line => IO.println line
      outcome.messages.forM fun line => IO.eprintln line
      return UInt32.ofNat outcome.code
