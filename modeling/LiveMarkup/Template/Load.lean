import LiveMarkup.Files
import LiveMarkup.Report
import LiveMarkup.Template.Parser

/-! Templates that are kept in files. -/

namespace LiveMarkup

/-- Why a template cannot be loaded from a file. -/
inductive LoadError where
  /-- The file cannot be read. -/
  | unreadable (path : String) (reason : FileError)
  /-- The source does not compile. -/
  | compile (e : CompileError)
  /-- The source does not compile, and this is the report. -/
  | report (text : String)

def LoadError.message : LoadError → String
  | unreadable path reason => path ++ ": " ++ reason.message
  | compile e => e.message
  | report text => text

def LoadError.ofCompile (source path : String) (e : CompileError) : LoadError :=
  match e.report? source (some path) with
  | some text => report text
  | none => compile e

def Template.load (files : Files) (path : String) : Except LoadError Template :=
  match files.read path with
  | .error reason => .error (.unreadable path reason)
  | .ok source =>
    match Template.compile source with
    | .error e => .error (.ofCompile source path e)
    | .ok t => .ok t

end LiveMarkup
