import LiveMarkup.Files
import LiveMarkup.Schedule.Discipline
import LiveMarkup.Toml.Reader

/-! Configuration: a file's settings, which the environment overrides. -/

namespace LiveMarkup

structure Config where
  discipline : Discipline
  /-- What the attributes of styled views begin with. -/
  beginning : String
  /-- Whether values are written as text instead of markup. -/
  escaped : Bool
  /-- Whether compiled views are kept by their text. -/
  keep : Bool
  deriving DecidableEq, Repr

inductive ConfigError where
  /-- The file cannot be read. -/
  | unreadable
  /-- The file is no TOML, or a setting has no value of its kind. -/
  | malformed
  /-- The environment names a discipline that there is not. -/
  | unknownDiscipline (name : String)
  deriving DecidableEq, Repr

def ConfigError.message : ConfigError → String
  | unreadable => "config file not found"
  | malformed => "config"
  | unknownDiscipline name =>
    "\"" ++ name ++ "\" is not a render discipline, expected \"sync\" or \"batched\""

structure Environment where
  discipline : Option String
  beginning : Option String

namespace Config

def standard : Config :=
  { discipline := .sync, beginning := "viewdoo-", escaped := false, keep := true }

def disciplineOfName? (name : String) : Option Discipline :=
  if name = "sync" ∨ name = "synchronous" then some .sync
  else if name = "batched" then some .batched
  else none

/-- The discipline in a file: a name, or a table with nothing in it but the name. -/
def disciplineOf? : Toml → Option Discipline
  | .string name => disciplineOfName? name
  | .table [(name, .table [])] => disciplineOfName? name
  | .table [(name, .array [])] => disciplineOfName? name
  | _ => none

def stringOf? : Toml → Option String
  | .string s => some s
  | _ => none

def boolOf? : Toml → Option Bool
  | .bool b => some b
  | _ => none

def setting? {α : Type} (read : Toml → Option α) (otherwise : α) : Option Toml → Option α
  | none => some otherwise
  | some v => read v

def ofSettings? (setting : String → Option Toml) : Option Config := do
  return {
    discipline := ← setting? disciplineOf? standard.discipline (setting "discipline")
    beginning := ← setting? stringOf? standard.beginning (setting "scope_prefix")
    escaped := ← setting? boolOf? standard.escaped (setting "escape_values")
    keep := ← setting? boolOf? standard.keep (setting "cache_views") }

def settingNames : List String := ["discipline", "scope_prefix", "escape_values", "cache_views"]

/-- The settings of a file: those of its table `general`. They may also be given as an array in
their order, and a date stands for none at all. -/
def ofToml? (entries : List (String × Toml)) : Option Config :=
  match Toml.get? entries "general" with
  | none => some standard
  | some (.table settings) => ofSettings? (Toml.get? settings)
  | some (.array items) => ofSettings? (Toml.get? (settingNames.zip items))
  | some .datetime => some standard
  | some _ => none

def override (c : Config) (env : Environment) : Except ConfigError Config := do
  let discipline ← match env.discipline with
    | none => .ok c.discipline
    | some name =>
      match Discipline.ofName? name with
      | some d => .ok d
      | none => .error (.unknownDiscipline name)
  return { c with discipline, beginning := env.beginning.getD c.beginning }

def ofText (text : String) (env : Environment) : Except ConfigError Config :=
  match (Toml.read? text).bind ofToml? with
  | some c => c.override env
  | none => .error .malformed

def ofFile (text : Except FileError String) (env : Environment) : Except ConfigError Config :=
  match text with
  | .ok text => ofText text env
  | .error _ => .error .unreadable

def fileNames : List String := ["viewdoo.toml", "Viewdoo.toml"]

/-- The configuration in a directory. If there is no valid file, or the environment is not valid,
the standard settings hold. -/
def find (read : String → Except FileError String) (env : Environment) : Config :=
  let texts := fileNames.map read
  let present := texts.find? fun text => match text with
    | .error .missing => false
    | _ => true
  let fallback := (standard.override env).toOption.getD standard
  match present with
  | some text => (ofFile text env).toOption.getD fallback
  | none => fallback

end Config

end LiveMarkup
