/-! The command line: what it can be asked for. -/

namespace LiveMarkup

inductive Command where
  /-- Compile views and report errors. -/
  | check (paths : List String)
  /-- Render a view with properties given as JSON. -/
  | render (path : String) (props : Option String)
  deriving DecidableEq, Repr

namespace Command

/-- Arguments sorted: the words among them, and the properties that they give. -/
structure Sorted where
  words : List String
  props : Option String

/-- Sorts arguments. Options may stand anywhere, and after `--` there are none. -/
def sort? : List String → Option Sorted
  | [] => some ⟨[], none⟩
  | "--" :: args => some ⟨args, none⟩
  | "-v" :: args => sort? args
  | "--verbose" :: args => sort? args
  | "--props" :: value :: args =>
    if value.startsWith "-" && value != "-" then none
    else (sort? args).bind fun s =>
      if s.props.isSome then none else some { s with props := some value }
  | arg :: args =>
    if arg.startsWith "--props=" then
      (sort? args).bind fun s =>
        if s.props.isSome then none else some { s with props := some (arg.drop 8).toString }
    else if arg.startsWith "-" && arg != "-" then none
    else (sort? args).map fun s => { s with words := arg :: s.words }

def ofArgs? (args : List String) : Option Command :=
  match sort? args with
  | some ⟨"check" :: path :: paths, none⟩ => some (.check (path :: paths))
  | some ⟨["render", path], props⟩ => some (.render path props)
  | _ => none

end Command

end LiveMarkup
