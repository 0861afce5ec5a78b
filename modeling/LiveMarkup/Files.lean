/-! A directory of text files, by which programs that read files can be run without a system. What
lies outside of the directory is not known: there are directories, and no file in them. -/

namespace LiveMarkup

/-- Files under the names that they have relative to a directory. -/
structure Files where
  contents : List (String × String)

inductive FileError where
  | missing
  | isDirectory
  | notDirectory
  | nameTooLong
  | nulInName
  deriving DecidableEq, Repr

namespace FileError

def message : FileError → String
  | missing => "No such file or directory (os error 2)"
  | isDirectory => "Is a directory (os error 21)"
  | notDirectory => "Not a directory (os error 20)"
  | nameTooLong => "File name too long (os error 36)"
  | nulInName => "file name contained an unexpected NUL byte"

end FileError

/-- Where the first names of a path lead: down a way from the directory, or to some directory
outside of it. -/
inductive Place where
  | inside (way : List String)
  | outside
  deriving DecidableEq, Repr

namespace Files

def longestName : Nat := 255

def longestPath : Nat := 4095

def steps (path : String) : List String := (path.splitOn "/").filter fun s => s != ""

def fileAt? (files : Files) (way : List String) : Option String :=
  (files.contents.find? fun f => steps f.1 == way).map (·.2)

/-- Whether there is a directory at the end of a way. Every directory holds a file, but for the one
that all ways begin in. -/
def isDirectory (files : Files) (way : List String) : Bool :=
  way.isEmpty || files.contents.any fun f => way.isPrefixOf (steps f.1) && steps f.1 != way

/-- The place that a name leads to from a place, which has to be a directory. No name leads back
into the directory once it is left. -/
def step (files : Files) (name : String) : Place → Except FileError Place
  | .inside way =>
    if files.isDirectory way then
      if name = "." then .ok (.inside way)
      else if name = ".." then .ok (if way.isEmpty then .outside else .inside way.dropLast)
      else if longestName < name.utf8ByteSize then .error .nameTooLong
      else .ok (.inside (way ++ [name]))
    else if (files.fileAt? way).isSome then .error .notDirectory
    else .error .missing
  | .outside =>
    if name = "." || name = ".." then .ok .outside
    else if longestName < name.utf8ByteSize then .error .nameTooLong
    else .error .missing

def resolve (files : Files) (place : Place) (names : List String) : Except FileError Place :=
  names.foldlM (fun place name => files.step name place) place

def start (path : String) : Place := if path.startsWith "/" then .outside else .inside []

def read (files : Files) (path : String) : Except FileError String := do
  if path.contains '\x00' then throw .nulInName
  if path.isEmpty then throw .missing
  if longestPath < path.utf8ByteSize then throw .nameTooLong
  match ← files.resolve (start path) (steps path) with
  | .outside => throw .isDirectory
  | .inside way =>
    match files.fileAt? way with
    | some s => if path.endsWith "/" then throw .notDirectory else return s
    | none => if files.isDirectory way then throw .isDirectory else throw .missing

end Files

end LiveMarkup
