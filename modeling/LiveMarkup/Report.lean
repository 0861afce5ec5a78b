import LiveMarkup.CompileError
import LiveMarkup.Text.Line
import LiveMarkup.Text.Trim

/-! Reports: an error together with the line that it is in, the token underlined. -/

namespace LiveMarkup

namespace Report

def indentation (line : List Char) : Nat :=
  (line.takeWhile Text.isBlank).foldl (fun width c => width + c.utf8Size) 0

def quote (blame : Blame) (line : List Char) : String :=
  let number := toString blame.pos.line
  let gutter := String.ofList (List.replicate number.length ' ') ++ " | "
  let blanks := List.replicate (blame.pos.column - (1 + indentation line)) ' '
  let marks := List.replicate (max 1 blame.width) '^'
  gutter ++ "\n" ++ number ++ " | " ++ String.ofList (Text.trim line) ++ "\n" ++
    gutter ++ String.ofList (blanks ++ marks) ++ " " ++ blame.reason

def heading (path : String) (pos : Pos) : String :=
  "---> " ++ path ++ ":" ++ toString pos.line ++ ":" ++ toString pos.column ++ "\n\n"

def ofMessage (path message : String) : String := "---> " ++ path ++ "\n\n     " ++ message

def ofBlame? (source : String) (path : Option String) (blame : Blame) : Option String :=
  (Text.lines source.toList)[max 1 blame.pos.line - 1]?.map fun line =>
    ((path.map fun p => heading p blame.pos).getD "") ++ quote blame line

end Report

/-- The report of an error in a source. An error without a place has one only under a path. -/
def CompileError.report? (source : String) (path : Option String) (e : CompileError) :
    Option String :=
  match e.blame? with
  | some blame => Report.ofBlame? source path blame
  | none => path.map fun p => Report.ofMessage p e.message

end LiveMarkup
