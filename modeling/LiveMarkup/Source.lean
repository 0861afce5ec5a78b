import LiveMarkup.Text.Line
import LiveMarkup.Text.Search
import LiveMarkup.Text.Trim

/-! Sources of views: markup with at most one style block and one script block. -/

namespace LiveMarkup

/-- The three parts of a view's source. A block that is empty counts as missing. -/
structure Source where
  markup : String
  style : Option String
  script : Option String
  deriving DecidableEq, Repr

namespace Source

/-- The text without its first block between `opening` and `closing`, and the trimmed content of
that block unless it is empty. -/
def extract (opening closing text : List Char) : List Char × Option String :=
  match Text.cut? opening text with
  | none => (text, none)
  | some (before, inside) =>
    match Text.cut? closing inside with
    | none => (text, none)
    | some (block, after) =>
      let content := Text.trim block
      (before ++ after, if content.isEmpty then none else some (String.ofList content))

/-- The parts of a source. All line breaks become line feeds; the style block is taken out first. -/
def split (text : String) : Source :=
  let (text, style) :=
    extract "<style>".toList "</style>".toList (Text.unifyLineBreaks text.toList)
  let (text, script) := extract "<script>".toList "</script>".toList text
  { markup := String.ofList (Text.trim text), style, script }

end Source

end LiveMarkup
