import LiveMarkup.Style.Selector
import LiveMarkup.Text.Line
import LiveMarkup.Text.Search
import LiveMarkup.Text.Trim

/-! Style rules: a style text is read into rules, every selector of which is scoped, and the rules
are written again. -/

namespace LiveMarkup.Style

inductive Rule where
  /-- An at-statement with its semicolon, or text that no rule follows. -/
  | statement (text : List Char)
  | style (selectors : List (List Char)) (body : List Char)
  /-- An at-rule whose block holds rules. -/
  | group (intro : List Char) (rules : List Rule)
  /-- An at-rule whose block is copied. -/
  | verbatim (intro body : List Char)

def groupNames : List String := ["media", "supports", "container", "layer", "document"]

def atRuleName (cs : List Char) : String :=
  Text.lower (String.ofList (cs.takeWhile fun c => !(Text.isBlank c || c == '(')))

def readSelectors (cs : List Char) : List (List Char) :=
  ((splitTop ',' cs).map Text.trim).filter fun s => !s.isEmpty

/-- The text without comments, wherever they begin. One that does not end reaches to the end. -/
def stripComments (cs : List Char) : List Char :=
  match _h : Text.cut? ['/', '*'] cs with
  | none => cs
  | some (before, comment) =>
    match _h' : Text.cut? ['*', '/'] comment with
    | none => before
    | some (_, after) => before ++ stripComments after
termination_by cs.length
decreasing_by
  have h₁ := congrArg List.length (Text.cut?_eq_some _h)
  have h₂ := congrArg List.length (Text.cut?_eq_some _h')
  simp only [List.length_append, List.length_cons, List.length_nil] at h₁ h₂
  omega

def isStop (c : Char) : Bool := c == '\x7b' || c == ';' || c == '\x7d'

private theorem trimStart_length (cs : List Char) : (Text.trimStart cs).length ≤ cs.length :=
  (Text.trimStart_suffix cs).length_le

/-- The rules of a text. A closing brace too many is dropped with what comes before it. -/
def readRules (cs : List Char) : List Rule :=
  match _h : cutTop? isStop .start (Text.trimStart cs) with
  | none =>
    let text := Text.trim cs
    if text.isEmpty then [] else [.statement text]
  | some (before, c, after) =>
    if c = ';' then .statement (Text.trim (before ++ [c])) :: readRules after
    else if c = '\x7d' then readRules after
    else
      let intro := Text.trim before
      let rule := match intro with
        | '@' :: name =>
          if groupNames.contains (atRuleName name) then
            .group intro (readRules (splitBlock .none 0 after).1)
          else .verbatim intro (splitBlock .none 0 after).1
        | _ => .style (readSelectors intro) (Text.trim (splitBlock .none 0 after).1)
      rule :: readRules (splitBlock .none 0 after).2
termination_by cs.length
decreasing_by
  all_goals
    have h₁ := congrArg List.length (cutTop?_eq_some _h)
    have h₂ := trimStart_length cs
    have h₃ := splitBlock_length .none 0 after
    simp only [List.length_append, List.length_cons] at h₁
    omega

mutual

def Rule.scope (attr : List Char) : Rule → Rule
  | .statement text => .statement text
  | .style selectors body => .style (selectors.map (scopeSelector attr)) body
  | .group intro rules => .group intro (scopeRules attr rules)
  | .verbatim intro body => .verbatim intro body

def scopeRules (attr : List Char) : List Rule → List Rule
  | [] => []
  | r :: rs => r.scope attr :: scopeRules attr rs

end

def indent (cs : List Char) : List Char :=
  (Text.lines cs).flatMap fun l => ' ' :: ' ' :: l ++ ['\n']

mutual

def Rule.text : Rule → List Char
  | .statement text => text ++ ['\n']
  | .style selectors body =>
    [',', ' '].intercalate selectors ++ " \x7b ".toList ++ body ++ " \x7d\n".toList
  | .group intro rules => intro ++ " \x7b\n".toList ++ indent (rulesText rules) ++ "\x7d\n".toList
  | .verbatim intro body => intro ++ " \x7b".toList ++ body ++ "\x7d\n".toList

def rulesText : List Rule → List Char
  | [] => []
  | r :: rs => r.text ++ rulesText rs

end

def scope (css attr : String) : String :=
  let rules := readRules (stripComments css.toList)
  String.ofList (Text.trimEnd (rulesText (scopeRules attr.toList rules)))

end LiveMarkup.Style
