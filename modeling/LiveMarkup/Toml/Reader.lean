import LiveMarkup.Toml.Scalar

/-! Reading TOML documents: lines with keys and values, under the headers of the tables they belong
to. -/

namespace LiveMarkup.Toml

def dropComment : List Char → List Char
  | '#' :: cs => cs.dropWhile isPlain
  | cs => cs

def skipLines : Nat → List Char → List Char
  | 0, cs => cs
  | fuel + 1, cs =>
    let rest := dropComment (skipSpace cs)
    match dropLineBreak? rest with
    | some after => skipLines fuel after
    | none => rest

/-- The text after the end of a line, where only white space and a comment are left. -/
def dropLineEnd? (cs : List Char) : Option (List Char) :=
  match dropComment (skipSpace cs) with
  | [] => some []
  | rest => dropLineBreak? rest

def isKeyChar (c : Char) : Bool := c.isAlphanum || c == '_' || c == '-'

def readKey? : List Char → Option (String × List Char)
  | '"' :: cs => (readLine? '"' (cs.length + 1) cs).map fun (s, rest) => (String.ofList s, rest)
  | '\'' :: cs => (readLine? '\'' (cs.length + 1) cs).map fun (s, rest) => (String.ofList s, rest)
  | cs =>
    let key := cs.takeWhile isKeyChar
    if key.isEmpty then none else some (String.ofList key, cs.dropWhile isKeyChar)

/-- A key with dots and the text after it: the way to a table, and the last key. At most `n`
keys. -/
def readPath? : Nat → List Char → Option ((List String × String) × List Char)
  | 0, _ => none
  | n + 1, cs => do
    let (key, rest) ← readKey? (skipSpace cs)
    match skipSpace rest with
    | '.' :: rest => do
      let ((path, last), rest) ← readPath? n rest
      return ((key :: path, last), rest)
    | rest => return (([], key), rest)

/-- How deep values nest, and how many keys a path has, at most. -/
def nestingLimit : Nat := 79

mutual

def readValue? (depth : Nat) : Nat → List Char → Option (Toml × List Char)
  | 0, _ => none
  | fuel + 1, cs =>
    match cs with
    | '"' :: rest => (readString? '"' rest).map fun (s, rest) => (.string s, rest)
    | '\'' :: rest => (readString? '\'' rest).map fun (s, rest) => (.string s, rest)
    | '[' :: rest =>
      if depth = 0 then none
      else (readItems? (depth - 1) fuel rest).map fun (vs, rest) => (.array vs, rest)
    | '\x7b' :: rest =>
      if depth = 0 then none
      else match skipSpace rest with
        | '\x7d' :: rest => some (.table [], rest)
        | rest => (readEntries? (depth - 1) fuel [] rest).map fun (es, rest) =>
          (.table (Item.entriesToToml es), rest)
    | cs => readWord? cs

/-- The items of an array up to its closing bracket. A comma may follow the last. -/
def readItems? (depth : Nat) : Nat → List Char → Option (List Toml × List Char)
  | 0, _ => none
  | fuel + 1, cs =>
    match skipLines (cs.length + 1) cs with
    | ']' :: rest => some ([], rest)
    | cs =>
      match readValue? depth fuel cs with
      | none => none
      | some (v, rest) =>
        match skipLines (rest.length + 1) rest with
        | ',' :: rest => (readItems? depth fuel rest).map fun (vs, rest) => (v :: vs, rest)
        | ']' :: rest => some ([v], rest)
        | _ => none

/-- The entries of an inline table up to its closing brace, at least one, after those of `es`. -/
def readEntries? (depth : Nat) : Nat → Item.Entries → List Char → Option (Item.Entries × List Char)
  | 0, _, _ => none
  | fuel + 1, es, cs =>
    match readPath? nestingLimit cs with
    | some ((path, key), '=' :: rest) =>
      match readValue? depth fuel (skipSpace rest) with
      | none => none
      | some (v, rest) =>
        match Item.define path key v .defined es with
        | none => none
        | some (_, es) =>
          match skipSpace rest with
          | ',' :: rest => readEntries? depth fuel es rest
          | '\x7d' :: rest => some (es, rest)
          | _ => none
    | _ => none

end

/-- A document under construction: the entries, and the way to the table that lines belong to. -/
structure Draft where
  entries : Item.Entries
  current : List String

namespace Draft

def openTable? (d : Draft) (path : List String) (key : String) : Option Draft :=
  (Item.openTable path key .defined d.entries).map fun r => ⟨r.2, path ++ [key]⟩

def openRow? (d : Draft) (path : List String) (key : String) : Option Draft :=
  (Item.openRow path key .defined d.entries).map fun r => ⟨r.2, path ++ [key]⟩

def define? (d : Draft) (path : List String) (key : String) (v : Toml) : Option Draft :=
  (Item.alter false (Item.define path key v) d.current .defined d.entries).map fun r =>
    { d with entries := r.2 }

end Draft

def readLineItem? (d : Draft) (cs : List Char) : Option (Draft × List Char) :=
  let header (open? : List String → String → Option Draft) (closing : List Char)
      (cs : List Char) : Option (Draft × List Char) := do
    let ((path, key), rest) ← readPath? nestingLimit cs
    if closing.isPrefixOf rest then
      let rest ← dropLineEnd? (rest.drop closing.length)
      let d ← open? path key
      return (d, rest)
    else none
  match cs with
  | '[' :: '[' :: rest => header d.openRow? [']', ']'] rest
  | '[' :: rest => header d.openTable? [']'] rest
  | cs =>
    match readPath? nestingLimit cs with
    | some ((path, key), '=' :: rest) => do
      let (v, rest) ← readValue? nestingLimit (2 * rest.length + 2) (skipSpace rest)
      let rest ← dropLineEnd? rest
      let d ← d.define? path key v
      return (d, rest)
    | _ => none

def readLinesOf? : Nat → Draft → List Char → Option Draft
  | 0, _, _ => none
  | fuel + 1, d, cs =>
    match skipLines (cs.length + 1) cs with
    | [] => some d
    | cs =>
      match readLineItem? d cs with
      | some (d, rest) => readLinesOf? fuel d rest
      | none => none

def dropMark : List Char → List Char
  | '\ufeff' :: cs => cs
  | cs => cs

def read? (text : String) : Option (List (String × Toml)) :=
  let cs := dropMark text.toList
  (readLinesOf? (cs.length + 1) ⟨[], []⟩ cs).map fun d => Item.entriesToToml d.entries

end LiveMarkup.Toml
