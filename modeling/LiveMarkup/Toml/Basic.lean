/-! TOML values, and documents under construction. -/

namespace LiveMarkup

/-- A TOML value. Dates and times are not looked into, nor are numbers. -/
inductive Toml where
  | string (s : String)
  | number
  | bool (b : Bool)
  | datetime
  | array (items : List Toml)
  | table (entries : List (String × Toml))
  deriving Inhabited

namespace Toml

def get? (entries : List (String × Toml)) (key : String) : Option Toml :=
  (entries.find? fun e => e.1 == key).map (·.2)

inductive Origin where
  /-- By a header or as an inline table. -/
  | defined
  /-- On the way to a table with a header. -/
  | implied
  /-- By dotted keys. -/
  | dotted
  deriving DecidableEq, Repr

/-- An entry of a table that may still grow. -/
inductive Item where
  | value (v : Toml)
  | table (origin : Origin) (entries : List (String × Item))
  /-- Tables in a row, latest first. -/
  | tables (rows : List (List (String × Item)))

namespace Item

abbrev Entries := List (String × Item)

def find? (es : Entries) (key : String) : Option Item :=
  (es.find? fun e => e.1 == key).map (·.2)

def put (key : String) (item : Item) : Entries → Entries
  | [] => [(key, item)]
  | (k, i) :: es => if k = key then (key, item) :: es else (k, i) :: put key item es

/-- Changes the table at the end of a path, tables on the way being made where there are none.
Values are no tables, and dotted keys do not enter tables that are defined elsewhere. -/
def alter (isDotted : Bool) (change : Origin → Entries → Option (Origin × Entries)) :
    List String → Origin → Entries → Option (Origin × Entries)
  | [], origin, es => change origin es
  | key :: path, origin, es =>
    match find? es key with
    | none => do
      let (o, inner) ← alter isDotted change path (if isDotted then .dotted else .implied) []
      return (origin, put key (.table o inner) es)
    | some (.value _) => none
    | some (.tables []) => none
    | some (.tables (row :: rows)) => do
      let (_, inner) ← alter isDotted change path .defined row
      return (origin, put key (.tables (inner :: rows)) es)
    | some (.table o inner) =>
      if isDotted && o == .defined then none
      else do
        let (o, inner) ← alter isDotted change path o inner
        return (origin, put key (.table o inner) es)

/-- Adds an entry under a dotted key. No key is given twice, and only tables made by dotted keys are
added to by them. -/
def define (path : List String) (key : String) (v : Toml) (origin : Origin) (es : Entries) :
    Option (Origin × Entries) :=
  alter true (fun o es =>
    if !path.isEmpty && o != .dotted then none
    else if (find? es key).isSome then none
    else some (o, es ++ [(key, .value v)])) path origin es

/-- Begins a table under a header. It may have been on the way to another, but not more. -/
def openTable (path : List String) (key : String) (origin : Origin) (es : Entries) :
    Option (Origin × Entries) :=
  alter false (fun o es =>
    match find? es key with
    | none => some (o, put key (.table .defined []) es)
    | some (.table .implied inner) => some (o, put key (.table .defined inner) es)
    | some _ => none) path origin es

def openRow (path : List String) (key : String) (origin : Origin) (es : Entries) :
    Option (Origin × Entries) :=
  alter false (fun o es =>
    match find? es key with
    | none => some (o, put key (.tables [[]]) es)
    | some (.tables rows) => some (o, put key (.tables ([] :: rows)) es)
    | some _ => none) path origin es

mutual

def toToml : Item → Toml
  | .value v => v
  | .table _ es => .table (entriesToToml es)
  | .tables rows => .array (rowsToToml rows).reverse

def entriesToToml : List (String × Item) → List (String × Toml)
  | [] => []
  | (k, i) :: es => (k, i.toToml) :: entriesToToml es

def rowsToToml : List (List (String × Item)) → List Toml
  | [] => []
  | r :: rs => .table (entriesToToml r) :: rowsToToml rs

end

end Item

end Toml

end LiveMarkup
