/-!
# TOML documents

A document is a sequence of statements: table headers, and assignments to keys of the table that
the last header opened.  Applying the statements one after the other builds the table of the whole
document.  How a table came about decides what may still be added to it: a table that only a
longer header implies can get a header of its own, a table made by a dotted key can get further
dotted keys, and a table that stands in braces is complete.
-/

namespace ThemeMigration.Toml

/-- How a table came about. -/
inductive Origin where
  /-- It has a header of its own. -/
  | header
  /-- It lies on the way to a header. -/
  | implied
  /-- It lies on the way of a dotted key. -/
  | dotted
  /-- It stands in braces. -/
  | inline
  deriving DecidableEq, Repr, Inhabited

end Toml

/-- A TOML value.  Numbers with a fraction, dates and times keep their spelling. -/
inductive Toml where
  | string (value : String)
  | integer (value : Int)
  | boolean (value : Bool)
  | float (spelling : String)
  | moment (spelling : String)
  | array (items : List Toml)
  | table (origin : Toml.Origin) (entries : List (String × Toml))
  /-- The tables under headers in double brackets. -/
  | tables (items : List (List (String × Toml)))
  deriving Repr, Inhabited

namespace Toml

/-- A table while it is built. -/
structure Table where
  origin : Origin
  entries : List (String × Toml)
  deriving Repr, Inhabited

namespace Table

def toToml (t : Table) : Toml := .table t.origin t.entries

def empty (origin : Origin) : Table := ⟨origin, []⟩

/-- Entries with the value of a key changed, or a value put behind them if the key is new. -/
def changeEntry (key : String) (change : Option Toml → Option Toml) :
    List (String × Toml) → Option (List (String × Toml))
  | [] => (change none).map fun v => [(key, v)]
  | (k, v) :: rest =>
    if k == key then (change (some v)).map fun w => (k, w) :: rest
    else (changeEntry key change rest).map ((k, v) :: ·)

def change (key : String) (f : Option Toml → Option Toml) (t : Table) : Option Table :=
  (changeEntry key f t.entries).map fun es => ⟨t.origin, es⟩

/-- Change the table that a path leads to; tables on the way are made.  A path of a dotted key
leads through tables without headers only.  Tables in double brackets are entered at the last
one. -/
def changeAt (dotted : Bool) (f : Table → Option Table) : List String → Table → Option Table
  | [], t => f t
  | key :: rest, t =>
    t.change key fun
      | none =>
        (changeAt dotted f rest (empty (if dotted then .dotted else .implied))).map toToml
      | some (.table origin entries) =>
        if origin == .inline || (dotted && origin == .header) then none
        else (changeAt dotted f rest ⟨origin, entries⟩).map toToml
      | some (.tables items) =>
        match items.getLast? with
        | none => none
        | some last =>
          (changeAt dotted f rest ⟨.header, last⟩).map fun t =>
            .tables (items.dropLast ++ [t.entries])
      | some _ => none

/-- Put a value under a key that is not there yet. -/
def addEntry (key : String) (value : Toml) (t : Table) : Option Table :=
  t.change key fun
    | none => some value
    | some _ => none

/-- Assign a value to a dotted key. -/
def assign (path : List String) (value : Toml) (t : Table) : Option Table :=
  match path.getLast? with
  | none => none
  | some key =>
    changeAt true (fun u =>
      if (u.origin == .dotted) == path.dropLast.isEmpty then none else u.addEntry key value)
      path.dropLast t

/-- Open the table of a header. -/
def openTable (path : List String) (t : Table) : Option Table :=
  match path.getLast? with
  | none => none
  | some key =>
    changeAt false (change key fun
      | none => some (.table .header [])
      | some (.table .implied entries) => some (.table .header entries)
      | some _ => none) path.dropLast t

/-- Open one more table of a header in double brackets. -/
def openNext (path : List String) (t : Table) : Option Table :=
  match path.getLast? with
  | none => none
  | some key =>
    changeAt false (change key fun
      | none => some (.tables [[]])
      | some (.tables items) => some (.tables (items ++ [[]]))
      | some _ => none) path.dropLast t

end Table

inductive Statement where
  | header (path : List String)
  | nextHeader (path : List String)
  | assignment (path : List String) (value : Toml)
  deriving Repr, Inhabited

/-- A document while it is built. -/
structure Builder where
  root : Table
  /-- The path of the last header. -/
  current : List String
  deriving Repr, Inhabited

namespace Builder

def initial : Builder := ⟨.empty .header, []⟩

def step (b : Builder) : Statement → Option Builder
  | .header path => (b.root.openTable path).map fun t => ⟨t, path⟩
  | .nextHeader path => (b.root.openNext path).map fun t => ⟨t, path⟩
  | .assignment path value =>
    (Table.changeAt false (Table.assign path value) b.current b.root).map fun t =>
      { b with root := t }

end Builder

/-- The table of a document. -/
def ofStatements? (statements : List Statement) : Option Toml :=
  (statements.foldlM Builder.step Builder.initial).map fun b => b.root.toToml

/-- The value of a key. -/
def get? (key : String) : Toml → Option Toml
  | .table _ entries => (entries.find? fun e => e.1 == key).map (·.2)
  | _ => none

end Toml

end ThemeMigration
