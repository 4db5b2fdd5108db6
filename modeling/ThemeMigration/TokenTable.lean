import ThemeMigration.Config.Basic

/-!
# Token tables

A token table gives the expression that stands for a colour literal.  It is built once for a run:
the default table if the configuration includes it, then the entries of the project, in the order
of their keys, each replacing what stands under the same normal form.  A key is a hexadecimal
colour, and a literal is looked up by its normal form, so blanks around it and the case of its
letters do not matter.  Short, full and alpha forms of a colour are keys of their own.
-/

namespace ThemeMigration

/-- The expressions under the normal forms of colours. -/
structure TokenTable where
  entries : KeyTable String
  deriving DecidableEq, Repr, Inhabited

namespace TokenTable

/-- A literal without blanks around it and in lower case. -/
def normalForm (literal : String) : String := Text.lowerAscii (Text.trim literal)

def isHexDigit (c : Char) : Bool :=
  c.isDigit || ('a' ≤ c && c ≤ 'f') || ('A' ≤ c && c ≤ 'F')

/-- A number sign before three, four, six or eight hexadecimal digits. -/
def isHexColor (s : String) : Bool :=
  match s.toList with
  | '#' :: digits => [3, 4, 6, 8].contains digits.length && digits.all isHexDigit
  | _ => false

def empty : TokenTable := ⟨.empty⟩

/-- What is wrong with an entry, if something is. -/
def entryFault? (field key expression : String) : Option ConfigError :=
  if !isHexColor (normalForm key) then
    some (.validationFailed (field ++ ".\"" ++ key ++ "\"")
      "keys must be #rgb, #rgba, #rrggbb or #rrggbbaa")
  else if Text.allBlank expression then
    some (.validationFailed (field ++ ".\"" ++ key ++ "\"") "token expression must not be empty")
  else none

/-- Put entries into a table, in their order; the first one with a fault is the error. -/
def extend (field : String) : TokenTable → List (String × String) → Except ConfigError TokenTable
  | table, [] => .ok table
  | table, (key, expression) :: rest =>
    match entryFault? field key expression with
    | some e => .error e
    | none => extend field ⟨table.entries.put (normalForm key) (Text.trim expression)⟩ rest

/-- The colours of the default theme. -/
def defaultEntries : List (String × String) := [
  ("#000", "theme.colors.onSurface"),
  ("#000000", "theme.colors.onSurface"),
  ("#0000004d", "theme.colors.onSurface + '4D'"),
  ("#00000080", "theme.colors.onSurface + '80'"),
  ("#171717", "theme.colors.onSurface"),
  ("#22c55e", "theme.colors.success"),
  ("#262626", "theme.palette.neutral[800]"),
  ("#3b82f6", "theme.colors.info"),
  ("#404040", "theme.palette.neutral[700]"),
  ("#525252", "theme.palette.neutral[600]"),
  ("#737373", "theme.colors.onMuted"),
  ("#831843", "theme.palette.brand[900]"),
  ("#9d174d", "theme.palette.brand[800]"),
  ("#a3a3a3", "theme.palette.neutral[400]"),
  ("#a855f7", "theme.colors.secondary"),
  ("#be185d", "theme.palette.brand[700]"),
  ("#d4d4d4", "theme.palette.neutral[300]"),
  ("#db2777", "theme.palette.brand[600]"),
  ("#e5e5e5", "theme.colors.border"),
  ("#ec4899", "theme.colors.primary"),
  ("#ec489933", "theme.colors.primary + '33'"),
  ("#ef4444", "theme.colors.danger"),
  ("#f472b6", "theme.palette.brand[400]"),
  ("#f59e0b", "theme.colors.warning"),
  ("#f5f5f5", "theme.palette.neutral[100]"),
  ("#f9a8d4", "theme.palette.brand[300]"),
  ("#fafafa", "theme.colors.bg"),
  ("#fbcfe8", "theme.palette.brand[200]"),
  ("#fce7f3", "theme.palette.brand[100]"),
  ("#fdf2f8", "theme.palette.brand[50]"),
  ("#fff", "theme.colors.surface"),
  ("#ffff", "theme.colors.surface"),
  ("#ffffff", "theme.colors.surface"),
  ("#ffffff80", "theme.colors.surface + '80'"),
  ("#ffffffff", "theme.colors.surface")]

def defaults : TokenTable := ⟨.ofList defaultEntries⟩

/-- The table of a configuration. The default entries go through the same checks as others. -/
def ofConfig (c : Config.Mapping) : Except ConfigError TokenTable := do
  let base ←
    if c.includeDefaults.getD true then empty.extend "mapping.defaults" defaultEntries
    else .ok empty
  base.extend "mapping.colors" c.colors.entries

/-- The table of explicit entries. -/
def ofEntries (entries : List (String × String)) : Except ConfigError TokenTable :=
  empty.extend "mapping.colors" (KeyTable.ofList entries).entries

/-- The expression for a literal. -/
def lookup? (t : TokenTable) (literal : String) : Option String :=
  t.entries.get? (normalForm literal)

def size (t : TokenTable) : Nat := t.entries.size

def isEmpty (t : TokenTable) : Bool := t.entries.isEmpty

end TokenTable

end ThemeMigration
