import ThemeMigration.KeyTable
import ThemeMigration.Error
import ThemeMigration.Text.Blank

/-!
# Configuration

The settings of a migration in six sections.  A setting that is not given stays `none`, which keeps
it apart from one that is given as empty; the functions named after a setting give the value that
counts.  A valid configuration names the accessor module and can use the accessor's two names in a
declaration.
-/

namespace ThemeMigration

/-- Files below a directory import the accessor from a module of their own. -/
structure PathOverride where
  directory : String
  moduleName : String
  deriving DecidableEq, Repr, Inhabited

namespace Config

structure Project where
  tsconfig : Option String := none
  /-- Glob patterns of the files to migrate. -/
  patterns : List String := []
  deriving DecidableEq, Repr, Inhabited

structure Scan where
  /-- The size in bytes beyond which a file is left out. -/
  maxFileSize : Option Nat := none
  /-- The number of workers; zero leaves the choice to the machine. -/
  threads : Option Nat := none
  exclude : Option (List String) := none
  respectGitignore : Option Bool := none
  /-- Whether the run computes everything and writes nothing. -/
  dryRun : Option Bool := none
  deriving DecidableEq, Repr, Inhabited

/-- How the theme accessor is imported and bound. -/
structure Accessor where
  moduleName : Option String := none
  exportName : Option String := none
  binding : Option String := none
  /-- Other specifiers of the accessor module. -/
  aliases : List String := []
  overrides : List PathOverride := []
  deriving DecidableEq, Repr, Inhabited

structure Detector where
  /-- Callees whose first argument is the component. -/
  wrappers : Option (List String) := none
  deriving DecidableEq, Repr, Inhabited

structure Replacement where
  extraColorProperties : List String := []
  deriving DecidableEq, Repr, Inhabited

structure Mapping where
  includeDefaults : Option Bool := none
  colors : KeyTable String := .empty
  deriving DecidableEq, Repr, Inhabited

end Config

structure Config where
  project : Config.Project := {}
  scan : Config.Scan := {}
  accessor : Config.Accessor := {}
  detector : Config.Detector := {}
  replacement : Config.Replacement := {}
  mapping : Config.Mapping := {}
  deriving DecidableEq, Repr, Inhabited

namespace Config

/-! ## Values that count -/

def defaultExclude : List String := ["**/node_modules/**", "**/*.d.ts"]

def defaultWrappers : List String := ["memo", "forwardRef", "React.memo", "React.forwardRef"]

def maxFileSize (c : Config) : Nat := c.scan.maxFileSize.getD 1048576

def threads (c : Config) : Nat := c.scan.threads.getD 0

def exclude (c : Config) : List String := c.scan.exclude.getD defaultExclude

def respectGitignore (c : Config) : Bool := c.scan.respectGitignore.getD true

def dryRun (c : Config) : Bool := c.scan.dryRun.getD false

def accessorModule (c : Config) : String := c.accessor.moduleName.getD "@/theme"

def accessorExport (c : Config) : String := c.accessor.exportName.getD "useTheme"

def accessorBinding (c : Config) : String := c.accessor.binding.getD "theme"

def wrappers (c : Config) : List String := c.detector.wrappers.getD defaultWrappers

def includeDefaults (c : Config) : Bool := c.mapping.includeDefaults.getD true

/-! ## Validity -/

def isNameStart (c : Char) : Bool := c.isAlpha || c == '_' || c == '$'

/-- A name of ASCII letters, digits, underscores and dollar signs that begins with no digit. -/
def isName (s : String) : Bool :=
  match s.toList with
  | [] => false
  | c :: cs => isNameStart c && cs.all fun d => isNameStart d || d.isDigit

/-- The first setting that is not valid. -/
def firstFault? (c : Config) : Option ConfigError :=
  if c.scan.maxFileSize == some 0 then
    some (.validationFailed "scan.max_file_size" "must be greater than 0")
  else if Text.allBlank c.accessorModule then
    some (.validationFailed "accessor.module" "must not be empty")
  else if !isName c.accessorExport then some (badName "accessor.export" c.accessorExport)
  else if !isName c.accessorBinding then some (badName "accessor.binding" c.accessorBinding)
  else
    (c.accessor.overrides.findIdx? fun o => Text.allBlank o.moduleName).map fun i =>
      .validationFailed s!"accessor.path_overrides[{i}].module" "must not be empty"
where
  badName (field name : String) : ConfigError :=
    .invalidValue field ("`" ++ name ++ "` is not a valid identifier")

def validate (c : Config) : Except ConfigError Unit :=
  match c.firstFault? with
  | none => .ok ()
  | some e => .error e

/-! ## Paths -/

/-- The `tsconfig` of a project; module resolution cannot do without one. -/
def tsconfigPath (c : Config) (root : Path) : Except ConfigError Path :=
  match c.project.tsconfig with
  | some p => .ok (root ++ ⟨p⟩)
  | none => .error (.validationFailed "project.tsconfig" "a tsconfig path is required")

end Config

end ThemeMigration
