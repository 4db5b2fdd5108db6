import ThemeMigration.Config.Basic
import ThemeMigration.Toml.Reader
import ThemeMigration.Toml.Writer

/-!
# Configurations in TOML

A section is a table, and settings it does not know are ignored.  A section may also be written as
a list of its settings in their order.  A written configuration names every section and leaves out
the settings that are not given, so that it reads back as the same configuration.
-/

namespace ThemeMigration.Config

/-! ## Reading -/

abbrev Decoder (α : Type) := Toml → Except String α

namespace Decoder

def text : Decoder String
  | .string s => .ok s
  | _ => .error "a string is required"

def natural : Decoder Nat
  | .integer n => if 0 ≤ n then .ok n.toNat else .error "the number must not be negative"
  | _ => .error "an integer is required"

def flag : Decoder Bool
  | .boolean b => .ok b
  | _ => .error "true or false is required"

def list {α : Type} (item : Decoder α) : Decoder (List α)
  | .array items => items.mapM item
  | .tables items => (items.map (Toml.table .header)).mapM item
  | _ => .error "a list is required"

/-- A section's settings by name and by position. -/
def section? : Toml → Except String (String → Nat → Option Toml)
  | .table origin entries => .ok fun name _ => Toml.get? name (.table origin entries)
  | .array items => .ok fun _ position => items[position]?
  | .tables items => .ok fun _ position => items[position]?.map (Toml.table .header)
  | .moment _ => .ok fun _ _ => none
  | _ => .error "a table is required"

/-- A setting that may be missing. -/
def setting {α : Type} (settings : String → Nat → Option Toml) (name : String) (position : Nat)
    (value : Decoder α) : Except String (Option α) :=
  match settings name position with
  | none => .ok none
  | some v =>
    match value v with
    | .ok a => .ok (some a)
    | .error e => .error s!"{name}: {e}"

/-- A setting that must not be missing. -/
def required {α : Type} (settings : String → Nat → Option Toml) (name : String) (position : Nat)
    (value : Decoder α) : Except String α := do
  match ← setting settings name position value with
  | some a => .ok a
  | none => .error s!"{name} is missing"

def project : Decoder Project := fun v => do
  let settings ← section? v
  let tsconfig ← setting settings "tsconfig" 0 text
  let patterns ← setting settings "include" 1 (list text)
  pure { tsconfig, patterns := patterns.getD [] }

def scan : Decoder Scan := fun v => do
  let settings ← section? v
  let maxFileSize ← setting settings "max_file_size" 0 natural
  let threads ← setting settings "threads" 1 natural
  let exclude ← setting settings "exclude" 2 (list text)
  let respectGitignore ← setting settings "respect_gitignore" 3 flag
  let dryRun ← setting settings "dry_run" 4 flag
  pure { maxFileSize, threads, exclude, respectGitignore, dryRun }

def pathOverride : Decoder PathOverride := fun v => do
  let settings ← section? v
  let directory ← required settings "prefix" 0 text
  let moduleName ← required settings "module" 1 text
  pure { directory, moduleName }

def accessor : Decoder Accessor := fun v => do
  let settings ← section? v
  let moduleName ← setting settings "module" 0 text
  let exportName ← setting settings "export" 1 text
  let binding ← setting settings "binding" 2 text
  let aliases ← setting settings "aliases" 3 (list text)
  let overrides ← setting settings "path_overrides" 4 (list pathOverride)
  pure {
    moduleName, exportName, binding
    aliases := aliases.getD []
    overrides := overrides.getD [] }

def detector : Decoder Detector := fun v => do
  let settings ← section? v
  let wrappers ← setting settings "wrappers" 0 (list text)
  pure { wrappers }

def replacement : Decoder Replacement := fun v => do
  let settings ← section? v
  let extra ← setting settings "extra_color_properties" 0 (list text)
  pure { extraColorProperties := extra.getD [] }

/-- A table of texts. -/
def colors : Decoder (KeyTable String)
  | .table _ entries => do
    let pairs ← entries.mapM fun e =>
      match text e.2 with
      | .ok s => .ok (e.1, s)
      | .error message => .error s!"{e.1}: {message}"
    pure (.ofList pairs)
  | _ => .error "a table is required"

def mapping : Decoder Mapping := fun v => do
  let settings ← section? v
  let includeDefaults ← setting settings "include_defaults" 0 flag
  let colors ← setting settings "colors" 1 colors
  pure { includeDefaults, colors := colors.getD .empty }

def config : Decoder Config := fun v => do
  let settings ← section? v
  let project ← setting settings "project" 0 project
  let scan ← setting settings "scan" 1 scan
  let accessor ← setting settings "accessor" 2 accessor
  let detector ← setting settings "detector" 3 detector
  let replacement ← setting settings "rewriter" 4 replacement
  let mapping ← setting settings "mapping" 5 mapping
  pure {
    project := project.getD {}
    scan := scan.getD {}
    accessor := accessor.getD {}
    detector := detector.getD {}
    replacement := replacement.getD {}
    mapping := mapping.getD {} }

end Decoder

/-- The configuration of a text that was found under the given name. -/
def ofToml (origin text : String) : Except ConfigError Config :=
  match (Toml.parse text).bind Decoder.config with
  | .ok c => .ok c
  | .error message => .error (.malformed origin message)

/-! ## Writing -/

namespace Encoder

def texts (items : List String) : Toml := .array (items.map .string)

/-- The assignment of a setting that is given. -/
def given {α : Type} (name : String) (value : α → Toml) (setting : Option α) :
    List Toml.Statement :=
  match setting with
  | some a => [.assignment [name] (value a)]
  | none => []

def always (name : String) (value : Toml) : List Toml.Statement := [.assignment [name] value]

def project (c : Project) : List Toml.Statement :=
  .header ["project"] :: given "tsconfig" .string c.tsconfig ++ always "include" (texts c.patterns)

def scan (c : Scan) : List Toml.Statement :=
  .header ["scan"] :: given "max_file_size" (fun n => .integer (Int.ofNat n)) c.maxFileSize ++
    given "threads" (fun n => .integer (Int.ofNat n)) c.threads ++
    given "exclude" texts c.exclude ++
    given "respect_gitignore" .boolean c.respectGitignore ++
    given "dry_run" .boolean c.dryRun

def pathOverride (o : PathOverride) : List Toml.Statement :=
  .nextHeader ["accessor", "path_overrides"] :: always "prefix" (.string o.directory) ++
    always "module" (.string o.moduleName)

def accessor (c : Accessor) : List Toml.Statement :=
  .header ["accessor"] :: given "module" .string c.moduleName ++
    given "export" .string c.exportName ++ given "binding" .string c.binding ++
    always "aliases" (texts c.aliases) ++
    match c.overrides with
    | [] => always "path_overrides" (.array [])
    | overrides => overrides.flatMap pathOverride

def detector (c : Detector) : List Toml.Statement :=
  .header ["detector"] :: given "wrappers" texts c.wrappers

def replacement (c : Replacement) : List Toml.Statement :=
  .header ["rewriter"] :: always "extra_color_properties" (texts c.extraColorProperties)

/-- The section itself has a header only if it has a setting of its own. -/
def mapping (c : Mapping) : List Toml.Statement :=
  (match c.includeDefaults with
    | some b => .header ["mapping"] :: always "include_defaults" (.boolean b)
    | none => []) ++
    .header ["mapping", "colors"] ::
      c.colors.entries.map fun e => .assignment [e.1] (.string e.2)

def config (c : Config) : List Toml.Statement :=
  project c.project ++ scan c.scan ++ accessor c.accessor ++ detector c.detector ++
    replacement c.replacement ++ mapping c.mapping

end Encoder

/-- The configuration as a text.  A number beyond 63 bits has no place in one. -/
def toToml (c : Config) : Except ConfigError String :=
  let fits (n : Option Nat) : Bool := n.getD 0 < Toml.integerLimit
  if fits c.scan.maxFileSize && fits c.scan.threads then
    .ok (String.ofList (Toml.write (Encoder.config c)))
  else .error (.malformed "<serialization>" "an integer is out of range")

end ThemeMigration.Config
