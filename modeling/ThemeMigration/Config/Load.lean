import ThemeMigration.Config.Toml
import ThemeMigration.FileTree

/-!
# Layers of configuration

A configuration is put together from a file, environment variables and the command line, each layer
over the one before it and the file over a configuration without settings.  A layer replaces the
settings it has and leaves the others; entries of the colour table are replaced key by key.  The
result is validated as a whole.
-/

namespace ThemeMigration.Config

/-- The value of an optional setting in the higher of two layers that has it. -/
def override {α : Type} (lower upper : Option α) : Option α := upper.or lower

/-- A list in the higher of two layers in which it is not empty. -/
def overrideList {α : Type} (lower upper : List α) : List α :=
  if upper.isEmpty then lower else upper

/-- A configuration over another one. -/
def merge (base upper : Config) : Config where
  project := {
    tsconfig := override base.project.tsconfig upper.project.tsconfig
    patterns := overrideList base.project.patterns upper.project.patterns }
  scan := {
    maxFileSize := override base.scan.maxFileSize upper.scan.maxFileSize
    threads := override base.scan.threads upper.scan.threads
    exclude := override base.scan.exclude upper.scan.exclude
    respectGitignore := override base.scan.respectGitignore upper.scan.respectGitignore
    dryRun := override base.scan.dryRun upper.scan.dryRun }
  accessor := {
    moduleName := override base.accessor.moduleName upper.accessor.moduleName
    exportName := override base.accessor.exportName upper.accessor.exportName
    binding := override base.accessor.binding upper.accessor.binding
    aliases := overrideList base.accessor.aliases upper.accessor.aliases
    overrides := overrideList base.accessor.overrides upper.accessor.overrides }
  detector := { wrappers := override base.detector.wrappers upper.detector.wrappers }
  replacement := {
    extraColorProperties :=
      overrideList base.replacement.extraColorProperties upper.replacement.extraColorProperties }
  mapping := {
    includeDefaults := override base.mapping.includeDefaults upper.mapping.includeDefaults
    colors := base.mapping.colors.putAll upper.mapping.colors.entries }

/-! ## Environment -/

/-- Variables of the environment. -/
abbrev Environment := List (String × String)

/-- A natural number below 2 to the 64th: decimal digits, perhaps behind a plus sign. -/
def word? (s : String) : Option Nat :=
  let digits :=
    match s.toList with
    | '+' :: rest => rest
    | cs => cs
  if digits.isEmpty || !digits.all Char.isDigit then none
  else
    let n := Json.Token.decimal digits
    if n < Nat.pow 2 64 then some n else none

def flag? (s : String) : Option Bool :=
  let word := Text.lowerAscii (Text.trim s)
  if ["1", "true", "yes", "on"].contains word then some true
  else if ["0", "false", "no", "off"].contains word then some false
  else none

/-- The settings that the environment has. A variable that cannot be read has none. -/
def ofEnvironment (environment : Environment) : Config where
  scan := {
    maxFileSize := (environment.lookup "RECOLOR_MAX_FILE_SIZE").bind word?
    threads := (environment.lookup "RECOLOR_THREADS").bind word?
    dryRun := (environment.lookup "RECOLOR_DRY_RUN").bind flag? }

/-! ## Command line -/

/-- The settings that the command line can have. -/
structure Flags where
  tsconfig : Option String := none
  patterns : List String := []
  threads : Option Nat := none
  maxFileSize : Option Nat := none
  dryRun : Option Bool := none
  deriving DecidableEq, Repr, Inhabited

def ofFlags (f : Flags) : Config where
  project := { tsconfig := f.tsconfig, patterns := f.patterns }
  scan := { maxFileSize := f.maxFileSize, threads := f.threads, dryRun := f.dryRun }

/-! ## Files -/

/-- The name of the configuration file of a project. -/
def fileName : String := "recolor.toml"

/-- The configuration file at a path. -/
def readFile (t : FileTree) (p : Path) : Except ConfigError Config :=
  match t.readText? p with
  | none => .error (.fileNotFound p.text)
  | some text => ofToml p.text text

/-- The configuration of the file that is named, or else of the project's file if it has one. -/
def ofFile (t : FileTree) (root : Path) (named : Option Path) : Except ConfigError Config :=
  match named with
  | some p =>
    if t.isFile (root ++ p) then readFile t (root ++ p)
    else .error (.fileNotFound (root ++ p).text)
  | none => if t.isFile (root ++ ⟨fileName⟩) then readFile t (root ++ ⟨fileName⟩) else .ok {}

/-- The layers one over the other, with nothing set below the lowest. -/
def layers (file : Config) (environment : Environment) (flags : Flags) : Config :=
  ((({} : Config).merge file).merge (ofEnvironment environment)).merge (ofFlags flags)

/-- The valid configuration of a run. -/
def load (t : FileTree) (root : Path) (named : Option Path) (environment : Environment)
    (flags : Flags) : Except ConfigError Config := do
  let file ← ofFile t root named
  let c := layers file environment flags
  c.validate
  pure c

end ThemeMigration.Config
