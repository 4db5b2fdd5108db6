import ThemeMigration.Error
import ThemeMigration.FileTree
import ThemeMigration.Json.Comments
import ThemeMigration.Json.Reader
import ThemeMigration.TsConfig.Basic

/-!
# Loading a tsconfig

A `tsconfig` sets the base directory and the path map itself or takes them over from the files it
extends; of several such files a later one counts before an earlier one, and what the file sets
itself counts first.  A path map is taken over as a whole, and its targets are resolved against the
base directory in force, or else against the directory of the file that declares it.  Only files
are extended, in chains of at most eight steps; bases that are packages contribute nothing.
-/

namespace ThemeMigration

namespace TsConfig

/-- What a `tsconfig` and the files it extends set. -/
structure Options where
  baseUrl : Option Path := none
  /-- The path map with the directory of the file that declares it. -/
  paths : Option (List (String × List String) × Path) := none
  deriving DecidableEq, Repr, Inhabited

namespace Options

/-- Settings over settings that they replace. -/
def above (upper lower : Options) : Options where
  baseUrl := upper.baseUrl.or lower.baseUrl
  paths := upper.paths.or lower.paths

end Options

/-- The most steps from a `tsconfig` to one that it extends. -/
def maxDepth : Nat := 8

def directoryOf (p : Path) : Path := p.parent?.getD ⟨""⟩

/-- The files and packages that a `tsconfig` extends. -/
def extendsList (config : Json) : List String :=
  match config.member? "extends" with
  | some (.string s) => [s]
  | some (.array items) => items.filterMap Json.string?
  | _ => []

/-- Whether an entry of the list names a file and not a package. -/
def namesFile (entry : String) : Bool :=
  "./".toList.isPrefixOf entry.toList || "../".toList.isPrefixOf entry.toList ||
    (Path.mk entry).isAbsolute

/-- The file that an entry names from a directory: the path as it is, or with `.json` behind it. -/
def extendedFile (t : FileTree) (directory : Path) (entry : String) : Path :=
  let p := (directory ++ ⟨entry⟩).normalize
  if !t.isFile p && !".json".toList.isSuffixOf entry.toList then ⟨p.text ++ ".json"⟩ else p

/-- What a `tsconfig` in a directory sets itself. -/
def ownOptions (directory : Path) (config : Json) : Options :=
  let options := config.member? "compilerOptions"
  let target (j : Json) : List String := (j.array?.getD []).filterMap Json.string?
  { baseUrl := (options.bind fun o => (o.member? "baseUrl").bind Json.string?).map fun s =>
      (directory ++ ⟨s⟩).normalize
    paths := (options.bind fun o => (o.member? "paths").bind Json.object?).map fun members =>
      ((KeyTable.ofList members).entries.map fun m => (m.1, target m.2), directory) }

/-- The JSON value of a `tsconfig`. -/
def readJson (t : FileTree) (p : Path) : Except ConfigError Json :=
  match t.readText? p with
  | none => .error (.fileNotFound p.text)
  | some text =>
    match Json.parse? (Json.strip text) with
    | none => .error (.malformed p.text "not a JSON text")
    | some config => .ok config

/-- What the entries of an extends list set, each one read by `load`. -/
def extendAll (t : FileTree) (file : Path) (room : Bool)
    (load : Path → Except ConfigError Options) :
    Options → List String → Except ConfigError Options
  | options, [] => .ok options
  | options, entry :: rest =>
    if !namesFile entry then extendAll t file room load options rest
    else if !room then
      .error (.invalidValue "extends" s!"extends chain deeper than {maxDepth} at {file.text}")
    else
      let parent := extendedFile t (directoryOf file) entry
      if !t.isFile parent then .error (.fileNotFound parent.text)
      else
        match load parent with
        | .error e => .error e
        | .ok inherited => extendAll t file room load (inherited.above options) rest

/-- What a `tsconfig` sets together with the files it extends, each one read by `load`. -/
def loadFile (t : FileTree) (room : Bool) (load : Path → Except ConfigError Options) (p : Path) :
    Except ConfigError Options :=
  match readJson t p with
  | .error e => .error e
  | .ok config =>
    match extendAll t p room load {} (extendsList config) with
    | .error e => .error e
    | .ok inherited => .ok ((ownOptions (directoryOf p) config).above inherited)

/-- What a `tsconfig` and the files it extends set, within the given number of steps. -/
def loadOptions (t : FileTree) : Nat → Path → Except ConfigError Options
  | 0 => loadFile t false fun _ => .ok {}
  | n + 1 => loadFile t true (loadOptions t n)

/-- The `tsconfig` at a path. -/
def load (t : FileTree) (p : Path) : Except ConfigError TsConfig :=
  if !t.isFile p then .error (.fileNotFound p.text)
  else
    let path := (t.workingDirectory ++ p).normalize
    (loadOptions t maxDepth path).map fun options =>
      let (paths, directory) := options.paths.getD ([], directoryOf path)
      { path, baseUrl := options.baseUrl, paths, pathsBase := options.baseUrl.getD directory }

end TsConfig

end ThemeMigration
