import ThemeMigration.Config.Load
import ThemeMigration.Run

/-!
# Command line

The arguments name the patterns of a run and its `tsconfig`; other options go over the
configuration file or choose the form of the report.  Arguments are read one by one from the left:
the first one that is not understood ends the reading, and so does a request for help or for the
version.  The program leaves the tree that its session reached, whether that ended with an error or
not.
-/

namespace ThemeMigration.CommandLine

structure Arguments where
  patterns : List String
  tsconfig : String
  root : Path
  config : Option Path
  dryRun : Bool
  threads : Option Nat
  json : Bool
  deriving DecidableEq, Repr, Inhabited

/-- What ends the reading of arguments early. -/
inductive Halt where
  | misused
  | help
  | version
  deriving DecidableEq, Repr, Inhabited

/-- An option with a value. -/
inductive Setting where
  | tsconfig
  | root
  | config
  | threads
  deriving DecidableEq, Repr, Inhabited

namespace Setting

def ofName? : String → Option Setting
  | "tsconfig" => some tsconfig
  | "root" => some root
  | "config" => some config
  | "threads" => some threads
  | _ => none

end Setting

/-- An option without a value. -/
inductive Switch where
  | dryRun
  | json
  | help
  | version
  deriving DecidableEq, Repr, Inhabited

namespace Switch

def ofName? : String → Option Switch
  | "dry-run" => some dryRun
  | "json" => some json
  | "help" => some help
  | "version" => some version
  | _ => none

def ofLetter? : Char → Option Switch
  | 'd' => some dryRun
  | 'h' => some help
  | 'V' => some version
  | _ => none

end Switch

/-- Arguments that have been read. -/
structure Partial where
  patterns : List String := []
  tsconfig : Option String := none
  root : Option String := none
  config : Option String := none
  dryRun : Bool := false
  threads : Option Nat := none
  json : Bool := false
  deriving DecidableEq, Repr, Inhabited

namespace Partial

/-- Give a setting its value. A setting is given once, and a path is not empty. -/
def set (a : Partial) (s : Setting) (value : String) : Except Halt Partial :=
  match s with
  | .tsconfig =>
    if a.tsconfig.isSome || value.isEmpty then .error .misused
    else .ok { a with tsconfig := some value }
  | .root =>
    if a.root.isSome || value.isEmpty then .error .misused else .ok { a with root := some value }
  | .config =>
    if a.config.isSome || value.isEmpty then .error .misused
    else .ok { a with config := some value }
  | .threads =>
    match Config.word? value with
    | none => .error .misused
    | some n => if a.threads.isSome then .error .misused else .ok { a with threads := some n }

/-- Turn a switch on, which can be done once. -/
def turnOn (a : Partial) (s : Switch) : Except Halt Partial :=
  match s with
  | .dryRun => if a.dryRun then .error .misused else .ok { a with dryRun := true }
  | .json => if a.json then .error .misused else .ok { a with json := true }
  | .help => .error .help
  | .version => .error .version

/-- Turn on the switch of a letter. -/
def turnOnLetter (a : Partial) (c : Char) : Except Halt Partial :=
  match Switch.ofLetter? c with
  | some s => a.turnOn s
  | none => .error .misused

def addPattern (a : Partial) (pattern : String) : Partial :=
  { a with patterns := a.patterns ++ [pattern] }

/-- The arguments, if the ones that a run needs are among them. -/
def complete (a : Partial) : Except Halt Arguments :=
  match a.tsconfig with
  | none => .error .misused
  | some tsconfig =>
    if a.patterns.isEmpty then .error .misused
    else
      .ok {
        patterns := a.patterns
        tsconfig
        root := ⟨a.root.getD "."⟩
        config := a.config.map Path.mk
        dryRun := a.dryRun
        threads := a.threads
        json := a.json }

end Partial

/-- The form of an argument. -/
inductive Form where
  | plain
  /-- Letters behind a single dash. -/
  | letters (letters : List Char)
  /-- A name behind two dashes, perhaps with a value behind an equals sign. -/
  | long (name : String) (value : Option String)
  /-- Two dashes, which make patterns of all further arguments. -/
  | separator
  deriving DecidableEq, Repr, Inhabited

def formOf (argument : String) : Form :=
  match argument.toList with
  | ['-', '-'] => .separator
  | '-' :: '-' :: cs =>
    let name := String.ofList (cs.takeWhile (· != '='))
    match cs.dropWhile (· != '=') with
    | [] => .long name none
    | _ :: value => .long name (some (String.ofList value))
  | '-' :: c :: cs => .letters (c :: cs)
  | _ => .plain

/-- Read arguments on. -/
def readOn (a : Partial) : List String → Except Halt Arguments
  | [] => a.complete
  | argument :: rest =>
    match formOf argument with
    | .plain => readOn (a.addPattern argument) rest
    | .separator => (rest.foldl Partial.addPattern a).complete
    | .letters cs =>
      match cs.foldlM Partial.turnOnLetter a with
      | .ok b => readOn b rest
      | .error h => .error h
    | .long name value =>
      match Setting.ofName? name, value, Switch.ofName? name with
      | some s, some v, _ =>
        match a.set s v with
        | .ok b => readOn b rest
        | .error h => .error h
      | some s, none, _ =>
        match rest with
        | [] => .error .misused
        | v :: rest =>
          if formOf v == .plain then
            match a.set s v with
            | .ok b => readOn b rest
            | .error h => .error h
          else .error .misused
      | none, none, some s =>
        match a.turnOn s with
        | .ok b => readOn b rest
        | .error h => .error h
      | _, _, _ => .error .misused

/-- The arguments of a command line. -/
def read (arguments : List String) : Except Halt Arguments := readOn {} arguments

namespace Arguments

/-- The settings of the configuration that the arguments have. -/
def flags (a : Arguments) : Config.Flags where
  tsconfig := some a.tsconfig
  patterns := a.patterns
  threads := a.threads
  dryRun := if a.dryRun then some true else none

end Arguments

/-! ## The program -/

def version : String := "recolor 0.1.0\n"

def help : String :=
  "Migrate hardcoded color literals in components to semantic theme tokens\n\n" ++
  "Usage: recolor [OPTIONS] --tsconfig <TSCONFIG> <PATTERNS>...\n\n" ++
  "Arguments:\n" ++
  "  <PATTERNS>...  Glob patterns selecting the files to migrate, relative to the root\n\n" ++
  "Options:\n" ++
  "      --tsconfig <TSCONFIG>  tsconfig used for module resolution\n" ++
  "      --root <ROOT>          Project root. Defaults to the current directory [default: .]\n" ++
  "      --config <CONFIG>      Config file to use instead of `recolor.toml` in the root\n" ++
  "  -d, --dry-run              Compute the migration but write nothing\n" ++
  "      --threads <THREADS>    Worker threads (0 = one per core)\n" ++
  "      --json                 Print the report as JSON\n" ++
  "  -h, --help                 Print help\n" ++
  "  -V, --version              Print version\n"

/-- How the program ends. -/
structure Exit where
  code : Nat
  output : String
  /-- What is said beside the output. -/
  messages : List String
  /-- The file tree that the program leaves. -/
  tree : FileTree

/-- The run of arguments that were understood, up to its result. -/
def migrate (work : Run.Work) (environment : Config.Environment) (a : Arguments) :
    Session RunError (Collected Report) := do
  let c ← Session.check fun t =>
    (Config.load t a.root a.config environment a.flags).mapError .config
  let r ← Session.check fun t => Run.prepare t a.root c
  r.execute work false

/-- The report in the form that the arguments ask for. -/
def Arguments.written (a : Arguments) (r : Report) : String :=
  (if a.json then r.toJsonText else r.summary) ++ "\n"

/-- The program with its arguments and the variables of its environment, for a way to get through
the files of a run. -/
def runWith (work : Run.Work) (t : FileTree) (environment : Config.Environment)
    (arguments : List String) : Exit :=
  match read arguments with
  | .error .misused => ⟨2, "", ["arguments not understood; for more information, try '--help'"], t⟩
  | .error .help => ⟨0, help, [], t⟩
  | .error .version => ⟨0, version, [], t⟩
  | .ok a =>
    match (migrate work environment a).start t with
    | (.error e, tree) => ⟨1, "", [coded e.code e.message], tree⟩
    | (.ok result, tree) =>
      let messages := result.errors.map fun e => coded e.code e.message
      ⟨0, a.written result.value, messages, tree⟩

/-- The program, which gets through the files one after the other. -/
def run (t : FileTree) (environment : Config.Environment) (arguments : List String) : Exit :=
  runWith Run.inTurn t environment arguments

end ThemeMigration.CommandLine
