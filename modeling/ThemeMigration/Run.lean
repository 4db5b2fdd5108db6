import ThemeMigration.Collected
import ThemeMigration.Discovery
import ThemeMigration.Report
import ThemeMigration.Session
import ThemeMigration.TsConfig.Load

/-!
# Runs

A run migrates the files that discovery finds, one after the other.  A visit reads a file and
transforms its text in memory; only then is a changed text written, unless the run is a dry one.
Visits are independent of each other, and each is recorded in the report on its own.  Faults of the
configuration and of discovery end a run before it reads the first source file; an error of one
file stands beside the report.  How workers share the files of a run is left open here: a run is
executed with a given way to get through its files, and one after the other is such a way.
-/

namespace ThemeMigration

/-- The source file at a path. -/
def SourceFile.load (t : FileTree) (p : Path) : Except SourceError SourceFile :=
  match t.read p with
  | .error f => .error (.unreadable p f.message)
  | .ok content =>
    match String.fromUTF8? content with
    | none => .error (.notUtf8 p)
    | some text => SourceFile.ofText p text

/-- Write a text into a file, unless the run is a dry one.  An attempt that fails can leave a part
of the text in the file. -/
def FileTree.save (t : FileTree) (p : Path) (text : String) (dryRun : Bool)
    (fault : Option FileTree.WriteFault) : Except WriteError Unit × FileTree :=
  if dryRun then (.ok (), t)
  else
    let (done, tree) := t.tryWrite p text.toUTF8 fault
    (done.mapError fun cause => ⟨p, cause⟩, tree)

/-- What became of a file of a run. -/
inductive Visit where
  /-- The file could not be read or parsed. -/
  | refused (error : SourceError)
  | unchanged (counts : FileCounts)
  | changed (counts : FileCounts) (text : String)
  | notWritten (counts : FileCounts) (error : WriteError)
  deriving DecidableEq, Repr, Inhabited

namespace Visit

/-- Read a file and transform its text. -/
def read (m : Migration) (t : FileTree) (p : Path) : Visit :=
  match SourceFile.load t p with
  | .error e => .refused e
  | .ok file =>
    let outcome := m.transform file
    match outcome.text with
    | none => .unchanged outcome.counts
    | some text => .changed outcome.counts text

/-- Write what a visit changed. -/
def save (fault : Option FileTree.WriteFault) (m : Migration) (t : FileTree) (p : Path)
    (v : Visit) : Visit × FileTree :=
  match v with
  | .changed counts text =>
    match t.save p text m.dryRun fault with
    | (.ok _, tree) => (v, tree)
    | (.error e, tree) => (.notWritten counts e, tree)
  | _ => (v, t)

/-- The report and the errors of a run with one more visit. -/
def record (root p : Path) (v : Visit) (r : Collected Report) : Collected Report :=
  match v with
  | .refused e =>
    { r with
      value := { r.value with
        filesScanned := r.value.filesScanned + 1
        filesSkipped := r.value.filesSkipped + 1 } }.add (.source e)
  | .unchanged counts => { r with value := r.value.recordScanned counts }
  | .changed counts _ =>
    { r with value := (r.value.recordScanned counts).recordModified (p.below root) counts }
  | .notWritten counts e =>
    { r with value := (r.value.recordScanned counts).recordNotWritten 1 }.add (.write e)

end Visit

/-- A run that is ready to start. -/
structure Run where
  config : Config
  migration : Migration
  deriving Repr, Inhabited

namespace Run

/-- The run that a configuration asks for below a root. -/
def prepare (t : FileTree) (root : Path) (c : Config) : Except RunError Run :=
  match t.realPath? root with
  | none => .error (.scan (.rootNotFound root))
  | some root =>
    if c.project.patterns.isEmpty then
      .error (.config
        (.validationFailed "project.include" "at least one file pattern is required"))
    else
      let migration := do
        let tsconfig ← TsConfig.load t (← c.tsconfigPath root)
        Migration.ofConfig c root tsconfig
      match migration with
      | .error e => .error (.config e)
      | .ok m => .ok ⟨c, m⟩

/-- A file tree with the report and the errors so far. -/
structure State where
  tree : FileTree
  result : Collected Report

/-- Migrate one file. -/
def step (r : Run) (s : State) (p : Path) : State :=
  let (visit, tree) := (Visit.read r.migration s.tree p).save none r.migration s.tree p
  ⟨tree, visit.record r.migration.root p s.result⟩

/-- Migrate files one after the other. -/
def migrate (r : Run) (t : FileTree) (files : List Path) : State :=
  files.foldl r.step ⟨t, { value := {} }⟩

/-- The result of a run in its last form. -/
def settle (r : Run) (cancelled : Bool) (result : Collected Report) : Collected Report :=
  let finished := { result with
    value := { result.value.finish with dryRun := r.migration.dryRun } }
  if cancelled then finished.add .cancelled else finished

/-- A way to get the files of a run migrated, with what they come to and the tree it leaves. -/
abbrev Work := Run → List Path → StateM FileTree (Collected Report)

/-- One file after the other. -/
def inTurn : Work := fun r files t =>
  let s := r.migrate t files
  (s.result, s.tree)

/-- Discover files and have them migrated. A run that is cancelled starts no file. -/
def execute (r : Run) (work : Work) (cancelled : Bool) : Session RunError (Collected Report) := do
  let discovery ← Session.check fun t =>
    (Discovery.run t r.migration.root r.config).mapError .scan
  let result ← work r (if cancelled then [] else discovery.files)
  return r.settle cancelled result

end Run

end ThemeMigration
