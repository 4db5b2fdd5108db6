import ThemeMigration.Json.Value
import ThemeMigration.Migration

/-!
# Reports

What a run came to: counts over all files and an entry for each modified one.  Partial reports of
several workers are merged by adding counts and joining entries; a finished report has its entries
in the order of their paths, so it does not show how the files were shared out.
-/

namespace ThemeMigration

/-- A file that was modified, or would be. -/
structure FileEntry where
  path : Path
  replacements : Nat
  deriving DecidableEq, Repr, Inhabited

structure Report where
  filesScanned : Nat := 0
  filesModified : Nat := 0
  literals : LiteralCounts := {}
  filesSkipped : Nat := 0
  filesNotWritten : Nat := 0
  components : Nat := 0
  importsAdded : Nat := 0
  bindingsInserted : Nat := 0
  importsRemoved : Nat := 0
  dryRun : Bool := false
  files : List FileEntry := []
  deriving DecidableEq, Repr, Inhabited

namespace Report

/-- Count a file whose literals were decided, whether it is modified or not. -/
def recordScanned (r : Report) (c : FileCounts) : Report :=
  { r with
    filesScanned := r.filesScanned + 1
    components := r.components + c.components
    literals := r.literals + c.literals }

/-- Count a file whose new text was kept. -/
def recordModified (r : Report) (path : Path) (c : FileCounts) : Report :=
  { r with
    filesModified := r.filesModified + 1
    importsAdded := r.importsAdded + c.importAdded.toNat
    bindingsInserted := r.bindingsInserted + c.bindingsInserted
    importsRemoved := r.importsRemoved + c.importsRemoved
    files := r.files ++ [⟨path, c.literals.replaced⟩] }

/-- Count files that could not be read or parsed. -/
def recordSkipped (r : Report) (n : Nat) : Report := { r with filesSkipped := r.filesSkipped + n }

/-- Count files that could not be written. -/
def recordNotWritten (r : Report) (n : Nat) : Report :=
  { r with filesNotWritten := r.filesNotWritten + n }

/-- The report of two workers. -/
def merge (a b : Report) : Report where
  filesScanned := a.filesScanned + b.filesScanned
  filesModified := a.filesModified + b.filesModified
  literals := a.literals + b.literals
  filesSkipped := a.filesSkipped + b.filesSkipped
  filesNotWritten := a.filesNotWritten + b.filesNotWritten
  components := a.components + b.components
  importsAdded := a.importsAdded + b.importsAdded
  bindingsInserted := a.bindingsInserted + b.bindingsInserted
  importsRemoved := a.importsRemoved + b.importsRemoved
  dryRun := a.dryRun || b.dryRun
  files := a.files ++ b.files

/-- The report with its entries in the order of their paths. Entries of one path keep their
order. -/
def finish (r : Report) : Report :=
  { r with files := r.files.mergeSort fun a b => a.path.le b.path }

/-! ## Written forms -/

/-- The summary for a reader. -/
def summary (r : Report) : String :=
  let verb := if r.dryRun then "would modify" else "modified"
  let entry (e : FileEntry) : String := s!"  {e.path.text}: {e.replacements} replacements\n"
  s!"{r.filesScanned} files scanned, {r.filesModified} {verb}\n" ++
  String.join (r.files.map entry) ++
  s!"literals: {r.literals.replaced} rewritten, {r.literals.unmapped} unmapped, " ++
  s!"{r.literals.ineligible} ineligible property\n" ++
  (if r.literals.conflicting > 0 then
    s!"  {r.literals.conflicting} left alone where the binding name was already taken\n"
  else "") ++
  s!"components: {r.components} detected, {r.bindingsInserted} bindings inserted; " ++
  s!"imports: {r.importsAdded} added, {r.importsRemoved} removed\n" ++
  (if r.filesSkipped > 0 || r.filesNotWritten > 0 then
    s!"skipped: {r.filesSkipped} unparseable, {r.filesNotWritten} write failures\n"
  else "") ++
  (if r.filesModified > 0 && !r.dryRun then
    "\nNext steps:\n  1. run the type checker over the modified files\n" ++
    "  2. run the linter with --fix to normalize formatting"
  else "")

def toJson (r : Report) : Json :=
  .object [
    ("files_scanned", .natural r.filesScanned),
    ("files_modified", .natural r.filesModified),
    ("literals_rewritten", .natural r.literals.replaced),
    ("literals_skipped_unmapped", .natural r.literals.unmapped),
    ("literals_skipped_ineligible_property", .natural r.literals.ineligible),
    ("literals_skipped_binding_conflict", .natural r.literals.conflicting),
    ("files_skipped_parse", .natural r.filesSkipped),
    ("files_write_failed", .natural r.filesNotWritten),
    ("components_detected", .natural r.components),
    ("imports_added", .natural r.importsAdded),
    ("bindings_inserted", .natural r.bindingsInserted),
    ("imports_removed", .natural r.importsRemoved),
    ("dry_run", .bool r.dryRun),
    ("files", .array (r.files.map fun e =>
      .object [("path", .string e.path.text), ("replacements", .natural e.replacements)]))]

/-- The report as a JSON text. -/
def toJsonText (r : Report) : String := r.toJson.write 0

end Report

end ThemeMigration
