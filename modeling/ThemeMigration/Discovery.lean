import ThemeMigration.Config.Basic
import ThemeMigration.IgnoreRules
import ThemeMigration.Script.Language

/-!
# Discovery

The files of a run: those that a walk from the root comes to, that one of the patterns selects and
no exclude pattern rejects, that are in a language and not too large.  Patterns match paths from
the root.  Selected files that are excluded or too large are counted.  The result is in the order of
paths, so it does not depend on the order of directory entries.  In a file tree every directory can
be listed and every file has a size, so the walk meets no errors, and there is no list of them.
-/

namespace ThemeMigration

open Script

/-- What discovery makes of a file. -/
inductive Eligibility where
  /-- No pattern selects the file, or it is in no language. -/
  | irrelevant
  | excluded
  | large
  | eligible
  deriving DecidableEq, Repr, Inhabited

structure Discovery where
  files : List Path
  skippedLarge : Nat
  skippedExcluded : Nat
  deriving DecidableEq, Repr, Inhabited

namespace Discovery

/-- The text of a pattern without a `./` in front. -/
def withoutDot (pattern : String) : String :=
  match pattern.toList with
  | '.' :: '/' :: cs => String.ofList cs
  | _ => pattern

/-- The glob of a pattern. -/
def readGlob (pattern : String) : Except ScanError Glob :=
  let text := withoutDot pattern
  match Glob.read .strict text with
  | .ok g => .ok g
  | .error f => .error (.invalidPattern pattern s!"error parsing glob '{text}': {f.message}")

/-- A file that a walk comes to. -/
structure Candidate where
  /-- The path from the root. -/
  relative : Path
  size : Nat
  deriving DecidableEq, Repr, Inhabited

/-- The files below a location that a walk comes to. -/
def walk (t : FileTree) (rules : IgnoreRules) (start : Location) : List Candidate :=
  t.files.filterMap fun (l, content) =>
    let names := l.drop start.length
    if start.isPrefixOf l && rules.reaches start names then
      some ⟨⟨"/".intercalate names⟩, content.size⟩
    else none

/-- What decides about the files of a walk. -/
structure Filter where
  patterns : List Glob
  exclude : List Glob
  maxFileSize : Nat
  deriving Repr, Inhabited

namespace Filter

def ofConfig (c : Config) : Except ScanError Filter := do
  let patterns ← c.project.patterns.mapM readGlob
  let exclude ← c.exclude.mapM readGlob
  pure ⟨patterns, exclude, c.maxFileSize⟩

def eligibility (f : Filter) (c : Candidate) : Eligibility :=
  if !f.patterns.any fun g => g.accepts c.relative.text then .irrelevant
  else if f.exclude.any fun g => g.accepts c.relative.text then .excluded
  else if (Language.ofExtension? c.relative.extension?).isNone then .irrelevant
  else if c.size > f.maxFileSize then .large
  else .eligible

end Filter

/-- The rules that a configuration respects. -/
def rules (t : FileTree) (c : Config) : IgnoreRules :=
  if c.respectGitignore then RuleFile.ofTree t else []

/-- The files below a root that a configuration asks for. -/
def run (t : FileTree) (root : Path) (c : Config) : Except ScanError Discovery :=
  match t.find root with
  | .ok (start, .directory) => do
    let filter ← Filter.ofConfig c
    let candidates := walk t (rules t c) start
    let having (e : Eligibility) := candidates.filter fun x => filter.eligibility x == e
    pure {
      files := ((having .eligible).map fun x => root ++ x.relative).mergeSort Path.le
      skippedLarge := (having .large).length
      skippedExcluded := (having .excluded).length }
  | _ => .error (.rootNotFound root)

end Discovery

end ThemeMigration
