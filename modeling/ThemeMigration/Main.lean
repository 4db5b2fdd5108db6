import ThemeMigration.CommandLine

/-!
# Program

The only module that touches the disk.  It reads what a run can see into a file tree, runs the
command line over the tree, and writes the files that the run changed.  What a run can see are the
working directory and the root with all they hold, and the rule files and settings in the
directories above them.
-/

namespace ThemeMigration.CommandLine

/-- The environment variables that the configuration knows. -/
def variableNames : List String :=
  ["RECOLOR_MAX_FILE_SIZE", "RECOLOR_THREADS", "RECOLOR_DRY_RUN"]

def readVariables : IO Config.Environment :=
  variableNames.filterMapM fun name => do
    return (← IO.getEnv name).map fun value => (name, value)

/-- Whether a walk of the disk goes below a location. Of a repository it needs the rules only. -/
def isEntered (l : Location) : Bool :=
  match l.dropWhile (· != ".git") with
  | [] | [".git"] | [".git", "info"] => true
  | _ => false

/-- Put a file of the disk into a tree. A file that cannot be read is left out. -/
def addFile (t : FileTree) (l : Location) : IO FileTree := do
  try
    let content ← IO.FS.readBinFile (FileTree.pathOf l).text
    return t.add l (.file content)
  catch _ => return t

/-- The names and kinds of the entries of a directory. A directory that cannot be read has none. -/
def entriesOf (l : Location) : IO (List (String × IO.FS.FileType)) := do
  try
    let here ← IO.FS.realPath (FileTree.pathOf l).text
    (← here.readDir).toList.mapM fun entry => do
      return (entry.fileName, (← entry.path.symlinkMetadata).type)
  catch _ => return []

/-- Put a directory of the disk with all it holds down to a depth into a tree. Links are left
out. -/
def addDirectory (t : FileTree) (l : Location) : Nat → IO FileTree
  | 0 => return t
  | depth + 1 => do
    (← entriesOf l).foldlM (fun tree (name, kind) =>
      let inner := l ++ [name]
      if kind == .dir && isEntered inner then addDirectory tree inner depth
      else if kind == .file then addFile tree inner
      else return tree) (t.add l .directory)

/-- More levels than directories on a disk can have. -/
def anyDepth : Nat := 4096

/-- Put the rule files and the settings of a directory into a tree. -/
def addSettings (t : FileTree) (l : Location) : IO FileTree := do
  let settings := (← entriesOf l).filterMap fun (name, kind) =>
    if kind == .file && name.endsWith ".json" then some [name] else none
  (RuleKind.all.map RuleKind.location ++ settings).foldlM
    (fun tree names => addFile tree (l ++ names)) t

/-- The names of a path without dot segments. -/
def namesOf (p : Path) : Location :=
  p.components.filterMap fun
    | .name n => some n
    | _ => none

/-- Put a directory into a tree with all it holds, and the settings of the directories above it. -/
def addWithAncestors (t : FileTree) (l : Location) : IO FileTree := do
  let tree ← (List.range l.length).foldlM (fun tree n => addSettings tree (l.take n)) t
  addDirectory tree l anyDepth

/-- The files that a command line is about. -/
def readDisk (arguments : List String) : IO FileTree := do
  let current : Path := ⟨(← IO.FS.realPath ".").toString⟩
  let tree ← addWithAncestors (.empty current) (namesOf current)
  match read arguments with
  | .error _ => return tree
  | .ok a =>
    let root := (current ++ a.root).normalize
    if root.startsWith current then return tree
    else if ← (← IO.FS.realPath root.text).isDir then addWithAncestors tree (namesOf root)
    else return tree

/-- Write the files of a tree that differ from those of the tree before. -/
def writeChanges (before after : FileTree) : IO Unit :=
  after.files.forM fun (l, content) =>
    if before.files.lookup l == some content then pure ()
    else IO.FS.writeBinFile (FileTree.pathOf l).text content

end ThemeMigration.CommandLine

open ThemeMigration in
/-- Run the command line on the disk. -/
def main (arguments : List String) : IO UInt32 := do
  let tree ← CommandLine.readDisk arguments
  let exit := CommandLine.run tree (← CommandLine.readVariables) arguments
  CommandLine.writeChanges tree exit.tree
  IO.print exit.output
  exit.messages.forM IO.eprintln
  return exit.code.toUInt32
