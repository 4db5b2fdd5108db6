import ThemeMigration.Path.Normal

/-!
# File trees

A file system as a finite table from locations to directories and files.  A location is the list of
names from the root.  A path is followed piece by piece, as the system does: a parent segment
leaves the directory it stands in, and every piece in front of the last has to lead to a directory.
Directories exist of their own; putting an entry makes the directories above it.  There are no
links, and every directory can be listed; what a system refuses about a file is no part of the tree.
-/

namespace ThemeMigration

/-- The names that lead from the root to an entry. -/
abbrev Location := List String

namespace FileTree

inductive Entry where
  | directory
  | file (content : ByteArray)
  deriving Inhabited

/-- Why the system refuses an operation. -/
inductive Failure where
  | missing
  | notDirectory
  | isDirectory
  deriving DecidableEq, Repr, Inhabited

def Failure.message : Failure → String
  | missing => "No such file or directory (os error 2)"
  | notDirectory => "Not a directory (os error 20)"
  | isDirectory => "Is a directory (os error 21)"

end FileTree

structure FileTree where
  entries : List (Location × FileTree.Entry)
  /-- The directory that relative paths start from. -/
  workingDirectory : Path

namespace FileTree

def empty (workingDirectory : Path) : FileTree := ⟨[], workingDirectory⟩

/-- The entry at a location. The root is always there. -/
def get? (t : FileTree) (l : Location) : Option Entry :=
  if l.isEmpty then some .directory else t.entries.lookup l

/-- Entries with one put at a location, in the place of what was there. -/
def putEntry (l : Location) (e : Entry) : List (Location × Entry) → List (Location × Entry)
  | [] => [(l, e)]
  | (k, f) :: rest => if k == l then (l, e) :: rest else (k, f) :: putEntry l e rest

/-- The tree with an entry put at a location that has its directories. -/
def put (t : FileTree) (l : Location) (e : Entry) : FileTree :=
  { t with entries := putEntry l e t.entries }

/-- The tree with the directories above a location. -/
def withParents (t : FileTree) (l : Location) : FileTree :=
  (List.range l.length).foldl
    (fun t n => if (t.get? (l.take n)).isSome then t else t.put (l.take n) .directory) t

/-- The tree with an entry and the directories above it. -/
def add (t : FileTree) (l : Location) (e : Entry) : FileTree := (t.withParents l).put l e

/-- The tree without an entry and without what lies below it. -/
def remove (t : FileTree) (l : Location) : FileTree :=
  { t with entries := t.entries.filter fun e => !l.isPrefixOf e.1 }

/-! ## Following paths -/

/-- Where pieces of a path lead from a location. Only the last one may lead to nothing. -/
def follow (t : FileTree) : Location → List String → Except Failure Location
  | l, [] => .ok l
  | l, piece :: rest =>
    match t.get? l with
    | none => .error .missing
    | some (.file _) => .error .notDirectory
    | some .directory =>
      if piece == "" || piece == "." then t.follow l rest
      else if piece == ".." then t.follow l.dropLast rest
      else t.follow (l ++ [piece]) rest

/-- Where a path leads. -/
def locate (t : FileTree) (p : Path) : Except Failure Location :=
  if p.text.isEmpty then .error .missing
  else t.follow [] ((t.workingDirectory ++ p).body.map String.ofList)

/-- The location and the entry that a path leads to. -/
def find (t : FileTree) (p : Path) : Except Failure (Location × Entry) :=
  match t.locate p with
  | .error e => .error e
  | .ok l =>
    match t.get? l with
    | none => .error .missing
    | some e => .ok (l, e)

def isFile (t : FileTree) (p : Path) : Bool :=
  match t.find p with
  | .ok (_, .file _) => true
  | _ => false

def isDirectory (t : FileTree) (p : Path) : Bool :=
  match t.find p with
  | .ok (_, .directory) => true
  | _ => false

/-- The path of a location. -/
def pathOf (l : Location) : Path := .withBody true (l.map String.toList)

/-- The path of what a path leads to, without dot segments. -/
def realPath? (t : FileTree) (p : Path) : Option Path :=
  match t.find p with
  | .ok (l, _) => some (pathOf l)
  | .error _ => none

/-! ## Contents -/

def read (t : FileTree) (p : Path) : Except Failure ByteArray :=
  match t.find p with
  | .ok (_, .file content) => .ok content
  | .ok (_, .directory) => .error .isDirectory
  | .error e => .error e

/-- The text of a file that is UTF-8. -/
def readText? (t : FileTree) (p : Path) : Option String :=
  match t.read p with
  | .ok content => String.fromUTF8? content
  | .error _ => none

/-- The path without the slashes it ends with. -/
def withoutEndSlashes (p : Path) : Path :=
  match p.text.toList.reverse.dropWhile (· == '/') with
  | [] => p
  | cs => ⟨String.ofList cs.reverse⟩

/-- The tree with a file written; a file that is not there is made if its directory is.  A path
that ends with a slash asks for a directory. -/
def write (t : FileTree) (p : Path) (content : ByteArray) : Except Failure FileTree :=
  match t.locate (withoutEndSlashes p) with
  | .error e => .error e
  | .ok l =>
    match t.get? l, t.get? l.dropLast with
    | some .directory, _ => .error .isDirectory
    | _, some .directory =>
      if withoutEndSlashes p = p then .ok (t.put l (.file content)) else .error .isDirectory
    | _, some (.file _) => .error .notDirectory
    | _, none => .error .missing

/-- What breaks a write off, whatever the tree holds.  A file that is opened to be written is first
emptied and takes its new content from the front on; a file that is not opened stays as it is. -/
structure WriteFault where
  cause : String
  /-- How many bytes are in the file when the write breaks off, if the file was opened. -/
  written : Option Nat := none
  deriving DecidableEq, Repr, Inhabited

/-- The content of a file after an attempt to give it a new one. -/
def contentAfter (fault : Option WriteFault) (old new : ByteArray) : ByteArray :=
  match fault with
  | none => new
  | some ⟨_, none⟩ => old
  | some ⟨_, some n⟩ => new.extract 0 n

/-- What an attempt to write a file comes to, and the tree that it leaves. -/
def tryWrite (t : FileTree) (p : Path) (content : ByteArray) (fault : Option WriteFault) :
    Except String Unit × FileTree :=
  match fault with
  | none =>
    match t.write p content with
    | .ok u => (.ok (), u)
    | .error f => (.error f.message, t)
  | some ⟨cause, none⟩ => (.error cause, t)
  | some ⟨cause, some n⟩ =>
    match t.write p (content.extract 0 n) with
    | .ok u => (.error cause, u)
    | .error f => (.error f.message, t)

/-- The files with their contents. -/
def files (t : FileTree) : List (Location × ByteArray) :=
  t.entries.filterMap fun e =>
    match e.2 with
    | .file content => some (e.1, content)
    | .directory => none

/-! ## Laws -/

theorem lookup_putEntry (l k : Location) (e : Entry) (entries : List (Location × Entry)) :
    (putEntry l e entries).lookup k = if k == l then some e else entries.lookup k := by
  induction entries with
  | nil =>
    simp only [putEntry, List.lookup_cons, List.lookup_nil]
    cases k == l <;> rfl
  | cons head rest ih =>
    obtain ⟨m, f⟩ := head
    simp only [putEntry]
    by_cases h : m = l
    · subst h
      simp only [beq_self_eq_true, if_true, List.lookup_cons]
      cases k == m <;> rfl
    · have : (m == l) = false := by simpa using h
      simp only [this, Bool.false_eq_true, if_false, List.lookup_cons, ih]
      by_cases hk : k = m
      · subst hk
        simp only [beq_self_eq_true]
        have : (k == l) = false := by simpa using h
        simp [this]
      · have : (k == m) = false := by simpa using hk
        simp [this]

theorem get?_put (t : FileTree) (l k : Location) (e : Entry) (h : k ≠ []) :
    (t.put l e).get? k = if k == l then some e else t.get? k := by
  have : k.isEmpty = false := by simpa using h
  simp only [get?, this, put, lookup_putEntry, Bool.false_eq_true, if_false]

end FileTree

end ThemeMigration
