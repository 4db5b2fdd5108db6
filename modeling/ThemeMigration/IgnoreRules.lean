import ThemeMigration.FileTree
import ThemeMigration.Glob.Match
import ThemeMigration.Glob.Reader
import ThemeMigration.Text.Blank

/-!
# Ignore rules

A directory can hold up to three files of rules about what lies below it.  A rule is a glob over the
path from that directory; it ignores what it matches, or keeps it.  Within a file the last rule
that matches decides, among files of one kind the deepest one that has such a rule, and of the
kinds the stronger one.  A name that begins with a dot is ignored unless a rule keeps it.  The rules
that a user of the version control sets for all projects, which would be weaker than all of these,
stand outside of the project and are left out.
-/

namespace ThemeMigration

structure IgnoreRule where
  glob : Glob
  /-- The rule keeps what it matches. -/
  keeps : Bool
  onlyDirectories : Bool
  deriving Repr, Inhabited

namespace IgnoreRule

/-- A line without the blanks at its end. A blank behind a backslash belongs to the line. -/
def trimEnd (cs : List Char) : List Char :=
  if [' ', '\\'].isPrefixOf cs.reverse then cs else (cs.reverse.dropWhile Text.isBlank).reverse

/-- The pattern of a rule with its signs taken off. -/
structure Signs where
  keeps : Bool
  /-- The pattern begins at the directory of the file. -/
  anchored : Bool
  pattern : List Char
  deriving DecidableEq, Repr, Inhabited

/-- The signs in front of a pattern. A backslash takes the meaning from the first of them. -/
def readSigns : List Char → Signs
  | '\\' :: '!' :: cs => ⟨false, false, '!' :: cs⟩
  | '\\' :: '#' :: cs => ⟨false, false, '#' :: cs⟩
  | '!' :: '/' :: cs => ⟨true, true, cs⟩
  | '!' :: cs => ⟨true, false, cs⟩
  | '/' :: cs => ⟨false, true, cs⟩
  | cs => ⟨false, false, cs⟩

/-- Whether a pattern is for directories only, and the pattern without the slash that says so. -/
def readDirectorySign (cs : List Char) : Bool × List Char :=
  match cs.reverse with
  | '/' :: '\\' :: more => (true, more.reverse)
  | '/' :: more => (true, more.reverse)
  | _ => (false, cs)

/-- A pattern that may match at any depth, if it is neither anchored nor has a slash. -/
def atAnyDepth (anchored : Bool) (cs : List Char) : List Char :=
  if anchored || cs.contains '/' || cs == ['*', '*'] then cs else ['*', '*', '/'] ++ cs

/-- A pattern for what lies below a directory does not match the directory. -/
def belowOnly (cs : List Char) : List Char :=
  if ['/', '*', '*'].isSuffixOf cs then cs ++ ['/', '*'] else cs

/-- The rule of a line. Comments, empty lines and malformed patterns give none. -/
def ofLine? (line : String) : Option IgnoreRule :=
  let cs := trimEnd line.toList
  if cs.isEmpty || line.toList.head? == some '#' then none
  else
    let signs := readSigns cs
    let (onlyDirectories, pattern) := readDirectorySign signs.pattern
    let text := String.ofList (belowOnly (atAnyDepth signs.anchored pattern))
    match Glob.read .lenient text with
    | .ok glob => some ⟨glob, signs.keeps, onlyDirectories⟩
    | .error _ => none

/-- Whether a rule matches what a path leads to. -/
def applies (r : IgnoreRule) (path : String) (isDirectory : Bool) : Bool :=
  (isDirectory || !r.onlyDirectories) && r.glob.accepts path

/-- Bytes split at line breaks. -/
def lines : List UInt8 → List (List UInt8)
  | [] => [[]]
  | 10 :: bs => [] :: lines bs
  | 13 :: 10 :: bs => [] :: lines bs
  | b :: bs =>
    match lines bs with
    | [] => [[b]]
    | l :: ls => (b :: l) :: ls

/-- The text of lines up to the first one that is not UTF-8. -/
def readableLines : List (List UInt8) → List String
  | [] => []
  | l :: ls =>
    match String.fromUTF8? ⟨l.toArray⟩ with
    | some s => s :: readableLines ls
    | none => []

/-- The rules of a file. Byte order marks at its start do not count. -/
def ofContent (content : ByteArray) : List IgnoreRule :=
  match readableLines (lines content.toList) with
  | [] => []
  | first :: rest =>
    (String.ofList (first.toList.dropWhile (· == '\uFEFF')) :: rest).filterMap ofLine?

end IgnoreRule

/-- The three kinds of files with rules. -/
inductive RuleKind where
  | ignoreFile
  | gitignore
  | gitExclude
  deriving DecidableEq, Repr, Inhabited

namespace RuleKind

/-- The kinds that a project can hold, the strongest one first. -/
def all : List RuleKind := [ignoreFile, gitignore, gitExclude]

/-- Where a directory has the file of a kind. -/
def location : RuleKind → Location
  | ignoreFile => [".ignore"]
  | gitignore => [".gitignore"]
  | gitExclude => [".git", "info", "exclude"]

end RuleKind

/-- The rules of one file. -/
structure RuleFile where
  directory : Location
  kind : RuleKind
  rules : List IgnoreRule
  deriving Repr, Inhabited

namespace RuleFile

/-- The rule file that stands at a location. -/
def ofFile? (l : Location) (content : ByteArray) : Option RuleFile :=
  (RuleKind.all.find? fun k => k.location.isSuffixOf l).map fun k =>
    ⟨l.take (l.length - k.location.length), k, IgnoreRule.ofContent content⟩

/-- All rule files of a tree. -/
def ofTree (t : FileTree) : List RuleFile :=
  t.files.filterMap fun (l, content) => ofFile? l content

/-- Whether the last rule that applies keeps or ignores what a location leads to. -/
def keeps? (f : RuleFile) (l : Location) (isDirectory : Bool) : Option Bool :=
  let path := "/".intercalate (l.drop f.directory.length)
  (f.rules.reverse.find? fun r => r.applies path isDirectory).map (·.keeps)

end RuleFile

/-- The rules in force in a tree. -/
abbrev IgnoreRules := List RuleFile

namespace IgnoreRules

/-- The decision of the files of one kind, the deepest one first: of those in the first `depth`
directories on the way to a location. -/
def keepsByKind? (rules : IgnoreRules) (k : RuleKind) (l : Location) (isDirectory : Bool) :
    Nat → Option Bool
  | 0 => none
  | depth + 1 =>
    let file := rules.find? fun f => f.kind == k && f.directory == l.take depth
    match file.bind fun f => f.keeps? l isDirectory with
    | some decision => some decision
    | none => keepsByKind? rules k l isDirectory depth

/-- Whether rules keep or ignore what a location leads to, if any rule applies. -/
def keeps? (rules : IgnoreRules) (l : Location) (isDirectory : Bool) : Option Bool :=
  RuleKind.all.findSome? fun k => rules.keepsByKind? k l isDirectory l.length

/-- Whether the last name begins with a dot. -/
def isHidden (l : Location) : Bool :=
  match l.getLast? with
  | some name => name.toList.head? == some '.'
  | none => false

/-- Whether a walk passes over what a location leads to. -/
def ignores (rules : IgnoreRules) (l : Location) (isDirectory : Bool) : Bool :=
  match rules.keeps? l isDirectory with
  | some kept => !kept
  | none => isHidden l

/-- Whether a walk from a location comes to the file at further names: it enters no directory that
it passes over. -/
def reaches (rules : IgnoreRules) (start : Location) (names : List String) : Bool :=
  (List.range names.length).all fun n =>
    !rules.ignores (start ++ names.take (n + 1)) (n + 1 < names.length)

end IgnoreRules

end ThemeMigration
