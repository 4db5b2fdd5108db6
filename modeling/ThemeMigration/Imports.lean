import ThemeMigration.Accessor
import ThemeMigration.Edits
import ThemeMigration.Script.Binding
import ThemeMigration.Script.Literal
import ThemeMigration.Script.Source
import ThemeMigration.Text.Blank

/-!
# Imports

What the import statements of a script provide, and the one edit that makes the accessor
importable.  If no import brings the accessor in, it joins the first list of names that is imported
from its module; without such a list a new statement follows the last import, or stands at the head
of the script, behind its directives and above the comments that belong to its first statement.  A
name that the script binds otherwise is imported under an alias.
-/

namespace ThemeMigration

open Script

namespace Imports

/-! ## Import statements -/

def isImport (t : SyntaxTree) : Bool := t.kind == .importStatement

def clause? (statement : SyntaxTree) : Option SyntaxTree :=
  statement.named.find? fun c => c.kind == .importClause

/-- The list in braces of an import statement. -/
def namedList? (statement : SyntaxTree) : Option SyntaxTree :=
  (clause? statement).bind fun c => c.named.find? fun n => n.kind == .namedImports

/-- Whether a statement or a specifier imports types only. -/
def isTypeOnly (t : SyntaxTree) : Bool :=
  t.children.any fun c => c.kind == .typeKeyword || c.kind == .typeofKeyword

/-- The name that a specifier binds: its alias, or the name it imports. -/
def specifierLocal? (specifier : SyntaxTree) : Option SyntaxTree :=
  match specifier.part? .localName with
  | some a => some a
  | none => specifier.part? .name

/-- The nodes whose text is a name that an import statement binds. -/
def boundNames (statement : SyntaxTree) : List SyntaxTree :=
  match clause? statement with
  | none => []
  | some clause =>
    clause.named.flatMap fun part =>
      match part.kind with
      | .identifier => [part]
      | .namespaceImport => part.firstNamed?.toList
      | .namedImports => part.named.filterMap specifierLocal?
      | _ => []

/-! ## Names of the script -/

/-- The nodes whose text is a name that a statement of the script binds. -/
def namesOfStatement (statement : SyntaxTree) : List SyntaxTree :=
  let names (t : SyntaxTree) : List SyntaxTree :=
    if isImport t then boundNames t else t.declaredNames
  match statement.kind with
  | .exportStatement => ((statement.part? .declaration).map names).getD []
  | _ => names statement

/-- The names that the statements of a script bind. -/
def topLevelNames (s : Source) : List String :=
  (s.statements.flatMap namesOfStatement).map s.textOf

/-- The aliases for a name from the given number on: the first has no number. -/
def aliasCandidate (exportName : String) (n : Nat) : String :=
  if n ≤ 1 then exportName ++ "Accessor" else s!"{exportName}Accessor{n}"

/-- The first alias from a number on that is not taken. Of one more candidate than there are taken
names, one is free. -/
def freeAliasFrom (taken : List String) (exportName : String) (n : Nat) : Nat → String
  | 0 => aliasCandidate exportName n
  | more + 1 =>
    if taken.contains (aliasCandidate exportName n) then
      freeAliasFrom taken exportName (n + 1) more
    else aliasCandidate exportName n

def freeAlias (taken : List String) (exportName : String) : String :=
  freeAliasFrom taken exportName 1 taken.length

/-! ## The head of a script -/

/-- Where the comments that belong to a statement begin, given the nodes before it, nearest first:
each comment is at most one line break away from what follows it. -/
def attachedStart (source : String) (start : Nat) : List SyntaxTree → Nat
  | [] => start
  | t :: ts =>
    if t.isComment && (Text.slice source t.stop start).toList.count '\n' ≤ 1 then
      attachedStart source t.start ts
    else start

/-- The directives of a script, which only comments may precede. -/
def directives (s : Source) : List SyntaxTree :=
  (s.statements.filter fun t => !t.isComment).takeWhile SyntaxTree.isDirective

/-- Where the first statement of a script begins, the comments that belong to it included. -/
def firstStatementStart (s : Source) : Nat :=
  let comments := s.statements.takeWhile SyntaxTree.isComment
  match s.statements.drop comments.length with
  | [] => 0
  | t :: _ => attachedStart s.text t.start comments.reverse

end Imports

/-- What the import section of a script provides. -/
structure Imports where
  /-- The local name of an import of the accessor. -/
  accessorLocal : Option String
  /-- Where a specifier can join the names imported from the accessor module, and whether there are
  none yet. -/
  joinAt : Option (Nat × Bool)
  /-- The end of the last import statement. -/
  lastEnd : Option Nat
  /-- The quote of the last import statement. -/
  quote : Char
  /-- Whether the last import statement ends with a semicolon. -/
  semicolon : Bool
  /-- Where a first import statement goes. -/
  top : Nat
  /-- Whether a directive stands in front of `top`. -/
  afterDirective : Bool
  /-- The alias of a new import, if the script binds the name of the accessor to something else. -/
  newName : Option String
  deriving DecidableEq, Repr, Inhabited

namespace Imports

/-- Import statements with a module specifier. -/
def sourced (s : Source) : List (SyntaxTree × SyntaxTree) :=
  s.statements.filterMap fun t =>
    if isImport t then (t.part? .source).map fun m => (t, m) else none

/-- The lists of names that are imported, as values, from the accessor module. -/
def accessorLists (s : Source) (file : Path) (a : Accessor) (t : TsConfig) : List SyntaxTree :=
  (sourced s).filterMap fun (statement, specifier) =>
    if isTypeOnly statement then none
    else
      (namedList? statement).bind fun names =>
        if a.namesModule t (unquote (s.textOf specifier)) file then some names else none

def specifiers (names : SyntaxTree) : List SyntaxTree :=
  names.named.filter fun n => n.kind == .importSpecifier

/-- The local name of a specifier that imports the accessor. -/
def accessorLocal? (s : Source) (a : Accessor) (specifier : SyntaxTree) : Option String :=
  if isTypeOnly specifier then none
  else
    match specifier.part? .name with
    | none => none
    | some name =>
      if s.textOf name == a.exportName then
        some (s.textOf ((specifier.part? .localName).getD name))
      else none

/-- Where a specifier can join a list of names, and whether the list is empty. -/
def joinPoint (names : SyntaxTree) : Nat × Bool :=
  match (specifiers names).getLast? with
  | some last => (last.stop, false)
  | none => (names.start + 1, true)

/-- The quote that a specifier begins with. -/
def quoteOf (specifier : String) : Char :=
  match specifier.toList with
  | c :: _ => if c == '"' || c == '\'' then c else '\''
  | [] => '\''

def endsWithSemicolon (text : String) : Bool :=
  (text.toList.reverse.dropWhile Text.isBlank).head? == some ';'

/-- The import section of a script. -/
def ofSource (s : Source) (file : Path) (a : Accessor) (t : TsConfig) : Imports :=
  let lists := accessorLists s file a t
  let found := ((lists.flatMap specifiers).filterMap (accessorLocal? s a)).getLast?
  let last := (sourced s).getLast?
  let taken := topLevelNames s
  { accessorLocal := found
    joinAt := lists.head?.map joinPoint
    lastEnd := last.map fun p => p.1.stop
    quote := (last.map fun p => quoteOf (s.textOf p.2)).getD '\''
    semicolon := (last.map fun p => endsWithSemicolon (s.textOf p.1)).getD true
    top := ((directives s).getLast?.map (·.stop)).getD (firstStatementStart s)
    afterDirective := !(directives s).isEmpty
    newName :=
      if found.isNone && taken.contains a.exportName then some (freeAlias taken a.exportName)
      else none }

/-- The name under which a component calls the accessor. -/
def callee (i : Imports) (a : Accessor) : String :=
  match i.accessorLocal, i.newName with
  | some l, _ => l
  | none, some l => l
  | none, none => a.exportName

/-- The specifier that imports the accessor. -/
def newSpecifier (i : Imports) (a : Accessor) : String :=
  match i.newName with
  | some l => a.exportName ++ " as " ++ l
  | none => a.exportName

def newStatement (i : Imports) (a : Accessor) (file : Path) : String :=
  "import \x7b " ++ i.newSpecifier a ++ " \x7d from " ++ i.quote.toString ++ a.specifierFor file ++
    i.quote.toString ++ (if i.semicolon then ";" else "")

/-- The edit that makes the accessor importable, unless it is imported already. -/
def insertion? (i : Imports) (a : Accessor) (file : Path) : Option Edit :=
  if i.accessorLocal.isSome then none
  else
    match i.joinAt, i.lastEnd with
    | some (offset, true), _ => some (.insert offset (" " ++ i.newSpecifier a ++ " "))
    | some (offset, false), _ => some (.insert offset (", " ++ i.newSpecifier a))
    | none, some offset => some (.insert offset ("\n" ++ i.newStatement a file))
    | none, none =>
      if i.afterDirective then some (.insert i.top ("\n\n" ++ i.newStatement a file))
      else some (.insert i.top (i.newStatement a file ++ "\n\n"))

end Imports

end ThemeMigration
