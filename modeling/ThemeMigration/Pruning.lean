import ThemeMigration.Imports
import ThemeMigration.References

/-!
# Unused imports

An import goes stale when a script referred to its name before a change and does not any more.
Stale imports are removed: a statement that binds nothing else goes with its line break, and any
other statement is written anew with what is left.  Imports that were unused before stay.
-/

namespace ThemeMigration

open Script

namespace Pruning

inductive ImportForm where
  | default
  | namespaced
  | listed
  deriving DecidableEq, Repr, Inhabited

/-- A name that an import statement binds, with the source text that binds it. -/
structure ImportedName where
  localName : String
  text : String
  form : ImportForm
  deriving DecidableEq, Repr, Inhabited

/-- The names that an import statement binds. -/
def importedNames (s : Source) (statement : SyntaxTree) : List ImportedName :=
  match Imports.clause? statement with
  | none => []
  | some clause =>
    clause.named.flatMap fun part =>
      match part.kind with
      | .identifier => [⟨s.textOf part, s.textOf part, .default⟩]
      | .namespaceImport =>
        part.firstNamed?.toList.map fun n => ⟨s.textOf n, s.textOf part, .namespaced⟩
      | .namedImports =>
        (Imports.specifiers part).filterMap fun specifier =>
          (Imports.specifierLocal? specifier).map fun n =>
            ⟨s.textOf n, s.textOf specifier, .listed⟩
      | _ => []

/-- Whether a name was referred to before and is not referred to any more. -/
def isStale (before after : List String) (n : ImportedName) : Bool :=
  before.contains n.localName && !after.contains n.localName

/-- The span of a statement and of the line break behind it. -/
def statementWithBreak (source : String) (t : SyntaxTree) : Span :=
  match (Text.sliceFrom source t.stop).toList with
  | '\r' :: '\n' :: _ => ⟨t.start, t.stop + 2⟩
  | '\n' :: _ => ⟨t.start, t.stop + 1⟩
  | _ => t.span

/-- An import statement that binds the given names only. -/
def rebuilt (s : Source) (statement : SyntaxTree) (kept : List ImportedName) : String :=
  let texts (form : ImportForm) : List String :=
    (kept.filter fun n => n.form == form).map (·.text)
  let listed :=
    match texts .listed with
    | [] => []
    | names => ["\x7b " ++ ", ".intercalate names ++ " \x7d"]
  let clause := (texts .default).take 1 ++ (texts .namespaced).take 1 ++ listed
  let keyword := if Imports.isTypeOnly statement then "import type" else "import"
  let specifier := ((statement.part? .source).map s.textOf).getD "''"
  let semicolon := if Imports.endsWithSemicolon (s.textOf statement) then ";" else ""
  keyword ++ " " ++ ", ".intercalate clause ++ " from " ++ specifier ++ semicolon

/-- The edit that removes the stale names of a statement, if it has any, and their number. -/
def pruneStatement? (before after : List String) (s : Source) (statement : SyntaxTree) :
    Option (Edit × Nat) :=
  let names := importedNames s statement
  let stale := names.countP (isStale before after)
  if stale == 0 then none
  else if stale == names.length then some (.replace (statementWithBreak s.text statement) "", stale)
  else
    let kept := names.filter fun n => !isStale before after n
    some (.replace statement.span (rebuilt s statement kept), stale)

/-- The script without its stale imports and the number of names removed, or nothing if no import
is stale.  The names are those that the script referred to before the change. -/
def prune? (before : List String) (s : Source) : Option (String × Nat) :=
  let after := References.names s
  match (s.statements.filter Imports.isImport).filterMap (pruneStatement? before after s) with
  | [] => none
  | found => some (Edit.applyAll s.text (found.map (·.1)), found.foldr (fun p n => p.2 + n) 0)

end Pruning

end ThemeMigration
