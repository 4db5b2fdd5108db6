import ThemeMigration.Script.Source

/-!
# References

The names that a script uses outside its import statements: identifiers, shorthand properties and
type names, each time they occur.
-/

namespace ThemeMigration

open Script

namespace References

def isReference (t : SyntaxTree) : Bool :=
  match t.kind with
  | .identifier | .shorthandIdentifier | .typeIdentifier => true
  | _ => false

mutual

/-- The references in a node, in source order. -/
def inTree : SyntaxTree → List SyntaxTree
  | .node kind label span parts =>
    if isReference (.node kind label span parts) then [.node kind label span parts]
    else inTrees parts

def inTrees : List SyntaxTree → List SyntaxTree
  | [] => []
  | t :: ts => inTree t ++ inTrees ts

end

theorem inTrees_eq (ts : List SyntaxTree) : inTrees ts = ts.flatMap inTree := by
  induction ts with
  | nil => rfl
  | cons t ts ih => rw [inTrees, ih, List.flatMap_cons]

/-- The names that a script refers to, once for each reference. -/
def names (s : Source) : List String :=
  ((s.statements.filter fun t => t.kind != .importStatement).flatMap inTree).map s.textOf

end References

end ThemeMigration
