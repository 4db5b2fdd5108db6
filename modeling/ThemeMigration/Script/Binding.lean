import ThemeMigration.Script.SyntaxTree

/-!
# Bound names

The identifiers that a binding pattern binds.  A property of an object pattern binds what stands
for its value, a default binds its left side, and a parameter binds its pattern; keys, default
values and type annotations bind nothing.  A declaration binds the names of its declarators or its
own name.
-/

namespace ThemeMigration.Script.SyntaxTree

mutual

/-- The nodes of a pattern whose text is a bound name, in source order. -/
def boundNames : SyntaxTree → List SyntaxTree
  | node kind label span parts =>
    match kind with
    | .identifier | .shorthandPattern => [node kind label span parts]
    | .formalParameters | .objectPattern | .arrayPattern | .restPattern => boundNamesOfAll parts
    | .pairPattern => boundNamesOfPart .value parts
    | .assignmentPattern | .objectAssignmentPattern => boundNamesOfPart .left parts
    | .requiredParameter | .optionalParameter => boundNamesOfPart .pattern parts
    | _ => []

def boundNamesOfAll : List SyntaxTree → List SyntaxTree
  | [] => []
  | t :: ts => boundNames t ++ boundNamesOfAll ts

/-- The bound names of the first node with the given label. -/
def boundNamesOfPart (l : Label) : List SyntaxTree → List SyntaxTree
  | [] => []
  | t :: ts => if t.label == some l then boundNames t else boundNamesOfPart l ts

end

theorem boundNamesOfAll_eq (ts : List SyntaxTree) : boundNamesOfAll ts = ts.flatMap boundNames := by
  induction ts with
  | nil => rfl
  | cons t ts ih => rw [boundNamesOfAll, ih, List.flatMap_cons]

theorem boundNamesOfPart_eq (l : Label) (ts : List SyntaxTree) :
    boundNamesOfPart l ts =
      ((ts.find? fun t => t.label == some l).map boundNames).getD [] := by
  induction ts with
  | nil => rfl
  | cons t ts ih =>
    rw [boundNamesOfPart, List.find?_cons]
    cases h : t.label == some l
    · simpa using ih
    · rfl

/-- The variable declarators of a declaration. -/
def declarators (t : SyntaxTree) : List SyntaxTree :=
  t.named.filter fun d => d.kind == .variableDeclarator

/-- The nodes whose text is a name that a statement declares in its scope. -/
def declaredNames (t : SyntaxTree) : List SyntaxTree :=
  match t.kind with
  | .lexicalDeclaration | .variableDeclaration =>
    t.declarators.flatMap fun d => ((d.part? .name).map boundNames).getD []
  | .functionDeclaration | .generatorFunctionDeclaration | .classDeclaration
  | .abstractClassDeclaration | .enumDeclaration => (t.part? .name).toList
  | _ => []

/-- Whether a statement declares a name. -/
def declares (source name : String) (t : SyntaxTree) : Bool :=
  t.declaredNames.any fun n => n.text source == name

end ThemeMigration.Script.SyntaxTree
