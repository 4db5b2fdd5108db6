import ThemeMigration.Script.SyntaxTree

/-!
# The accessor binding

A component binds the theme with a statement such as `const theme = useTheme();`.  A declaration
counts as this binding when one of its declarators gives the name the value of a call to the
accessor without arguments; the keyword of the declaration and its other declarators do not matter.
-/

namespace ThemeMigration

open Script

structure BindingStatement where
  binding : String
  callee : String
  deriving DecidableEq, Repr, Inhabited

namespace BindingStatement

def text (b : BindingStatement) : String := s!"const {b.binding} = {b.callee}();"

/-- Whether a node is an identifier with the given text. -/
def isNamed (source name : String) (t : SyntaxTree) : Bool :=
  t.kind == .identifier && t.text source == name

/-- Whether a node is a call of the accessor without arguments. -/
def isCall (b : BindingStatement) (source : String) (t : SyntaxTree) : Bool :=
  t.kind == .callExpression &&
    ((t.part? .callee).map (isNamed source b.callee)).getD false &&
    ((t.part? .arguments).map fun a => a.kind == .arguments && a.named.isEmpty).getD false

def declaratorMatches (b : BindingStatement) (source : String) (d : SyntaxTree) : Bool :=
  ((d.part? .name).map (isNamed source b.binding)).getD false &&
    ((d.part? .value).map (b.isCall source)).getD false

/-- Whether a statement is the binding. -/
def holds (b : BindingStatement) (source : String) (t : SyntaxTree) : Bool :=
  (t.kind == .lexicalDeclaration || t.kind == .variableDeclaration) &&
    t.named.any fun d => d.kind == .variableDeclarator && b.declaratorMatches source d

/-- Whether the binding is among the statements of a function body. -/
def presentIn (b : BindingStatement) (source : String) (body : SyntaxTree) : Bool :=
  body.kind == .statementBlock && body.named.any (b.holds source)

end BindingStatement

end ThemeMigration
