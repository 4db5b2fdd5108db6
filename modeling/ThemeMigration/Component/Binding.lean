import ThemeMigration.Component.Basic
import ThemeMigration.Edits
import ThemeMigration.Script.Binding
import ThemeMigration.Script.Literal

/-!
# Binding the accessor in a component

Whether a component can take the accessor binding, and the edits that put it there.  A component
whose parameters or whose statements bind one of the two names already is blocked, unless what
binds it is the accessor binding itself.  The binding goes behind the directives of the body and
before its first other statement; an expression body becomes a block that binds and returns.
-/

namespace ThemeMigration

open Script

namespace Component

/-- The parameters of a function, or the one parameter of an arrow function without
parentheses. -/
def parameters? (c : Component) : Option SyntaxTree :=
  match c.function.part? .parameters with
  | some ps => some ps
  | none => c.function.part? .parameter

/-- The nodes whose text is a name in the scope of the body: those of the parameters, then those
that the statements of the body declare. -/
def scopeNames (c : Component) : List SyntaxTree :=
  (c.parameters?.map SyntaxTree.boundNames).getD [] ++
    if c.hasExpressionBody then [] else c.body.named.flatMap SyntaxTree.declaredNames

/-- Whether a name is bound in the scope of the body. -/
def binds (c : Component) (source name : String) : Bool :=
  c.scopeNames.any fun n => n.text source == name

/-- Whether the binding would declare a name a second time. -/
def isBlocked (c : Component) (source : String) (b : BindingStatement) : Bool :=
  !c.hasBinding && (c.binds source b.binding || c.binds source b.callee)

/-- The statements of a block, without comments. -/
def blockStatements (body : SyntaxTree) : List SyntaxTree := body.named.filter fun t => !t.isComment

/-- The edits that put the binding into the body. -/
def insertion (c : Component) (source : String) (b : BindingStatement) : List Edit :=
  if c.hasExpressionBody then
    let indent := Text.lineIndent source c.function.start
    [.insert c.body.start ("\x7b\n" ++ indent ++ "  " ++ b.text ++ "\n" ++ indent ++ "  return "),
      .insert c.body.stop (";\n" ++ indent ++ "\x7d")]
  else
    let statements := blockStatements c.body
    let directives := statements.takeWhile SyntaxTree.isDirective
    match statements.drop directives.length, directives.getLast? with
    | first :: _, _ =>
      [.insert first.start (b.text ++ "\n" ++ Text.lineIndent source first.start)]
    | [], some last =>
      [.insert last.stop ("\n" ++ Text.lineIndent source last.start ++ b.text)]
    | [], none =>
      let indent := Text.lineIndent source c.body.start
      [.insert (c.body.start + 1) ("\n" ++ indent ++ "  " ++ b.text ++ "\n" ++ indent)]

end Component

end ThemeMigration
