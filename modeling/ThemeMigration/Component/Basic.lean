import ThemeMigration.BindingStatement
import ThemeMigration.Script.Source
import ThemeMigration.Text.Uppercase

/-!
# Components

A component is a function that a statement of the script declares, directly, as the value of a
variable or as what the script exports, if its name begins with a capital or its body makes markup.
Parentheses and calls of the configured wrappers around the function do not matter.  Functions
inside a component and classes are no components of their own.
-/

namespace ThemeMigration

open Script

namespace Component

/-- Why a function counts as a component. -/
inductive Reason where
  | byName
  | byMarkup
  deriving DecidableEq, Repr, Inhabited

end Component

structure Component where
  /-- The declared name, which a default export may lack. -/
  name : Option String
  /-- The statement of the script that the component was found in. -/
  declaration : SyntaxTree
  function : SyntaxTree
  /-- A block, or the expression of an arrow function. -/
  body : SyntaxTree
  makesMarkup : Bool
  /-- Whether the body holds the accessor binding already. -/
  hasBinding : Bool
  reason : Component.Reason
  deriving Repr, Inhabited

namespace Component

def displayName (c : Component) : String := c.name.getD "<default>"

def hasExpressionBody (c : Component) : Bool := c.body.kind != .statementBlock

/-! ## Markup -/

/-- Whether a text names a function that creates an element. -/
def isElementFactory (callee : String) : Bool :=
  callee == "createElement" || ".createElement".toList.isSuffixOf callee.toList

/-- Whether a node is markup or a call that creates an element. -/
def isMarkup (source : String) (t : SyntaxTree) : Bool :=
  match t.kind with
  | .jsxElement | .jsxSelfClosingElement | .jsxFragment => true
  | .callExpression =>
    ((t.part? .callee).map fun f => isElementFactory (f.text source)).getD false
  | _ => false

mutual

/-- Whether markup is made in a node, at any depth. -/
def containsMarkup (source : String) : SyntaxTree → Bool
  | .node kind label span parts =>
    isMarkup source (.node kind label span parts) || anyContainsMarkup source parts

def anyContainsMarkup (source : String) : List SyntaxTree → Bool
  | [] => false
  | t :: ts => containsMarkup source t || anyContainsMarkup source ts

end

theorem anyContainsMarkup_eq (source : String) (ts : List SyntaxTree) :
    anyContainsMarkup source ts = ts.any (containsMarkup source) := by
  induction ts with
  | nil => rfl
  | cons t ts ih => rw [anyContainsMarkup, ih, List.any_cons]

/-! ## Functions behind a value -/

mutual

/-- The function behind a value, inside parentheses and wrapper calls. -/
def functionIn? (source : String) (wrappers : List String) : SyntaxTree → Option SyntaxTree
  | .node kind label span parts =>
    match kind with
    | .arrowFunction | .functionExpression => some (.node kind label span parts)
    | .parenthesizedExpression => functionInFirst? source wrappers parts
    | .callExpression =>
      match (SyntaxTree.node kind label span parts).part? .callee with
      | none => none
      | some callee =>
        if wrappers.contains (callee.text source) then functionInArguments? source wrappers parts
        else none
    | _ => none

/-- The function behind the first named node. -/
def functionInFirst? (source : String) (wrappers : List String) :
    List SyntaxTree → Option SyntaxTree
  | [] => none
  | t :: ts =>
    if t.kind.isNamed then functionIn? source wrappers t else functionInFirst? source wrappers ts

/-- The function behind the first argument of a call with the given parts. -/
def functionInArguments? (source : String) (wrappers : List String) :
    List SyntaxTree → Option SyntaxTree
  | [] => none
  | .node _ label _ parts :: ts =>
    if label == some .arguments then functionInFirst? source wrappers parts
    else functionInArguments? source wrappers ts

end

/-! ## Detection -/

/-- The component of a function, if it is one. -/
def ofFunction? (source : String) (binding : BindingStatement) (declaration : SyntaxTree)
    (name : Option String) (function : SyntaxTree) : Option Component :=
  match function.part? .body with
  | none => none
  | some body =>
    let makesMarkup := containsMarkup source body
    let component (reason : Reason) : Component :=
      { name, declaration, function, body, makesMarkup, reason
        hasBinding := binding.presentIn source body }
    if (name.map Text.startsUpper).getD false then some (component .byName)
    else if makesMarkup then some (component .byMarkup)
    else none

/-- The components that a declaration without `export` declares. -/
def ofDeclaration (source : String) (wrappers : List String) (binding : BindingStatement)
    (declaration statement : SyntaxTree) : List Component :=
  match statement.kind with
  | .functionDeclaration | .generatorFunctionDeclaration =>
    let name := (statement.part? .name).map (·.text source)
    (ofFunction? source binding declaration name statement).toList
  | .lexicalDeclaration | .variableDeclaration =>
    statement.named.filterMap fun d =>
      if d.kind != .variableDeclarator then none
      else
        match d.part? .name with
        | none => none
        | some name =>
          if name.kind != .identifier then none
          else
            match (d.part? .value).bind (functionIn? source wrappers) with
            | none => none
            | some f => ofFunction? source binding declaration (some (name.text source)) f
  | _ => []

/-- The components of a statement of the script. -/
def ofStatement (source : String) (wrappers : List String) (binding : BindingStatement)
    (statement : SyntaxTree) : List Component :=
  match statement.kind with
  | .exportStatement =>
    match (statement.part? .value).bind (functionIn? source wrappers) with
    | some f =>
      (ofFunction? source binding statement ((f.part? .name).map (·.text source)) f).toList
    | none => statement.named.flatMap (ofDeclaration source wrappers binding statement)
  | _ => ofDeclaration source wrappers binding statement statement

/-- The components of a script, in source order. -/
def detect (s : Source) (wrappers : List String) (binding : BindingStatement) : List Component :=
  s.statements.flatMap (ofStatement s.text wrappers binding)

end Component

end ThemeMigration
