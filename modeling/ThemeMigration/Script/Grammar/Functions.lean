import ThemeMigration.Script.Grammar.Patterns

/-!
# Functions and classes

Function expressions and declarations, arrow functions, methods, and class bodies.
-/

namespace ThemeMigration.Script.Grammar

open Reader

/-- The body of a function. -/
def body (g : Rules) (operatorAllowed : Bool) : Reader SyntaxTree := do
  pure ((← g.read (.block operatorAllowed)).labelled .body)

/-- The words in front of the name of a function; the answer says whether it is a generator. -/
def functionHead : Reader Bool := do
  let _ ← acceptWord "async"
  expectWord "function"
  accept .star

/-- Whether the next tokens begin a function rather than use `async` as a name. -/
def startsFunction : Reader Bool := do
  let c ← cursor
  match c.token with
  | .word "function" => pure true
  | .word "async" =>
    let d := c.advance
    pure (d.token == .word "function" && !d.lineBroken)
  | _ => pure false

/-- A function as an expression, with or without a name. -/
def functionExpression (g : Rules) : Reader SyntaxTree := do
  let c ← cursor
  let generator ← functionHead
  let name ← maybe (nameLeaf .identifier)
  let sig ← signature g true
  let block ← body g true
  close (if generator then .generatorFunction else .functionExpression) c.start
    (name.map (·.labelled .name) ++ sig ++ [block])

/-- A function as a declaration.  In the typed grammar the body may be missing. -/
def functionDeclaration (g : Rules) : Reader SyntaxTree := do
  let c ← cursor
  let generator ← functionHead
  let name ← nameLeaf .identifier
  let sig ← signature g true
  if ← sees .braceOpen then
    let block ← body g false
    blockEnd false
    close (if generator then .generatorFunctionDeclaration else .functionDeclaration) c.start
      (name.labelled .name :: sig ++ [block])
  else
    guard g.language.hasTypes
    semicolon false
    close .functionSignature c.start (name.labelled .name :: sig)

/-- The parameters of an arrow function, a bare name or a signature, up to its arrow. -/
def arrowHead (g : Rules) (mode : Mode) : Reader (List SyntaxTree) := do
  match ← peek with
  | .word _ =>
    let name ← nameLeaf .identifier
    expect .arrow
    pure [name.labelled .parameter]
  | _ =>
    let sig ← signature g (!mode.beforeColon)
    expect .arrow
    pure sig

/-- An arrow function. Its body is a block or runs as far as one expression. -/
def arrowFunction (g : Rules) (mode : Mode) : Reader SyntaxTree := do
  let c ← cursor
  let head ← (do
      expectWord "async"
      guard (!(← cursor).lineBroken)
      arrowHead g mode)
    <|> arrowHead g mode
  let result ←
    if ← sees .braceOpen then body g true
    else do pure ((← g.read (.expression mode)).labelled .body)
  close .arrowFunction c.start (head ++ [result])

/-! ## Methods and classes -/

/-- A method of an object or class, from its modifiers on. -/
def method (g : Rules) : Reader SyntaxTree :=
  within .clause do
    let _ ← many memberModifier
    let _ ← accept .star
    let name ← memberName g
    let _ ← accept .question
    let sig ← signature g true
    let block ← body g false
    pure (name :: sig ++ [block])

/-- A member of a class: a method or its signature, a field, a static block, an index signature,
or a semicolon. -/
def classMember (g : Rules) : Reader (List SyntaxTree) := do
  if ← accept .semicolon then pure []
  else
    let c ← cursor
    let decorators ← many (decorator g)
    (do
      expectWord "static"
      guard (← sees .braceOpen)
      let block ← g.read (.block false)
      pure [← close .classStaticBlock c.start [block.labelled .body]])
    <|> (do
      let m ← method g
      let _ ← accept .semicolon
      pure (decorators ++ [m]))
    <|> (do
      let _ ← many memberModifier
      let name ← if (← sees .bracketOpen) && g.language.hasTypes then indexKey g else memberName g
      let mark ← (do pure ((← accept .question) || (← accept .bang)))
      guard (!mark || g.language.hasTypes)
      if (← sees .parenOpen) || (← sees .less) then
        guard g.language.hasTypes
        let sig ← signature g true
        semicolon false
        pure [← close .clause c.start (decorators ++ name :: sig)]
      else
        let type ← if g.language.hasTypes then maybe (ascription g) else pure []
        if ← accept .equals then
          let value ← g.read (.expression .closing)
          semicolon true
          pure [← close .clause c.start
            (decorators ++ name :: type ++ [value.labelled .value])]
        else
          semicolon false
          pure [← close .clause c.start (decorators ++ name :: type)])

def classBody (g : Rules) : Reader SyntaxTree :=
  within .clause do
    expect .braceOpen
    let members ← many do
      guard (!(← sees .braceClose))
      classMember g
    expect .braceClose
    pure members.flatten

/-- What a class extends and implements. -/
def heritage (g : Rules) : Reader (List SyntaxTree) := do
  let parent ← if ← acceptWord "extends" then do
      let base ← g.read (.operand .enclosed)
      let generics ← if g.language.hasTypes then maybe (typeArguments g) else pure []
      pure (base :: generics)
    else pure []
  let contracts ← if g.language.hasTypes then maybe (within .typeForm do
      expectWord "implements"
      let first ← typeTerm g
      let more ← many do expect .comma; typeTerm g
      pure (first :: more))
    else pure []
  pure (parent ++ contracts)

/-- A class from its keyword on, behind the given decorators.  The name of a class is a type name
in the typed grammar. -/
def classWith (g : Rules) (kind : Kind) (start : Nat) (decorators : List SyntaxTree)
    (named : Bool) : Reader SyntaxTree := do
  let _ ← acceptWord "abstract"
  expectWord "class"
  let nameKind := if g.language.hasTypes then Kind.typeIdentifier else Kind.identifier
  let name ← maybe do
    guard (!(← seesWord "extends") && !(← seesWord "implements"))
    nameLeaf nameKind
  guard (!named || !name.isEmpty)
  let generics ← if g.language.hasTypes then maybe (typeParameters g) else pure []
  let parents ← heritage g
  let members ← classBody g
  close kind start
    (decorators ++ name.map (·.labelled .name) ++ generics ++ parents ++ [members.labelled .body])

/-- A class as an expression. -/
def classExpression (g : Rules) : Reader SyntaxTree := do
  let c ← cursor
  let decorators ← many (decorator g)
  classWith g .expression c.start decorators false

end ThemeMigration.Script.Grammar
