import ThemeMigration.Script.Grammar.Expressions

/-!
# Statements

Blocks, declarations and control flow.  A statement ends with its semicolon, or where one is
inserted; behind a function, a class and a block the insertion is allowed but not required.
-/

namespace ThemeMigration.Script.Grammar

open Reader

/-- A condition in parentheses. -/
def condition (g : Rules) : Reader SyntaxTree :=
  within .parenthesizedExpression do
    expect .parenOpen
    let e ← g.read (.sequence .enclosed)
    expect .parenClose
    pure [e]

/-- Statements in braces. -/
def blockGoal (g : Rules) (operatorAllowed : Bool) : Reader SyntaxTree := do
  let c ← cursor
  expect .braceOpen
  let statements ← many do
    guard (!(← sees .braceClose))
    g.read .statement
  expect .braceClose
  blockEnd operatorAllowed
  close .statementBlock c.start statements

/-! ## Declarations -/

/-- A variable with its type and initial value.  The answer says whether the value is there, since
an operator could go on only with an expression. -/
def declarator (g : Rules) (mode : Mode) : Reader (SyntaxTree × Bool) := do
  let c ← cursor
  let target ← bindingPattern g
  let type ← if g.language.hasTypes then (do
      let _ ← accept .bang
      maybe (ascription g))
    else pure []
  if ← accept .equals then
    let value ← g.read (.expression mode)
    let d ← close .variableDeclarator c.start
      (target.labelled .name :: type ++ [value.labelled .value])
    pure (d, true)
  else
    let d ← close .variableDeclarator c.start (target.labelled .name :: type)
    pure (d, false)

def declarators (g : Rules) (mode : Mode) : Reader (List (SyntaxTree × Bool)) := do
  let first ← declarator g mode
  let more ← many do
    expect .comma
    declarator g mode
  pure (first :: more)

/-- Whether the next tokens begin a declaration of variables. -/
def startsVariables : Reader Bool := do
  match ← peek, ← peekSecond with
  | .word "const", .word "enum" => pure (!(← cursor).language.hasTypes)
  | .word w, .word _ => pure (w == "var" || w == "let" || w == "const")
  | .word w, .punct p =>
    pure ((w == "var" || w == "let" || w == "const") && (p == .braceOpen || p == .bracketOpen))
  | _, _ => pure false

def variableKind : Reader Kind := do
  if ← seesWord "var" then pure .variableDeclaration else pure .lexicalDeclaration

def variableStatement (g : Rules) : Reader SyntaxTree := do
  let c ← cursor
  let kind ← variableKind
  advance
  let found ← declarators g .closing
  semicolon (found.getLast?.any (·.2))
  close kind c.start (found.map (·.1))

/-- Members of an enumeration, with their values. -/
def enumDeclaration (g : Rules) : Reader SyntaxTree :=
  within .enumDeclaration do
    let _ ← optional (do expectWord "const"; guard (← seesWord "enum"))
    expectWord "enum"
    let name ← nameLeaf .identifier
    let c ← cursor
    expect .braceOpen
    let members ← listUntil .braceClose do
      let key ← memberName g
      if ← accept .equals then
        let value ← g.read (.expression .enclosed)
        pure [← close .clause key.start [key.labelled .name, value.labelled .value]]
      else pure [key]
    let whole ← close .clause c.start members
    pure [name.labelled .name, whole.labelled .body]

def interfaceDeclaration (g : Rules) : Reader SyntaxTree :=
  within .interfaceDeclaration do
    expectWord "interface"
    let name ← nameLeaf .typeIdentifier
    let generics ← maybe (typeParameters g)
    let parents ← maybe (within .typeForm do
      expectWord "extends"
      let first ← typeTerm g
      let more ← many do expect .comma; typeTerm g
      pure (first :: more))
    let members ← objectType g
    pure (name.labelled .name :: generics ++ parents ++ [members.labelled .body])

def typeAlias (g : Rules) : Reader SyntaxTree := do
  let c ← cursor
  expectWord "type"
  let name ← nameLeaf .typeIdentifier
  let generics ← maybe (typeParameters g)
  expect .equals
  let value ← typeTerm g
  semicolon false
  close .typeAliasDeclaration c.start
    (name.labelled .name :: generics ++ [value.labelled .value])

/-- A name space, or a module under a quoted name. -/
def moduleNode (g : Rules) : Reader SyntaxTree := do
  let c ← cursor
  let isModule ← acceptWord "module"
  if !isModule then expectWord "namespace"
  let name ← match ← peek with
    | .string => if isModule then leaf .string else fail
    | _ => do dottedNames (← identifier)
  let block ← maybe do
    guard (← sees .braceOpen)
    g.read (.block false)
  guard (isModule || !block.isEmpty)
  close (if isModule then .moduleDeclaration else .internalModule) c.start
    (name.labelled .name :: block.map (·.labelled .body))

/-- A class declaration, with the decorators in front of it. -/
def classDeclaration (g : Rules) : Reader SyntaxTree := do
  let c ← cursor
  let decorators ← many (decorator g)
  let isAbstract ← seesWord "abstract"
  guard (!isAbstract || g.language.hasTypes)
  let t ← classWith g (if isAbstract then .abstractClassDeclaration else .classDeclaration)
    c.start decorators true
  if isAbstract then pure t
  else
    blockEnd false
    close t.kind c.start t.children

/-- A second name for a member of a name space. -/
def importAlias : Reader SyntaxTree := do
  let c ← cursor
  expectWord "import"
  let name ← nameLeaf .identifier
  expect .equals
  let target ← dottedNames (← identifier)
  semicolon false
  close .importAlias c.start [name, target]

/-- Whether a word in front of another word is a keyword of the typed grammar. -/
def beginsPhrase (first : String) : Reader Bool := do
  match ← peek, ← peekSecond with
  | .word w, .word _ => pure (w == first && !(← cursor).advance.lineBroken)
  | _, _ => pure false

/-- A declaration of the typed grammar that `declare` or `export` may precede. -/
def typedDeclaration (g : Rules) : Reader SyntaxTree := do
  guard g.language.hasTypes
  match ← peek with
  | .word "enum" => enumDeclaration g
  | .word "const" => enumDeclaration g
  | .word "interface" => interfaceDeclaration g
  | .word "type" => do guard (← beginsPhrase "type"); typeAlias g
  | .word "namespace" => moduleNode g
  | .word "module" => do
    let m ← moduleNode g
    if m.children.length < 2 then
      semicolon false
      close .moduleDeclaration m.start m.children
    else pure m
  | .word "abstract" => classDeclaration g
  | .word "declare" => do
    guard (← beginsPhrase "declare")
    let c ← cursor
    advance
    if ← seesWord "global" then
      advance
      let block ← g.read (.block false)
      close .ambientDeclaration c.start [block]
    else
      let inner ← g.read .statement
      guard (inner.kind != .expressionStatement || inner.children.all (·.kind == .internalModule))
      let inner := if inner.kind == .expressionStatement then inner.children.headD inner else inner
      close .ambientDeclaration c.start [inner]
  | _ => fail

/-- A declaration of any grammar. -/
def declaration (g : Rules) : Reader SyntaxTree := do
  typedDeclaration g
  <|> (do guard (← startsVariables); variableStatement g)
  <|> (do guard (← startsFunction); functionDeclaration g)
  <|> classDeclaration g

/-! ## Control flow -/

/-- A part that a word announces. Where the word stands, the part has to follow. -/
def following (w : String) (part : Reader SyntaxTree) : Reader (List SyntaxTree) := do
  if ← seesWord w then pure [← part] else pure []

def ifStatement (g : Rules) : Reader SyntaxTree :=
  within .ifStatement do
    expectWord "if"
    let test ← condition g
    let yes ← g.read .statement
    let no ← following "else" (within .clause do
      expectWord "else"
      pure [← g.read .statement])
    pure (test :: yes :: no)

/-- The target of a loop over members or elements.  The label of the target says who declares it:
the loop a pattern, `var` a name of the function around the loop, and no one a left side. -/
def loopTarget (g : Rules) : Reader (List SyntaxTree) := do
  if ← startsVariables then
    let part := if ← seesWord "var" then Label.name else .pattern
    advance
    let target ← bindingPattern g
    let type ← if g.language.hasTypes then maybe (ascription g) else pure []
    let value ← maybe do
      expect .equals
      g.read (.expression { Mode.enclosed with noIn := true })
    pure (target.labelled part :: type ++ value)
  else
    let target ← g.read .pattern <|> g.read (.operand .enclosed)
    pure [target.labelled .left]

def forStatement (g : Rules) : Reader SyntaxTree := do
  let c ← cursor
  expectWord "for"
  let _ ← acceptWord "await"
  expect .parenOpen
  (do
    let left ← loopTarget g
    if !(← acceptWord "of") then expectWord "in"
    let right ← g.read (.sequence .enclosed)
    expect .parenClose
    let inner ← g.read .statement
    close .forInStatement c.start (left ++ [right, inner.labelled .body]))
  <|> (do
    let init ←
      if ← accept .semicolon then pure []
      else if ← startsVariables then do
        let d ← cursor
        let kind ← variableKind
        advance
        let found ← declarators g { Mode.enclosed with noIn := true }
        expect .semicolon
        pure [← close kind d.start (found.map (·.1))]
      else do
        let e ← g.read (.sequence { Mode.enclosed with noIn := true })
        expect .semicolon
        pure [e]
    let test ← maybe (g.read (.sequence .enclosed))
    expect .semicolon
    let step ← maybe (g.read (.sequence .enclosed))
    expect .parenClose
    let inner ← g.read .statement
    close .forStatement c.start (init ++ test ++ step ++ [inner.labelled .body]))

def whileStatement (g : Rules) : Reader SyntaxTree :=
  within .whileStatement do
    expectWord "while"
    let test ← condition g
    pure [test, (← g.read .statement).labelled .body]

def doStatement (g : Rules) : Reader SyntaxTree := do
  let c ← cursor
  expectWord "do"
  let inner ← g.read .statement
  expectWord "while"
  let test ← condition g
  let _ ← optional (semicolon false)
  close .doStatement c.start [inner.labelled .body, test]

def tryStatement (g : Rules) : Reader SyntaxTree :=
  within .tryStatement do
    expectWord "try"
    let inner ← g.read (.block false)
    let handler ← following "catch" (within .clause do
      expectWord "catch"
      let parameter ← if ← accept .parenOpen then do
          let target ← bindingPattern g
          let type ← if g.language.hasTypes then maybe (ascription g) else pure []
          expect .parenClose
          pure (target.labelled .parameter :: type)
        else pure []
      pure (parameter ++ [(← g.read (.block false)).labelled .body]))
    let finalizer ← following "finally" (within .clause do
      expectWord "finally"
      pure [(← g.read (.block false)).labelled .body])
    pure (inner.labelled .body :: handler ++ finalizer)

/-- The cases of a switch, each with its statements. -/
def switchStatement (g : Rules) : Reader SyntaxTree :=
  within .switchStatement do
    expectWord "switch"
    let subject ← condition g
    let c ← cursor
    expect .braceOpen
    let cases ← many (within .clause do
      let test ← (do
          expectWord "case"
          pure [(← g.read (.sequence .enclosed)).labelled .value])
        <|> (do
          expectWord "default"
          pure [])
      expect .colon
      let statements ← many do
        guard (!(← sees .braceClose) && !(← seesWord "case") && !(← seesWord "default"))
        g.read .statement
      pure (test ++ statements))
    expect .braceClose
    let whole ← close .clause c.start cases
    pure [subject, whole.labelled .body]

/-- A jump, with its label if one follows on the same line. -/
def jump (kind : Kind) (word : String) : Reader SyntaxTree := do
  let c ← cursor
  expectWord word
  if !(← mayEnd false) then
    let _ ← optional (nameLeaf .clause)
  semicolon false
  close kind c.start []

def returnStatement (g : Rules) : Reader SyntaxTree := do
  let c ← cursor
  expectWord "return"
  if ← mayEnd false then
    semicolon false
    close .returnStatement c.start []
  else
    let e ← g.read (.sequence .closing)
    semicolon true
    close .returnStatement c.start [e]

def throwStatement (g : Rules) : Reader SyntaxTree := do
  let c ← cursor
  expectWord "throw"
  let e ← g.read (.sequence .closing)
  semicolon true
  close .throwStatement c.start [e]

def expressionStatement (g : Rules) : Reader SyntaxTree := do
  let c ← cursor
  let e ← g.read (.sequence .closing)
  semicolon true
  close .expressionStatement c.start [e]

/-- A name space on its own is a statement around it. -/
def namespaceStatement (g : Rules) : Reader SyntaxTree := do
  let c ← cursor
  guard g.language.hasTypes
  guard (← seesWord "namespace")
  let m ← moduleNode g
  semicolon true
  close .expressionStatement c.start [m]

def labeledStatement (g : Rules) : Reader SyntaxTree :=
  within .labeledStatement do
    let _ ← nameLeaf .clause
    expect .colon
    pure [(← g.read .statement).labelled .body]

end ThemeMigration.Script.Grammar
