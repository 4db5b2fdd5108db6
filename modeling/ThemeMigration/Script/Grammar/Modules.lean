import ThemeMigration.Script.Grammar.Statements

/-!
# Imports and exports, and the whole grammar

Import and export statements, the choice among statements, and the knot: `parse` answers every
goal by the reader of that goal, one level deeper.  Each level stands for a construct inside
another, so a bound that grows with the text is never reached.
-/

namespace ThemeMigration.Script.Grammar

open Reader

/-! ## Imports -/

/-- The keyword of a type-only import or specifier, kept as a token. -/
def typeOnlyMark : Reader SyntaxTree := do
  if ← seesWord "type" then leaf .typeKeyword
  else if ← seesWord "typeof" then leaf .typeofKeyword
  else fail

/-- The exported name in a specifier: a name or a string. -/
def exportedName : Reader SyntaxTree := do
  match ← peek with
  | .string => leaf .string
  | .word _ => leaf .identifier
  | _ => fail

/-- One name of a list, under its own name or another. -/
def importSpecifier (g : Rules) : Reader SyntaxTree :=
  let named : Reader (List SyntaxTree) := do
    let name ← exportedName
    if ← acceptWord "as" then
      let localName ← nameLeaf .identifier
      pure [name.labelled .name, localName.labelled .localName]
    else
      guard (name.kind == .identifier)
      pure [name.labelled .name]
  let finished : Reader Unit := do
    guard ((← sees .comma) || (← sees .braceClose))
  within .importSpecifier do
    if g.language.hasTypes then
      (do
        let mark ← typeOnlyMark
        let parts ← named
        finished
        pure (mark :: parts))
      <|> named
    else named

def namedImports (g : Rules) : Reader SyntaxTree :=
  within .namedImports do
    expect .braceOpen
    listUntil .braceClose do pure [← importSpecifier g]

def namespaceImport : Reader SyntaxTree :=
  within .namespaceImport do
    expect .star
    expectWord "as"
    pure [← nameLeaf .identifier]

/-- The default import, the name space or the list of names, or the default with one of these. -/
def importClause (g : Rules) : Reader SyntaxTree :=
  within .importClause do
    (do pure [← namespaceImport])
    <|> (do pure [← namedImports g])
    <|> (do
      let default ← nameLeaf .identifier
      if ← accept .comma then
        let second ← namespaceImport <|> namedImports g
        pure [default, second]
      else pure [default])

def moduleSource : Reader SyntaxTree := do
  guard ((← peek) == .string)
  pure ((← leaf .string).labelled .source)

/-- Attributes of the imported module, an object behind its keyword. -/
def importAttribute (g : Rules) : Reader SyntaxTree :=
  within .importAttribute do
    expectWord "with" <|> expectWord "assert"
    pure [← objectLiteral g]

/-- A call of `require` behind an equals sign. -/
def requiredModule : Reader SyntaxTree :=
  within .clause do
    let name ← nameLeaf .identifier
    expect .equals
    expectWord "require"
    expect .parenOpen
    let source ← moduleSource
    expect .parenClose
    pure [name, source]

def importStatement (g : Rules) : Reader SyntaxTree := do
  let c ← cursor
  expectWord "import"
  let fromClause : Reader (List SyntaxTree) := do
    let clause ← importClause g
    expectWord "from"
    pure [clause, ← moduleSource]
  let content ←
    (do pure [← moduleSource])
    <|> (do
      guard g.language.hasTypes
      let mark ← typeOnlyMark
      let parts ← fromClause
      pure (mark :: parts))
    <|> fromClause
    <|> (do
      guard g.language.hasTypes
      let mark ← maybe typeOnlyMark
      pure (mark ++ [← requiredModule]))
  let attributes ← maybe (importAttribute g)
  semicolon false
  close .importStatement c.start (content ++ attributes)

/-! ## Exports -/

/-- One exported name, perhaps under another. -/
def exportSpecifier (g : Rules) : Reader SyntaxTree :=
  let named : Reader (List SyntaxTree) := do
    let name ← exportedName
    if ← acceptWord "as" then pure [name.labelled .name, (← exportedName).labelled .localName]
    else pure [name.labelled .name]
  within .clause do
    if g.language.hasTypes then
      (do
        let mark ← typeOnlyMark
        let parts ← named
        guard ((← sees .comma) || (← sees .braceClose))
        pure (mark :: parts))
      <|> named
    else named

def exportClause (g : Rules) : Reader SyntaxTree :=
  within .clause do
    expect .braceOpen
    listUntil .braceClose do pure [← exportSpecifier g]

/-- The module that names are exported from. -/
def exportSource (g : Rules) : Reader (List SyntaxTree) := do
  expectWord "from"
  let source ← moduleSource
  let attributes ← maybe (importAttribute g)
  pure (source :: attributes)

/-- What stands behind `export default`: a declaration, or an expression with its semicolon. -/
def defaultExport (g : Rules) : Reader (List SyntaxTree) :=
  (do pure [(← declaration g).labelled .declaration])
  <|> (do
    let value ← g.read (.expression .closing)
    semicolon true
    pure [value.labelled .value])

def exportStatement (g : Rules) : Reader SyntaxTree := do
  let c ← cursor
  let decorators ← many (decorator g)
  expectWord "export"
  let content ←
    (do
      expect .star
      let space ← maybe (within .clause do
        expectWord "as"
        pure [← exportedName])
      let source ← exportSource g
      semicolon false
      pure (space ++ source))
    <|> (do
      let mark ← if g.language.hasTypes then maybe typeOnlyMark else pure []
      let names ← exportClause g
      let source ← (do
          if ← seesWord "from" then exportSource g else pure [])
      semicolon false
      pure (mark ++ names :: source))
    <|> (do
      expectWord "default"
      defaultExport g)
    <|> (do
      guard g.language.hasTypes
      expect .equals
      let value ← g.read (.expression .closing)
      semicolon true
      pure [value])
    <|> (do
      guard g.language.hasTypes
      expectWord "as"
      expectWord "namespace"
      let name ← nameLeaf .identifier
      semicolon false
      pure [name])
    <|> (do
      guard g.language.hasTypes
      pure [← importAlias])
    <|> (do pure [(← declaration g).labelled .declaration])
  close .exportStatement c.start (decorators ++ content)

/-! ## Statements -/

/-- A statement that begins with a word, read as what the word announces.  A word that can also be
a name may begin an expression. -/
def wordStatement (g : Rules) (w : String) : Reader SyntaxTree :=
  match w with
  | "if" => ifStatement g
  | "for" => forStatement g
  | "while" => whileStatement g
  | "do" => doStatement g
  | "try" => tryStatement g
  | "switch" => switchStatement g
  | "return" => returnStatement g
  | "throw" => throwStatement g
  | "break" => jump .breakStatement "break"
  | "continue" => jump .continueStatement "continue"
  | "debugger" => jump .debuggerStatement "debugger"
  | "with" => within .withStatement do
    expectWord "with"
    let subject ← condition g
    pure [subject, (← g.read .statement).labelled .body]
  | "import" => do
    match ← peekSecond with
    | .punct .parenOpen | .punct .dot => expressionStatement g
    | _ =>
      importStatement g <|> (do
        guard g.language.hasTypes
        importAlias)
  | "export" => exportStatement g
  | "class" => classDeclaration g <|> expressionStatement g
  | "namespace" => namespaceStatement g <|> expressionStatement g
  | "function" | "async" =>
    (do guard (← startsFunction); functionDeclaration g) <|> expressionStatement g
  | "const" | "var" => typedDeclaration g <|> (do guard (← startsVariables); variableStatement g)
  | "enum" | "interface" | "abstract" =>
    typedDeclaration g <|> (do guard (!g.language.hasTypes); expressionStatement g)
  | _ =>
    typedDeclaration g
    <|> (do guard (← startsVariables); variableStatement g)
    <|> expressionStatement g

def statementGoal (g : Rules) : Reader SyntaxTree := do
  match ← peek with
  | .punct .braceOpen => g.read (.block false)
  | .punct .semicolon => leaf .emptyStatement
  | .punct .atSign => exportStatement g <|> classDeclaration g
  | .word w =>
    if (← peekSecond) == .punct .colon then labeledStatement g
    else wordStatement g w
  | _ => expressionStatement g

/-! ## The knot -/

/-- The reader of a goal, in terms of the rules for what it contains. -/
def step (g : Rules) : Goal → Reader SyntaxTree
  | .statement => statementGoal g
  | .block operatorAllowed => blockGoal g operatorAllowed
  | .sequence mode => sequenceGoal g mode
  | .expression mode => expressionGoal g mode
  | .operand mode => operandGoal g mode
  | .element => elementGoal g
  | .pattern => patternGoal g
  | .typeTerm => typeGoal g

/-- The reader of a goal, for constructs nested no deeper than the bound. -/
def parse (language : Language) : Nat → Goal → Reader SyntaxTree
  | 0, _ => fail
  | depth + 1, goal => step ⟨language, parse language depth⟩ goal

/-- A whole script: statements up to the end of the text, behind a line that names its
interpreter if there is one. -/
def script (g : Rules) : Reader (List SyntaxTree) := do
  let c ← cursor
  let head ← if c.token == .hashBang then maybe (leaf .hashBangLine) else pure []
  let statements ← many (g.read .statement)
  pure (head ++ statements)

/-- The tree of a script without its comments, and the comments in source order.  A script that is
not accepted gives the offset of the first statement that cannot be read. -/
def read (language : Language) (text : String) : Except Nat (SyntaxTree × List Span) :=
  let start := Cursor.ofText language text
  match script ⟨language, parse language (8 * (text.utf8ByteSize + 8))⟩ start with
  | none => .error 0
  | some (statements, c) =>
    if c.token == .finish then
      .ok (.node .program none ⟨0, c.stop⟩ statements, c.comments.reverse)
    else .error c.start

end ThemeMigration.Script.Grammar
