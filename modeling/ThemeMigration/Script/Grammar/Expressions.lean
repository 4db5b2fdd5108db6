import ThemeMigration.Script.Grammar.Functions
import ThemeMigration.Script.Grammar.Markup

/-!
# Expressions

Operands, operators, calls, objects and assignments.  Where an opening bracket may begin two
things, the readers try one and then the other: parameters of an arrow function before an
expression in parentheses, an object before a destructuring pattern, type arguments before a
comparison, and markup before type parameters.
-/

namespace ThemeMigration.Script.Grammar

open Reader

/-! ## Operands -/

def spread (g : Rules) : Reader SyntaxTree :=
  within .clause do
    expect .ellipsis
    pure [← g.read (.expression .enclosed)]

/-- A member of an object: a spread, a method, a key with a value, or a shorthand. -/
def objectMember (g : Rules) : Reader SyntaxTree := do
  if ← sees .ellipsis then spread g
  else
    (do
      let key ← memberName g
      expect .colon
      let value ← g.read (.expression .enclosed)
      close .pair key.start [key.labelled .key, value.labelled .value])
    <|> (do
      let name ← nameLeaf .shorthandIdentifier
      guard ((← sees .comma) || (← sees .braceClose))
      pure name)
    <|> method g

def objectLiteral (g : Rules) : Reader SyntaxTree :=
  within .object do
    expect .braceOpen
    listUntil .braceClose do pure [← objectMember g]

def arrayLiteral (g : Rules) : Reader SyntaxTree :=
  within .expression do
    expect .bracketOpen
    listUntil .bracketClose do
      if ← sees .comma then pure []
      else if ← sees .ellipsis then pure [← spread g]
      else pure [← g.read (.expression .enclosed)]

/-- A literal that is not the target of an assignment, or else a pattern that is. -/
def literalOrTarget (g : Rules) (literal : Reader SyntaxTree) : Reader SyntaxTree :=
  (do
    let t ← literal
    guard (!(← sees .equals))
    pure t)
  <|> (do
    let t ← g.read .pattern
    guard (← sees .equals)
    pure t)

def parenthesized (g : Rules) : Reader SyntaxTree :=
  within .parenthesizedExpression do
    expect .parenOpen
    let e ← g.read (.sequence .enclosed)
    let type ← if g.language.hasTypes then maybe (ascription g) else pure []
    expect .parenClose
    pure (e :: type)

def regularExpression : Reader SyntaxTree := fun c =>
  match c.here with
  | '/' :: rest =>
    match Token.regexEnd? false rest (c.start + 1) with
    | some (behind, stop) =>
      some (.node .expression none ⟨c.start, stop⟩ [], c.past behind stop)
    | none => none
  | _ => none

/-- The class that `new` makes an instance of, without the call of its constructor. -/
def constructed (g : Rules) (primary : Reader SyntaxTree) : Reader SyntaxTree := do
  let base ← primary
  extend (fun t =>
    (do
      expect .dot
      let name ← nameLeaf .propertyIdentifier
      close .expression t.start [t, name])
    <|> (do
      expect .bracketOpen
      let index ← g.read (.sequence .enclosed)
      expect .bracketClose
      close .expression t.start [t, index])) base

/-- An instance of a class, or the target of `new` itself. -/
def newExpression (g : Rules) : Reader SyntaxTree :=
  within .expression do
    expectWord "new"
    if ← accept .dot then
      let _ ← nameLeaf .propertyIdentifier
      pure []
    else
      let callee ←
        if ← seesWord "new" then g.read (.operand .enclosed)
        else constructed g do
          match ← peek with
          | .word "this" | .word "super" | .word "import" => leaf .expression
          | .word "function" => functionExpression g
          | .word "class" => classExpression g
          | .word _ => identifier
          | .punct .parenOpen => parenthesized g
          | .punct .bracketOpen => arrayLiteral g
          | .punct .braceOpen => objectLiteral g
          | _ => fail
      let generics ← if g.language.hasTypes then maybe (do
          let a ← typeArguments g
          guard (← sees .parenOpen)
          pure a)
        else pure []
      let args ← maybe do
        guard (← sees .parenOpen)
        arguments g
      pure (callee :: generics ++ args.map (·.labelled .arguments))

def isConstantWord (w : String) : Bool :=
  w == "this" || w == "super" || w == "null" || w == "true" || w == "false"

def primary (g : Rules) : Reader SyntaxTree := do
  match ← peek with
  | .string => leaf .string
  | .number => leaf .number
  | .backquote => template .templateString (g.read (.sequence .enclosed))
  | .privateName => do
    guard ((← peekSecond) == .word "in")
    leaf .clause
  | .punct .parenOpen => parenthesized g
  | .punct .bracketOpen => literalOrTarget g (arrayLiteral g)
  | .punct .braceOpen => literalOrTarget g (objectLiteral g)
  | .punct .slash | .punct .slashEquals => regularExpression
  | .punct .less => do
    guard g.language.hasMarkup
    g.read .element
  | .punct .atSign => classExpression g
  | .word w =>
    if ← startsFunction then functionExpression g
    else if w == "class" then classExpression g
    else if w == "new" then newExpression g
    else if isConstantWord w then leaf .expression
    else if w == "import" then do
      match ← peekSecond with
      | .punct .parenOpen | .punct .dot => leaf .expression
      | _ => fail
    else identifier
  | _ => fail

/-- One more member access, call, template or assertion behind an operand. -/
def operandStep (g : Rules) (mode : Mode) (t : SyntaxTree) : Reader SyntaxTree := do
  let call (generics : List SyntaxTree) (args : SyntaxTree) : Reader SyntaxTree :=
    close .callExpression t.start
      (t.labelled .callee :: generics ++ [args.labelled .arguments])
  match ← peek with
  | .punct .dot => do
    advance
    let name ← nameLeaf .propertyIdentifier
      <|> (do guard ((← peek) == .privateName); leaf .clause)
    close .expression t.start [t, name]
  | .punct .questionDot => do
    advance
    (do
      let generics ← if g.language.hasTypes then maybe (typeArguments g) else pure []
      call generics (← arguments g))
    <|> (do
      expect .bracketOpen
      let index ← g.read (.sequence .enclosed)
      expect .bracketClose
      close .expression t.start [t, index])
    <|> (do
      let name ← nameLeaf .propertyIdentifier
        <|> (do guard ((← peek) == .privateName); leaf .clause)
      close .expression t.start [t, name])
  | .punct .bracketOpen => do
    advance
    let index ← g.read (.sequence .enclosed)
    expect .bracketClose
    close .expression t.start [t, index]
  | .punct .parenOpen => do call [] (← arguments g)
  | .backquote => do call [] (← template .templateString (g.read (.sequence .enclosed)))
  | .punct .bang => do
    guard (g.language.hasTypes && !(mode.ends && (← cursor).lineBroken))
    advance
    close .expression t.start [t]
  | .punct .less => do
    guard g.language.hasTypes
    let generics ← typeArguments g
    match ← peek with
    | .punct .parenOpen => call [generics] (← arguments g)
    | .backquote => call [generics] (← template .templateString (g.read (.sequence .enclosed)))
    | .punct .semicolon | .punct .comma | .punct .parenClose | .punct .bracketClose
    | .punct .braceClose | .finish => close .expression t.start [t, generics]
    | _ => fail
  | _ => fail

/-- An operand with everything that stands behind it, up to a binary operator. -/
def postfixOperand (g : Rules) (mode : Mode) : Reader SyntaxTree := do
  let base ← primary g
  let t ← extend (operandStep g mode) base
  let c ← cursor
  if c.token == .punct .increment && !(mode.ends && c.lineBroken) then
    advance
    close .expression t.start [t]
  else pure t

/-- Whether the next token can begin an expression, as the operand of `yield` may be left out. -/
def beginsExpression : Reader Bool := do
  match ← peek with
  | .punct p =>
    pure (p == .braceOpen || p == .parenOpen || p == .bracketOpen || p == .less || p == .slash ||
      p == .slashEquals || p == .plus || p == .minus || p == .increment || p == .bang ||
      p == .tilde || p == .atSign)
  | .word w => pure (w != "in" && w != "of" && w != "instanceof")
  | .finish | .invalid | .hashBang => pure false
  | _ => pure true

def yieldExpression (g : Rules) (mode : Mode) : Reader SyntaxTree :=
  within .expression do
    expectWord "yield"
    if ← accept .star then pure [← g.read (.expression mode)]
    else if mode.ends && (← mayEnd true) then pure []
    else if ← beginsExpression then pure [← g.read (.expression mode)]
    else pure []

/-- A cast in front of an expression, where angle brackets are no markup. -/
def cast (g : Rules) (mode : Mode) : Reader SyntaxTree :=
  within .expression do
    guard (!g.language.hasMarkup)
    expect .less
    let target ← typeTerm g
    expectGreater
    let e ← g.read (.operand mode)
    pure [target, e]

/-- An operand with its prefix operators, or an arrow function. -/
def operandGoal (g : Rules) (mode : Mode) : Reader SyntaxTree := do
  let c ← cursor
  let applied : Reader SyntaxTree := do
    advance
    let e ← g.read (.operand mode)
    close .expression c.start [e]
  match c.token with
  | .punct .bang | .punct .tilde | .punct .plus | .punct .minus | .punct .increment => applied
  | .punct .parenOpen => arrowFunction g mode <|> postfixOperand g mode
  | .punct .less =>
    if g.language.hasTypes then
      if g.language.hasMarkup then postfixOperand g mode <|> arrowFunction g mode
      else arrowFunction g mode <|> cast g mode
    else postfixOperand g mode
  | .word w =>
    if c.advance.token == .punct .arrow then arrowFunction g mode
    else if w == "typeof" || w == "void" || w == "delete" then applied
    else if w == "await" then applied <|> postfixOperand g mode
    else if w == "yield" then yieldExpression g mode
    else if w == "async" then
      if ← startsFunction then postfixOperand g mode
      else arrowFunction g mode <|> postfixOperand g mode
    else postfixOperand g mode
  | _ => postfixOperand g mode

/-! ## Operators -/

def isBinaryPunct (p : Punct) : Bool :=
  p == .star || p == .slash || p == .percent || p == .power || p == .plus || p == .minus ||
    p == .shift || p == .relation || p == .less || p == .greater || p == .equality ||
    p == .ampersand || p == .pipe || p == .caret || p == .logical

/-- A binary operator with its right operand, or a type assertion. -/
def binaryStep (g : Rules) (mode : Mode) : Reader (List SyntaxTree) := do
  let c ← cursor
  match c.token with
  | .punct p => do
    guard (isBinaryPunct p)
    advance
    pure [← g.read (.operand mode)]
  | .word w =>
    if w == "instanceof" || (w == "in" && !mode.noIn) then do
      advance
      pure [← g.read (.operand mode)]
    else if g.language.hasTypes && (w == "as" || w == "satisfies") &&
        !(mode.ends && c.lineBroken) then do
      advance
      if ← acceptWord "const" then pure [] else pure [← typeTerm g]
    else fail
  | _ => fail

/-- Operands joined by binary operators. -/
def binary (g : Rules) (mode : Mode) : Reader SyntaxTree := do
  let first ← g.read (.operand mode)
  let d ← cursor
  let more ← many (binaryStep g mode)
  if (← cursor).tailStart == d.tailStart then pure first
  else close .expression first.start (first :: more.flatten)

/-- The two branches of a conditional expression. -/
def branches (g : Rules) (mode : Mode) : Reader (List SyntaxTree) := do
  let inner : Mode := { mode with ends := false, noIn := false }
  let yes ← (do
      let e ← g.read (.expression { inner with beforeColon := false })
      expect .colon
      pure e)
    <|> (do
      let e ← g.read (.expression { inner with beforeColon := true })
      expect .colon
      pure e)
  let no ← g.read (.expression mode)
  pure [yes, no]

/-- An expression without commas: operands, a conditional, or an assignment. -/
def expressionGoal (g : Rules) (mode : Mode) : Reader SyntaxTree := do
  let left ← binary g mode
  match ← peek with
  | .punct .equals | .punct .assignOp | .punct .slashEquals => do
    advance
    let right ← g.read (.expression mode)
    close .expression left.start [left, right]
  | .punct .question => do
    advance
    let rest ← branches g mode
    close .expression left.start (left :: rest)
  | _ => pure left

/-- Expressions separated by commas. -/
def sequenceGoal (g : Rules) (mode : Mode) : Reader SyntaxTree := do
  let first ← g.read (.expression mode)
  let more ← many do
    expect .comma
    g.read (.expression mode)
  if more.isEmpty then pure first else close .expression first.start (first :: more)

end ThemeMigration.Script.Grammar
