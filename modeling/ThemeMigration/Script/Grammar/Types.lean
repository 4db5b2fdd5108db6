import ThemeMigration.Script.Grammar.Rules

/-!
# Types and signatures

Type terms, type parameters and arguments, the members of object types, parameter lists and
signatures.  Names in types matter: a type name is a `typeIdentifier`, while the outermost part
of a qualified name, a queried variable, the parameters of a function type and the subject of a
type predicate are identifiers.
-/

namespace ThemeMigration.Script.Grammar

open Reader

def typeTerm (g : Rules) : Reader SyntaxTree := g.read .typeTerm

/-- A colon and a type. -/
def ascription (g : Rules) : Reader SyntaxTree :=
  within .typeForm do
    expect .colon
    pure [← typeTerm g]

def typeArguments (g : Rules) : Reader SyntaxTree :=
  within .typeForm do
    expect .less
    let first ← typeTerm g
    let more ← many do
      expect .comma
      typeTerm g
    let _ ← accept .comma
    expectGreater
    pure (first :: more)

def typeParameter (g : Rules) : Reader SyntaxTree :=
  within .typeForm do
    let _ ← many do
      match ← peek, ← peekSecond with
      | .word w, .word _ => guard (w == "const" || w == "in" || w == "out"); advance
      | _, _ => fail
    let name ← nameLeaf .typeIdentifier
    let bound ← maybe do
      expectWord "extends"
      typeTerm g
    let default ← maybe do
      expect .equals
      typeTerm g
    pure (name :: bound ++ default)

def typeParameters (g : Rules) : Reader SyntaxTree :=
  within .typeForm do
    expect .less
    let first ← typeParameter g
    let more ← many do
      expect .comma
      typeParameter g
    let _ ← accept .comma
    expectGreater
    pure (first :: more)

/-! ## Parameters -/

/-- Names joined by points, from a first identifier on. -/
def dottedNames (base : SyntaxTree) : Reader SyntaxTree :=
  extend (fun t => do
    expect .dot
    let name ← nameLeaf .propertyIdentifier
    close .expression t.start [t, name]) base

def arguments (g : Rules) : Reader SyntaxTree :=
  within .arguments do
    expect .parenOpen
    listUntil .parenClose do
      let c ← cursor
      if ← accept .ellipsis then
        let e ← g.read (.expression .enclosed)
        pure [← close .clause c.start [e]]
      else
        pure [← g.read (.expression .enclosed)]

/-- An at-sign with a name, a call of a name, or an expression in parentheses. -/
def decorator (g : Rules) : Reader SyntaxTree :=
  within .clause do
    expect .atSign
    if ← sees .parenOpen then
      expect .parenOpen
      let e ← g.read (.sequence .enclosed)
      expect .parenClose
      pure [e]
    else
      let name ← identifier
      let callee ← dottedNames name
      let called ← optional (arguments g)
      match called with
      | none => pure [callee]
      | some args =>
        pure [← close .callExpression callee.start [callee.labelled .callee,
          args.labelled .arguments]]

def isParameterModifier (w : String) : Bool :=
  w == "public" || w == "private" || w == "protected" || w == "override" || w == "readonly"

/-- Modifiers are words in front of the pattern. -/
def parameterModifier : Reader Unit := do
  match ← peek, ← peekSecond with
  | .word w, .word _ => guard (isParameterModifier w); advance
  | .word w, .punct p =>
    guard (isParameterModifier w && (p == .braceOpen || p == .bracketOpen)); advance
  | _, _ => fail

/-- A parameter is a pattern with an optional default in the untyped grammar; the typed grammar
wraps it in a node whose pattern is the labelled part. -/
def parameter (g : Rules) : Reader SyntaxTree := do
  let c ← cursor
  if g.language.hasTypes then
    let decorators ← many (decorator g)
    let _ ← many parameterModifier
    let pattern ← (do expectWord "this"; close .expression c.start []) <|> g.read .pattern
    let isOptional ← accept .question
    let type ← maybe (ascription g)
    let value ← maybe do
      expect .equals
      pure ((← g.read (.expression .enclosed)).labelled .value)
    close (if isOptional then .optionalParameter else .requiredParameter) c.start
      (decorators ++ pattern.labelled .pattern :: type ++ value)
  else
    let pattern ← g.read .pattern
    if ← accept .equals then
      let value ← g.read (.expression .enclosed)
      close .assignmentPattern c.start [pattern.labelled .left, value]
    else pure pattern

def formalParameters (g : Rules) : Reader SyntaxTree :=
  within .formalParameters do
    expect .parenOpen
    listUntil .parenClose do pure [← parameter g]

/-- A type behind the parameters, or a predicate on one of them. -/
def returnType (g : Rules) : Reader SyntaxTree :=
  within .typeForm do
    expect .colon
    (do
      expectWord "asserts"
      let subject ← identifier
      let narrowed ← maybe do
        expectWord "is"
        typeTerm g
      pure (subject :: narrowed))
    <|> (do
      let subject ← identifier
      guard (!(← cursor).lineBroken)
      expectWord "is"
      pure [subject, ← typeTerm g])
    <|> (do pure [← typeTerm g])

/-- Type parameters, parameters and return type of a function. -/
def signature (g : Rules) (withReturn : Bool) : Reader (List SyntaxTree) := do
  let generics ← if g.language.hasTypes then maybe (typeParameters g) else pure []
  let parameters ← formalParameters g
  let result ← if g.language.hasTypes && withReturn then maybe (returnType g) else pure []
  pure (generics ++ parameters.labelled .parameters :: result)

/-! ## Members of object types -/

/-- The key of an index signature, a mapped type, or a computed name, in brackets. -/
def indexKey (g : Rules) : Reader SyntaxTree :=
  within .clause do
    expect .bracketOpen
    let key ← (do
        let name ← identifier
        expect .colon
        pure [name, ← typeTerm g])
      <|> (do
        let name ← nameLeaf .typeIdentifier
        expectWord "in"
        let range ← typeTerm g
        let renamed ← maybe do
          expectWord "as"
          typeTerm g
        pure (name :: range :: renamed))
      <|> (do pure [← g.read (.expression .enclosed)])
    expect .bracketClose
    pure key

/-- Signs in front of `readonly` and the question mark of a mapped type. -/
def mappedSign : Reader Unit := expect .minus <|> expect .plus

def isMemberModifier (language : Language) (w : String) : Bool :=
  w == "static" || w == "get" || w == "set" || w == "async" ||
    (language.hasTypes &&
      (isParameterModifier w || w == "abstract" || w == "declare" || w == "accessor"))

/-- A modifier is a word in front of the rest of a member; before other punctuation it is the
name of the member itself. -/
def memberModifier : Reader Unit := do
  let language := (← cursor).language
  match ← peek, ← peekSecond with
  | .word w, .word _ | .word w, .string | .word w, .number | .word w, .privateName =>
    guard (isMemberModifier language w)
    advance
  | .word w, .punct p =>
    guard (isMemberModifier language w && (p == .bracketOpen || p == .star))
    advance
  | _, _ => fail

/-- A property, method, call, construct or index signature. -/
def typeMember (g : Rules) : Reader SyntaxTree :=
  within .typeForm do
    let _ ← optional (do mappedSign; expectWord "readonly")
    let _ ← many memberModifier
    let name ←
      if ← sees .bracketOpen then do pure [← indexKey g]
      else if (← sees .parenOpen) || (← sees .less) then pure []
      else do pure [← memberName g]
    let _ ← optional mappedSign
    let _ ← accept .question
    let sig ← if (← sees .parenOpen) || (← sees .less) then signature g true else pure []
    let type ← maybe (ascription g)
    pure (name ++ sig ++ type)

/-- Members in braces. They are separated by commas, semicolons or line breaks. -/
def objectType (g : Rules) : Reader SyntaxTree :=
  within .typeForm do
    expect .braceOpen
    let members ← many do
      guard (!(← sees .braceClose))
      let member ← typeMember g
      let separated ← (do pure ((← accept .comma) || (← accept .semicolon)))
      guard (separated || (← sees .braceClose) || (← cursor).lineBroken)
      pure member
    expect .braceClose
    pure members

/-- An element of a tuple type, perhaps named, optional or spread. -/
def tupleElement (g : Rules) : Reader SyntaxTree :=
  within .typeForm do
    let _ ← accept .ellipsis
    (do
      let name ← identifier
      let _ ← accept .question
      expect .colon
      pure [name, ← typeTerm g])
    <|> (do
      let element ← typeTerm g
      let _ ← accept .question
      pure [element])

/-! ## Type terms -/

def isPredefinedType (w : String) : Bool :=
  ["any", "number", "boolean", "string", "symbol", "void", "unknown", "never", "object", "null",
    "undefined", "true", "false", "this"].contains w

/-- A type name: the outermost part of a qualified name is an identifier. -/
def typeName (g : Rules) : Reader SyntaxTree := do
  let c ← cursor
  let first ← match c.token with
    | .word _ => leaf .typeIdentifier
    | _ => fail
  let parts ← many do
    expect .dot
    nameLeaf .propertyIdentifier
  let name : List SyntaxTree := match parts.getLast? with
    | none => [first]
    | some last =>
      .node .identifier none first.span [] :: parts.dropLast ++
        [.node .typeIdentifier none last.span []]
  let generics ← maybe (typeArguments g)
  match name, generics with
  | [single], [] => pure single
  | _, _ => close .typeForm c.start (name ++ generics)

/-- The type of a variable or of an imported module. -/
def typeQuery (g : Rules) : Reader SyntaxTree :=
  within .typeForm do
    expectWord "typeof"
    if ← seesWord "import" then
      advance
      expect .parenOpen
      let source ← typeTerm g
      expect .parenClose
      let _ ← many do expect .dot; nameLeaf .propertyIdentifier
      pure [source]
    else
      let base ← if ← seesWord "this" then leaf .expression else identifier
      let name ← dottedNames base
      let generics ← maybe (typeArguments g)
      pure (name :: generics)

/-- A function or constructor type. -/
def functionType (g : Rules) : Reader SyntaxTree :=
  within .typeForm do
    let _ ← optional (do expectWord "abstract"; guard (← seesWord "new"))
    let _ ← acceptWord "new"
    let sig ← signature g false
    expect .arrow
    let result ← (do
        let c ← cursor
        let asserting ← acceptWord "asserts"
        let subject ← identifier
        if asserting then
          let narrowed ← maybe (do expectWord "is"; typeTerm g)
          close .typeForm c.start (subject :: narrowed)
        else
          expectWord "is"
          let narrowed ← typeTerm g
          close .typeForm c.start [subject, narrowed])
      <|> typeTerm g
    pure (sig ++ [result])

/-- An operator word in front of a type; where no type follows it is a type name. -/
def prefixedType (g : Rules) (w : String) : Reader SyntaxTree :=
  within .typeForm do
    expectWord w
    guard (!(← cursor).lineBroken)
    pure [← typeTerm g]

/-- A type that a conditional type gives a name, perhaps with a bound. -/
def inferredType (g : Rules) : Reader SyntaxTree :=
  within .typeForm do
    expectWord "infer"
    guard (!(← cursor).lineBroken)
    let name ← nameLeaf .typeIdentifier
    let bound ← maybe do expectWord "extends"; typeTerm g
    pure (name :: bound)

def primaryType (g : Rules) : Reader SyntaxTree := do
  let c ← cursor
  match c.token with
  | .string => leaf .string
  | .number => leaf .typeForm
  | .backquote => template .typeForm (typeTerm g)
  | .punct .minus =>
    advance
    guard ((← peek) == .number)
    advance
    close .typeForm c.start []
  | .punct .braceOpen => objectType g
  | .punct .bracketOpen =>
    within .typeForm do
      expect .bracketOpen
      listUntil .bracketClose do pure [← tupleElement g]
  | .punct .parenOpen =>
    functionType g <|> within .typeForm do
      expect .parenOpen
      let t ← typeTerm g
      expect .parenClose
      pure [t]
  | .punct .less => functionType g
  | .word "new" | .word "abstract" => functionType g <|> typeName g
  | .word "typeof" => typeQuery g
  | .word "keyof" => prefixedType g "keyof" <|> typeName g
  | .word "unique" => prefixedType g "unique" <|> typeName g
  | .word "readonly" => prefixedType g "readonly" <|> typeName g
  | .word "infer" => inferredType g <|> typeName g
  | .word "import" =>
    within .typeForm do
      advance
      expect .parenOpen
      let source ← typeTerm g
      expect .parenClose
      let names ← many do expect .dot; nameLeaf .propertyIdentifier
      let generics ← maybe (typeArguments g)
      pure (source :: names ++ generics)
  | .word w => if isPredefinedType w then leaf .typeForm else typeName g
  | _ => fail

/-- Array types and indexed access types, on the line of what they apply to. -/
def postfixType (g : Rules) : Reader SyntaxTree := do
  let base ← primaryType g
  extend (fun t => do
    guard (!(← cursor).lineBroken)
    expect .bracketOpen
    let index ← maybe (typeTerm g)
    expect .bracketClose
    close .typeForm t.start (t :: index)) base

/-- Unions and intersections, which may begin with their operator. -/
def unionType (g : Rules) : Reader SyntaxTree := do
  let c ← cursor
  let led ← (do pure ((← accept .pipe) || (← accept .ampersand)))
  let first ← postfixType g
  let more ← many do
    expect .pipe <|> expect .ampersand
    postfixType g
  if led || !more.isEmpty then close .typeForm c.start (first :: more) else pure first

/-- A type, which may be conditional. -/
def typeGoal (g : Rules) : Reader SyntaxTree := do
  let checked ← unionType g
  let c ← cursor
  if c.token == .word "extends" && !c.lineBroken then
    (do
      advance
      let bound ← typeTerm g
      expect .question
      let yes ← typeTerm g
      expect .colon
      let no ← typeTerm g
      close .typeForm checked.start [checked, bound, yes, no])
    <|> pure checked
  else pure checked

end ThemeMigration.Script.Grammar
