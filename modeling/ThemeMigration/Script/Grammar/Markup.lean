import ThemeMigration.Script.Grammar.Patterns

/-!
# Markup

Elements with their attributes and children.  Between tags the text is free, so children are read
from the characters behind the last token rather than from tokens.  The names of a closing tag
need not be those of its opening tag.
-/

namespace ThemeMigration.Script.Grammar

open Reader

/-- A name in a tag, which may hold hyphens. -/
def tagName (kind : Kind) : Reader SyntaxTree := fun c =>
  let (name, behind) := Token.markupName c.here
  if name.isEmpty then none
  else
    let stop := c.start + Text.byteLength name
    some (.node kind none ⟨c.start, stop⟩ [], c.past behind stop)

/-- The name of an element: a name, a name in a name space, or a member of an object. -/
def elementName : Reader SyntaxTree := do
  let c ← cursor
  let first ← tagName .identifier
  if ← accept .colon then
    let second ← tagName .identifier
    close .clause c.start [first, second]
  else
    extend (fun t => do
      expect .dot
      let name ← nameLeaf .propertyIdentifier
      close .expression t.start [t, name]) first

/-- A string in a tag, which may run over several lines and has no escapes. -/
def attributeString : Reader SyntaxTree := fun c =>
  match c.here with
  | q :: rest =>
    if q == '\'' || q == '"' then
      match Token.markupStringEnd? q rest (c.start + 1) with
      | some (behind, stop) => some (.node .string none ⟨c.start, stop⟩ [], c.past behind stop)
      | none => none
    else none
  | [] => none

/-- What stands between braces in markup: an expression, a spread, or nothing. -/
def bracedContent (g : Rules) : Reader (List SyntaxTree) := do
  if ← sees .braceClose then pure []
  else
    let c ← cursor
    if ← accept .ellipsis then
      let e ← g.read (.expression .enclosed)
      pure [← close .clause c.start [e]]
    else pure [← g.read (.sequence .enclosed)]

/-- An expression in braces. -/
def braced (g : Rules) : Reader SyntaxTree :=
  within .clause do
    expect .braceOpen
    let content ← bracedContent g
    expect .braceClose
    pure content

def attributeValue (g : Rules) : Reader SyntaxTree :=
  attributeString <|> braced g <|> g.read .element

/-- A name with a value, a name alone, or a spread. -/
def tagAttribute (g : Rules) : Reader SyntaxTree :=
  braced g <|> within .clause do
    let first ← tagName .propertyIdentifier
    let name ← (do
        expect .colon
        let second ← tagName .identifier
        let whole ← close .clause first.start
          [.node .identifier none first.span [], second]
        pure whole)
      <|> pure first
    if ← accept .equals then pure [name, ← attributeValue g] else pure [name]

/-- The closing tag behind the children of an element. -/
def closingTag : Reader SyntaxTree :=
  within .clause do
    expect .less
    expect .slash
    let name ← maybe elementName
    expectGreater
    pure name

/-- The children of an element up to its closing tag, which is the last of the nodes. -/
def elementChildren (g : Rules) : Nat → List SyntaxTree → Reader (List SyntaxTree)
  | 0, _ => fail
  | fuel + 1, found => do
    let c ← cursor
    let (behind, stop) := Token.markupText c.tail c.tailStart
    moveTo (c.pastText behind stop)
    match behind with
    | '{' :: _ =>
      let child ← braced g
      elementChildren g fuel (child :: found)
    | '<' :: _ =>
      match ← optional closingTag with
      | some tag => pure (tag :: found).reverse
      | none =>
        let child ← g.read .element
        elementChildren g fuel (child :: found)
    | _ => fail

/-- An element, self-closing or with children, or a fragment. -/
def elementGoal (g : Rules) : Reader SyntaxTree := do
  let c ← cursor
  expect .less
  if ← sees .greater then
    expectGreater
    let opening ← close .clause c.start []
    let children ← elementChildren g c.bound []
    close .jsxElement c.start (opening :: children)
  else
    let name ← elementName
    let generics ← if g.language.hasTypes then maybe (typeArguments g) else pure []
    let attributes ← many (tagAttribute g)
    if ← accept .slash then
      expectGreater
      close .jsxSelfClosingElement c.start (name :: generics ++ attributes)
    else
      expectGreater
      let opening ← close .clause c.start (name :: generics ++ attributes)
      let children ← elementChildren g c.bound []
      close .jsxElement c.start (opening :: children)

end ThemeMigration.Script.Grammar
