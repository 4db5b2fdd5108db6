import ThemeMigration.Script.Cursor

/-!
# The rules of the grammar

The grammar is written as readers that are not recursive: what they need of one another they ask
for by a `Goal`, and `Rules` answers.  Recursion is tied once, where a whole script is read.  Nodes
of expressions and types hold their operands without precedence, since no rule of the migration
depends on how operators group.
-/

namespace ThemeMigration.Script

/-- Where an expression stands. -/
structure Mode where
  /-- A statement ends with the expression, so that a line break can end both. -/
  ends : Bool
  /-- The expression stands in the head of a loop, where `in` is no operator. -/
  noIn : Bool
  /-- An arrow function has no return type, because a colon follows the expression. -/
  beforeColon : Bool
  deriving DecidableEq, Repr, Inhabited

namespace Mode

/-- An expression inside brackets. -/
def enclosed : Mode := ⟨false, false, false⟩

/-- An expression that a statement ends with. -/
def closing : Mode := ⟨true, false, false⟩

end Mode

inductive Goal where
  | statement
  | block (operatorAllowed : Bool)
  | sequence (mode : Mode)
  | expression (mode : Mode)
  | operand (mode : Mode)
  | element
  | pattern
  | typeTerm
  deriving DecidableEq, Repr, Inhabited

structure Rules where
  language : Language
  read : Goal → Reader SyntaxTree

namespace Grammar

open Reader

/-- Items up to a closing bracket, which is consumed, with commas between them and perhaps one
behind the last. -/
def listUntil (closing : Punct) (item : Reader (List SyntaxTree)) : Reader (List SyntaxTree) := do
  let items ← many do
    guard (!(← sees closing))
    let found ← item
    let comma ← accept .comma
    guard (comma || (← sees closing))
    pure found
  expect closing
  pure items.flatten

/-- Go on from a node as long as a step applies. -/
def extend (step : SyntaxTree → Reader SyntaxTree) (t : SyntaxTree) : Reader SyntaxTree :=
  fun c => go c.bound t c
where
  go : Nat → SyntaxTree → Reader SyntaxTree
    | 0, t => fun c => some (t, c)
    | fuel + 1, t => fun c =>
      match step t c with
      | none => some (t, c)
      | some (u, d) => go fuel u d

/-- The optional node of a reader as a list. -/
def maybe (r : Reader SyntaxTree) : Reader (List SyntaxTree) := do
  pure (← optional r).toList

/-- A name token as a node of the given kind. -/
def nameLeaf (kind : Kind) : Reader SyntaxTree := do
  match ← peek with
  | .word _ => leaf kind
  | _ => fail

/-- A variable name.  The word `undefined` is a constant, not a name. -/
def identifier : Reader SyntaxTree := do
  match ← peek with
  | .word w => leaf (if w == "undefined" then .expression else .identifier)
  | _ => fail

/-- The name of an object or class member. -/
def memberName (g : Rules) : Reader SyntaxTree := do
  match ← peek with
  | .word _ => leaf .propertyIdentifier
  | .privateName => leaf .clause
  | .string => leaf .string
  | .number => leaf .number
  | .punct .bracketOpen =>
    within .computedPropertyName do
      expect .bracketOpen
      let e ← g.read (.expression .enclosed)
      expect .bracketClose
      pure [e]
  | _ => fail

/-- The pieces of a template between its back quotes, with what its substitutions hold. -/
def template (kind : Kind) (hole : Reader SyntaxTree) : Reader SyntaxTree := do
  let c ← cursor
  guard (c.token == .backquote)
  advance
  let holes ← pieces c.bound []
  close kind c.start holes
where
  pieces : Nat → List SyntaxTree → Reader (List SyntaxTree)
    | 0, _ => fail
    | fuel + 1, found => do
      let c ← cursor
      match Token.templateEnd? c.tail c.tailStart with
      | none => fail
      | some (.closed, behind, stop) =>
        moveTo (c.pastText behind stop)
        pure found.reverse
      | some (.substitution, behind, stop) =>
        moveTo (c.pastText behind stop)
        let inner ← hole
        let d ← cursor
        guard (d.token == .punct .braceClose)
        -- The text behind the brace belongs to the template, so the brace is the last token read.
        moveTo { d with tail := d.behind, tailStart := d.stop, gap := [], passed := d.comments }
        let node := SyntaxTree.node .clause none ⟨stop - 2, d.stop⟩ [inner]
        pieces fuel (node :: found)

end Grammar

end ThemeMigration.Script
