import ThemeMigration.Component.Basic
import ThemeMigration.ColorProperties
import ThemeMigration.Edits
import ThemeMigration.Script.Literal
import ThemeMigration.TokenTable

/-!
# Colour literals of a component

The string literals of a body that are values of object properties, and what becomes of each: it
is replaced by the expression of its token, it has none, or its property is no colour property.  A
replacement covers the whole literal with its quotes.  Other strings are never looked at.
-/

namespace ThemeMigration

open Script

/-- How many literals were dealt with in which way. -/
@[ext]
structure LiteralCounts where
  replaced : Nat := 0
  unmapped : Nat := 0
  ineligible : Nat := 0
  /-- Literals that have a token but stand in a blocked component. -/
  conflicting : Nat := 0
  deriving DecidableEq, Repr, Inhabited

namespace LiteralCounts

def add (a b : LiteralCounts) : LiteralCounts where
  replaced := a.replaced + b.replaced
  unmapped := a.unmapped + b.unmapped
  ineligible := a.ineligible + b.ineligible
  conflicting := a.conflicting + b.conflicting

instance : Add LiteralCounts := ⟨add⟩

/-- Count what was replaced as left alone because of a conflict. -/
def withdraw (a : LiteralCounts) : LiteralCounts :=
  { a with replaced := 0, conflicting := a.conflicting + a.replaced }

end LiteralCounts

/-- What decides about literals: the tokens and the properties that may hold them. -/
structure Palette where
  tokens : TokenTable
  properties : ColorProperties
  deriving Repr, Inhabited

/-- What becomes of a literal. -/
inductive Verdict where
  | replaced (expression : String)
  | unmapped
  | ineligible
  deriving DecidableEq, Repr, Inhabited

namespace Verdict

def counts : Verdict → LiteralCounts
  | replaced _ => { replaced := 1 }
  | unmapped => { unmapped := 1 }
  | ineligible => { ineligible := 1 }

end Verdict

/-- A string literal that is the value of an object property. -/
structure PropertyLiteral where
  property : SyntaxTree
  literal : SyntaxTree
  deriving Repr, Inhabited

namespace PropertyLiteral

mutual

/-- The property literals inside a node, in source order. -/
def inside : SyntaxTree → List PropertyLiteral
  | .node kind label span parts =>
    if kind == .string then [] else insideParts (.node kind label span parts) parts

/-- The property literals among the given parts of a node and inside them. -/
def insideParts (parent : SyntaxTree) : List SyntaxTree → List PropertyLiteral
  | [] => []
  | t :: ts =>
    (if parent.kind == .pair && t.label == some .value && t.kind == .string then [⟨parent, t⟩]
      else inside t) ++ insideParts parent ts

end

/-- The name of a property key that is not computed. -/
def keyName? (source : String) (key : SyntaxTree) : Option String :=
  match key.kind with
  | .propertyIdentifier | .number => some (key.text source)
  | .string => some (unquote (key.text source))
  | _ => none

def verdict (p : Palette) (source : String) (l : PropertyLiteral) : Verdict :=
  match (l.property.part? .key).bind (keyName? source) with
  | none => .ineligible
  | some name =>
    if p.properties.contains name then
      match p.tokens.lookup? (unquote (l.literal.text source)) with
      | some expression => .replaced expression
      | none => .unmapped
    else .ineligible

/-- The edit that replaces the literal, if it has a token. -/
def edit? (p : Palette) (source : String) (l : PropertyLiteral) : Option Edit :=
  match l.verdict p source with
  | .replaced expression => some (.replace l.literal.span expression)
  | _ => none

end PropertyLiteral

namespace Component

def literals (c : Component) : List PropertyLiteral := PropertyLiteral.inside c.body

/-- The replacements in the body of a component, in source order. -/
def replacements (c : Component) (p : Palette) (source : String) : List Edit :=
  c.literals.filterMap (PropertyLiteral.edit? p source)

def literalCounts (c : Component) (p : Palette) (source : String) : LiteralCounts :=
  c.literals.foldl (fun n l => n + (l.verdict p source).counts) {}

end Component

end ThemeMigration
