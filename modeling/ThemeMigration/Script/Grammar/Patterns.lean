import ThemeMigration.Script.Grammar.Types

/-!
# Patterns

The targets of declarations, parameters and destructuring assignments.  A shorthand property of
an object pattern is a node of its own kind, and a default stands beside what it is the default
of.
-/

namespace ThemeMigration.Script.Grammar

open Reader

/-- A default behind a pattern, in a node of the given kind. -/
def withDefault (g : Rules) (kind : Kind) (target : SyntaxTree) : Reader SyntaxTree := do
  if ← accept .equals then
    let value ← g.read (.expression .enclosed)
    close kind target.start [target.labelled .left, value]
  else pure target

/-- The rest of a list, or of the properties of an object. -/
def restPattern (g : Rules) : Reader SyntaxTree :=
  within .restPattern do
    expect .ellipsis
    pure [← g.read .pattern]

/-- A member of an object pattern: a rest, a key with a pattern, or a shorthand. -/
def patternMember (g : Rules) : Reader SyntaxTree :=
  restPattern g
  <|> (do
    let key ← memberName g
    expect .colon
    let target ← g.read .pattern
    let value ← withDefault g .assignmentPattern target
    close .pairPattern key.start [key.labelled .key, value.labelled .value])
  <|> (do
    let name ← nameLeaf .shorthandPattern
    withDefault g .objectAssignmentPattern name)

def objectPattern (g : Rules) : Reader SyntaxTree :=
  within .objectPattern do
    expect .braceOpen
    listUntil .braceClose do pure [← patternMember g]

/-- The elements of an array pattern; a place may be left out. -/
def arrayPattern (g : Rules) : Reader SyntaxTree :=
  within .arrayPattern do
    expect .bracketOpen
    listUntil .bracketClose do
      if ← sees .comma then pure []
      else
        let target ← g.read .pattern
        pure [← withDefault g .assignmentPattern target]

/-- A pattern that a declaration binds.  A declaration can name a variable `undefined`. -/
def bindingPattern (g : Rules) : Reader SyntaxTree := do
  match ← peek with
  | .punct .braceOpen => objectPattern g
  | .punct .bracketOpen => arrayPattern g
  | _ => nameLeaf .identifier

/-- The pattern of an assignment, whose targets may also be members of objects. -/
def patternGoal (g : Rules) : Reader SyntaxTree := do
  match ← peek with
  | .punct .ellipsis => restPattern g
  | .word _ => do
    let target ← identifier
    extend (fun t =>
      (do
        expect .dot
        let name ← nameLeaf .propertyIdentifier
        close .expression t.start [t, name])
      <|> (do
        expect .bracketOpen
        let index ← g.read (.sequence .enclosed)
        expect .bracketClose
        close .expression t.start [t, index])) target
  | _ => bindingPattern g

end ThemeMigration.Script.Grammar
