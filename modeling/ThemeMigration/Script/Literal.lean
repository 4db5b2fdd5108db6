import ThemeMigration.Script.SyntaxTree

/-!
# String literals

The text between the quotes of a literal, and the directives that open a script or a function
body.
-/

namespace ThemeMigration.Script

def isQuote (c : Char) : Bool := c == '\'' || c == '"' || c == '\x60'

/-- A text without the pair of equal quotes around it. A text without such a pair stays. -/
def unquote (s : String) : String :=
  match s.toList with
  | [] => s
  | q :: rest => if isQuote q && rest.getLast? == some q then String.ofList rest.dropLast else s

namespace SyntaxTree

/-- An expression statement that is a string literal, such as `'use client';`. -/
def isDirective (t : SyntaxTree) : Bool :=
  t.kind == .expressionStatement && (t.firstNamed?.map (·.kind)) == some .string

end SyntaxTree

end ThemeMigration.Script
