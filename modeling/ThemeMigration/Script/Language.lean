/-!
# Script languages

A script is read by one of three grammars, which its file extension selects.  The plain
TypeScript grammar has angle-bracket casts, TSX has markup in their place, and JavaScript has
markup and no types.
-/

namespace ThemeMigration.Script

inductive Language where
  | typeScript | tsx | javaScript
  deriving DecidableEq, Repr, Inhabited

namespace Language

/-- The language of a file extension, which is compared with its case. -/
def ofExtension? : Option String → Option Language
  | some "ts" | some "mts" | some "cts" => some typeScript
  | some "tsx" => some tsx
  | some "js" | some "jsx" | some "mjs" | some "cjs" => some javaScript
  | _ => none

def name : Language → String
  | typeScript => "TypeScript"
  | tsx => "TSX"
  | javaScript => "JavaScript"

def hasTypes : Language → Bool
  | javaScript => false
  | _ => true

def hasMarkup : Language → Bool
  | typeScript => false
  | _ => true

end Language

end ThemeMigration.Script
