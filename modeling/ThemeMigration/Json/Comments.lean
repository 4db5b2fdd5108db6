import ThemeMigration.Text.Blank

/-!
# JSON with comments

A `tsconfig` is JSON with comments and with commas in front of closing brackets.  Both are removed
outside strings, and what strings hold stays.  Line breaks stay too, so everything that is left is
on the line it was on.
-/

namespace ThemeMigration.Json

/-- Where a character stands. -/
inductive Place where
  | plain
  | string
  /-- Behind a backslash in a string. -/
  | escape
  | lineComment
  /-- In a block comment, behind a star or not. -/
  | blockComment (star : Bool)
  deriving DecidableEq, Repr, Inhabited

/-- The text without comments. -/
def withoutComments : Place → List Char → List Char
  | _, [] => []
  | .plain, '"' :: cs => '"' :: withoutComments .string cs
  | .plain, '/' :: '/' :: cs => withoutComments .lineComment cs
  | .plain, '/' :: '*' :: cs => withoutComments (.blockComment false) cs
  | .plain, c :: cs => c :: withoutComments .plain cs
  | .string, '\\' :: cs => '\\' :: withoutComments .escape cs
  | .string, '"' :: cs => '"' :: withoutComments .plain cs
  | .string, c :: cs => c :: withoutComments .string cs
  | .escape, c :: cs => c :: withoutComments .string cs
  | .lineComment, '\n' :: cs => '\n' :: withoutComments .plain cs
  | .lineComment, _ :: cs => withoutComments .lineComment cs
  | .blockComment true, '/' :: cs => withoutComments .plain cs
  | .blockComment _, '\n' :: cs => '\n' :: withoutComments (.blockComment false) cs
  | .blockComment _, c :: cs => withoutComments (.blockComment (c == '*')) cs

/-- Whether the first character that is not blank closes a list or an object. -/
def closesNext (cs : List Char) : Bool :=
  match cs.find? fun c => !Text.isBlank c with
  | some c => c == '\x7d' || c == ']'
  | none => false

/-- A text without comments, without the commas in front of closing brackets. -/
def withoutTrailingCommas : Place → List Char → List Char
  | _, [] => []
  | .string, '\\' :: cs => '\\' :: withoutTrailingCommas .escape cs
  | .string, '"' :: cs => '"' :: withoutTrailingCommas .plain cs
  | .string, c :: cs => c :: withoutTrailingCommas .string cs
  | .escape, c :: cs => c :: withoutTrailingCommas .string cs
  | _, '"' :: cs => '"' :: withoutTrailingCommas .string cs
  | place, ',' :: cs =>
    if closesNext cs then withoutTrailingCommas place cs
    else ',' :: withoutTrailingCommas place cs
  | place, c :: cs => c :: withoutTrailingCommas place cs

/-- The strict JSON text of a text with comments and trailing commas. -/
def strip (text : String) : String :=
  String.ofList (withoutTrailingCommas .plain (withoutComments .plain text.toList))

end ThemeMigration.Json
