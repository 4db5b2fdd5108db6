import ThemeMigration.Toml.Lexeme

/-!
# Writing TOML

A list of two or more items takes a line for each, and a blank line stands in front of every header
but one that opens the document.  A string is written between single quotes if it holds double
quotes or backslashes and single quotes can hold it, and else between double quotes; three quotes
and a line break open a string of several lines.  Keys are bare where they can be.
-/

namespace ThemeMigration.Toml

/-- The quotes around a string. -/
inductive Quotes where
  | single
  | triple
  /-- Three quotes with a line break behind the opening ones. -/
  | block
  deriving DecidableEq, Repr, Inhabited

/-- A character other than a tab that stands in no literal string. -/
def isControl (c : Char) : Bool := c != '\t' && (c.toNat < 32 || c.toNat == 127)

/-- The length of the longest run of single quotes. -/
def longestQuoteRun (cs : List Char) : Nat := go 0 0 cs
where
  go (longest current : Nat) : List Char → Nat
    | [] => max longest current
    | c :: rest =>
      if c == '\'' then go longest (current + 1) rest else go (max longest current) 0 rest

/-- Whether a string is written between single quotes: it gains by it, holds no control characters
but tabs and line breaks, no three single quotes in a row, and does not end with one. -/
def isLiteral (cs : List Char) : Bool :=
  cs.any (fun c => c == '"' || c == '\\') && !cs.any (fun c => c != '\n' && isControl c) &&
    longestQuoteRun cs < 3 && cs.getLast? != some '\''

/-- The quotes of a string. -/
def quotesOf (cs : List Char) : Quotes :=
  if cs.contains '\n' then .block
  else if isLiteral cs && cs.contains '\'' then .triple
  else .single

def hexDigits4 (n : Nat) : List Char :=
  let digits := (Nat.toDigits 16 n).map Char.toUpper
  List.replicate (4 - digits.length) '0' ++ digits

/-- How a character is written between double quotes. -/
def escapeChar (lines : Bool) (c : Char) : List Char :=
  if c == '\x08' then ['\\', 'b']
  else if c == '\t' then ['\\', 't']
  else if c == '\n' then if lines then [c] else ['\\', 'n']
  else if c == '\x0c' then ['\\', 'f']
  else if c == '\r' then ['\\', 'r']
  else if c == '"' then ['\\', '"']
  else if c == '\\' then ['\\', '\\']
  else if isControl c then '\\' :: 'u' :: hexDigits4 c.toNat
  else [c]

/-- A text between double quotes on one line. -/
def quoted (cs : List Char) : List Char := '"' :: cs.flatMap (escapeChar false) ++ ['"']

def writeString (s : String) : List Char :=
  let cs := s.toList
  let threeDouble := ['"', '"', '"']
  let threeSingle := ['\'', '\'', '\'']
  match quotesOf cs, isLiteral cs with
  | .single, true => '\'' :: cs ++ ['\'']
  | .triple, true => threeSingle ++ cs ++ threeSingle
  | .block, true => threeSingle ++ '\n' :: cs ++ threeSingle
  | .block, false => threeDouble ++ '\n' :: cs.flatMap (escapeChar true) ++ threeDouble
  | _, false => quoted cs

def writeKey (key : String) : List Char :=
  if key.toList.all isBareKeyChar && !key.isEmpty then key.toList else quoted key.toList

def writePath (path : List String) : List Char :=
  ['.'].intercalate (path.map writeKey)

/-- A list of written items. -/
def writeList : List (List Char) → List Char
  | [] => ['[', ']']
  | [item] => '[' :: item ++ [']']
  | items => '[' :: items.flatMap (fun item => "\n    ".toList ++ item ++ [',']) ++ ['\n', ']']

mutual

def writeValue : Toml → List Char
  | .string s => writeString s
  | .integer n => (toString n).toList
  | .boolean b => (if b then "true" else "false").toList
  | .float spelling => spelling.toList
  | .moment spelling => spelling.toList
  | .array items => writeList (writeValues items)
  | .table _ entries => writeTable (writeEntries entries)
  | .tables items => writeList (writeTables items)

def writeValues : List Toml → List (List Char)
  | [] => []
  | v :: vs => writeValue v :: writeValues vs

def writeEntries : List (String × Toml) → List (List Char)
  | [] => []
  | (key, v) :: rest => (writeKey key ++ " = ".toList ++ writeValue v) :: writeEntries rest

def writeTables : List (List (String × Toml)) → List (List Char)
  | [] => []
  | entries :: rest => writeTable (writeEntries entries) :: writeTables rest

/-- A table in braces with its written entries. -/
def writeTable (entries : List (List Char)) : List Char :=
  "\x7b ".toList ++ ", ".toList.intercalate entries ++ " \x7d".toList

end

/-- A statement on lines of its own. -/
def Statement.write : Statement → List Char
  | .header path => '[' :: writePath path ++ [']', '\n']
  | .nextHeader path => "[[".toList ++ writePath path ++ "]]\n".toList
  | .assignment path value => writePath path ++ " = ".toList ++ writeValue value ++ ['\n']

/-- Whether a blank line stands in front of a statement. -/
def Statement.isHeader : Statement → Bool
  | .assignment .. => false
  | _ => true

/-- A document. -/
def write : List Statement → List Char
  | [] => []
  | s :: ss =>
    s.write ++ ss.flatMap fun s => if s.isHeader then '\n' :: s.write else s.write

end ThemeMigration.Toml
