import ThemeMigration.KeyTable

/-!
# JSON values

Numbers keep their spelling, and the members of an object their order.  The written form puts each
item of a list and each member of an object on a line of its own, indented by two blanks a level;
empty ones stay on their line.
-/

namespace ThemeMigration

inductive Json where
  | null
  | bool (value : Bool)
  | number (spelling : String)
  | string (value : String)
  | array (items : List Json)
  | object (members : List (String × Json))
  deriving Repr, Inhabited

namespace Json

/-- The value of the last member with a key. -/
def member? (key : String) : Json → Option Json
  | object members => (members.reverse.find? fun m => m.1 == key).map (·.2)
  | _ => none

def string? : Json → Option String
  | string s => some s
  | _ => none

def array? : Json → Option (List Json)
  | array items => some items
  | _ => none

def object? : Json → Option (List (String × Json))
  | object members => some members
  | _ => none

def natural (n : Nat) : Json := number (toString n)

/-! ## Written form -/

def hexDigits4 (n : Nat) : List Char :=
  let digits := Nat.toDigits 16 n
  List.replicate (4 - digits.length) '0' ++ digits

/-- How a character is written inside quotes. -/
def escapeChar (c : Char) : List Char :=
  if c == '"' then ['\\', '"']
  else if c == '\\' then ['\\', '\\']
  else if c == '\x08' then ['\\', 'b']
  else if c == '\x0c' then ['\\', 'f']
  else if c == '\n' then ['\\', 'n']
  else if c == '\r' then ['\\', 'r']
  else if c == '\t' then ['\\', 't']
  else if c.toNat < 32 then '\\' :: 'u' :: hexDigits4 c.toNat
  else [c]

/-- A text in quotes. -/
def quoted (s : String) : String :=
  String.ofList ('"' :: s.toList.flatMap escapeChar ++ ['"'])

def indentation (level : Nat) : String := String.ofList (List.replicate (2 * level) ' ')

/-- Pieces on lines of their own between two brackets. -/
def block (level : Nat) (opening closing : String) (pieces : List String) : String :=
  if pieces.isEmpty then opening ++ closing
  else
    let line (piece : String) : String := indentation (level + 1) ++ piece
    opening ++ "\n" ++ ",\n".intercalate (pieces.map line) ++ "\n" ++ indentation level ++ closing

mutual

/-- The written form of a value that begins on a line of the given level. -/
def write (level : Nat) : Json → String
  | null => "null"
  | bool b => if b then "true" else "false"
  | number spelling => spelling
  | string s => quoted s
  | array items => block level "[" "]" (writeItems (level + 1) items)
  | object members => block level "\x7b" "\x7d" (writeMembers (level + 1) members)

def writeItems (level : Nat) : List Json → List String
  | [] => []
  | j :: js => write level j :: writeItems level js

def writeMembers (level : Nat) : List (String × Json) → List String
  | [] => []
  | (key, j) :: rest => (quoted key ++ ": " ++ write level j) :: writeMembers level rest

end

end Json

end ThemeMigration
