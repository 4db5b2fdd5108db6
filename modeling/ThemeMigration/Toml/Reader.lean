import ThemeMigration.Toml.Lexeme

/-!
# Reading TOML

Statements are read one after the other, each with the rest of its line, and then applied.  A
document that cannot be read is reported with the line at which reading stopped.
-/

namespace ThemeMigration.Toml

/-- The items of a list behind its opening bracket, and what follows its closing one. -/
def items? (value? : List Char → Option (Toml × List Char)) :
    Nat → List Char → Option (List Toml × List Char)
  | 0, _ => none
  | bound + 1, cs =>
    match skipVoid false cs with
    | ']' :: rest => some ([], rest)
    | cs =>
      match value? cs with
      | none => none
      | some (v, rest) =>
        match skipVoid false rest with
        | ',' :: rest => (items? value? bound rest).map fun p => (v :: p.1, p.2)
        | ']' :: rest => some ([v], rest)
        | _ => none

/-- A key, an equals sign and a value, and what follows. -/
def assignment? (value? : List Char → Option (Toml × List Char)) (cs : List Char) :
    Option ((List String × Toml) × List Char) := do
  let (path, rest) ← keyPath? maxDepth cs
  let rest ← expect? '=' rest
  let (value, rest) ← value? (skipBlanks rest)
  pure ((path, value), rest)

/-- The assignments of a table in braces from the first one on, applied to a table, and what
follows the closing brace. -/
def inlineEntries? (value? : List Char → Option (Toml × List Char)) :
    Nat → Table → List Char → Option (Table × List Char)
  | 0, _, _ => none
  | bound + 1, t, cs =>
    match assignment? value? cs with
    | none => none
    | some ((path, value), rest) =>
      match t.assign path value with
      | none => none
      | some t =>
        match skipBlanks rest with
        | ',' :: rest => inlineEntries? value? bound t rest
        | '\x7d' :: rest => some (t, rest)
        | _ => none

/-- A value of at most the given number of nested lists and tables, and what follows. -/
def value? : Nat → List Char → Option (Toml × List Char)
  | depth, '[' :: rest =>
    match depth with
    | 0 => none
    | depth + 1 =>
      (items? (value? depth) (rest.length + 1) rest).map fun p => (.array p.1, p.2)
  | depth, '\x7b' :: rest =>
    match depth with
    | 0 => none
    | depth + 1 =>
      match skipBlanks rest with
      | '\x7d' :: rest => some (.table .inline [], rest)
      | cs =>
        (inlineEntries? (value? depth) (cs.length + 1) (.empty .header) cs).map fun p =>
          (.table .inline p.1.entries, p.2)
  | _, cs =>
    match string? cs with
    | some (s, rest) => some (.string s, rest)
    | none => scalar? cs

/-- A statement and what follows it on its line. -/
def statement? (cs : List Char) : Option (Statement × List Char) :=
  match cs with
  | '[' :: '[' :: rest => do
    let (path, rest) ← keyPath? maxDepth rest
    pure (.nextHeader path, ← expect? ']' (← expect? ']' rest))
  | '[' :: rest => do
    let (path, rest) ← keyPath? maxDepth rest
    pure (.header path, ← expect? ']' rest)
  | cs => (assignment? (value? maxDepth) cs).map fun p => (.assignment p.1.1 p.1.2, p.2)

/-- The statements of a text of no more characters than the bound, or what is left where one cannot
be read. -/
def statementsWithin : Nat → List Char → Except (List Char) (List Statement)
  | 0, cs => .error cs
  | bound + 1, cs =>
    match skipVoid false cs with
    | [] => .ok []
    | cs =>
      match (statement? cs).bind fun p => (lineEnd? p.2).map fun rest => (p.1, rest) with
      | none => .error cs
      | some (s, rest) => (statementsWithin bound rest).map (s :: ·)

/-- The text without a byte order mark. -/
def withoutMark : List Char → List Char
  | '\ufeff' :: cs => cs
  | cs => cs

/-- The statements of a text, or the line of the first one that cannot be read. -/
def statements (text : String) : Except Nat (List Statement) :=
  let cs := withoutMark text.toList
  match statementsWithin (cs.length + 1) cs with
  | .ok ss => .ok ss
  | .error rest => .error ((cs.take (cs.length - rest.length)).count '\n' + 1)

/-- The table of a text, or what is wrong with it. -/
def parse (text : String) : Except String Toml :=
  match statements text with
  | .error line => .error s!"invalid statement on line {line}"
  | .ok ss =>
    match ofStatements? ss with
    | none => .error "a key or a table is defined twice"
    | some t => .ok t

end ThemeMigration.Toml
