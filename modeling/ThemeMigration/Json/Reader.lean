import ThemeMigration.Json.Token
import ThemeMigration.Json.Value

/-!
# Reading JSON

A value is read from tokens by a machine whose stack holds the lists and objects that are still
open.  A text is one value and nothing else, nested no deeper than 127 levels.
-/

namespace ThemeMigration.Json

/-- A list or an object that waits for its next value. -/
inductive Frame where
  | array (itemsBackwards : List Json)
  | object (membersBackwards : List (String × Json)) (key : String)
  deriving Repr, Inhabited

/-- What has to come next. -/
inductive Phase where
  /-- A value, or the end of a list without items. -/
  | value (mayClose : Bool)
  /-- A key, or the end of an object without members. -/
  | key (membersBackwards : List (String × Json)) (mayClose : Bool)
  | colon (membersBackwards : List (String × Json)) (key : String)
  /-- What follows a complete value. -/
  | after (value : Json)
  deriving Repr, Inhabited

structure Machine where
  /-- The open lists and objects, innermost first. -/
  stack : List Frame
  phase : Phase
  deriving Repr, Inhabited

namespace Machine

def maxDepth : Nat := 127

def initial : Machine := ⟨[], .value false⟩

/-- Read a token where a value may stand. -/
def readValue (stack : List Frame) (mayClose : Bool) : Token → Option Machine
  | .null => some ⟨stack, .after .null⟩
  | .bool b => some ⟨stack, .after (.bool b)⟩
  | .number n => some ⟨stack, .after (.number n)⟩
  | .string s => some ⟨stack, .after (.string s)⟩
  | .bracketOpen =>
    if stack.length < maxDepth then some ⟨.array [] :: stack, .value true⟩ else none
  | .braceOpen => if stack.length < maxDepth then some ⟨stack, .key [] true⟩ else none
  | .bracketClose =>
    if mayClose then
      match stack with
      | .array _ :: below => some ⟨below, .after (.array [])⟩
      | _ => none
    else none
  | _ => none

/-- Read a token behind a complete value. -/
def readAfter (stack : List Frame) (v : Json) (t : Token) : Option Machine :=
  match stack, t with
  | .array items :: below, .comma => some ⟨.array (v :: items) :: below, .value false⟩
  | .array items :: below, .bracketClose => some ⟨below, .after (.array (v :: items).reverse)⟩
  | .object members key :: below, .comma => some ⟨below, .key ((key, v) :: members) false⟩
  | .object members key :: below, .braceClose =>
    some ⟨below, .after (.object ((key, v) :: members).reverse)⟩
  | _, _ => none

def step (m : Machine) (t : Token) : Option Machine :=
  match m.phase, t with
  | .value mayClose, t => readValue m.stack mayClose t
  | .key members _, .string k => some { m with phase := .colon members k }
  | .key _ true, .braceClose => some { m with phase := .after (.object []) }
  | .colon members k, .colon => some ⟨.object members k :: m.stack, .value false⟩
  | .after v, t => readAfter m.stack v t
  | _, _ => none

/-- The value that has been read, if nothing is open. -/
def result? : Machine → Option Json
  | ⟨[], .after v⟩ => some v
  | _ => none

end Machine

/-- The value of a sequence of tokens. -/
def ofTokens? (tokens : List Token) : Option Json :=
  (tokens.foldlM Machine.step Machine.initial).bind Machine.result?

/-- The value of a text. -/
def parse? (text : String) : Option Json := (Token.all? text.toList).bind ofTokens?

end ThemeMigration.Json
