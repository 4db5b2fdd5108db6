import ThemeMigration.Script.SyntaxTree
import ThemeMigration.Script.Semicolon

/-!
# Reading a script

A cursor stands in front of a token and remembers where the token before it ended, so that the
grammar can look at the blanks and comments between the two.  A reader takes a cursor to a value
and a later cursor, or fails.  Readers that fail leave nothing behind: an alternative starts from
the cursor that the failed one was given.
-/

namespace ThemeMigration.Script

structure Cursor where
  language : Language
  /-- At least the number of characters of the whole text. -/
  bound : Nat
  /-- The next token, the offset it begins at, and the characters from there on. -/
  token : Token
  start : Nat
  here : List Char
  /-- The characters behind the next token and their offset. -/
  behind : List Char
  stop : Nat
  /-- The characters behind the token before, and their offset. -/
  tail : List Char
  tailStart : Nat
  /-- The comments between the token before and the next one. -/
  gap : List Token.Comment
  /-- The comments in front of the token before, latest first. -/
  passed : List Span
  deriving Repr, Inhabited

namespace Cursor

/-- The cursor behind a token that ended at the given place. -/
def resume (language : Language) (bound : Nat) (passed : List Span) (tail : List Char)
    (tailStart : Nat) : Cursor :=
  let (gap, here, start) := Token.skipGap bound tail tailStart
  let next := Token.lexeme bound here start
  { language, bound, token := next.token, start, here, behind := next.behind, stop := next.stop
    tail, tailStart, gap, passed }

/-- The cursor in front of the first token of a text. -/
def ofText (language : Language) (text : String) : Cursor :=
  resume language (text.utf8ByteSize + 1) [] text.toList 0

/-- The comments in front of the next token, latest first. -/
def comments (c : Cursor) : List Span := (c.gap.map (·.span)).reverse ++ c.passed

/-- The cursor behind a token that begins where the next one does, read in another form. -/
def past (c : Cursor) (behind : List Char) (stop : Nat) : Cursor :=
  resume c.language c.bound c.comments behind stop

/-- The cursor behind a piece of text that begins right behind the token before. -/
def pastText (c : Cursor) (behind : List Char) (stop : Nat) : Cursor :=
  resume c.language c.bound c.passed behind stop

def advance (c : Cursor) : Cursor := c.past c.behind c.stop

/-- The span of the next token. -/
def tokenSpan (c : Cursor) : Span := ⟨c.start, c.stop⟩

/-- Whether a line break stands between the token before and the next one. -/
def lineBroken (c : Cursor) : Bool := Token.breaksWithin c.tail (c.start - c.tailStart)

/-- The cursor moved to where a statement without a semicolon ends, if one may end in front of the
next token: behind the token before, or behind the first of the following comments at which it may
end.  The typed grammar reaches past comments on the same line that way. -/
def endStatement? (c : Cursor) (operatorAllowed : Bool) : Option Cursor :=
  if Semicolon.endsHere c.language operatorAllowed c.bound c.tail then some c
  else go c.passed c.gap
where
  go (passed : List Span) : List Token.Comment → Option Cursor
    | [] => none
    | m :: more =>
      if Semicolon.endsHere c.language operatorAllowed c.bound m.behind then
        some { c with tail := m.behind, tailStart := m.span.stop, gap := more
                      passed := m.span :: passed }
      else go (m.span :: passed) more

end Cursor

/-- A reader of a part of a script. -/
def Reader (α : Type) := Cursor → Option (α × Cursor)

namespace Reader

instance : Monad Reader where
  pure a := fun c => some (a, c)
  bind r f := fun c =>
    match r c with
    | none => none
    | some (a, d) => f a d

def fail {α : Type} : Reader α := fun _ => none

/-- The second reader, from the same place, if the first one fails. -/
def orElse {α : Type} (r s : Reader α) : Reader α := fun c =>
  match r c with
  | some found => some found
  | none => s c

instance {α : Type} : OrElse (Reader α) where
  orElse r s := orElse r (s ())

def cursor : Reader Cursor := fun c => some (c, c)

def moveTo (d : Cursor) : Reader Unit := fun _ => some ((), d)

/-- The value of a reader, or nothing and no move. -/
def optional {α : Type} (r : Reader α) : Reader (Option α) := fun c =>
  match r c with
  | some (a, d) => some (some a, d)
  | none => some (none, c)

/-- Succeeds without a move exactly if the test holds. -/
def guard (test : Bool) : Reader Unit := fun c => if test then some ((), c) else none

/-- The values of a reader taken as often as it succeeds and moves on. -/
def many {α : Type} (r : Reader α) : Reader (List α) := fun c => go r c.bound [] c
where
  go (r : Reader α) : Nat → List α → Reader (List α)
    | 0, found => fun c => some (found.reverse, c)
    | fuel + 1, found => fun c =>
      match r c with
      | none => some (found.reverse, c)
      | some (a, d) =>
        if c.tailStart < d.tailStart then go r fuel (a :: found) d
        else some ((a :: found).reverse, d)

/-! ## Tokens -/

def peek : Reader Token := fun c => some (c.token, c)

def advance : Reader Unit := fun c => some ((), c.advance)

/-- Whether the next token is the given punctuation. -/
def sees (p : Punct) : Reader Bool := fun c => some (c.token == .punct p, c)

def seesWord (w : String) : Reader Bool := fun c => some (c.token == .word w, c)

/-- Consume the given punctuation. -/
def expect (p : Punct) : Reader Unit := fun c =>
  if c.token == .punct p then some ((), c.advance) else none

def expectWord (w : String) : Reader Unit := fun c =>
  if c.token == .word w then some ((), c.advance) else none

/-- Consume the given punctuation if it comes next, and say whether it did. -/
def accept (p : Punct) : Reader Bool := fun c =>
  if c.token == .punct p then some (true, c.advance) else some (false, c)

def acceptWord (w : String) : Reader Bool := fun c =>
  if c.token == .word w then some (true, c.advance) else some (false, c)

/-- Consume a closing angle bracket, also where it begins a longer operator. -/
def expectGreater : Reader Unit := fun c =>
  match c.here with
  | '>' :: rest => some ((), c.past rest (c.start + 1))
  | _ => none

/-- The token behind the next one. -/
def peekSecond : Reader Token := fun c => some (c.advance.token, c)

/-! ## Nodes -/

/-- A node without children over the next token. -/
def leaf (kind : Kind) : Reader SyntaxTree := fun c =>
  some (.node kind none c.tokenSpan [], c.advance)

/-- A node whose text runs from the given offset up to the token before. -/
def close (kind : Kind) (start : Nat) (children : List SyntaxTree) : Reader SyntaxTree := fun c =>
  some (.node kind none ⟨start, c.tailStart⟩ children, c)

/-- A node over what the reader consumes. -/
def within (kind : Kind) (children : Reader (List SyntaxTree)) : Reader SyntaxTree := do
  let c ← cursor
  let found ← children
  close kind c.start found

/-- Consume the semicolon of a statement, or end the statement without one. -/
def semicolon (operatorAllowed : Bool) : Reader Unit := fun c =>
  if c.token == .punct .semicolon then some ((), c.advance)
  else (c.endStatement? operatorAllowed).map fun d => ((), d)

/-- Let a block reach up to where a statement would end without a semicolon, if it could end. -/
def blockEnd (operatorAllowed : Bool) : Reader Unit := fun c =>
  some ((), (c.endStatement? operatorAllowed).getD c)

/-- Whether a statement could end in front of the next token. -/
def mayEnd (operatorAllowed : Bool) : Reader Bool := fun c =>
  some (c.token == .punct .semicolon || (c.endStatement? operatorAllowed).isSome, c)

end Reader

end ThemeMigration.Script
