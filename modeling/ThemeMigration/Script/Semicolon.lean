import ThemeMigration.Script.Language
import ThemeMigration.Script.Token

/-!
# Automatic semicolons

Where a statement may end without a semicolon, the characters behind its last token decide
whether it does: it ends before a closing brace, at the end of the text, and before a line break
unless the next line goes on with it.  The two families of languages differ in how they treat a
comment on the same line and in the characters that go on.  `operatorAllowed` says whether a
binary operator could follow, which tells an expression from a declaration or a type.
-/

namespace ThemeMigration.Script

namespace Semicolon

/-- The blanks that separate tokens on one line or end it. -/
def isAsciiBlank (c : Char) : Bool := c == ' ' || (9 ≤ c.toNat && c.toNat ≤ 13)

def isNewLine (c : Char) : Bool := c == '\n' || c == '\u2028' || c == '\u2029'

/-- A line that begins with `in` or `instanceof` goes on with the expression before it. -/
def startsOperatorWord (cs : List Char) : Bool :=
  match cs with
  | 'i' :: 'n' :: rest =>
    match rest with
    | [] => true
    | c :: _ =>
      if !c.isAlpha then true
      else "stanceof".toList.isPrefixOf rest && !((rest.drop 8).head?.any Char.isAlpha)
  | _ => false

/-- Whether the text of a new line begins a statement of its own, by its first characters. -/
def startsStatement (continuing : List Char) (cs : List Char) : Bool :=
  match cs with
  | [] => true
  | c :: rest =>
    if continuing.contains c then false
    else if c == '+' || c == '-' then rest.head? == some c
    else if c == '!' then rest.head? != some '='
    else !startsOperatorWord cs

/-- The characters behind the blanks and comments at the head of a text of at most `bound`
characters. -/
def behindGap (bound : Nat) (cs : List Char) : List Char := (Token.skipGap bound cs 0).2.1

/-- What a run of comments on the line of a statement tells about its end. -/
inductive LineComments where
  | notComment
  | lineOpen (behind : List Char)
  | lineEnded (behind : List Char)

/-- Read the comments behind a token.  A line comment ends its line, a block comment does if a
line break stands inside it. -/
def lineComments : Nat → Bool → List Char → LineComments
  | 0, _, cs => .lineEnded cs
  | bound + 1, broken, cs =>
    let cs := cs.dropWhile isAsciiBlank
    match cs with
    | '/' :: '/' :: rest => lineComments bound broken (rest.dropWhile fun c => !isNewLine c)
    | '/' :: '*' :: rest =>
      match Token.blockCommentEnd? rest 0 with
      | none => .lineEnded []
      | some (behind, _) =>
        let broken := broken || (rest.take (rest.length - behind.length)).any isNewLine
        if behind.head? == some '/' then lineComments bound broken behind
        else if broken then .lineEnded behind
        else .lineOpen behind
    | '/' :: _ => .notComment
    | _ => .lineEnded cs

/-- Whether the line behind a line break leaves the statement before it ended, in the untyped
grammar: a point goes on unless it begins a number. -/
def plainLineEnds (bound : Nat) (cs : List Char) : Bool :=
  match behindGap bound cs with
  | '.' :: rest => rest.head?.any Char.isDigit
  | next => startsStatement "`,:;*%><=[(?^|&/".toList next

/-- The untyped grammar. A declaration, after which no operator can come, ends before a line
comment; an expression ends behind it. -/
def endsPlain (operatorAllowed : Bool) : Nat → List Char → Bool
  | 0, _ => false
  | bound + 1, cs =>
    let goesOn (cs : List Char) : Bool :=
      match cs with
      | [] => false
      | c :: rest =>
        if c == '}' then true
        else if isNewLine c then plainLineEnds bound rest
        else if isAsciiBlank c then endsPlain operatorAllowed bound rest
        else false
    match cs with
    | [] => true
    | '/' :: _ =>
      match lineComments bound false cs with
      | .notComment => false
      | .lineOpen behind => goesOn behind
      | .lineEnded behind =>
        (!operatorAllowed && behind.head? != some ',' && behind.head? != some '=') ||
          goesOn behind
    | _ => goesOn cs

/-- The typed grammar. A comment on the same line belongs to the statement; a bracket on the next
line goes on with an expression, and a colon behind a closing brace goes on with a pattern. -/
def endsTyped (operatorAllowed : Bool) (bound : Nat) : List Char → Bool
  | [] => true
  | c :: rest =>
    if c == '}' then
      if (rest.dropWhile isAsciiBlank).head? == some ':' then operatorAllowed else true
    else if c == '\n' then
      startsStatement ("`,.;*%><=?^|&/:".toList ++ if operatorAllowed then ['(', '['] else [])
        (behindGap bound rest)
    else if isAsciiBlank c then endsTyped operatorAllowed bound rest
    else false

/-- Whether a statement may end in front of these characters. -/
def endsHere (language : Language) (operatorAllowed : Bool) (bound : Nat) (cs : List Char) :
    Bool :=
  if language.hasTypes then endsTyped operatorAllowed bound cs
  else endsPlain operatorAllowed bound cs

end Semicolon

end ThemeMigration.Script
