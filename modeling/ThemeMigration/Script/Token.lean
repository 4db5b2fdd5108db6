import ThemeMigration.Text.Slice
import ThemeMigration.Text.Blank

/-!
# Tokens

The lexical grammar of scripts: blanks and comments, names, numbers, string literals and
punctuation.  A token is read from the characters that begin with it, together with the
characters behind it and the bytes between.  Three forms depend on what the grammar expects and
are read by functions of their own: regular expressions, the pieces of a template, and the names
and texts of markup.
-/

namespace ThemeMigration.Script

/-- Punctuation.  Operators of one precedence that the grammar treats alike share a constructor. -/
inductive Punct where
  | braceOpen | braceClose | parenOpen | parenClose | bracketOpen | bracketClose
  | semicolon | comma | colon | dot | ellipsis | question | questionDot | arrow | atSign
  | equals | assignOp | less | greater | star | slash | slashEquals | percent | power
  | plus | minus | increment | shift | relation | equality
  | ampersand | pipe | caret | logical | bang | tilde
  deriving DecidableEq, Repr, Inhabited

inductive Token where
  | word (text : String)
  | privateName
  | number
  | string
  | backquote
  | punct (p : Punct)
  | hashBang
  | finish
  | invalid
  deriving DecidableEq, Repr, Inhabited

namespace Token

/-! ## Characters -/

/-- A line break: a line feed, a carriage return, or one of the two Unicode separators. -/
def isLineBreak (c : Char) : Bool := c == '\n' || c == '\r' || c == '\u2028' || c == '\u2029'

/-- Characters between tokens: blanks other than the next-line control, and the zero-width
characters that scripts ignore, the byte order mark among them. -/
def isSpace (c : Char) : Bool :=
  (Text.isBlank c && c != '\u0085') || c == '\uFEFF' || c == '\u2060' || c == '\u200B'

/-- Characters that never belong to a name: controls, spaces, and ASCII punctuation other than
the dollar sign and the underscore. -/
def endsName (c : Char) : Bool :=
  c.toNat ≤ 0x1F || isSpace c || "!\"#%&'()*+,-./:;<=>?@[\\]^`\x7b|\x7d~".toList.contains c

def isNameChar (c : Char) : Bool := !endsName c

def startsName (c : Char) : Bool := isNameChar c && !c.isDigit

def isHexDigit (c : Char) : Bool :=
  c.isDigit || ('a' ≤ c && c ≤ 'f') || ('A' ≤ c && c ≤ 'F')

/-! ## Blanks and comments -/

/-- A comment with the characters behind it. -/
structure Comment where
  span : Span
  behind : List Char
  deriving Repr, Inhabited

/-- The end of a line comment, one offset further per byte. -/
def lineCommentEnd : List Char → Nat → List Char × Nat
  | [], offset => ([], offset)
  | c :: cs, offset =>
    if isLineBreak c then (c :: cs, offset) else lineCommentEnd cs (offset + c.utf8Size)

/-- The end of a block comment, unless the text ends before it. -/
def blockCommentEnd? : List Char → Nat → Option (List Char × Nat)
  | '*' :: '/' :: cs, offset => some (cs, offset + 2)
  | c :: cs, offset => blockCommentEnd? cs (offset + c.utf8Size)
  | [], _ => none

/-- A comment at the head of the characters. -/
def comment? (cs : List Char) (offset : Nat) : Option Comment :=
  match cs with
  | '/' :: '/' :: rest =>
    let (behind, stop) := lineCommentEnd rest (offset + 2)
    some ⟨⟨offset, stop⟩, behind⟩
  | '/' :: '*' :: rest =>
    (blockCommentEnd? rest (offset + 2)).map fun (behind, stop) => ⟨⟨offset, stop⟩, behind⟩
  | _ => none

/-- The characters behind leading spaces and the offset they begin at. -/
def skipSpaces : List Char → Nat → List Char × Nat
  | [], offset => ([], offset)
  | c :: cs, offset => if isSpace c then skipSpaces cs (offset + c.utf8Size) else (c :: cs, offset)

/-- The comments in front of the next token, which begins at the returned offset.  The first
argument bounds their number. -/
def skipGap : Nat → List Char → Nat → List Comment × List Char × Nat
  | 0, cs, offset => ([], cs, offset)
  | bound + 1, cs, offset =>
    let (rest, start) := skipSpaces cs offset
    match comment? rest start with
    | none => ([], rest, start)
    | some c =>
      let (comments, next, nextStart) := skipGap bound c.behind c.span.stop
      (c :: comments, next, nextStart)

/-- Whether a line break stands among the first bytes of the text. -/
def breaksWithin : List Char → Nat → Bool
  | [], _ => false
  | c :: cs, size => size != 0 && (isLineBreak c || breaksWithin cs (size - c.utf8Size))

/-! ## Literals -/

/-- The four hexadecimal digits, or the digits in braces, of a code point escape. -/
def codePointEscape? : List Char → Option (List Char × Nat)
  | '{' :: rest =>
    let digits := rest.takeWhile isHexDigit
    match rest.dropWhile isHexDigit with
    | '}' :: behind => if digits.isEmpty then none else some (behind, digits.length + 2)
    | _ => none
  | a :: b :: c :: d :: behind =>
    if isHexDigit a && isHexDigit b && isHexDigit c && isHexDigit d then some (behind, 4) else none
  | _ => none

/-- The characters behind a string literal and its last offset.  A literal ends on its own line
unless the line break is escaped; hexadecimal escapes are complete. -/
def stringEnd? (quote : Char) : Nat → List Char → Nat → Option (List Char × Nat)
  | 0, _, _ => none
  | fuel + 1, cs, offset =>
    match cs with
    | [] => none
    | '\\' :: 'x' :: rest =>
      match rest with
      | a :: b :: behind =>
        if isHexDigit a && isHexDigit b then stringEnd? quote fuel behind (offset + 4) else none
      | _ => none
    | '\\' :: 'u' :: rest =>
      match codePointEscape? rest with
      | some (behind, width) => stringEnd? quote fuel behind (offset + 2 + width)
      | none => none
    | '\\' :: '\r' :: '\n' :: rest => stringEnd? quote fuel rest (offset + 3)
    | '\\' :: c :: rest => stringEnd? quote fuel rest (offset + 1 + c.utf8Size)
    | c :: rest =>
      if c == quote then some (rest, offset + 1)
      else if c == '\n' || c == '\r' then none
      else stringEnd? quote fuel rest (offset + c.utf8Size)

/-- The characters of a name, its escapes kept as they are written. -/
def nameChars : Nat → List Char → List Char × List Char
  | 0, cs => ([], cs)
  | fuel + 1, cs =>
    match cs with
    | '\\' :: 'u' :: rest =>
      match codePointEscape? rest with
      | some (behind, width) =>
        let (more, last) := nameChars fuel behind
        ('\\' :: 'u' :: rest.take width ++ more, last)
      | none => ([], cs)
    | c :: rest =>
      if isNameChar c then
        let (more, last) := nameChars fuel rest
        (c :: more, last)
      else ([], cs)
    | [] => ([], [])

/-- The digits that a radix letter announces. -/
def radixDigit? : Char → Option (Char → Bool)
  | 'x' | 'X' => some isHexDigit
  | 'o' | 'O' => some fun c => '0' ≤ c && c ≤ '7'
  | 'b' | 'B' => some fun c => c == '0' || c == '1'
  | _ => none

/-- The length of a number literal: digits with underscores, a radix or big-integer letter, a
fraction, and an exponent with its sign. -/
def numberLength (cs : List Char) : Nat :=
  match cs with
  | '0' :: r :: rest =>
    match radixDigit? r with
    | some isDigit => radixLength isDigit rest
    | none => decimalLength cs
  | _ => decimalLength cs
where
  radixLength (isDigit : Char → Bool) (rest : List Char) : Nat :=
    let n := (rest.takeWhile fun c => isDigit c || c == '_').length
    if n == 0 then 1 else if (rest.drop n).head? == some 'n' then n + 3 else n + 2
  digitRun (cs : List Char) : Nat := (cs.takeWhile fun c => c.isDigit || c == '_').length
  exponentLength (cs : List Char) : Nat :=
    match cs with
    | e :: rest =>
      if e == 'e' || e == 'E' then
        match rest with
        | s :: more =>
          if s == '+' || s == '-' then
            let n := digitRun more
            if n == 0 then 0 else n + 2
          else
            let n := digitRun rest
            if n == 0 then 0 else n + 1
        | [] => 0
      else 0
    | [] => 0
  decimalLength (cs : List Char) : Nat :=
    let whole := digitRun cs
    match cs.drop whole with
    | '.' :: rest =>
      let n := whole + 1 + digitRun rest
      n + exponentLength (cs.drop n)
    | 'n' :: _ => whole + 1
    | _ => whole + exponentLength (cs.drop whole)

/-! ## Punctuation -/

/-- The longest punctuation at the head of the characters, with its length. -/
def punct? : List Char → Option (Punct × Nat)
  | '.' :: '.' :: '.' :: _ => some (.ellipsis, 3)
  | '.' :: _ => some (.dot, 1)
  | '>' :: '>' :: '>' :: '=' :: _ => some (.assignOp, 4)
  | '>' :: '>' :: '>' :: _ => some (.shift, 3)
  | '>' :: '>' :: '=' :: _ => some (.assignOp, 3)
  | '>' :: '>' :: _ => some (.shift, 2)
  | '>' :: '=' :: _ => some (.relation, 2)
  | '>' :: _ => some (.greater, 1)
  | '<' :: '<' :: '=' :: _ => some (.assignOp, 3)
  | '<' :: '<' :: _ => some (.shift, 2)
  | '<' :: '=' :: _ => some (.relation, 2)
  | '<' :: _ => some (.less, 1)
  | '=' :: '=' :: '=' :: _ => some (.equality, 3)
  | '=' :: '=' :: _ => some (.equality, 2)
  | '=' :: '>' :: _ => some (.arrow, 2)
  | '=' :: _ => some (.equals, 1)
  | '!' :: '=' :: '=' :: _ => some (.equality, 3)
  | '!' :: '=' :: _ => some (.equality, 2)
  | '!' :: _ => some (.bang, 1)
  | '+' :: '+' :: _ => some (.increment, 2)
  | '+' :: '=' :: _ => some (.assignOp, 2)
  | '+' :: _ => some (.plus, 1)
  | '-' :: '-' :: _ => some (.increment, 2)
  | '-' :: '=' :: _ => some (.assignOp, 2)
  | '-' :: _ => some (.minus, 1)
  | '*' :: '*' :: '=' :: _ => some (.assignOp, 3)
  | '*' :: '*' :: _ => some (.power, 2)
  | '*' :: '=' :: _ => some (.assignOp, 2)
  | '*' :: _ => some (.star, 1)
  | '/' :: '=' :: _ => some (.slashEquals, 2)
  | '/' :: _ => some (.slash, 1)
  | '%' :: '=' :: _ => some (.assignOp, 2)
  | '%' :: _ => some (.percent, 1)
  | '&' :: '&' :: '=' :: _ => some (.assignOp, 3)
  | '&' :: '&' :: _ => some (.logical, 2)
  | '&' :: '=' :: _ => some (.assignOp, 2)
  | '&' :: _ => some (.ampersand, 1)
  | '|' :: '|' :: '=' :: _ => some (.assignOp, 3)
  | '|' :: '|' :: _ => some (.logical, 2)
  | '|' :: '=' :: _ => some (.assignOp, 2)
  | '|' :: _ => some (.pipe, 1)
  | '^' :: '=' :: _ => some (.assignOp, 2)
  | '^' :: _ => some (.caret, 1)
  | '?' :: '?' :: '=' :: _ => some (.assignOp, 3)
  | '?' :: '?' :: _ => some (.logical, 2)
  | '?' :: '.' :: c :: _ => if c.isDigit then some (.question, 1) else some (.questionDot, 2)
  | '?' :: '.' :: _ => some (.questionDot, 2)
  | '?' :: _ => some (.question, 1)
  | '~' :: _ => some (.tilde, 1)
  | '{' :: _ => some (.braceOpen, 1)
  | '}' :: _ => some (.braceClose, 1)
  | '(' :: _ => some (.parenOpen, 1)
  | ')' :: _ => some (.parenClose, 1)
  | '[' :: _ => some (.bracketOpen, 1)
  | ']' :: _ => some (.bracketClose, 1)
  | ';' :: _ => some (.semicolon, 1)
  | ',' :: _ => some (.comma, 1)
  | ':' :: _ => some (.colon, 1)
  | '@' :: _ => some (.atSign, 1)
  | _ => none

/-! ## The next token -/

/-- A token with the characters behind it and the offset they begin at. -/
structure Lexeme where
  token : Token
  behind : List Char
  stop : Nat
  deriving Repr, Inhabited

/-- The token at the head of the characters, of which there are at most `bound`. -/
def lexeme (bound : Nat) (cs : List Char) (offset : Nat) : Lexeme :=
  match cs with
  | [] => ⟨.finish, [], offset⟩
  | c :: rest =>
    if startsName c || c == '\\' then
      let (name, behind) := nameChars bound cs
      if name.isEmpty then ⟨.invalid, cs, offset⟩
      else ⟨.word (String.ofList name), behind, offset + Text.byteLength name⟩
    else if c.isDigit || (c == '.' && rest.head?.any Char.isDigit) then
      let n := numberLength cs
      ⟨.number, cs.drop n, offset + n⟩
    else if c == '\'' || c == '"' then
      match stringEnd? c bound rest (offset + 1) with
      | some (behind, stop) => ⟨.string, behind, stop⟩
      | none => ⟨.invalid, cs, offset⟩
    else if c == '`' then ⟨.backquote, rest, offset + 1⟩
    else if c == '#' then
      if rest.head? == some '!' then
        let (behind, stop) := lineCommentEnd rest (offset + 1)
        ⟨.hashBang, behind, stop⟩
      else
        let (name, behind) := nameChars bound rest
        if name.isEmpty then ⟨.invalid, cs, offset⟩
        else ⟨.privateName, behind, offset + 1 + Text.byteLength name⟩
    else
      match punct? cs with
      | some (p, n) => ⟨.punct p, cs.drop n, offset + n⟩
      | none => ⟨.invalid, cs, offset⟩

/-! ## Forms that the grammar asks for -/

/-- The body of a regular expression behind its opening slash, up to the closing slash; a slash
in a character class does not close it. -/
def regexEnd? (inClass : Bool) : List Char → Nat → Option (List Char × Nat)
  | [], _ => none
  | '\\' :: c :: rest, offset =>
    if isLineBreak c then none else regexEnd? inClass rest (offset + 1 + c.utf8Size)
  | c :: rest, offset =>
    if isLineBreak c then none
    else if c == '/' && !inClass then
      let flags := rest.takeWhile Char.isAlpha
      some (rest.dropWhile Char.isAlpha, offset + 1 + flags.length)
    else if c == '[' then regexEnd? true rest (offset + 1)
    else if c == ']' then regexEnd? false rest (offset + 1)
    else regexEnd? inClass rest (offset + c.utf8Size)

/-- How a run of template characters ends. -/
inductive TemplateStop where
  | closed
  | substitution
  deriving DecidableEq, Repr

/-- The characters of a template up to its closing back quote or the next substitution. -/
def templateEnd? : List Char → Nat → Option (TemplateStop × List Char × Nat)
  | [], _ => none
  | '`' :: rest, offset => some (.closed, rest, offset + 1)
  | '$' :: '{' :: rest, offset => some (.substitution, rest, offset + 2)
  | '\\' :: c :: rest, offset => templateEnd? rest (offset + 1 + c.utf8Size)
  | c :: rest, offset => templateEnd? rest (offset + c.utf8Size)

/-- The text of markup up to the next tag or brace. -/
def markupText : List Char → Nat → List Char × Nat
  | [], offset => ([], offset)
  | c :: rest, offset =>
    if c == '<' || c == '{' || c == '>' || c == '}' then (c :: rest, offset)
    else markupText rest (offset + c.utf8Size)

/-- The rest of a markup attribute string, which may run over several lines. -/
def markupStringEnd? (quote : Char) : List Char → Nat → Option (List Char × Nat)
  | [], _ => none
  | c :: rest, offset =>
    if c == quote then some (rest, offset + 1)
    else markupStringEnd? quote rest (offset + c.utf8Size)

/-- A name in a tag, in which hyphens may stand behind the first character. -/
def markupName (cs : List Char) : List Char × List Char :=
  match cs with
  | [] => ([], [])
  | c :: rest =>
    if startsName c then
      (c :: rest.takeWhile (fun d => isNameChar d || d == '-'),
        rest.dropWhile fun d => isNameChar d || d == '-')
    else ([], cs)

end Token

end ThemeMigration.Script
