import ThemeMigration.Json.Token
import ThemeMigration.Toml.Value

/-!
# Lexemes of TOML

Blanks, comments, keys, strings and scalars.  Every reader takes the rest of a text to what it read
and what follows, or fails.  Control characters other than tabs stand nowhere in a document, and a
carriage return only in front of a line feed.
-/

namespace ThemeMigration.Toml

def isBlank (c : Char) : Bool := c == ' ' || c == '\t'

def skipBlanks (cs : List Char) : List Char := cs.dropWhile isBlank

/-- A tab or a character that controls nothing. -/
def isTextChar (c : Char) : Bool := c == '\t' || (32 ≤ c.toNat && c.toNat != 127)

def newline? : List Char → Option (List Char)
  | '\n' :: rest => some rest
  | '\r' :: '\n' :: rest => some rest
  | _ => none

/-- What follows blanks, line breaks and comments. -/
def skipVoid (inComment : Bool) : List Char → List Char
  | [] => []
  | '\n' :: rest => skipVoid false rest
  | '\r' :: '\n' :: rest => skipVoid false rest
  | c :: rest =>
    if inComment then
      if isTextChar c then skipVoid true rest else c :: rest
    else if isBlank c then skipVoid false rest
    else if c == '#' then skipVoid true rest
    else c :: rest

/-- What follows the end of a statement: perhaps a comment, then a line break or the end. -/
def lineEnd? (cs : List Char) : Option (List Char) :=
  let rest :=
    match skipBlanks cs with
    | '#' :: rest => rest.dropWhile isTextChar
    | rest => rest
  if rest.isEmpty then some [] else newline? rest

/-! ## Strings -/

/-- The character with the given code in hexadecimal digits. -/
def codePoint? (digits : List Char) : Option Char := do
  let values ← digits.mapM Json.Token.hexValue?
  let code := values.foldl (fun n v => n * 16 + v) 0
  if h : code.isValidChar then pure (Char.ofNatAux code h) else none

/-- The character of a one-letter escape. -/
def simpleEscape? : Char → Option Char
  | '"' => some '"'
  | '\\' => some '\\'
  | 'b' => some '\x08'
  | 'f' => some '\x0c'
  | 'n' => some '\n'
  | 'r' => some '\r'
  | 't' => some '\t'
  | _ => none

/-- What an escape stands for, behind its backslash, and what follows. -/
def escape? : List Char → Option (Char × List Char)
  | 'u' :: a :: b :: c :: d :: rest => (codePoint? [a, b, c, d]).map (·, rest)
  | 'U' :: a :: b :: c :: d :: e :: f :: g :: h :: rest =>
    (codePoint? [a, b, c, d, e, f, g, h]).map (·, rest)
  | c :: rest => (simpleEscape? c).map (·, rest)
  | [] => none

/-- What a basic string holds up to its closing quote, and what follows. -/
def basicBody? : List Char → Option (List Char × List Char)
  | [] => none
  | '"' :: rest => some ([], rest)
  | '\\' :: 'u' :: a :: b :: c :: d :: rest =>
    match codePoint? [a, b, c, d] with
    | none => none
    | some x => (basicBody? rest).map fun p => (x :: p.1, p.2)
  | '\\' :: 'U' :: a :: b :: c :: d :: e :: f :: g :: h :: rest =>
    match codePoint? [a, b, c, d, e, f, g, h] with
    | none => none
    | some x => (basicBody? rest).map fun p => (x :: p.1, p.2)
  | '\\' :: e :: rest =>
    match simpleEscape? e with
    | none => none
    | some x => (basicBody? rest).map fun p => (x :: p.1, p.2)
  | c :: rest =>
    if c != '\\' && isTextChar c then (basicBody? rest).map fun p => (c :: p.1, p.2) else none

/-- What a literal string holds up to its closing quote, and what follows. -/
def literalBody? : List Char → Option (List Char × List Char)
  | [] => none
  | '\'' :: rest => some ([], rest)
  | c :: rest =>
    if isTextChar c then (literalBody? rest).map fun p => (c :: p.1, p.2) else none

/-- What a string of several lines holds up to its three closing quotes, and what follows.  Up to
two quotes may stand in front of the closing ones, and an escaped line break takes the blanks and
line breaks behind it along. -/
def linesBody? (quote : Char) (escapes : Bool) : Nat → List Char → Option (List Char × List Char)
  | 0, _ => none
  | bound + 1, cs =>
    let more (x : Char) (rest : List Char) : Option (List Char × List Char) :=
      (linesBody? quote escapes bound rest).map fun p => (x :: p.1, p.2)
    match cs with
    | [] => none
    | '\r' :: '\n' :: rest => more '\n' rest
    | '\n' :: rest => more '\n' rest
    | c :: rest =>
      if c == quote then
        match (rest.takeWhile (· == quote)).length with
        | 0 => more c rest
        | 1 => more c rest
        | n + 2 =>
          let extra := min n 2
          some (List.replicate extra quote, rest.drop (extra + 2))
      else if escapes && c == '\\' then
        match newline? (skipBlanks rest) with
        | some rest =>
          linesBody? quote escapes bound
            (rest.dropWhile fun d => isBlank d || d == '\n' || d == '\r')
        | none =>
          match escape? rest with
          | none => none
          | some (x, rest) => more x rest
      else if isTextChar c then more c rest
      else none

/-- A line break right behind the opening quotes is not part of a string. -/
def skipFirstBreak (cs : List Char) : List Char := (newline? cs).getD cs

/-- A string that begins and ends with one quote, and what follows. -/
def shortString? (cs : List Char) : Option (String × List Char) :=
  match cs with
  | '"' :: rest => (basicBody? rest).map fun p => (String.ofList p.1, p.2)
  | '\'' :: rest => (literalBody? rest).map fun p => (String.ofList p.1, p.2)
  | _ => none

/-- A string and what follows. -/
def string? (cs : List Char) : Option (String × List Char) :=
  match cs with
  | '"' :: '"' :: '"' :: rest =>
    (linesBody? '"' true (rest.length + 1) (skipFirstBreak rest)).map fun p =>
      (String.ofList p.1, p.2)
  | '\'' :: '\'' :: '\'' :: rest =>
    (linesBody? '\'' false (rest.length + 1) (skipFirstBreak rest)).map fun p =>
      (String.ofList p.1, p.2)
  | cs => shortString? cs

/-! ## Keys -/

def isBareKeyChar (c : Char) : Bool := c.isAlphanum || c == '_' || c == '-'

/-- A key without dots and what follows. -/
def simpleKey? (cs : List Char) : Option (String × List Char) :=
  match cs.takeWhile isBareKeyChar with
  | [] => shortString? cs
  | name => some (String.ofList name, cs.dropWhile isBareKeyChar)

/-- A dotted key of at most the given number of parts, with blanks around the parts. -/
def keyPath? : Nat → List Char → Option (List String × List Char)
  | 0, _ => none
  | parts + 1, cs =>
    match simpleKey? (skipBlanks cs) with
    | none => none
    | some (key, rest) =>
      match skipBlanks rest with
      | '.' :: rest => (keyPath? parts rest).map fun p => (key :: p.1, p.2)
      | rest => some ([key], rest)

/-- The most parts of a key, and the most levels of lists and tables in one another. -/
def maxDepth : Nat := 79

/-! ## Scalars -/

/-- Digits of a base in which single underscores may stand between two digits. -/
def groupedDigits (isDigit : Char → Bool) : List Char → Bool
  | [] => false
  | [c] => isDigit c
  | c :: '_' :: rest => isDigit c && groupedDigits isDigit rest
  | c :: rest => isDigit c && groupedDigits isDigit rest

def withoutUnderscores (cs : List Char) : List Char := cs.filter (· != '_')

/-- The sign of a number, whether it is negative, and its spelling without the sign. -/
def splitSign : List Char → Bool × List Char
  | '-' :: rest => (true, rest)
  | '+' :: rest => (false, rest)
  | cs => (false, cs)

/-- Decimal digits in groups, without a zero in front of other digits. -/
def isWholeNumber (cs : List Char) : Bool :=
  groupedDigits Char.isDigit cs &&
    match cs with
    | '0' :: _ :: _ => false
    | _ => true

/-- The least number that is too large for an integer: two to the power of 63. -/
def integerLimit : Nat := 9223372036854775808

/-- An integer of 64 bits with a sign. -/
def boundedInteger? (n : Int) : Option Toml :=
  if -(integerLimit : Int) ≤ n && n < integerLimit then some (.integer n) else none

/-- The number of grouped digits of a base. -/
def numberInBase? (base : Nat) (cs : List Char) : Option Toml :=
  let isDigit (c : Char) : Bool :=
    match Json.Token.hexValue? c with
    | some v => v < base
    | none => false
  if groupedDigits isDigit cs then
    boundedInteger? <| Int.ofNat <| (withoutUnderscores cs).foldl
      (fun n c => n * base + (Json.Token.hexValue? c).getD 0) 0
  else none

def integer? (cs : List Char) : Option Toml :=
  match cs with
  | '0' :: 'x' :: rest => numberInBase? 16 rest
  | '0' :: 'o' :: rest => numberInBase? 8 rest
  | '0' :: 'b' :: rest => numberInBase? 2 rest
  | _ =>
    let (negative, digits) := splitSign cs
    if isWholeNumber digits then
      let n := Int.ofNat (Json.Token.decimal (withoutUnderscores digits))
      boundedInteger? (if negative then -n else n)
    else none

/-- Whether a spelling is a number with a fraction or an exponent.  A positive one has to be small
enough for a double. -/
def isFloat (cs : List Char) : Bool :=
  let (negative, unsigned) := splitSign cs
  if unsigned == ['i', 'n', 'f'] || unsigned == ['n', 'a', 'n'] then true
  else
    let isMark (c : Char) : Bool := c == 'e' || c == 'E'
    let mantissa := unsigned.takeWhile fun c => !isMark c
    let exponent := unsigned.dropWhile fun c => !isMark c
    let whole := mantissa.takeWhile (· != '.')
    let fraction := mantissa.dropWhile (· != '.')
    let (shrinks, power) := splitSign (exponent.drop 1)
    let fractionFits := fraction.isEmpty || groupedDigits Char.isDigit (fraction.drop 1)
    let exponentFits := exponent.isEmpty || groupedDigits Char.isDigit power
    let places := (withoutUnderscores (fraction.drop 1)).length
    let shift := Json.Token.decimal (withoutUnderscores power)
    let significand := Json.Token.decimal (withoutUnderscores (whole ++ fraction.drop 1))
    isWholeNumber whole && fractionFits && exponentFits &&
      !(fraction.isEmpty && exponent.isEmpty) &&
      (negative || Json.Token.isFinite significand (if shrinks then 0 else shift)
        (places + if shrinks then shift else 0))

/-! ## Dates and times -/

def digitsOf? (count : Nat) (cs : List Char) : Option (Nat × List Char) :=
  let digits := cs.take count
  if digits.length == count && digits.all Char.isDigit then
    some (Json.Token.decimal digits, cs.drop count)
  else none

def expect? (c : Char) : List Char → Option (List Char)
  | d :: rest => if d == c then some rest else none
  | [] => none

def daysIn (year month : Nat) : Nat :=
  if month == 2 then
    if year % 4 == 0 && (year % 100 != 0 || year % 400 == 0) then 29 else 28
  else if [4, 6, 9, 11].contains month then 30
  else 31

/-- What follows a date. -/
def afterDate? (cs : List Char) : Option (List Char) := do
  let (year, cs) ← digitsOf? 4 cs
  let (month, cs) ← digitsOf? 2 (← expect? '-' cs)
  let (day, cs) ← digitsOf? 2 (← expect? '-' cs)
  if 1 ≤ month && month ≤ 12 && 1 ≤ day && day ≤ daysIn year month then pure cs else none

/-- What follows a time of day. -/
def afterTime? (cs : List Char) : Option (List Char) := do
  let (hour, cs) ← digitsOf? 2 cs
  let (minute, cs) ← digitsOf? 2 (← expect? ':' cs)
  let (second, cs) ← digitsOf? 2 (← expect? ':' cs)
  if 23 < hour || 59 < minute || 60 < second then none
  else
    match cs with
    | '.' :: rest =>
      match rest with
      | c :: _ => if c.isDigit then pure (rest.dropWhile Char.isDigit) else none
      | [] => none
    | _ => pure cs

/-- What follows the offset of a time, which may be missing. -/
def afterOffset? : List Char → Option (List Char)
  | 'Z' :: rest => some rest
  | 'z' :: rest => some rest
  | c :: rest =>
    if c == '+' || c == '-' then do
      let (hour, cs) ← digitsOf? 2 rest
      let (minute, cs) ← digitsOf? 2 (← expect? ':' cs)
      if hour ≤ 23 && minute ≤ 59 then pure cs else none
    else some (c :: rest)
  | [] => some []

/-- Whether a spelling is a date, a time of day, or a date and a time with or without an
offset. -/
def isMoment (cs : List Char) : Bool :=
  let rest? :=
    match afterDate? cs with
    | none => afterTime? cs
    | some [] => some []
    | some (c :: rest) =>
      if c == 'T' || c == 't' || c == ' ' then (afterTime? rest).bind afterOffset? else none
  rest? == some []

def isScalarChar (c : Char) : Bool := c.isAlphanum || ['+', '-', '_', '.', ':'].contains c

/-- The spelling of a scalar and what follows.  A blank may stand between a date and a time. -/
def scalarSpelling (cs : List Char) : List Char × List Char :=
  let first := cs.takeWhile isScalarChar
  match cs.dropWhile isScalarChar with
  | ' ' :: rest =>
    if (afterDate? first) == some [] && (rest.head?.map Char.isDigit).getD false then
      (first ++ ' ' :: rest.takeWhile isScalarChar, rest.dropWhile isScalarChar)
    else (first, ' ' :: rest)
  | rest => (first, rest)

/-- A boolean, a number, a date or a time, and what follows. -/
def scalar? (cs : List Char) : Option (Toml × List Char) :=
  let (spelling, rest) := scalarSpelling cs
  let value :=
    if spelling == ['t', 'r', 'u', 'e'] then some (.boolean true)
    else if spelling == ['f', 'a', 'l', 's', 'e'] then some (.boolean false)
    else if isFloat spelling then some (.float (String.ofList spelling))
    else if isMoment spelling then some (.moment (String.ofList spelling))
    else integer? spelling
  value.map (·, rest)

end ThemeMigration.Toml
