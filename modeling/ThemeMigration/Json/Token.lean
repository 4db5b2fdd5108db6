/-!
# JSON tokens

The tokens of a strict JSON text.  Only four characters count as blanks, strings hold no raw
control characters and no half of a surrogate pair, and a number too large for a double is no
token.
-/

namespace ThemeMigration.Json

inductive Token where
  | braceOpen | braceClose | bracketOpen | bracketClose | colon | comma
  | null
  | bool (value : Bool)
  | number (spelling : String)
  | string (value : String)
  deriving DecidableEq, Repr, Inhabited

namespace Token

def isBlank (c : Char) : Bool := c == ' ' || c == '\t' || c == '\n' || c == '\r'

def hexValue? (c : Char) : Option Nat :=
  if c.isDigit then some (c.toNat - 48)
  else if 'a' ≤ c && c ≤ 'f' then some (c.toNat - 87)
  else if 'A' ≤ c && c ≤ 'F' then some (c.toNat - 55)
  else none

/-- The number of four hexadecimal digits. -/
def hexQuad? (a b c d : Char) : Option Nat := do
  let a ← hexValue? a
  let b ← hexValue? b
  let c ← hexValue? c
  let d ← hexValue? d
  pure (((a * 16 + b) * 16 + c) * 16 + d)

/-- The character of a one-letter escape. -/
def simpleEscape? : Char → Option Char
  | '"' => some '"'
  | '\\' => some '\\'
  | '/' => some '/'
  | 'b' => some '\x08'
  | 'f' => some '\x0c'
  | 'n' => some '\n'
  | 'r' => some '\r'
  | 't' => some '\t'
  | _ => none

def isHighSurrogate (n : Nat) : Bool := 0xD800 ≤ n && n ≤ 0xDBFF

def isLowSurrogate (n : Nat) : Bool := 0xDC00 ≤ n && n ≤ 0xDFFF

/-- What a string holds up to its closing quote, and what follows. -/
def stringBody? : List Char → Option (List Char × List Char)
  | [] => none
  | '"' :: rest => some ([], rest)
  | '\\' :: 'u' :: a :: b :: c :: d :: rest =>
    match hexQuad? a b c d with
    | none => none
    | some n =>
      if isLowSurrogate n then none
      else if isHighSurrogate n then
        match rest with
        | '\\' :: 'u' :: e :: f :: g :: h :: rest =>
          match hexQuad? e f g h with
          | none => none
          | some m =>
            if isLowSurrogate m then
              let code := 0x10000 + (n - 0xD800) * 0x400 + (m - 0xDC00)
              (stringBody? rest).map fun p => (Char.ofNat code :: p.1, p.2)
            else none
        | _ => none
      else (stringBody? rest).map fun p => (Char.ofNat n :: p.1, p.2)
  | '\\' :: e :: rest =>
    match simpleEscape? e with
    | none => none
    | some c => (stringBody? rest).map fun p => (c :: p.1, p.2)
  | c :: rest =>
    if c == '\\' || c.toNat < 32 then none
    else (stringBody? rest).map fun p => (c :: p.1, p.2)

/-! ## Numbers -/

/-- The number of a list of decimal digits. -/
def decimal (digits : List Char) : Nat := digits.foldl (fun n c => n * 10 + (c.toNat - 48)) 0

/-- The least value that no double is near enough to. -/
def beyondDoubles : Nat := Nat.pow 2 1024 - Nat.pow 2 970

/-- Whether `significand · 10 ^ (up - down)` is small enough for a double. -/
def isFinite (significand up down : Nat) : Bool :=
  if significand == 0 then true
  else if down ≤ up then
    up - down ≤ 400 && significand * Nat.pow 10 (up - down) < beyondDoubles
  else if (Nat.toDigits 10 significand).length < down - up then true
  else significand < beyondDoubles * Nat.pow 10 (down - up)

/-- Digits and what follows. -/
def digits (cs : List Char) : List Char × List Char :=
  (cs.takeWhile Char.isDigit, cs.dropWhile Char.isDigit)

/-- The digits of a number before its point: no zero stands in front of others. -/
def integerPart? (cs : List Char) : Option (List Char × List Char) :=
  match cs with
  | '0' :: rest => some (['0'], rest)
  | _ =>
    let (ds, rest) := digits cs
    if ds.isEmpty then none else some (ds, rest)

/-- The digits behind a point, if there is one. -/
def fraction? : List Char → Option (List Char × List Char)
  | '.' :: cs =>
    let (ds, rest) := digits cs
    if ds.isEmpty then none else some (ds, rest)
  | cs => some ([], cs)

/-- The exponent of a number: its spelling, whether it is negative, its digits and what follows. -/
def exponent? : List Char → Option (List Char × Bool × List Char × List Char)
  | c :: cs =>
    if c == 'e' || c == 'E' then
      let (mark, negative, cs) :=
        match cs with
        | '-' :: cs => ([c, '-'], true, cs)
        | '+' :: cs => ([c, '+'], false, cs)
        | cs => ([c], false, cs)
      let (ds, rest) := digits cs
      if ds.isEmpty then none else some (mark ++ ds, negative, ds, rest)
    else some ([], false, [], c :: cs)
  | [] => some ([], false, [], [])

/-- The spelling of a number at the head of a text and what follows. -/
def number? (cs : List Char) : Option (List Char × List Char) := do
  let (sign, cs) :=
    match cs with
    | '-' :: cs => (['-'], cs)
    | cs => ([], cs)
  let (whole, cs) ← integerPart? cs
  let (part, cs) ← fraction? cs
  let (mark, negative, power, cs) ← exponent? cs
  let up := if negative then 0 else decimal power
  let down := part.length + if negative then decimal power else 0
  if isFinite (decimal (whole ++ part)) up down then
    let point := if part.isEmpty then [] else '.' :: part
    pure (sign ++ whole ++ point ++ mark, cs)
  else none

/-! ## Texts -/

/-- The token at the head of a text without leading blanks, and what follows. -/
def first? (cs : List Char) : Option (Token × List Char) :=
  match cs with
  | '\x7b' :: rest => some (braceOpen, rest)
  | '\x7d' :: rest => some (braceClose, rest)
  | '[' :: rest => some (bracketOpen, rest)
  | ']' :: rest => some (bracketClose, rest)
  | ':' :: rest => some (colon, rest)
  | ',' :: rest => some (comma, rest)
  | '"' :: rest => (stringBody? rest).map fun p => (string (String.ofList p.1), p.2)
  | 'n' :: 'u' :: 'l' :: 'l' :: rest => some (null, rest)
  | 't' :: 'r' :: 'u' :: 'e' :: rest => some (bool true, rest)
  | 'f' :: 'a' :: 'l' :: 's' :: 'e' :: rest => some (bool false, rest)
  | cs => (number? cs).map fun p => (number (String.ofList p.1), p.2)

/-- The tokens of a text of no more characters than the bound. -/
def allWithin : Nat → List Char → Option (List Token)
  | 0, _ => none
  | bound + 1, cs =>
    match cs.dropWhile isBlank with
    | [] => some []
    | c :: rest =>
      match first? (c :: rest) with
      | none => none
      | some (t, rest) => (allWithin bound rest).map (t :: ·)

/-- The tokens of a text. -/
def all? (cs : List Char) : Option (List Token) := allWithin (cs.length + 1) cs

end Token

end ThemeMigration.Json
