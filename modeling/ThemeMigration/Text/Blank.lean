/-!
# Blank characters

The Unicode `White_Space` property, and trimming by it.  Core's `Char.isWhitespace` knows four
characters of it; literals, table entries and flags are trimmed by the whole property, so a
no-break space or an ideographic space around a colour does not hide it.
-/

namespace ThemeMigration.Text

/-- The code points with the property `White_Space`. -/
def isBlankCode (n : Nat) : Bool :=
  (9 ≤ n && n ≤ 13) || n == 0x20 || n == 0x85 || n == 0xA0 || n == 0x1680 ||
    (0x2000 ≤ n && n ≤ 0x200A) || n == 0x2028 || n == 0x2029 || n == 0x202F || n == 0x205F ||
    n == 0x3000

def isBlank (c : Char) : Bool := isBlankCode c.toNat

/-- The characters left once blanks are dropped at both ends. -/
def trimChars (cs : List Char) : List Char :=
  ((cs.dropWhile isBlank).reverse.dropWhile isBlank).reverse

/-- The text without the blanks at its two ends. -/
def trim (s : String) : String := String.ofList (trimChars s.toList)

/-- A text of blanks only, the empty text among them. -/
def allBlank (s : String) : Bool := s.toList.all isBlank

/-- Lower case for the twenty-six ASCII capitals; every other character stays. -/
def lowerAscii (s : String) : String := String.ofList (s.toList.map Char.toLower)

end ThemeMigration.Text
