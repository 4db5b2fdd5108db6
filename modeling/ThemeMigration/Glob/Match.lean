import ThemeMigration.Glob.Basic

/-!
# Matching paths

A token is read as the ways to go on from a text: the suffixes that are left once it took what it
matches.  A sequence of tokens is followed with all suffixes at once, each kept a single time, so
the work grows with the length of the path and not with the number of ways through it.  A glob
matches a path when nothing of it is left.
-/

namespace ThemeMigration.Glob

/-- The UTF-8 bytes of a text. -/
abbrev Bytes := List UInt8

def slash : UInt8 := '/'.toUInt8

/-- The suffixes that follow a slash. -/
def behindSlashes : Bytes → List Bytes
  | [] => []
  | b :: bs => if b == slash then bs :: behindSlashes bs else behindSlashes bs

/-- The suffixes that follow bytes without a slash. -/
def behindSegmentBytes : Bytes → List Bytes
  | [] => [[]]
  | b :: bs => if b == slash then [b :: bs] else (b :: bs) :: behindSegmentBytes bs

def suffixes : Bytes → List Bytes
  | [] => [[]]
  | b :: bs => (b :: bs) :: suffixes bs

/-- The rest of a text behind a part that it has to begin with. -/
def behindPart (part text : Bytes) : List Bytes :=
  if part.isPrefixOf text then [text.drop part.length] else []

def inRange (b : UInt8) (range : Char × Char) : Bool :=
  range.1.toNat ≤ b.toNat && b.toNat ≤ range.2.toNat

mutual

/-- Whether a token stands for the empty text only because its branches do. -/
def Token.isVoid : Token → Bool
  | .alternatives branches => areVoidBranches branches
  | _ => false

def areVoid : List Token → Bool
  | [] => true
  | t :: ts => t.isVoid && areVoid ts

def areVoidBranches : List (List Token) → Bool
  | [] => true
  | ts :: more => areVoid ts && areVoidBranches more

end

mutual

/-- The suffixes that a token leaves of a text. -/
def Token.rests : Token → Bytes → List Bytes
  | .char c, text => behindPart (String.singleton c).toUTF8.toList text
  | .any, text =>
    match text with
    | [] => []
    | b :: bs => if b == slash then [] else [bs]
  | .star, text => behindSegmentBytes text
  | .recursiveStart, text => text :: behindSlashes text
  | .recursiveEnd, text =>
    match text with
    | [] => []
    | b :: bs => if b == slash then suffixes bs else []
  | .recursiveMiddle, text =>
    match text with
    | [] => []
    | b :: bs => if b == slash then bs :: behindSlashes bs else []
  | .set negated ranges, text =>
    match text with
    | [] => []
    | b :: bs => if b != slash && ranges.any (inRange b) != negated then [bs] else []
  | .alternatives branches, text =>
    if areVoidBranches branches then [text] else branchRests branches text

/-- The suffixes that a sequence leaves of texts. -/
def sequenceRests : List Token → List Bytes → List Bytes
  | [], texts => texts
  | t :: ts, texts => sequenceRests ts (texts.flatMap t.rests).eraseDups

/-- The suffixes that branches leave of a text.  An empty branch leaves none. -/
def branchRests : List (List Token) → Bytes → List Bytes
  | [], _ => []
  | ts :: more, text =>
    (if areVoid ts then [] else sequenceRests ts [text]) ++ branchRests more text

end

/-- Whether the glob is a recursive wildcard and nothing else. -/
def matchesAll (g : Glob) : Bool :=
  match g.tokens with
  | [.recursiveStart] => true
  | _ => false

/-- Whether a glob matches a path. -/
def accepts (g : Glob) (path : String) : Bool :=
  g.matchesAll || (sequenceRests g.tokens [path.toUTF8.toList]).contains []

end ThemeMigration.Glob
