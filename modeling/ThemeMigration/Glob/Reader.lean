import ThemeMigration.Glob.Lexeme

/-!
# Reading glob patterns

Lexemes are put together to tokens, with the groups that are open kept on a stack.  Two stars make
a recursive wildcard only where they fill a whole segment: at the start of a sequence in front of a
slash or the end, or behind a slash and in front of a slash, the end, or the end of a branch.  It
takes the place of the slash in front of it.  Anywhere else two stars are just stars, and a comma
outside groups is just a comma.
-/

namespace ThemeMigration.Glob

/-- A group that is open: the tokens in front of it and its branches that are complete, both with
the latest one first. -/
structure OpenGroup where
  before : List Token
  branches : List (List Token)
  deriving Repr, Inhabited

/-- Tokens, the latest one first, with a recursive wildcard in the place of the latest one.  A
recursive wildcard that stands there already stays. -/
def replaceLatest (t : Token) : List Token → List Token
  | .recursiveStart :: more => .recursiveStart :: more
  | .recursiveEnd :: more => .recursiveEnd :: more
  | _ :: more => t :: more
  | [] => [t]

/-- Whether two stars behind a character may be a recursive wildcard. -/
def opensSegment (previous : Option Char) (insideGroup : Bool) : Bool :=
  previous == some '/' || insideGroup && (previous == some ',' || previous == some '\x7b')

/-- Whether a branch or the whole pattern ends here. -/
def endsBranch (insideGroup : Bool) : List Lexeme → Bool
  | [] => true
  | .comma :: _ => insideGroup
  | .closing :: _ => insideGroup
  | _ => false

/-- The tokens of lexemes, given the character in front of them, the groups that are open, the
innermost one first, and the tokens of the branch so far, the latest one first. -/
def build (previous : Option Char) (groups : List OpenGroup) (current : List Token) :
    List Lexeme → Except Fault (List Token)
  | [] => if groups.isEmpty then .ok current.reverse else .error .unclosedGroup
  | .fault f :: _ => .error f
  | .char c _ :: rest => build (some c) groups (.char c :: current) rest
  | .any :: rest => build none groups (.any :: current) rest
  | .set negated ranges :: rest => build none groups (.set negated ranges :: current) rest
  | .opening :: rest => build none (⟨current, []⟩ :: groups) [] rest
  | .comma :: rest =>
    match groups with
    | [] => build (some ',') [] (.char ',' :: current) rest
    | g :: outer => build none (⟨g.before, current.reverse :: g.branches⟩ :: outer) [] rest
  | .closing :: rest =>
    match groups with
    | [] => .error .unopenedGroup
    | g :: outer =>
      build none outer (.alternatives (current.reverse :: g.branches).reverse :: g.before) rest
  | .star :: .star :: .char '/' false :: rest =>
    if current.isEmpty then build (some '/') groups [.recursiveStart] rest
    else if opensSegment previous !groups.isEmpty then
      build (some '/') groups (replaceLatest .recursiveMiddle current) rest
    else build (some '/') groups (.char '/' :: .star :: .star :: current) rest
  | .star :: .star :: rest =>
    if current.isEmpty then
      build none groups (if rest.isEmpty then [.recursiveStart] else [.star, .star]) rest
    else if opensSegment previous !groups.isEmpty && endsBranch (!groups.isEmpty) rest then
      build none groups (replaceLatest .recursiveEnd current) rest
    else build none groups (.star :: .star :: current) rest
  | .star :: rest => build none groups (.star :: current) rest

/-- The glob of a pattern text. -/
def read (brackets : Brackets) (text : String) : Except Fault Glob :=
  (build none [] [] (lexemes brackets text.toList)).map Glob.mk

end ThemeMigration.Glob
