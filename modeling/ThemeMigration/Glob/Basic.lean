/-!
# Glob patterns

A glob describes paths by tokens: characters, wildcards that stay inside a path segment, recursive
wildcards that stand for whole segments, and groups of alternatives.  A pattern text that describes
none has a fault.
-/

namespace ThemeMigration

namespace Glob

inductive Token where
  | char (c : Char)
  /-- One byte other than a slash. -/
  | any
  /-- Bytes other than slashes. -/
  | star
  /-- Whole segments at the start of the path, or none. -/
  | recursiveStart
  /-- A slash and everything behind it. -/
  | recursiveEnd
  /-- A slash, or whole segments between two slashes. -/
  | recursiveMiddle
  /-- One byte in one of the ranges, or in none of them. -/
  | set (negated : Bool) (ranges : List (Char × Char))
  /-- One of several sequences. -/
  | alternatives (branches : List (List Token))
  deriving Repr, Inhabited

/-- Why a text is not a pattern. -/
inductive Fault where
  | unclosedSet
  | reversedRange (first last : Char)
  | unopenedGroup
  | unclosedGroup
  | danglingEscape
  deriving DecidableEq, Repr, Inhabited

def Fault.message : Fault → String
  | unclosedSet => "unclosed character class; missing ']'"
  | reversedRange first last => s!"invalid range; '{first}' > '{last}'"
  | unopenedGroup =>
    "unopened alternate group; missing '\x7b' (maybe escape '\x7d' with '[\x7d]'?)"
  | unclosedGroup =>
    "unclosed alternate group; missing '\x7d' (maybe escape '\x7b' with '[\x7b]'?)"
  | danglingEscape => "dangling '\\'"

end Glob

structure Glob where
  tokens : List Glob.Token
  deriving Repr, Inhabited

end ThemeMigration
