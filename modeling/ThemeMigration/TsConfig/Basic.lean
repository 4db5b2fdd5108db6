import ThemeMigration.Path.Normal

/-!
# Module resolution

What a `tsconfig` says about module specifiers, and which module a specifier names.  A pattern of
the path map fits a specifier as a whole or by the parts around its first star.  Of the patterns
that fit, a pattern without a star wins, then the one with the longest part before its star, then
the earliest.  Resolution is by spelling alone: no file is looked at, and a module is known by its
key.
-/

namespace ThemeMigration

structure TsConfig where
  path : Path
  /-- The directory that bare specifiers are resolved against. -/
  baseUrl : Option Path
  /-- Patterns with their targets. -/
  paths : List (String × List String)
  /-- The directory that targets are resolved against. -/
  pathsBase : Path
  deriving DecidableEq, Repr, Inhabited

namespace TsConfig

/-- A text around its first star, if it has one. -/
def splitStar : List Char → Option (List Char × List Char)
  | [] => none
  | c :: cs => if c == '*' then some ([], cs) else (splitStar cs).map fun p => (c :: p.1, p.2)

/-- What stands between two parts of a text that do not overlap, if it begins and ends with
them. -/
def captured? (before after text : List Char) : Option (List Char) :=
  if before.isPrefixOf text then
    let rest := text.drop before.length
    if after.isSuffixOf rest then some (rest.take (rest.length - after.length)) else none
  else none

/-- The text with its first star replaced. -/
def fillStar (text filling : List Char) : List Char :=
  match splitStar text with
  | some (before, after) => before ++ filling ++ after
  | none => text

/-- A pattern that fits a specifier. -/
structure Fit where
  /-- Whether the pattern has no star. -/
  whole : Bool
  /-- The length of the part before the star. -/
  length : Nat
  /-- The target with what the star stands for. -/
  target : List Char
  deriving DecidableEq, Repr, Inhabited

namespace Fit

def beats (a b : Fit) : Bool := (a.whole && !b.whole) || (a.whole == b.whole && b.length < a.length)

/-- The earliest of the fits that no other one beats. -/
def best? : List Fit → Option Fit
  | [] => none
  | f :: fs =>
    match best? fs with
    | some g => some (if g.beats f then g else f)
    | none => some f

end Fit

/-- How an entry of the path map fits a specifier. -/
def fit? (specifier : List Char) (entry : String × List String) : Option Fit :=
  match entry.2 with
  | [] => none
  | target :: _ =>
    match splitStar entry.1.toList with
    | none =>
      if entry.1.toList == specifier then some ⟨true, 0, target.toList⟩ else none
    | some (before, after) =>
      (captured? before after specifier).map fun middle =>
        ⟨false, before.length, fillStar target.toList middle⟩

/-- Where the path map leads a specifier. -/
def mapSpecifier? (t : TsConfig) (specifier : String) : Option Path :=
  (Fit.best? (t.paths.filterMap (fit? specifier.toList))).map fun f =>
    (t.pathsBase ++ ⟨String.ofList f.target⟩).normalize

/-- A specifier that starts from the importing file. -/
def isRelative (specifier : String) : Bool :=
  match specifier.toList with
  | ['.'] | ['.', '.'] | '.' :: '/' :: _ | '.' :: '.' :: '/' :: _ => true
  | _ => false

/-- The module that a specifier in a file names.  A package that neither the path map nor the base
leads to has none. -/
def resolve? (t : TsConfig) (specifier : String) (file : Path) : Option Path :=
  if isRelative specifier then
    some ((file.parent?.getD ⟨""⟩ ++ ⟨specifier⟩).normalize.moduleKey)
  else if (Path.mk specifier).isAbsolute then some (Path.mk specifier).normalize.moduleKey
  else
    match t.mapSpecifier? specifier with
    | some mapped => some mapped.moduleKey
    | none => t.baseUrl.map fun base => (base ++ ⟨specifier⟩).normalize.moduleKey

/-- Whether two specifiers in a file name the same module. -/
def sameModule (t : TsConfig) (a b : String) (file : Path) : Bool :=
  a == b ||
    match t.resolve? a file, t.resolve? b file with
    | some p, some q => p.same q
    | _, _ => false

end TsConfig

end ThemeMigration
