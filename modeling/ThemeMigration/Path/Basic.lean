/-!
# Paths

A path is a text with slashes, read as components: the root, names, and the two dot segments.
Empty segments vanish, and so does a segment that is a single dot unless it opens a relative path.
Paths keep the spelling they were given; two paths are the same when their components are, and
they are ordered component by component, so that `a/b` comes before `a-b`.
-/

namespace ThemeMigration

structure Path where
  text : String
  deriving DecidableEq, Repr, Inhabited

namespace Path

inductive Component where
  | root
  | current
  | parent
  | name (text : String)
  deriving DecidableEq, Repr, Inhabited

/-- The pieces of a text between its slashes. There is always one. -/
def pieces : List Char → List (List Char)
  | [] => [[]]
  | c :: cs =>
    if c == '/' then [] :: pieces cs
    else
      match pieces cs with
      | [] => [[c]]
      | p :: ps => (c :: p) :: ps

/-- Pieces joined by slashes. -/
def join : List (List Char) → List Char
  | [] => []
  | [p] => p
  | p :: ps => p ++ '/' :: join ps

theorem pieces_ne_nil (cs : List Char) : pieces cs ≠ [] := by
  cases cs with
  | nil => simp [pieces]
  | cons c cs =>
    simp only [pieces]
    split
    · simp
    · split <;> simp

theorem join_pieces (cs : List Char) : join (pieces cs) = cs := by
  induction cs with
  | nil => rfl
  | cons c cs ih =>
    simp only [pieces]
    split
    · rename_i h
      cases hp : pieces cs with
      | nil => exact absurd hp (pieces_ne_nil cs)
      | cons p ps =>
        rw [hp] at ih
        simp only [join, List.nil_append, ih]
        rw [eq_of_beq h]
    · split
      · rename_i hp
        exact absurd hp (pieces_ne_nil cs)
      · rename_i p ps hp
        rw [hp] at ih
        cases ps with
        | nil => simpa [join] using ih
        | cons q qs => simpa [join] using ih

def isAbsolute (p : Path) : Bool := p.text.toList.head? == some '/'

/-- The pieces behind the root of an absolute path, or all pieces of a relative one. -/
def body (p : Path) : List (List Char) :=
  if p.isAbsolute then pieces (p.text.toList.drop 1) else pieces p.text.toList

/-- The component of a piece that does not open a relative path. -/
def innerComponent? (piece : List Char) : Option Component :=
  if piece == [] || piece == ['.'] then none
  else if piece == ['.', '.'] then some .parent
  else some (.name (String.ofList piece))

/-- The component of a piece at the head of a relative path. -/
def headComponent? (piece : List Char) : Option Component :=
  if piece == ['.'] then some .current else innerComponent? piece

def components (p : Path) : List Component :=
  if p.isAbsolute then .root :: p.body.filterMap innerComponent?
  else
    match p.body with
    | [] => []
    | first :: rest => (headComponent? first).toList ++ rest.filterMap innerComponent?

/-- Paths with the same components, however they are spelled. -/
def same (p q : Path) : Bool := p.components == q.components

/-! ## The pieces that count -/

/-- The pieces up to the last one that is a component; what stands behind it are slashes and single
dots. -/
def trimmedBody (p : Path) : List (List Char) :=
  let keep (pieces : List (List Char)) : List (List Char) :=
    (pieces.reverse.dropWhile fun s => (innerComponent? s).isNone).reverse
  if p.isAbsolute then keep p.body
  else
    match p.body with
    | [] => []
    | first :: rest =>
      match keep rest, headComponent? first with
      | [], none => []
      | kept, _ => first :: kept

/-- The path with the given pieces behind its root. -/
def withBody (absolute : Bool) (pieces : List (List Char)) : Path :=
  ⟨String.ofList ((if absolute then ['/'] else []) ++ join pieces)⟩

/-- The last component, if it is a name. -/
def fileName? (p : Path) : Option String :=
  match p.components.getLast? with
  | some (.name n) => some n
  | _ => none

/-- A file name split at its last point. A name whose only point is its first character has no
extension, and neither has one without a point. -/
def splitExtension (name : List Char) : List Char × Option (List Char) :=
  let ending := name.reverse.takeWhile (· != '.')
  match name.reverse.drop ending.length with
  | [] => (name, none)
  | _ :: stem => if stem.isEmpty then (name, none) else (stem.reverse, some ending.reverse)

def extension? (p : Path) : Option String :=
  p.fileName?.bind fun n => (splitExtension n.toList).2.map String.ofList

/-- The path without its last component, or nothing for the root and the empty path. -/
def parent? (p : Path) : Option Path :=
  match p.trimmedBody.reverse with
  | [] => none
  | _ :: rest =>
    some (withBody p.isAbsolute (withBody p.isAbsolute rest.reverse).trimmedBody)

/-- The path with its file name cut to the stem. -/
def dropExtension (p : Path) : Path :=
  match p.fileName?, p.trimmedBody.reverse with
  | some n, _ :: rest =>
    withBody p.isAbsolute (((splitExtension n.toList).1 :: rest).reverse)
  | _, _ => p

/-- Another path seen from this one. An absolute path replaces it. -/
def append (p q : Path) : Path :=
  if q.isAbsolute then q
  else
    match p.text.toList.getLast? with
    | none => q
    | some c => ⟨if c == '/' then p.text ++ q.text else p.text ++ "/" ++ q.text⟩

instance : Append Path := ⟨append⟩

/-- Whether the components of one path begin with those of another. -/
def startsWith (p base : Path) : Bool := base.components.isPrefixOf p.components

/-- The pieces behind a number of components.  A single dot is a component only where it opens a
relative path. -/
def piecesBehind (opens : Bool) : Nat → List (List Char) → List (List Char)
  | _, [] => []
  | count, s :: more =>
    if (if opens then headComponent? s else innerComponent? s).isNone then
      piecesBehind false count more
    else
      match count with
      | 0 => s :: more
      | n + 1 => piecesBehind false n more

/-- The path behind the components of a base that it begins with. -/
def relativeTo? (p base : Path) : Option Path :=
  if !p.startsWith base then none
  else if base.components.isEmpty then some (withBody p.isAbsolute p.trimmedBody)
  else
    let count := if p.isAbsolute then base.components.length - 1 else base.components.length
    some (withBody false (piecesBehind (!p.isAbsolute) count p.trimmedBody))

/-- The path below a base, or the path itself where it does not lie below it. -/
def below (p base : Path) : Path := (p.relativeTo? base).getD p

/-! ## Order -/

namespace Component

/-- The root comes first, then the dot segments, then names by their characters. -/
def rank : Component → Nat
  | root => 0
  | current => 1
  | parent => 2
  | name _ => 3

def compare (a b : Component) : Ordering :=
  match a, b with
  | name s, name t => Ord.compare s t
  | _, _ => Ord.compare a.rank b.rank

end Component

def compareComponents : List Component → List Component → Ordering
  | [], [] => .eq
  | [], _ :: _ => .lt
  | _ :: _, [] => .gt
  | a :: as, b :: bs => (a.compare b).then (compareComponents as bs)

def compare (p q : Path) : Ordering := compareComponents p.components q.components

/-- Whether a path does not come after another. -/
def le (p q : Path) : Bool := (p.compare q).isLE

end Path

end ThemeMigration
