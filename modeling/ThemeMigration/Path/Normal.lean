import ThemeMigration.Path.Basic

/-!
# Normal paths and module keys

A path is normalised by its spelling alone: single dots vanish and a parent segment removes the
name before it.  At the root a parent segment changes nothing; at the head of a relative path it
stays.  A module is known by its normal path without a source extension and without a final
`index`, so every way to spell the same module gives the same key.
-/

namespace ThemeMigration.Path

/-- Components of a normal path below its root, latest first, one component further. -/
def pushComponent (absolute : Bool) (stack : List Component) : Component → List Component
  | .root => stack
  | .current => stack
  | .name n => .name n :: stack
  | .parent =>
    match stack with
    | .name _ :: below => below
    | _ => if absolute then stack else .parent :: stack

/-- The components of the normal path below its root. -/
def normalComponents (p : Path) : List Component :=
  (p.components.foldl (pushComponent p.isAbsolute) []).reverse

/-- The piece that a component is written as. -/
def Component.piece : Component → List Char
  | .root => []
  | .current => ['.']
  | .parent => ['.', '.']
  | .name n => n.toList

/-- The path without dot segments other than leading parent segments. -/
def normalize (p : Path) : Path :=
  withBody p.isAbsolute (p.normalComponents.map Component.piece)

/-- Extensions that a module may be imported without. -/
def sourceExtensions : List String := ["ts", "tsx", "mts", "cts", "js", "jsx", "mjs", "cjs"]

/-- The path without a source extension. -/
def dropSourceExtension (p : Path) : Path :=
  match p.extension? with
  | some e => if sourceExtensions.contains e then p.dropExtension else p
  | none => p

/-- The path without a source extension and without a final `index`. -/
def moduleKey (p : Path) : Path :=
  let q := p.dropSourceExtension
  if q.fileName? == some "index" then q.parent?.getD q else q

end ThemeMigration.Path
