/-!
# Colour properties

The style properties whose string values may be colours: seven by name, every name that ends in
`Color`, and what a project adds.
-/

namespace ThemeMigration

/-- The names that a project adds to the built-in colour properties. -/
structure ColorProperties where
  extra : List String
  deriving DecidableEq, Repr, Inhabited

namespace ColorProperties

def builtIn : List String :=
  ["color", "backgroundColor", "borderColor", "shadowColor", "tintColor", "stroke", "fill"]

/-- Whether a property of this name may hold a colour. -/
def contains (p : ColorProperties) (name : String) : Bool :=
  builtIn.contains name || "Color".toList.isSuffixOf name.toList || p.extra.contains name

end ColorProperties

end ThemeMigration
