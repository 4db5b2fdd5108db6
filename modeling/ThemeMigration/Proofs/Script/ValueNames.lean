import ThemeMigration.Proofs.Script.Equality
import ThemeMigration.Script.Source

/-!
# Names of values

Not every identifier in a tree is the name of a value.  In markup, the name of an element that
begins with a small letter or has a hyphen belongs to the markup, and so do the two parts of a name
in a name space.  In a type, identifiers are names of name spaces, of elements and of parameters,
but for those that a query asks about; and the name in an index signature says nothing but what the
index is.  All other identifiers are names of values: those that are used, those that something is
assigned to, and those that a declaration introduces.
-/

namespace ThemeMigration.Script.SyntaxTree

/-- The first child that is no comment. -/
def head? (t : SyntaxTree) : Option SyntaxTree := t.children.find? fun c => !c.isComment

def beginsWith (source : String) (t : SyntaxTree) (prefixed : String) : Bool :=
  prefixed.toList.isPrefixOf (t.text source).toList

/-- Tags that open, close or are an element.  No other part of a construct begins with an angle
bracket. -/
def isTag (source : String) (t : SyntaxTree) : Bool :=
  t.kind == .jsxSelfClosingElement || (t.kind == .clause && t.beginsWith source "<")

/-- Whether the name of an element belongs to the markup rather than to the script. -/
def isMarkupName (name : String) : Bool :=
  name.toList.head?.any Char.isLower || name.toList.contains '-'

/-- A name in a name space, as elements and attributes can have it. -/
def isNamespaced (t : SyntaxTree) : Bool :=
  t.kind == .clause &&
    (t.children.filter fun c => !c.isComment).map kind == [.identifier, .identifier]

/-- What stands between the brackets of an index signature: the name of the index and its type. -/
def isIndexSignature (source : String) (t : SyntaxTree) : Bool :=
  t.kind == .clause && t.beginsWith source "[" &&
    decide (1 < (t.children.filter fun c => !c.isComment).length)

/-- Whether an identifier that is a child of the given node names a value there. -/
def namesValueIn (source : String) (parent t : SyntaxTree) : Bool :=
  if parent.kind == .typeForm then
    parent.beginsWith source "typeof" && t.start != parent.start
  else if parent.head? = some t then
    !(parent.isTag source && isMarkupName (t.text source)) && !parent.isNamespaced &&
      !parent.isIndexSignature source
  else !parent.isNamespaced

mutual

/-- The nodes below a node that name values, in source order. -/
def valueNames (source : String) : SyntaxTree → List SyntaxTree
  | node kind label span parts => valueNamesAmong source (node kind label span parts) parts

def valueNamesAmong (source : String) (parent : SyntaxTree) : List SyntaxTree → List SyntaxTree
  | [] => []
  | t :: ts =>
    (match t.kind with
      | .identifier => if namesValueIn source parent t then [t] else []
      | .shorthandIdentifier | .shorthandPattern => [t]
      | _ => valueNames source t) ++ valueNamesAmong source parent ts

end

/-- Of the names in tags only those of components are values, and of the names in types only those
that a `typeof` asks about. -/
example :
    (Source.parse .tsx ("(\x7btheme\x7d = <theme a=\x7btheme\x7d/>); " ++
      "let x: theme.Color | typeof theme = <theme.Box>\x7btheme\x7d</theme.Box>;")).toOption.map
        (fun s => (s.tree.valueNames s.text).map s.textOf) =
      some ["theme", "theme", "x", "theme", "theme", "theme", "theme"] := by
  decide +kernel

theorem mem_valueNamesAmong {source : String} {parent d : SyntaxTree} {ts : List SyntaxTree}
    (h : d ∈ valueNamesAmong source parent ts) :
    ∃ t ∈ ts, (d = t ∧
        (t.kind = .identifier ∨ t.kind = .shorthandIdentifier ∨ t.kind = .shorthandPattern)) ∨
      d ∈ t.valueNames source := by
  induction ts with
  | nil => cases h
  | cons t ts ih =>
    rw [valueNamesAmong, List.mem_append] at h
    rcases h with first | others
    · refine ⟨t, List.mem_cons_self, ?_⟩
      split at first
      · rename_i kind
        split at first
        · exact Or.inl ⟨List.mem_singleton.1 first, Or.inl kind⟩
        · cases first
      · rename_i kind
        exact Or.inl ⟨List.mem_singleton.1 first, Or.inr (Or.inl kind)⟩
      · rename_i kind
        exact Or.inl ⟨List.mem_singleton.1 first, Or.inr (Or.inr kind)⟩
      · exact Or.inr first
    · rcases ih others with ⟨u, member, found⟩
      exact ⟨u, List.mem_cons_of_mem t member, found⟩

/-- A name of a value stands in the node and is a name. -/
theorem occurs_of_mem_valueNames {source : String} {t d : SyntaxTree}
    (h : d ∈ t.valueNames source) :
    Occurs t d ∧
      (d.kind = .identifier ∨ d.kind = .shorthandIdentifier ∨ d.kind = .shorthandPattern) := by
  induction t using childInduction with
  | step t ih =>
    cases t with
    | node k l s ts =>
      rw [valueNames] at h
      rcases mem_valueNamesAmong h with ⟨c, member, ⟨rfl, name⟩ | inChild⟩
      · exact ⟨.child member, name⟩
      · rcases ih c member inChild with ⟨below, name⟩
        exact ⟨.deeper member below, name⟩

end ThemeMigration.Script.SyntaxTree
