import ThemeMigration.Text.Slice
import ThemeMigration.Script.Kind

/-!
# Syntax trees

A node has a kind, the part it plays in its parent, the span of its text and its children in
source order.  Keywords and punctuation are not in the tree, apart from the two keywords of
type-only imports.  A tree is well formed in a text when every span lies between two character
boundaries of it, children lie inside their parent, siblings follow one another without overlap,
and every node has the form that its kind asks for.  `weave` puts comments into a tree that was
read without them: a comment belongs to the smallest node whose span holds it.
-/

namespace ThemeMigration.Script

inductive SyntaxTree where
  | node (kind : Kind) (label : Option Label) (span : Span) (children : List SyntaxTree)
  deriving Repr, Inhabited

namespace SyntaxTree

def kind : SyntaxTree → Kind
  | node k _ _ _ => k

def label : SyntaxTree → Option Label
  | node _ l _ _ => l

def span : SyntaxTree → Span
  | node _ _ s _ => s

def children : SyntaxTree → List SyntaxTree
  | node _ _ _ ts => ts

abbrev start (t : SyntaxTree) : Nat := t.span.start

abbrev stop (t : SyntaxTree) : Nat := t.span.stop

/-- The same node in another part of its parent. -/
def labelled (l : Label) : SyntaxTree → SyntaxTree
  | node k _ s ts => node k (some l) s ts

def isComment (t : SyntaxTree) : Bool := t.kind == .comment

/-- The children that are nodes in their own right, comments among them. -/
def named (t : SyntaxTree) : List SyntaxTree := t.children.filter fun c => c.kind.isNamed

/-- The first named child, if there is one. -/
def firstNamed? (t : SyntaxTree) : Option SyntaxTree := t.named.head?

/-- The child that plays the given part. -/
def part? (t : SyntaxTree) (l : Label) : Option SyntaxTree :=
  t.children.find? fun c => c.label == some l

/-- The source text of a node. -/
def text (t : SyntaxTree) (source : String) : String := Text.sliceSpan source t.span

theorem sizeOf_lt_of_mem_children {t c : SyntaxTree} (h : c ∈ t.children) :
    sizeOf c < sizeOf t := by
  cases t with
  | node k l s ts =>
    have := List.sizeOf_lt_of_mem (show c ∈ ts from h)
    simp only [node.sizeOf_spec]
    omega

theorem mem_children_of_mem_named {t c : SyntaxTree} (h : c ∈ t.named) : c ∈ t.children :=
  (List.mem_filter.1 h).1

theorem mem_children_of_part? {t c : SyntaxTree} {l : Label} (h : t.part? l = some c) :
    c ∈ t.children :=
  List.mem_of_find?_eq_some h

theorem label_of_part? {t c : SyntaxTree} {l : Label} (h : t.part? l = some c) :
    c.label = some l := by
  simpa using List.find?_some h

/-- Induction on trees through their children. -/
theorem childInduction {P : SyntaxTree → Prop}
    (step : ∀ t : SyntaxTree, (∀ c ∈ t.children, P c) → P t) (t : SyntaxTree) : P t :=
  step t fun c _ => childInduction step c
termination_by sizeOf t
decreasing_by exact sizeOf_lt_of_mem_children ‹_›

/-! ## Well-formed trees -/

/-- Whether a text stands between two quotes of one form. -/
def isQuoted (text : String) : Bool :=
  match text.toList with
  | '\'' :: rest => rest.getLast? == some '\''
  | '"' :: rest => rest.getLast? == some '"'
  | _ => false

/-- What a kind says about the text and the children of a node: atoms have no parts, a string
stands between its quotes, a block and a list of imported names begin with their brace, the source
of an import statement is a string, an expression statement holds one expression, and no two
children play the same part. -/
def hasForm (source : String) (k : Kind) (s : Span) (ts : List SyntaxTree) : Bool :=
  (!k.isAtomic || ts.isEmpty) && decide (ts.filterMap label).Nodup &&
    match k with
    | .string => isQuoted (Text.sliceSpan source s)
    | .statementBlock | .namedImports =>
      decide (s.start < s.stop) && String.Pos.Raw.get source ⟨s.start⟩ == '\x7b'
    | .importStatement => ts.all fun t => t.label != some .source || t.kind == .string
    | .expressionStatement => decide ((ts.filter fun t => !t.isComment).length ≤ 1)
    | _ => true

mutual

/-- Every span of the tree is an interval between two character boundaries of the text, with the
spans of its children inside it and in order, and every node has the form of its kind. -/
def wellFormed (source : String) : SyntaxTree → Bool
  | node k _ s ts =>
    decide (s.start ≤ s.stop) && Text.isBoundary source s.start && Text.isBoundary source s.stop &&
      hasForm source k s ts && wellFormedFrom source s.start s.stop ts

/-- The trees are well formed, the first begins at `lower` or later, each next one where its
predecessor ended or later, and the last ends by `upper`. -/
def wellFormedFrom (source : String) (lower upper : Nat) : List SyntaxTree → Bool
  | [] => decide (lower ≤ upper)
  | t :: ts =>
    decide (lower ≤ t.span.start) && t.wellFormed source &&
      wellFormedFrom source t.span.stop upper ts

end

/-! ## Comments -/

/-- A comment as a node of its own. -/
def ofComment (s : Span) : SyntaxTree := node .comment none s []

mutual

/-- Put each of the given comments, in source order and all inside the node, into the smallest
node whose span holds it. -/
def weave (comments : List Span) : SyntaxTree → SyntaxTree
  | node k l s ts => node k l s (weaveAll comments ts)

/-- Comments before a sibling stand before it, those that begin inside its span go into it. -/
def weaveAll (comments : List Span) : List SyntaxTree → List SyntaxTree
  | [] => comments.map ofComment
  | t :: ts =>
    let before := comments.takeWhile fun c => c.start < t.span.start
    let rest := comments.dropWhile fun c => c.start < t.span.start
    let inside := rest.takeWhile fun c => c.start < t.span.stop
    let after := rest.dropWhile fun c => c.start < t.span.stop
    before.map ofComment ++ weave inside t :: weaveAll after ts

end

end SyntaxTree

end ThemeMigration.Script
