import ThemeMigration.Proofs.Edits.Landing
import ThemeMigration.Proofs.Imports.Locals
import ThemeMigration.Proofs.Script.Equality

/-!
# The import section with the accessor in it

The tree of a script in which the accessor has been imported: the nodes of the old tree where their
text lands, and the new specifier among the names of the list it joins, or the new statement among
the statements, with the spans of what the edit writes.
-/

namespace ThemeMigration

open Script SyntaxTree

namespace Imports

/-! ## New nodes -/

/-- The specifier that the edit writes, from an offset of the new text on. -/
def specifierNode (i : Imports) (a : Accessor) (start : Nat) : SyntaxTree :=
  let nameStop := start + a.exportName.utf8ByteSize
  let stop := start + (i.newSpecifier a).utf8ByteSize
  let name : SyntaxTree := .node .identifier (some .name) ⟨start, nameStop⟩ []
  .node .importSpecifier none ⟨start, stop⟩
    (match i.newName with
    | none => [name]
    | some _ =>
      [name, .node .identifier (some .localName) ⟨nameStop + " as ".utf8ByteSize, stop⟩ []])

/-- The statement that the edit writes, from an offset of the new text on. -/
def statementNode (i : Imports) (a : Accessor) (file : Path) (start : Nat) : SyntaxTree :=
  let listStart := start + "import ".utf8ByteSize
  let specifier := i.specifierNode a (listStart + "\x7b ".utf8ByteSize)
  let listStop := specifier.stop + " \x7d".utf8ByteSize
  let sourceStart := listStop + " from ".utf8ByteSize
  let source := i.quote.toString ++ a.specifierFor file ++ i.quote.toString
  .node .importStatement none ⟨start, start + (i.newStatement a file).utf8ByteSize⟩
    [.node .importClause none ⟨listStart, listStop⟩
      [.node .namedImports none ⟨listStart, listStop⟩ [specifier]],
    .node .string (some .source) ⟨sourceStart, sourceStart + source.utf8ByteSize⟩ []]

/-! ## The new tree -/

/-- A node put among others in source order. -/
def put (new : SyntaxTree) (ts : List SyntaxTree) : List SyntaxTree :=
  ts.takeWhile (fun t => t.start < new.start) ++ new ::
    ts.dropWhile (fun t => t.start < new.start)

/-- The parts of a node, with a new specifier among them if the node is the list that it joins. -/
def extended (joins : Option (SyntaxTree × SyntaxTree)) (t : SyntaxTree)
    (parts : List SyntaxTree) : List SyntaxTree :=
  match joins with
  | some (names, new) => if t = names then put new parts else parts
  | none => parts

mutual

/-- A node where its text lands under an edit, with the new specifier in the list that it joins. -/
def graft (text : String) (e : Edit) (joins : Option (SyntaxTree × SyntaxTree)) :
    SyntaxTree → SyntaxTree
  | .node k l s ts =>
    .node k l (Edit.landed text [e] s)
      (extended joins (.node k l s ts) (graftAll text e joins ts))

def graftAll (text : String) (e : Edit) (joins : Option (SyntaxTree × SyntaxTree)) :
    List SyntaxTree → List SyntaxTree
  | [] => []
  | t :: ts => graft text e joins t :: graftAll text e joins ts

end

/-- The list that the accessor joins, with the new specifier. -/
def joining (s : Source) (file : Path) (a : Accessor) (t : TsConfig) (e : Edit) :
    Option (SyntaxTree × SyntaxTree) :=
  let i := ofSource s file a t
  (accessorLists s file a t).head?.map fun names =>
    (names, i.specifierNode a (e.span.start + i.lead.utf8ByteSize))

/-- The nodes of a script in which the edit has imported the accessor. -/
def grown (s : Source) (file : Path) (a : Accessor) (t : TsConfig) (e : Edit) : List SyntaxTree :=
  let i := ofSource s file a t
  let old := graftAll s.text e (joining s file a t e) s.tree.children
  if (accessorLists s file a t).isEmpty then
    put (i.statementNode a file (e.span.start + i.lead.utf8ByteSize)) old
  else old

/-- A source is the old one with the accessor imported: it has the edited text, and its tree is
the old one with the new specifier or statement in place. -/
structure Grown (s : Source) (file : Path) (a : Accessor) (t : TsConfig) (e : Edit) (s' : Source) :
    Prop where
  text_eq : s'.text = Edit.applyAll s.text [e]
  children_eq : s'.tree.children = grown s file a t e

/-! ## Old nodes in the new tree -/

theorem mem_put {new x : SyntaxTree} {ts : List SyntaxTree} :
    x ∈ put new ts ↔ x = new ∨ x ∈ ts := by
  rw [put, List.mem_append, List.mem_cons, or_left_comm, ← List.mem_append,
    List.takeWhile_append_dropWhile]

theorem graftAll_eq_map (text : String) (e : Edit) (joins : Option (SyntaxTree × SyntaxTree))
    (ts : List SyntaxTree) : graftAll text e joins ts = ts.map (graft text e joins) := by
  induction ts with
  | nil => rfl
  | cons t ts ih => rw [graftAll, ih, List.map_cons]

section Graft

variable {text : String} {e : Edit} {joins : Option (SyntaxTree × SyntaxTree)} {c : SyntaxTree}

@[simp] theorem graft_kind : (graft text e joins c).kind = c.kind := by
  cases c
  rfl

@[simp] theorem graft_label : (graft text e joins c).label = c.label := by
  cases c
  rfl

@[simp] theorem graft_span : (graft text e joins c).span = Edit.landed text [e] c.span := by
  cases c
  rfl

theorem graft_children : (graft text e joins c).children =
    extended joins c (c.children.map (graft text e joins)) := by
  cases c with
  | node k l s ts => exact congrArg (extended joins _) (graftAll_eq_map text e joins ts)

/-- Other nodes keep their parts. -/
theorem graft_children_of_ne (other : ∀ p ∈ joins, c ≠ p.1) :
    (graft text e joins c).children = c.children.map (graft text e joins) := by
  rw [graft_children]
  cases joins with
  | none => rfl
  | some p => exact if_neg (other p rfl)

theorem graft_children_joined {names new : SyntaxTree} :
    (graft text e (some (names, new)) names).children =
      put new (names.children.map (graft text e (some (names, new)))) := by
  rw [graft_children]
  exact if_pos rfl

/-- The specifiers of the list: the old ones and the new one. -/
theorem mem_specifiers_joined {names new : SyntaxTree} (kind : new.kind = .importSpecifier) :
    c ∈ specifiers (graft text e (some (names, new)) names) ↔
      c = new ∨ ∃ d ∈ specifiers names, graft text e (some (names, new)) d = c := by
  have isSpecifier : ∀ ts : List SyntaxTree, ∀ x,
      x ∈ (ts.filter fun d => d.kind.isNamed).filter (fun d => d.kind == .importSpecifier) ↔
        x ∈ ts ∧ x.kind = .importSpecifier := by
    intro ts x
    rw [List.mem_filter, List.mem_filter, and_assoc, beq_iff_eq]
    refine and_congr_right fun _ => and_iff_right_of_imp fun kind => ?_
    rw [kind]
    rfl
  rw [specifiers, SyntaxTree.named, isSpecifier, graft_children_joined, mem_put, List.mem_map]
  simp only [specifiers, SyntaxTree.named, isSpecifier]
  constructor
  · rintro ⟨rfl | ⟨d, inside, rfl⟩, kind'⟩
    · exact Or.inl rfl
    · exact Or.inr ⟨d, ⟨inside, graft_kind.symm.trans kind'⟩, rfl⟩
  · rintro (rfl | ⟨d, ⟨inside, kind'⟩, rfl⟩)
    · exact ⟨Or.inl rfl, kind⟩
    · exact ⟨Or.inr ⟨d, inside, rfl⟩, graft_kind.trans kind'⟩

/-- What the edit does not reach reads as before. -/
theorem reads_graft (sound : e.Sound text) (wellFormed : c.wellFormed text = true)
    (apart : e.span.Apart c.span) (other : ∀ p ∈ joins, ¬ Occurs c p.1) :
    Reads text (Edit.applyAll text [e]) c (graft text e joins c) := by
  induction c using childInduction with
  | step c ih =>
    have parts : (graft text e joins c).children = c.children.map (graft text e joins) :=
      graft_children_of_ne fun p member same => other p member (same ▸ .here c)
    have sounds : ∀ f ∈ [e], f.Sound text := List.forall_mem_singleton.2 sound
    have texts := Edit.sliceSpan_landed_of_apart sounds (List.pairwise_singleton _ _)
      (start_boundary wellFormed) (stop_boundary wellFormed) (start_le_stop wellFormed)
      (List.forall_mem_singleton.2 apart)
    refine reads_of_children graft_kind graft_label ?_ ?_
    · rw [SyntaxTree.text, graft_span]
      exact texts
    · rw [parts, List.forall₂_map_right_iff]
      refine List.forall₂_same.2 fun d member => ?_
      have inner := wellFormed_child wellFormed member
      refine ih d member inner.1 (apart.mono (.refl _) inner.2) ?_
      intro p joined inside
      exact other p joined (.deeper member inside)

end Graft

variable {s s' : Source} {file : Path} {a : Accessor} {t : TsConfig} {start : Nat}

theorem joining_eq {e : Edit} {names : SyntaxTree}
    (first : (accessorLists s file a t).head? = some names) :
    joining s file a t e = some (names, (ofSource s file a t).specifierNode a
      (e.span.start + (ofSource s file a t).lead.utf8ByteSize)) := by
  rw [joining, first]
  rfl

/-! ## New nodes -/

/-- The new specifier gives the accessor the name that components call. -/
theorem accessorLocal?_specifierNode {i : Imports} (absent : i.accessorLocal = none)
    (written : Text.StandsAt s'.text start (i.newSpecifier a)) :
    accessorLocal? s' a (i.specifierNode a start) = some (i.callee a) := by
  rw [newSpecifier] at written
  rw [specifierNode, newSpecifier, callee, absent]
  cases named : i.newName with
  | none =>
    rw [named] at written
    have name := written.slice_eq
    simp [accessorLocal?, isTypeOnly, children, kind, part?, label, Source.textOf, SyntaxTree.text,
      span, Text.sliceSpan, name]
  | some l =>
    rw [named] at written
    have name := written.left.left.slice_eq
    have localName := written.right.slice_eq
    simp only [String.utf8ByteSize_append, ← Nat.add_assoc] at localName
    simp [accessorLocal?, isTypeOnly, children, kind, part?, label, Source.textOf, SyntaxTree.text,
      span, Text.sliceSpan, name, localName, ← Nat.add_assoc]

theorem textOf_specifierNode {i : Imports}
    (written : Text.StandsAt s'.text start (i.newSpecifier a)) :
    s'.textOf (i.specifierNode a start) = i.newSpecifier a :=
  written.slice_eq

/-- The new statement imports from the accessor module, and its list is the new specifier. -/
theorem accessorList?_statementNode (s₀ : Source)
    (written : Text.StandsAt s'.text start ((ofSource s₀ file a t).newStatement a file)) :
    ∃ names, accessorList? s' file a t ((ofSource s₀ file a t).statementNode a file start) =
        some names ∧
      specifiers names = [(ofSource s₀ file a t).specifierNode a (start + 9)] ∧
      Text.StandsAt s'.text (start + 9) ((ofSource s₀ file a t).newSpecifier a) := by
  rw [newStatement] at written
  have whole := written.left
  have source : Text.StandsAt s'.text start
      ("import \x7b " ++ (ofSource s₀ file a t).newSpecifier a ++ " \x7d from " ++
        ((ofSource s₀ file a t).quote.toString ++ a.specifierFor file ++
          (ofSource s₀ file a t).quote.toString)) := by
    simpa only [String.append_assoc] using whole
  have module := source.right.slice_eq
  have front : "import \x7b ".utf8ByteSize = 9 := rfl
  have back : " \x7d from ".utf8ByteSize = 8 := rfl
  rw [String.utf8ByteSize_append, String.utf8ByteSize_append, front, back, ← Nat.add_assoc,
    ← Nat.add_assoc] at module
  exact ⟨_, accessorList?_of_node module, rfl, whole.left.left.left.left.right⟩

end Imports

end ThemeMigration
