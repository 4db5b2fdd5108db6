import ThemeMigration.Proofs.Edits.Landing
import ThemeMigration.Proofs.Migration.Disjoint
import ThemeMigration.Proofs.Script.Correspondence
import ThemeMigration.Proofs.Script.Equality

/-!
# The tree of a migrated script

What reading the edited text is relied on to give: the old tree, moved, with the edits standing in
it as the nodes they spell.  A replaced literal has become some expression that holds no property
literal; a list of imported names has one specifier more, or the script one import statement more;
a block that takes the binding has one statement more, and an expression body has become a block
that binds and returns.  Where in its list a new node stands does not matter, and neither does the
span of a node at whose end such a block is closed.
-/

namespace ThemeMigration

open Script SyntaxTree

namespace TokenTable

/-- Whether an expression is nothing but a string literal, comments aside. -/
def isString (expression : String) : Bool :=
  let (_, characters, _) := Token.skipGap expression.utf8ByteSize expression.toList 0
  match characters with
  | [] => false
  | q :: rest =>
    (q == '\'' || q == '"') &&
      (Token.stringEnd? q (rest.length + 1) rest 0).any fun literal =>
        (Token.skipGap (rest.length + 1) literal.1 0).2.1.isEmpty

/-- Whether no literal is replaced by another one. -/
def isStringFree (t : TokenTable) : Bool := t.entries.entries.all fun e => !isString e.2

theorem isString_of_lookup? {t : TokenTable} (h : t.isStringFree = true)
    {literal expression : String}
    (found : t.lookup? literal = some expression) : isString expression = false := by
  rcases Option.map_eq_some_iff.1 found with ⟨entry, member, rfl⟩
  have all := List.all_eq_true.1 h entry (List.mem_of_find?_eq_some member)
  simpa using all

example : isString "'#fff' /* white */" = true := by decide +kernel

theorem isStringFree_defaults : defaults.isStringFree = true := by decide +kernel

end TokenTable

namespace Migration

variable (m : Migration) (file : SourceFile)

/-! ## The nodes that edits belong to -/

/-- The literals that are replaced. -/
def replacedLiterals : List SyntaxTree :=
  ((m.plan file).recolorings.filter Recoloring.isEffective).flatMap fun r =>
    (r.component.literals.filter fun l => (l.edit? m.palette file.text).isSome).map (·.literal)

/-- The bodies that the binding is put into. -/
def boundBodies : List SyntaxTree := (m.unbound file).map fun r => r.component.body

/-- The list of imported names that the accessor joins. -/
def joinedList? : Option SyntaxTree :=
  if (m.importEdit? file).isSome then
    (Imports.accessorLists file.source file.path m.accessor m.tsconfig).head?
  else none

/-- Whether the accessor comes with an import statement of its own. -/
def importsAnew : Bool :=
  (m.importEdit? file).isSome &&
    (Imports.accessorLists file.source file.path m.accessor m.tsconfig).isEmpty

/-! ## The nodes that edits spell -/

/-- The statement that binds the accessor. -/
def isBinding : SyntaxTree → Bool
  | .node .lexicalDeclaration _ _ [.node .variableDeclarator _ _
      [.node .identifier (some .name) name [], .node .callExpression (some .value) _
        [.node .identifier (some .callee) callee [], .node .arguments (some .arguments) _ []]]] =>
    Text.sliceSpan (m.edited file) name == m.accessor.binding &&
      Text.sliceSpan (m.edited file) callee == (m.imports file).callee m.accessor
  | _ => false

/-- The specifier that imports the accessor, under its alias if it needs one. -/
def isSpecifier : SyntaxTree → Bool
  | .node .importSpecifier _ _ [.node .identifier (some .name) name []] =>
    Text.sliceSpan (m.edited file) name == m.accessor.exportName &&
      (m.imports file).newName.isNone
  | .node .importSpecifier _ _ [.node .identifier (some .name) name [],
      .node .identifier (some .localName) localName []] =>
    Text.sliceSpan (m.edited file) name == m.accessor.exportName &&
      (m.imports file).newName == some (Text.sliceSpan (m.edited file) localName)
  | _ => false

/-- The statement that imports the accessor. -/
def isImport : SyntaxTree → Bool
  | .node .importStatement _ _ [.node .importClause none _ [.node .namedImports _ _ [specifier]],
      .node .string (some .source) source []] =>
    m.isSpecifier file specifier &&
      Text.sliceSpan (m.edited file) source ==
        (m.imports file).quote.toString ++ m.accessor.specifierFor file.path ++
          (m.imports file).quote.toString
  | _ => false

/-- What is put among the children of a node. -/
def addition? (t : SyntaxTree) : Option (SyntaxTree → Bool) :=
  if t ∈ m.boundBodies file then some (m.isBinding file)
  else if m.joinedList? file = some t then some (m.isSpecifier file)
  else none

/-- The binding and the expression of a block that binds and returns. -/
def returned? : SyntaxTree → Option (SyntaxTree × SyntaxTree)
  | .node .statementBlock _ _ [statement, .node .returnStatement _ _ [expression]] =>
    some (statement, expression)
  | _ => none

/-! ## The new tree -/

/-- Whether a node can be the expression that a literal was replaced by: it holds no property
literal, and it is no string itself unless the expression is one. -/
def standsFor (literal t : SyntaxTree) : Bool :=
  t.label == literal.label && t.kind.isNamed && (PropertyLiteral.inside t).isEmpty &&
    (t.kind != .string ||
      (m.palette.tokens.lookup? (unquote (literal.text file.text))).any TokenTable.isString)

/-- Whether the end of a node moves because an expression that ends there has become a block. -/
def wraps (t : SyntaxTree) : Bool :=
  (m.boundBodies file).any fun body => body.kind != .statementBlock && decide (Occurs t body)

mutual

/-- Whether a node of the new tree stands where a node of the old one stood. -/
def regrows : SyntaxTree → SyntaxTree → Bool
  | .node k l s ts, t' =>
    if .node k l s ts ∈ m.replacedLiterals file then m.standsFor file (.node k l s ts) t'
    else if .node k l s ts ∈ m.boundBodies file ∧ k ≠ .statementBlock then
      t'.label == l &&
        match returned? t' with
        | some (statement, expression) =>
          m.isBinding file statement && expression.kind == k && regrowsAll ts expression.children
        | none => false
    else
      t'.kind == k && t'.label == l &&
        (m.wraps file (.node k l s ts) ||
          t'.span == Edit.landed file.text (m.plan file).edits s) &&
        match m.addition? file (.node k l s ts) with
        | some added => t'.children.any added && regrowsAll ts (t'.children.eraseP added)
        | none => regrowsAll ts t'.children

def regrowsAll : List SyntaxTree → List SyntaxTree → Bool
  | [], [] => true
  | t :: ts, t' :: ts' => regrows t t' && regrowsAll ts ts'
  | _, _ => false

end

/-- Whether the tree of the new script is the old one with the edits in it. -/
def regrownAs (tree : SyntaxTree) : Bool :=
  if m.importsAnew file then
    tree.children.any (m.isImport file) &&
      m.regrowsAll file file.source.tree.children (tree.children.eraseP (m.isImport file))
  else m.regrowsAll file file.source.tree.children tree.children

variable {m file}

/-! ## Nodes of their own -/

theorem mem_replacedLiterals_iff {t : SyntaxTree} :
    t ∈ m.replacedLiterals file ↔
      ∃ r, Changed m file r ∧ ∃ l ∈ r.component.literals,
        (l.edit? m.palette file.text).isSome = true ∧ l.literal = t := by
  rw [replacedLiterals, List.mem_flatMap]
  constructor
  · rintro ⟨r, member, found⟩
    rcases List.mem_map.1 found with ⟨l, kept, same⟩
    have facts := List.mem_filter.1 kept
    exact ⟨r, mem_changed.1 member, l, facts.1, facts.2, same⟩
  · rintro ⟨r, changed, l, member, edited, same⟩
    exact ⟨r, mem_changed.2 changed, List.mem_map.2 ⟨l, List.mem_filter.2 ⟨member, edited⟩, same⟩⟩

theorem mem_boundBodies_iff {t : SyntaxTree} :
    t ∈ m.boundBodies file ↔
      ∃ r, Changed m file r ∧ r.component.hasBinding = false ∧ r.component.body = t := by
  rw [boundBodies, List.mem_map]
  constructor
  · rintro ⟨r, member, same⟩
    have facts := mem_unbound.1 member
    exact ⟨r, facts.1, facts.2, same⟩
  · rintro ⟨r, changed, fresh, same⟩
    exact ⟨r, mem_unbound.2 ⟨changed, fresh⟩, same⟩

theorem joinedList?_facts {names : SyntaxTree} (h : m.joinedList? file = some names) :
    (∃ e, m.importEdit? file = some e) ∧
      (Imports.accessorLists file.source file.path m.accessor m.tsconfig).head? = some names := by
  rw [joinedList?] at h
  split at h
  · rename_i imported
    exact ⟨Option.isSome_iff_exists.1 imported, h⟩
  · cases h

theorem accessorList_of_joined {names : SyntaxTree} (h : m.joinedList? file = some names) :
    ∃ t, Imports.IsAccessorList file.source file.path m.accessor m.tsconfig t names :=
  Imports.mem_accessorLists_iff.1 (List.mem_of_head? (joinedList?_facts h).2)

/-- A node that an edit belongs to: a literal that is replaced, a body that takes the binding or
the list that takes the import. -/
inductive Special (m : Migration) (file : SourceFile) (t : SyntaxTree) : Prop
  | literal : t ∈ m.replacedLiterals file → Special m file t
  | body : t ∈ m.boundBodies file → Special m file t
  | list : m.joinedList? file = some t → Special m file t

theorem literal_facts {t : SyntaxTree} (h : t ∈ m.replacedLiterals file) :
    ∃ r, Changed m file r ∧ Occurs r.component.body t ∧ t.start < t.stop ∧ t.kind = .string := by
  rcases mem_replacedLiterals_iff.1 h with ⟨r, changed, l, member, _, rfl⟩
  exact ⟨r, changed, PropertyLiteral.literal_occurs member,
    PropertyLiteral.literal_nonempty changed.body_wellFormed member,
    (PropertyLiteral.isValue_of_mem_inside _ l member).2.isString⟩

/-- The body of a changed component has room for a literal. -/
theorem Changed.body_nonempty {r : Recoloring} (h : Changed m file r) :
    r.component.body.start < r.component.body.stop := by
  rcases List.exists_mem_of_ne_nil _ h.literals_ne_nil with ⟨l, member⟩
  have room := PropertyLiteral.literal_nonempty h.body_wellFormed member
  have within := PropertyLiteral.span_contains_literal h.body_wellFormed member
  exact Nat.lt_of_le_of_lt within.1 (Nat.lt_of_lt_of_le room within.2)

theorem Changed.body_occurs {r : Recoloring} (h : Changed m file r) :
    Occurs r.component.declaration r.component.body :=
  (Component.function_occurs (component_of_mem h.member)).trans
    (Component.body_occurs (component_of_mem h.member))

theorem Changed.kind_of_declaration {r : Recoloring} (h : Changed m file r) :
    r.component.declaration.kind ≠ .importStatement :=
  (Component.kind_of_mem_detect (component_of_mem h.member)).1

/-- The body of a changed component is no atom, since it holds a literal. -/
theorem Changed.body_not_atom {r : Recoloring} (h : Changed m file r) :
    r.component.body.kind.isAtomic = false := by
  rw [← Bool.not_eq_true]
  intro atom
  exact h.literals_ne_nil
    (PropertyLiteral.inside_eq_nil_of_children (children_eq_nil h.body_wellFormed atom))

/-- A list of imported names has room for its brace. -/
theorem list_nonempty {u names : SyntaxTree}
    (list : Imports.IsAccessorList file.source file.path m.accessor m.tsconfig u names) :
    names.start < names.stop := by
  have facts := Imports.namedList?_facts list.list
  have inner := wellFormed_occurs (Component.wellFormed_statement list.member) facts.2
  exact (brace_boundary inner.1 facts.1).1

/-- The body of a changed component holds no list of imported names. -/
theorem Changed.not_occurs_list {r : Recoloring} (h : Changed m file r) {u names : SyntaxTree}
    (list : Imports.IsAccessorList file.source file.path m.accessor m.tsconfig u names) :
    ¬ Occurs r.component.body names := by
  intro below
  have inImport := (Imports.namedList?_facts list.list).2
  have same := Component.statement_unique list.member h.declaration_mem inImport
    (h.body_occurs.trans below) (list_nonempty list)
  exact h.kind_of_declaration (same ▸ list.isImport)

theorem not_literal_of_bound {t : SyntaxTree} (bound : t ∈ m.boundBodies file) :
    t ∉ m.replacedLiterals file := by
  intro member
  rcases mem_boundBodies_iff.1 bound with ⟨r, changed, _, rfl⟩
  rcases literal_facts member with ⟨_, _, _, _, string⟩
  have compound := changed.body_not_atom
  rw [string] at compound
  cases compound

/-- A node with an edit stands in the body of a changed component, or it is a list in an import
statement. -/
theorem Special.cases {t : SyntaxTree} (h : Special m file t) :
    (∃ r, Changed m file r ∧ Occurs r.component.body t) ∨
      ∃ u, Imports.IsAccessorList file.source file.path m.accessor m.tsconfig u t := by
  cases h with
  | literal member =>
    rcases literal_facts member with ⟨r, changed, below, _⟩
    exact Or.inl ⟨r, changed, below⟩
  | body member =>
    rcases mem_boundBodies_iff.1 member with ⟨r, changed, _, rfl⟩
    exact Or.inl ⟨r, changed, .here _⟩
  | list joined => exact Or.inr (accessorList_of_joined joined)

theorem Special.nonempty {t : SyntaxTree} (h : Special m file t) : t.start < t.stop := by
  cases h with
  | literal member =>
    rcases literal_facts member with ⟨_, _, _, room, _⟩
    exact room
  | body member =>
    rcases mem_boundBodies_iff.1 member with ⟨r, changed, _, rfl⟩
    exact changed.body_nonempty
  | list joined =>
    rcases accessorList_of_joined joined with ⟨u, list⟩
    exact list_nonempty list

/-! ## What becomes of the other nodes -/

/-- The relation of the nodes of the old tree to those of the new one. -/
def Regrows (m : Migration) (file : SourceFile) (t t' : SyntaxTree) : Prop :=
  m.regrows file t t' = true

theorem regrowsAll_iff {ts ts' : List SyntaxTree} :
    m.regrowsAll file ts ts' = true ↔ List.Forall₂ (Regrows m file) ts ts' := by
  induction ts generalizing ts' with
  | nil =>
    cases ts' with
    | nil => simp [regrowsAll]
    | cons => simp [regrowsAll]
  | cons t ts ih =>
    cases ts' with
    | nil => simp [regrowsAll]
    | cons t' ts' => rw [regrowsAll, Bool.and_eq_true, ih, List.forall₂_cons, Regrows]

/-- A node without an edit of its own keeps its kind and its children, and it lands where the edits
leave it, unless an expression that becomes a block stands in it. -/
theorem Regrows.of_plain {t t' : SyntaxTree} (h : Regrows m file t t')
    (plain : ¬ Special m file t) :
    t'.kind = t.kind ∧ t'.label = t.label ∧
      (m.wraps file t = true ∨ t'.span = Edit.landed file.text (m.plan file).edits t.span) ∧
      List.Forall₂ (Regrows m file) t.children t'.children := by
  have notLiteral : t ∉ m.replacedLiterals file := fun member => plain (.literal member)
  have notBody : t ∉ m.boundBodies file := fun member => plain (.body member)
  have notList : m.joinedList? file ≠ some t := fun joined => plain (.list joined)
  cases t with
  | node k l s ts =>
    rw [Regrows, regrows, if_neg notLiteral, if_neg (fun both => notBody both.1), addition?,
      if_neg notBody, if_neg notList] at h
    simp only [Bool.and_eq_true, Bool.or_eq_true, beq_iff_eq, regrowsAll_iff] at h
    exact ⟨h.1.1.1, h.1.1.2, h.1.2, h.2⟩

/-- A replaced literal has become an expression without property literals. -/
theorem Regrows.of_literal {t t' : SyntaxTree} (h : Regrows m file t t')
    (literal : t ∈ m.replacedLiterals file) :
    t'.label = t.label ∧ t'.kind.isNamed = true ∧ PropertyLiteral.inside t' = [] ∧
      (m.palette.tokens.isStringFree = true → t'.kind ≠ .string) := by
  cases t with
  | node k l s ts =>
    rw [Regrows, regrows, if_pos literal, standsFor] at h
    simp only [Bool.and_eq_true, Bool.or_eq_true, beq_iff_eq, bne_iff_ne, List.isEmpty_iff] at h
    refine ⟨h.1.1.1, h.1.1.2, h.1.2, ?_⟩
    intro free
    refine h.2.resolve_right ?_
    intro string
    rcases (Option.any_eq_true _ _).1 string with ⟨expression, found, isString⟩
    rw [TokenTable.isString_of_lookup? free found] at isString
    cases isString

/-- A list that something is put into, and the rest of it. -/
structure Spliced (added : SyntaxTree → Bool) (r : SyntaxTree → SyntaxTree → Prop)
    (ts ts' : List SyntaxTree) : Prop where
  split : ∃ before new after, ts' = before ++ new :: after ∧ added new = true ∧
    List.Forall₂ r ts (before ++ after)

theorem Spliced.filter {added p : SyntaxTree → Bool} {r : SyntaxTree → SyntaxTree → Prop}
    {ts ts' : List SyntaxTree} (h : Spliced added r ts ts') (keeps : ∀ a b, r a b → p b = p a)
    (chosen : ∀ new, added new = true → p new = true) :
    Spliced added r (ts.filter p) (ts'.filter p) := by
  rcases h.split with ⟨before, new, after, split, fits, rest⟩
  refine ⟨before.filter p, new, after.filter p, ?_, fits, ?_⟩
  · rw [split, List.filter_append, List.filter_cons, if_pos (chosen new fits)]
  · rw [← List.filter_append]
    exact forall₂_filter keeps rest

/-- What is put in does not count where it is left out. -/
theorem Spliced.filter_away {added p : SyntaxTree → Bool} {r : SyntaxTree → SyntaxTree → Prop}
    {ts ts' : List SyntaxTree} (h : Spliced added r ts ts') (keeps : ∀ a b, r a b → p b = p a)
    (away : ∀ new, added new = true → p new = false) :
    List.Forall₂ r (ts.filter p) (ts'.filter p) := by
  rcases h.split with ⟨before, new, after, split, fits, rest⟩
  rw [split, List.filter_append, List.filter_cons_of_neg (Bool.eq_false_iff.1 (away new fits)),
    ← List.filter_append]
  exact forall₂_filter keeps rest

theorem Spliced.sublist_flatMap {γ : Type} {added : SyntaxTree → Bool}
    {r : SyntaxTree → SyntaxTree → Prop} {ts ts' : List SyntaxTree} (h : Spliced added r ts ts')
    {f g : SyntaxTree → List γ} (le : ∀ a b, a ∈ ts → r a b → (f a).Sublist (g b)) :
    (ts.flatMap f).Sublist (ts'.flatMap g) := by
  rcases h.split with ⟨before, new, after, split, _, rest⟩
  refine (sublist_flatMap_of_forall₂ rest le).trans ?_
  rw [split, List.flatMap_append, List.flatMap_append, List.flatMap_cons]
  exact (List.Sublist.refl _).append (List.sublist_append_right _ _)

theorem Spliced.with_mem {added : SyntaxTree → Bool} {r : SyntaxTree → SyntaxTree → Prop}
    {ts ts' : List SyntaxTree} (h : Spliced added r ts ts') :
    Spliced added (fun a b => a ∈ ts ∧ r a b) ts ts' := by
  rcases h.split with ⟨before, new, after, split, fits, rest⟩
  exact ⟨before, new, after, split, fits, forall₂_with_mem rest⟩

theorem Spliced.imp {added : SyntaxTree → Bool} {r q : SyntaxTree → SyntaxTree → Prop}
    {ts ts' : List SyntaxTree} (h : Spliced added r ts ts') (le : ∀ a b, r a b → q a b) :
    Spliced added q ts ts' := by
  rcases h.split with ⟨before, new, after, split, fits, rest⟩
  exact ⟨before, new, after, split, fits, rest.imp le⟩

theorem Spliced.mem {added : SyntaxTree → Bool} {r : SyntaxTree → SyntaxTree → Prop}
    {ts ts' : List SyntaxTree} (h : Spliced added r ts ts') {t' : SyntaxTree} (member : t' ∈ ts') :
    added t' = true ∨ ∃ t ∈ ts, r t t' := by
  rcases h.split with ⟨before, new, after, rfl, fits, rest⟩
  have found : t' = new ∨ t' ∈ before ++ after := by
    rcases List.mem_append.1 member with inFront | other
    · exact Or.inr (List.mem_append_left _ inFront)
    · rcases List.mem_cons.1 other with same | behind
      · exact Or.inl same
      · exact Or.inr (List.mem_append_right _ behind)
  rcases found with rfl | old
  · exact Or.inl fits
  · exact Or.inr (exists_of_mem_forall₂ rest old)

theorem Spliced.exists_of_mem {added : SyntaxTree → Bool} {r : SyntaxTree → SyntaxTree → Prop}
    {ts ts' : List SyntaxTree} (h : Spliced added r ts ts') {t : SyntaxTree} (member : t ∈ ts) :
    ∃ t' ∈ ts', r t t' := by
  rcases h.split with ⟨before, new, after, rfl, _, rest⟩
  rcases exists_of_forall₂_mem rest member with ⟨t', found, related⟩
  refine ⟨t', ?_, related⟩
  rcases List.mem_append.1 found with inFront | behind
  · exact List.mem_append_left _ inFront
  · exact List.mem_append_right _ (List.mem_cons_of_mem _ behind)

theorem Spliced.exists_added {added : SyntaxTree → Bool} {r : SyntaxTree → SyntaxTree → Prop}
    {ts ts' : List SyntaxTree} (h : Spliced added r ts ts') : ∃ new ∈ ts', added new = true := by
  rcases h.split with ⟨before, new, after, rfl, fits, _⟩
  exact ⟨new, List.mem_append_right _ List.mem_cons_self, fits⟩

theorem spliced_of_eraseP {added : SyntaxTree → Bool} {ts ts' : List SyntaxTree}
    (some : ts'.any added = true)
    (rest : List.Forall₂ (Regrows m file) ts (ts'.eraseP added)) :
    Spliced added (Regrows m file) ts ts' := by
  rcases List.any_eq_true.1 some with ⟨t, member, holds⟩
  rcases List.exists_of_eraseP member holds with ⟨new, before, after, _, fits, split, erased⟩
  rw [erased] at rest
  exact ⟨before, new, after, split, fits, rest⟩

/-- A list of names has one specifier more. -/
theorem Regrows.of_list {t t' : SyntaxTree} (h : Regrows m file t t')
    (joined : m.joinedList? file = some t) :
    t'.kind = t.kind ∧ t'.label = t.label ∧
      Spliced (m.isSpecifier file) (Regrows m file) t.children t'.children := by
  rcases accessorList_of_joined joined with ⟨u, list⟩
  have inImport := Imports.namedList?_facts list.list
  have notLiteral : t ∉ m.replacedLiterals file := by
    intro member
    rcases literal_facts member with ⟨_, _, _, _, kind⟩
    rw [inImport.1] at kind
    cases kind
  have notBody : t ∉ m.boundBodies file := by
    intro member
    rcases mem_boundBodies_iff.1 member with ⟨r, changed, _, rfl⟩
    exact changed.not_occurs_list list (.here _)
  cases t with
  | node k l s ts =>
    rw [Regrows, regrows, if_neg notLiteral, if_neg (fun both => notBody both.1), addition?,
      if_neg notBody, if_pos joined] at h
    simp only [Bool.and_eq_true, beq_iff_eq, regrowsAll_iff] at h
    exact ⟨h.1.1.1, h.1.1.2, spliced_of_eraseP h.2.1 h.2.2⟩

theorem returned?_eq_some {t statement expression : SyntaxTree}
    (h : returned? t = some (statement, expression)) :
    ∃ l s returns outer, t = .node .statementBlock l s
      [statement, .node .returnStatement returns outer [expression]] := by
  unfold returned? at h
  split at h
  · cases h
    exact ⟨_, _, _, _, rfl⟩
  · cases h

/-- A body that takes the binding is a block with one statement more, or an expression that a block
binds and returns. -/
theorem Regrows.of_body {t t' : SyntaxTree} (h : Regrows m file t t')
    (bound : t ∈ m.boundBodies file) :
    t'.kind = .statementBlock ∧ t'.label = t.label ∧
      ((t.kind = .statementBlock ∧
          Spliced (m.isBinding file) (Regrows m file) t.children t'.children) ∨
        (t.kind ≠ .statementBlock ∧ ∃ statement expression returns outer,
          t'.children = [statement, .node .returnStatement returns outer [expression]] ∧
          m.isBinding file statement = true ∧ expression.kind = t.kind ∧
          List.Forall₂ (Regrows m file) t.children expression.children)) := by
  cases t with
  | node k l s ts =>
    rw [Regrows, regrows, if_neg (not_literal_of_bound bound)] at h
    by_cases block : k = .statementBlock
    · rw [if_neg (fun both => both.2 block), addition?, if_pos bound] at h
      simp only [Bool.and_eq_true, beq_iff_eq, regrowsAll_iff] at h
      exact ⟨h.1.1.1.trans block, h.1.1.2, Or.inl ⟨block, spliced_of_eraseP h.2.1 h.2.2⟩⟩
    · rw [if_pos ⟨bound, block⟩, Bool.and_eq_true] at h
      cases wrapped : returned? t' with
      | none =>
        rw [wrapped] at h
        cases h.2
      | some both =>
        rw [wrapped] at h
        simp only [Bool.and_eq_true, beq_iff_eq, regrowsAll_iff] at h
        rcases returned?_eq_some wrapped with ⟨l', s', returns, outer, rfl⟩
        exact ⟨rfl, h.1, Or.inr ⟨block, _, _, returns, outer, rfl, h.2.1.1, h.2.1.2, h.2.2⟩⟩

end Migration

end ThemeMigration
