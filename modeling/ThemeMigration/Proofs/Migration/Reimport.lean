import ThemeMigration.Proofs.Imports.Locals
import ThemeMigration.Proofs.Migration.Frame
import ThemeMigration.Proofs.Migration.Untouched

/-!
# The accessor keeps its name

Reading the imports of the edited script gives the accessor the name that the first pass chose for
it: the import that was there is still the last one, or else the new specifier is the only one.
-/

namespace ThemeMigration

open Script SyntaxTree

namespace Migration

/-- The source is the edited text, and its tree is the old one with the edits in it. -/
structure Again (m : Migration) (file : SourceFile) (s : Source) : Prop where
  text_eq : s.text = m.edited file
  regrown : m.regrownAs file s.tree = true

variable {m : Migration} {file : SourceFile} {s : Source}

/-! ## Statements -/

/-- No statement is a node with an edit of its own. -/
theorem statement_not_special {u : SyntaxTree} (h : u ∈ file.source.statements) :
    ¬ Special m file u := by
  intro special
  have room := special.nonempty
  rcases special.cases with ⟨r, changed, below⟩ | ⟨v, list⟩
  · have same := Component.statement_unique h changed.declaration_mem (.here u)
      (changed.body_occurs.trans below) room
    have inFunction := Component.function_occurs (component_of_mem changed.member)
    have inBody := (Component.site_of_mem_detect (component_of_mem changed.member)).2
    rcases inBody with ⟨q, _, component⟩
    have facts := Component.isOf_of_ofSite? component
    have child := mem_children_of_part? facts.body_eq
    rw [← facts.function_eq] at child
    have smaller := sizeOf_lt_of_mem_children child
    have first := inFunction.sizeOf_le
    have second := below.sizeOf_le
    rw [← same] at first
    omega
  · have inImport := Imports.namedList?_facts list.list
    have same := Component.statement_unique h list.member (.here u) inImport.2 room
    have kind := list.isImport
    rw [← same, inImport.1] at kind
    cases kind

theorem kind_of_statement {u u' : SyntaxTree} (h : u ∈ file.source.statements)
    (r : Regrows m file u u') : u'.kind = u.kind :=
  (r.of_plain (statement_not_special h)).1

/-! ## What the edits import -/

/-- The name under which an import that is put in brings the accessor. -/
def newLocal (m : Migration) (file : SourceFile) : String :=
  (m.imports file).newName.getD m.accessor.exportName

theorem kind_of_isSpecifier {n : SyntaxTree} (h : m.isSpecifier file n = true) :
    n.kind = .importSpecifier := by
  unfold isSpecifier at h
  split at h
  · rfl
  · rfl
  · cases h

theorem accessorLocal?_of_isSpecifier (text : s.text = m.edited file) {n : SyntaxTree}
    (h : m.isSpecifier file n = true) :
    Imports.accessorLocal? s m.accessor n = some (m.newLocal file) := by
  unfold isSpecifier at h
  split at h
  · rw [Bool.and_eq_true, beq_iff_eq, Option.isNone_iff_eq_none, ← text] at h
    simp [Imports.accessorLocal?, Imports.isTypeOnly, children, kind, part?, label, Source.textOf,
      SyntaxTree.text, span, h.1, newLocal, h.2]
  · rw [Bool.and_eq_true, beq_iff_eq, beq_iff_eq, ← text] at h
    simp [Imports.accessorLocal?, Imports.isTypeOnly, children, kind, part?, label, Source.textOf,
      SyntaxTree.text, span, h.1, newLocal, h.2]
  · cases h

theorem locals_of_isImport (text : s.text = m.edited file) {n : SyntaxTree}
    (h : m.isImport file n = true) :
    n.kind = .importStatement ∧
      Imports.locals s file.path m.accessor m.tsconfig n = [m.newLocal file] := by
  unfold isImport at h
  split at h
  · rename_i l s₁ s₂ l₂ s₃ specifier source
    rw [Bool.and_eq_true, beq_iff_eq, ← text] at h
    have brought := accessorLocal?_of_isSpecifier text h.1
    have isSpecifier := kind_of_isSpecifier h.1
    refine ⟨rfl, ?_⟩
    rw [Imports.locals, Imports.accessorList?_of_node h.2]
    simp [Imports.listLocals, Imports.specifiers, SyntaxTree.named, children, brought, isSpecifier,
      Kind.isNamed]
  · cases h

theorem kind_of_isImport {n : SyntaxTree} (h : m.isImport file n = true) :
    n.kind = .importStatement := by
  unfold isImport at h
  split at h
  · rfl
  · cases h

/-- The statements of the new script are those of the old one, with an import statement among them
where one is put in. -/
theorem statements_of_regrown {tree : SyntaxTree} (regrown : m.regrownAs file tree = true) :
    (m.importsAnew file = false ∧
        List.Forall₂ (Regrows m file) file.source.statements tree.named) ∨
      (m.importsAnew file = true ∧
        Spliced (m.isImport file) (Regrows m file) file.source.statements tree.named) := by
  rw [regrownAs] at regrown
  split at regrown
  · rename_i anew
    rw [Bool.and_eq_true, regrowsAll_iff] at regrown
    refine Or.inr ⟨anew, (spliced_of_eraseP regrown.1 regrown.2).filter
      (fun _ _ related => keeps_regrows.isNamed related) ?_⟩
    intro new fits
    rw [kind_of_isImport fits]
    rfl
  · rename_i anew
    rw [regrowsAll_iff] at regrown
    exact Or.inl ⟨by simpa using anew, keeps_regrows.named regrown⟩

theorem Again.statements (h : Again m file s) :
    (m.importsAnew file = false ∧
        List.Forall₂ (Regrows m file) file.source.statements s.statements) ∨
      (m.importsAnew file = true ∧
        Spliced (m.isImport file) (Regrows m file) file.source.statements s.statements) :=
  statements_of_regrown h.regrown

/-! ## Imports that stay -/

/-- In an import statement only the list that the accessor joins has an edit of its own. -/
theorem special_apart_of_import {u : SyntaxTree} (inScript : u ∈ file.source.statements)
    (isImport : u.kind = .importStatement) {x : SyntaxTree} (special : Special m file x) :
    x.span.Apart u.span ∨ (m.joinedList? file = some x ∧
      Imports.IsAccessorList file.source file.path m.accessor m.tsconfig u x) := by
  have order := Component.statements_pairwise file.source
  have inBody : ∀ r, Changed m file r → Occurs r.component.body x → x.span.Apart u.span := by
    intro r changed below
    have within := (wellFormed_occurs changed.body_wellFormed below).2
    rcases Span.eq_or_apart span order changed.declaration_mem inScript with same | apart
    · exact absurd isImport (same ▸ changed.kind_of_declaration)
    · exact apart.mono (changed.body_in_declaration.trans within) (.refl _)
  cases special with
  | literal member =>
    rcases literal_facts member with ⟨r, changed, below, _⟩
    exact Or.inl (inBody r changed below)
  | body member =>
    rcases mem_boundBodies_iff.1 member with ⟨r, changed, _, rfl⟩
    exact Or.inl (inBody r changed (.here _))
  | list joined =>
    rcases accessorList_of_joined joined with ⟨v, list⟩
    have inImport := Imports.namedList?_facts list.list
    have within := (wellFormed_occurs (Component.wellFormed_statement list.member) inImport.2).2
    rcases Span.eq_or_apart span order list.member inScript with rfl | apart
    · exact Or.inr ⟨joined, list⟩
    · exact Or.inl (apart.mono within (.refl _))

/-- A statement whose list the accessor does not join gives it the same names as before. -/
theorem locals_of_other (text : s.text = m.edited file) {u u' : SyntaxTree}
    (inScript : u ∈ file.source.statements)
    (other : ∀ x, m.joinedList? file = some x →
      ¬ Imports.IsAccessorList file.source file.path m.accessor m.tsconfig u x)
    (r : Regrows m file u u') :
    Imports.locals s file.path m.accessor m.tsconfig u' =
      Imports.locals file.source file.path m.accessor m.tsconfig u := by
  by_cases isImport : u.kind = .importStatement
  · have untouched := untouched_of_apart inScript (.here u) fun x special => by
      rcases special_apart_of_import inScript isImport special with apart | ⟨joined, list⟩
      · exact apart
      · exact absurd list (other x joined)
    have reads := untouched.reads r
    rw [← text] at reads
    exact Imports.locals_of_reads reads
  · have isImport' : u'.kind ≠ .importStatement := by
      rw [kind_of_statement inScript r]
      exact isImport
    rw [Imports.locals_of_not_import isImport, Imports.locals_of_not_import isImport']

/-! ## The list that the accessor joins -/

/-- A part of the statement and what became of it. -/
def RegrowsIn (m : Migration) (file : SourceFile) (u c c' : SyntaxTree) : Prop :=
  Occurs u c ∧ Regrows m file c c'

theorem keeps_regrowsIn (u : SyntaxTree) : Keeps (RegrowsIn m file u) where
  label h := keeps_regrows.label h.2
  isNamed h := keeps_regrows.isNamed h.2

theorem forall₂_regrowsIn {u c c' : SyntaxTree} (below : Occurs u c)
    (h : List.Forall₂ (Regrows m file) c.children c'.children) :
    List.Forall₂ (RegrowsIn m file u) c.children c'.children :=
  (forall₂_with_mem h).imp fun _ _ both => ⟨below.trans (.child both.1), both.2⟩

/-- A part of an import statement with an edit of its own is the list that the accessor joins. -/
theorem joined_of_special {u c : SyntaxTree} (inScript : u ∈ file.source.statements)
    (isImport : u.kind = .importStatement) (below : Occurs u c) (special : Special m file c) :
    m.joinedList? file = some c := by
  rcases special_apart_of_import inScript isImport special with apart | ⟨joined, _⟩
  · have within := (wellFormed_occurs (Component.wellFormed_statement inScript) below).2
    exact absurd (apart.stop_le_start (.refl _) within) (Nat.not_le_of_lt special.nonempty)
  · exact joined

/-- The parts of an import statement keep their kinds. -/
theorem kind_of_import_part {u c c' : SyntaxTree} (inScript : u ∈ file.source.statements)
    (isImport : u.kind = .importStatement) (below : Occurs u c) (r : Regrows m file c c') :
    c'.kind = c.kind := by
  by_cases special : Special m file c
  · exact (r.of_list (joined_of_special inScript isImport below special)).1
  · exact (r.of_plain special).1

/-- A part of an import statement that is no list of names keeps its parts. -/
theorem parts_of_import_part {u c c' : SyntaxTree} (inScript : u ∈ file.source.statements)
    (isImport : u.kind = .importStatement) (below : Occurs u c) (other : c.kind ≠ .namedImports)
    (r : Regrows m file c c') :
    List.Forall₂ (RegrowsIn m file u) c.children c'.children := by
  have plain : ¬ Special m file c := by
    intro special
    rcases accessorList_of_joined (joined_of_special inScript isImport below special) with
      ⟨_, list⟩
    exact other (Imports.namedList?_facts list.list).1
  exact forall₂_regrowsIn below (r.of_plain plain).2.2.2

section Joined

variable {u u' names : SyntaxTree}
  (list : Imports.IsAccessorList file.source file.path m.accessor m.tsconfig u names)

include list

variable (joined : m.joinedList? file = some names)

include joined

/-- An edit meets the statement where the accessor joins its list. -/
theorem apart_or_joins {e : Edit} (planned : e ∈ (m.plan file).edits) :
    e.span.Apart u.span ∨ (names.span.Contains e.span ∧
      e.span = .point (Imports.joinPoint names).1) := by
  rcases writesInto_of_mem_plan planned with imported | ⟨r, changed, within, _⟩
  · rcases import_apart_or_joined imported with ⟨names', joined', inList, place⟩ | ⟨none, _⟩
    · rw [joined] at joined'
      cases joined'
      exact Or.inr ⟨inList, place⟩
    · rw [joined] at none
      cases none
  · rcases Span.eq_or_apart span (Component.statements_pairwise file.source)
      changed.declaration_mem list.member with same | apart
    · exact absurd list.isImport (same ▸ changed.kind_of_declaration)
    · exact Or.inl (apart.mono (changed.body_in_declaration.trans within) (.refl _))

/-- What stands in the statement and holds no list holds no node with an edit. -/
theorem free_of_import_part {c : SyntaxTree} (below : Occurs u c) (other : ¬ Occurs c names) :
    ∀ x, Special m file x → ¬ Occurs c x := by
  intro x special inside
  have isList := joined_of_special list.member list.isImport (below.trans inside) special
  rw [joined] at isList
  cases isList
  exact other inside

/-- A specifier of the list is untouched, since the edit is at its end or beyond it. -/
theorem untouched_specifier {c : SyntaxTree} (member : c ∈ Imports.specifiers names) :
    Untouched m file c := by
  have inList := Imports.mem_children_of_mem_specifiers member
  have below := (Imports.namedList?_facts list.list).2.trans (.child inList)
  have outer := Component.wellFormed_statement list.member
  have inner := wellFormed_occurs outer below
  refine ⟨inner.1, ?_, ?_⟩
  · exact free_of_import_part list joined below (not_occurs_of_mem_children inList)
  · intro e planned
    rcases apart_or_joins list joined planned with apart | ⟨_, place⟩
    · exact apart.mono (.refl _) inner.2
    · have listWellFormed := wellFormed_occurs outer (Imports.namedList?_facts list.list).2
      rw [place]
      exact Imports.joinPoint_apart listWellFormed.1 member

/-- What stands beside the list is untouched. -/
theorem untouched_beside {c : SyntaxTree} (below : Occurs u c) (beside : names.span.Apart c.span) :
    Untouched m file c := by
  have inner := wellFormed_occurs (Component.wellFormed_statement list.member) below
  have other : ¬ Occurs c names := by
    intro inside
    have within := (wellFormed_occurs inner.1 inside).2
    exact absurd (beside.stop_le_start (.refl _) within) (Nat.not_le_of_lt (list_nonempty list))
  refine ⟨inner.1, free_of_import_part list joined below other, ?_⟩
  intro e planned
  rcases apart_or_joins list joined planned with apart | ⟨inList, _⟩
  · exact apart.mono (.refl _) inner.2
  · exact beside.mono inList (.refl _)

/-- The module specifier is untouched, since it is no part of the list. -/
theorem untouched_source {c : SyntaxTree} (source : u.part? .source = some c) :
    Untouched m file c :=
  untouched_beside list joined (.child (mem_children_of_part? source)) (list.source_apart source).1

/-- The list of the new statement is what became of the old one. -/
theorem exists_joined_list (text : s.text = m.edited file) (r : Regrows m file u u') :
    ∃ names', Imports.accessorList? s file.path m.accessor m.tsconfig u' = some names' ∧
      Regrows m file names names' := by
  rcases r.of_plain (statement_not_special list.member) with ⟨kind, _, _, children⟩
  have parts := forall₂_regrowsIn (.here u) children
  have types : Imports.isTypeOnly u' = Imports.isTypeOnly u :=
    any_eq_of_forall₂ parts fun c c' _ related => by
      rw [kind_of_import_part list.member list.isImport related.1 related.2]
  have source : (u'.part? .source).map s.textOf = (u.part? .source).map file.source.textOf := by
    refine map_eq_of_rel (keeps_regrows.part? children .source) fun c c' part related => ?_
    rw [Source.textOf, text, ((untouched_source list joined part).reads related).text]
    rfl
  have lists : Option.Rel (RegrowsIn m file u) (Imports.namedList? u) (Imports.namedList? u') := by
    refine Imports.rel_namedList? (keeps_regrowsIn u) ?_ ?_ parts
    · intro c c' related
      exact kind_of_import_part list.member list.isImport related.1 related.2
    · intro c c' isClause related
      exact parts_of_import_part list.member list.isImport related.1
        (by rw [isClause]; decide) related.2
  have related := Imports.rel_accessorList? file.path m.accessor m.tsconfig kind types source lists
  rcases rel_cases related with ⟨none, _⟩ | ⟨names₁, names', same, list', both⟩
  · rw [list.accessorList?_eq] at none
    cases none
  · rw [list.accessorList?_eq] at same
    cases same
    exact ⟨names', list', both.2⟩

/-- The list has the specifiers that it had, and the new one among them. -/
theorem spliced_specifiers {names' : SyntaxTree} (r : Regrows m file names names') :
    Spliced (m.isSpecifier file) (RegrowsIn m file u) (Imports.specifiers names)
      (Imports.specifiers names') := by
  have inStatement := (Imports.namedList?_facts list.list).2
  have named := (r.of_list joined).2.2.with_mem.filter (p := (·.kind.isNamed))
    (fun _ _ both => keeps_regrows.isNamed both.2) fun new fits => by
      rw [kind_of_isSpecifier fits]
      rfl
  have chosen := named.filter (p := (·.kind == .importSpecifier))
    (fun c c' both => by
      rw [kind_of_import_part list.member list.isImport (inStatement.trans (.child both.1))
        both.2]) fun new fits => by
      rw [kind_of_isSpecifier fits]
      rfl
  exact chosen.imp fun c c' both => ⟨inStatement.trans (.child both.1), both.2⟩

/-- The statement gives the accessor no names but the new one. -/
theorem locals_of_joined (text : s.text = m.edited file) (r : Regrows m file u u')
    (none : Imports.locals file.source file.path m.accessor m.tsconfig u = []) :
    m.newLocal file ∈ Imports.locals s file.path m.accessor m.tsconfig u' ∧
      ∀ x ∈ Imports.locals s file.path m.accessor m.tsconfig u', x = m.newLocal file := by
  rcases exists_joined_list list joined text r with ⟨names', list', related⟩
  rw [Imports.locals, list.accessorList?_eq] at none
  rw [Imports.locals, list']
  have spliced := spliced_specifiers list joined related
  constructor
  · rcases spliced.exists_added with ⟨new, member, fits⟩
    exact List.mem_filterMap.2 ⟨new, member, accessorLocal?_of_isSpecifier text fits⟩
  · intro x found
    rcases List.mem_filterMap.1 found with ⟨c', member, isLocal⟩
    rcases spliced.with_mem.mem member with fits | ⟨c, old, _, regrown⟩
    · rw [accessorLocal?_of_isSpecifier text fits] at isLocal
      exact (Option.some.inj isLocal).symm
    · have reads := (untouched_specifier list joined old).reads regrown.2
      rw [← text] at reads
      have same := Imports.accessorLocal?_of_reads (a := m.accessor) reads
      rw [List.filterMap_eq_nil_iff.1 none c old, isLocal] at same
      cases same

end Joined

/-! ## The name of the accessor -/

theorem importEdit?_of_known {name : String} (known : (m.imports file).accessorLocal = some name) :
    m.importEdit? file = none := by
  rw [importEdit?, Imports.insertion?, known]
  split <;> rfl

theorem importEdit?_of_unknown (unknown : (m.imports file).accessorLocal = none)
    (change : ∃ r, Changed m file r) : ∃ e, m.importEdit? file = some e := by
  rcases Option.isSome_iff_exists.1 (Imports.insertion?_isSome_iff.2 unknown) with ⟨e, found⟩
  exact ⟨e, importEdit?_eq_some_iff.2 ⟨change, found⟩⟩

section Unknown

variable (none : ∀ u ∈ file.source.statements,
  Imports.locals file.source file.path m.accessor m.tsconfig u = [])

include none

/-- A statement that was there gives the accessor the new name or none. -/
theorem locals_of_old (text : s.text = m.edited file) {u u' : SyntaxTree}
    (inScript : u ∈ file.source.statements) (r : Regrows m file u u') :
    ∀ x ∈ Imports.locals s file.path m.accessor m.tsconfig u', x = m.newLocal file := by
  by_cases joins : ∃ names, m.joinedList? file = some names ∧
      Imports.IsAccessorList file.source file.path m.accessor m.tsconfig u names
  · rcases joins with ⟨names, joined, list⟩
    exact (locals_of_joined list joined text r (none u inScript)).2
  · intro x found
    rw [locals_of_other text inScript (fun names joined list => joins ⟨names, joined, list⟩) r,
      none u inScript] at found
    cases found

/-- Where no import gave the accessor a name, the one that is put in is the only one that does. -/
theorem Again.locals (h : Again m file s) (imported : ∃ e, m.importEdit? file = some e) :
    m.newLocal file ∈
        s.statements.flatMap (Imports.locals s file.path m.accessor m.tsconfig) ∧
      ∀ x ∈ s.statements.flatMap (Imports.locals s file.path m.accessor m.tsconfig),
        x = m.newLocal file := by
  rcases imported with ⟨e, imported⟩
  rcases h.statements with ⟨old, statements⟩ | ⟨_, spliced⟩
  · constructor
    · cases first : (Imports.accessorLists file.source file.path m.accessor m.tsconfig).head? with
      | none =>
        rw [importsAnew, imported, List.head?_eq_none_iff.1 first] at old
        cases old
      | some names =>
        have joined : m.joinedList? file = some names := by
          rw [joinedList?, imported, Option.isSome_some, if_pos rfl, first]
        rcases accessorList_of_joined joined with ⟨u, list⟩
        rcases exists_of_forall₂_mem statements list.member with ⟨u', member, related⟩
        have new := (locals_of_joined list joined h.text_eq related (none u list.member)).1
        exact List.mem_flatMap.2 ⟨u', member, new⟩
    · intro x found
      rcases List.mem_flatMap.1 found with ⟨u', member, inLocals⟩
      rcases exists_of_mem_forall₂ statements member with ⟨u, inScript, related⟩
      exact locals_of_old none h.text_eq inScript related x inLocals
  · constructor
    · rcases spliced.exists_added with ⟨n, member, fits⟩
      refine List.mem_flatMap.2 ⟨n, member, ?_⟩
      rw [(locals_of_isImport h.text_eq fits).2]
      exact List.mem_cons_self
    · intro x found
      rcases List.mem_flatMap.1 found with ⟨u', member, inLocals⟩
      rcases spliced.mem member with fits | ⟨u, inScript, related⟩
      · rw [(locals_of_isImport h.text_eq fits).2] at inLocals
        exact List.mem_singleton.1 inLocals
      · exact locals_of_old none h.text_eq inScript related x inLocals

end Unknown

/-- In the edited script the accessor has the name that the components of the first pass call. -/
theorem Again.callee (h : Again m file s) (change : ∃ r, Changed m file r) :
    (Imports.ofSource s file.path m.accessor m.tsconfig).callee m.accessor =
      (m.imports file).callee m.accessor := by
  have before := Imports.accessorLocal_eq file.source file.path m.accessor m.tsconfig
  have after := Imports.accessorLocal_eq s file.path m.accessor m.tsconfig
  change (m.imports file).accessorLocal = _ at before
  cases known : (m.imports file).accessorLocal with
  | some name =>
    rw [known] at before
    have noImport := importEdit?_of_known known
    have alone : m.joinedList? file = none := by rw [joinedList?, noImport]; rfl
    rcases h.statements with ⟨_, statements⟩ | ⟨anew, _⟩
    · have same := flatMap_eq_of_forall₂ statements fun u u' member related =>
        locals_of_other h.text_eq member (by rw [alone]; intro x impossible; cases impossible)
          related
      rw [same, ← before] at after
      rw [Imports.callee, after, Imports.callee, known]
    · rw [importsAnew, noImport] at anew
      cases anew
  | none =>
    rw [known, eq_comm, List.getLast?_eq_none_iff] at before
    have none := List.flatMap_eq_nil_iff.1 before
    have recovered : (Imports.ofSource s file.path m.accessor m.tsconfig).accessorLocal =
        some (m.newLocal file) := by
      have names := h.locals none (importEdit?_of_unknown known change)
      rw [after]
      exact Imports.getLast?_of_all_eq names.1 names.2
    rw [Imports.callee, recovered, Imports.callee, known, newLocal]
    cases (m.imports file).newName <;> rfl

end Migration

end ThemeMigration
