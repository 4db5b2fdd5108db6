import Mathlib.Data.List.TakeWhile
import ThemeMigration.Imports
import ThemeMigration.Proofs.Component.Detection
import ThemeMigration.Proofs.Edits.Order

/-!
# Where an import is inserted

The edit that imports the accessor inserts inside an import statement, or at an end of a statement
of the script.  So it never cuts a statement that is no import, whichever of the places is taken.
-/

namespace ThemeMigration

open Script SyntaxTree

namespace Imports

variable {s : Source} {file : Path} {a : Accessor} {t : TsConfig}

/-! ## Lists of imported names -/

theorem clause_of_namedList? {statement names : SyntaxTree}
    (h : namedList? statement = some names) :
    ∃ clause, clause ∈ statement.children ∧ clause.kind = .importClause ∧
      names ∈ clause.children ∧ names.kind = .namedImports := by
  rcases Option.bind_eq_some_iff.1 h with ⟨clause, inStatement, inClause⟩
  have isClause := List.find?_some inStatement
  have list := List.find?_some inClause
  have first := mem_children_of_mem_named (List.mem_of_find?_eq_some inStatement)
  have second := mem_children_of_mem_named (List.mem_of_find?_eq_some inClause)
  exact ⟨clause, first, by simpa using isClause, second, by simpa using list⟩

theorem namedList?_facts {statement names : SyntaxTree} (h : namedList? statement = some names) :
    names.kind = .namedImports ∧ Occurs statement names := by
  rcases clause_of_namedList? h with ⟨clause, first, _, second, list⟩
  exact ⟨list, .deeper first (.child second)⟩

/-- An import statement with its module specifier. -/
structure IsSourced (s : Source) (statement specifier : SyntaxTree) : Prop where
  member : statement ∈ s.statements
  isImport : statement.kind = .importStatement
  specifier_eq : statement.part? .source = some specifier

theorem mem_sourced_iff {statement specifier : SyntaxTree} :
    (statement, specifier) ∈ sourced s ↔ IsSourced s statement specifier := by
  rw [sourced, List.mem_filterMap]
  constructor
  · rintro ⟨u, member, found⟩
    split at found
    · rename_i kind
      rcases Option.map_eq_some_iff.1 found with ⟨m, source, same⟩
      cases same
      exact ⟨member, by simpa [Imports.isImport] using kind, source⟩
    · cases found
  · intro h
    exact ⟨statement, h.member, by simp [Imports.isImport, h.isImport, h.specifier_eq]⟩

/-- An import statement with the list of values that it imports from the accessor module. -/
structure IsAccessorList (s : Source) (file : Path) (a : Accessor) (t : TsConfig)
    (statement names : SyntaxTree) : Prop where
  member : statement ∈ s.statements
  isImport : statement.kind = .importStatement
  ofValues : isTypeOnly statement = false
  list : namedList? statement = some names
  fromModule : ∃ specifier, statement.part? .source = some specifier ∧
    a.namesModule t (unquote (s.textOf specifier)) file = true

theorem mem_accessorLists_iff {names : SyntaxTree} :
    names ∈ accessorLists s file a t ↔ ∃ statement, IsAccessorList s file a t statement names := by
  rw [accessorLists, List.mem_filterMap]
  constructor
  · rintro ⟨⟨statement, specifier⟩, member, found⟩
    have facts := mem_sourced_iff.1 member
    dsimp only at found
    split at found
    · cases found
    · rename_i values
      rcases Option.bind_eq_some_iff.1 found with ⟨list, isList, named⟩
      split at named
      · rename_i module
        cases named
        exact ⟨statement, facts.member, facts.isImport, by simpa using values, isList, specifier,
          facts.specifier_eq, module⟩
      · cases named
  · rintro ⟨statement, h⟩
    rcases h.fromModule with ⟨specifier, source, module⟩
    refine ⟨(statement, specifier), mem_sourced_iff.2 ⟨h.member, h.isImport, source⟩, ?_⟩
    simp [h.ofValues, h.list, module]

/-- A specifier joins a list behind its last specifier, or behind its opening brace. -/
theorem joinPoint_cases (names : SyntaxTree) :
    (∃ last ∈ specifiers names, joinPoint names = (last.stop, false)) ∨
      (specifiers names = [] ∧ joinPoint names = (names.start + 1, true)) := by
  rw [joinPoint]
  cases last : (specifiers names).getLast? with
  | none => exact Or.inr ⟨List.getLast?_eq_none_iff.1 last, rfl⟩
  | some u => exact Or.inl ⟨u, List.mem_of_getLast? last, rfl⟩

theorem mem_children_of_mem_specifiers {names c : SyntaxTree} (h : c ∈ specifiers names) :
    c ∈ names.children :=
  mem_children_of_mem_named (List.mem_filter.1 h).1

/-- A specifier joins a list inside its braces. -/
theorem joinPoint_in_list {source : String} {names : SyntaxTree}
    (h : names.wellFormed source = true) (list : names.kind = .namedImports) :
    Text.isBoundary source (joinPoint names).1 = true ∧
      names.span.Contains (.point (joinPoint names).1) := by
  have brace := brace_boundary h list
  rcases joinPoint_cases names with ⟨last, inList, place⟩ | ⟨_, place⟩
  · have inner := wellFormed_child h (mem_children_of_mem_specifiers inList)
    have ordered := start_le_stop inner.1
    rw [place]
    exact ⟨stop_boundary inner.1, Nat.le_trans inner.2.1 ordered, inner.2.2⟩
  · rw [place]
    exact ⟨brace.2, Nat.le_succ _, brace.1⟩

/-- No specifier of a list is cut where another one joins it. -/
theorem joinPoint_apart {source : String} {names c : SyntaxTree}
    (h : names.wellFormed source = true) (member : c ∈ specifiers names) :
    (Span.point (joinPoint names).1).Apart c.span := by
  have inList := mem_children_of_mem_specifiers member
  rcases joinPoint_cases names with ⟨last, inSpecifiers, join⟩ | ⟨none, _⟩
  · have isChild := mem_children_of_mem_specifiers inSpecifiers
    have ordered := start_le_stop (wellFormed_child h isChild).1
    rw [join]
    rcases Span.eq_or_apart span (children_pairwise h) isChild inList with rfl | apart
    · exact Span.stop_apart _
    · exact apart.mono ⟨ordered, Nat.le_refl _⟩ (.refl _)
  · rw [none] at member
    cases member

/-- The module specifier stands apart from the list. -/
theorem IsAccessorList.source_apart {statement names c : SyntaxTree}
    (h : IsAccessorList s file a t statement names) (source : statement.part? .source = some c) :
    names.span.Apart c.span ∧ ¬ Occurs c names := by
  have outer := Component.wellFormed_statement h.member
  have isChild := mem_children_of_part? source
  have string := source_is_string outer h.isImport source
  rcases clause_of_namedList? h.list with ⟨clause, inStatement, isClause, inClause, kind⟩
  constructor
  · rcases Span.eq_or_apart span (children_pairwise outer) inStatement isChild with rfl | apart
    · rw [isClause] at string
      cases string
    · have within := (wellFormed_child (wellFormed_child outer inStatement).1 inClause).2
      exact apart.mono within (.refl _)
  · intro inside
    have leaf := children_eq_nil (wellFormed_child outer isChild).1 (by rw [string]; rfl)
    rw [inside.eq_of_children_eq_nil leaf, string] at kind
    cases kind

/-! ## The head of a script -/

theorem attachedStart_cases (source : String) (start : Nat) (before : List SyntaxTree) :
    attachedStart source start before = start ∨
      ∃ u ∈ before, attachedStart source start before = u.start := by
  induction before generalizing start with
  | nil => exact Or.inl rfl
  | cons u us ih =>
    rw [attachedStart]
    split
    · rcases ih u.start with same | ⟨v, member, same⟩
      · exact Or.inr ⟨u, List.mem_cons_self, same⟩
      · exact Or.inr ⟨v, List.mem_cons_of_mem _ member, same⟩
    · exact Or.inl rfl

/-- A script that has a statement begins with one, or with a comment in front of it. -/
theorem firstStatementStart_at_statement (h : ∃ u ∈ s.statements, u.isComment = false) :
    ∃ u ∈ s.statements, firstStatementStart s = u.start := by
  rw [firstStatementStart]
  have inFront : ∀ u ∈ (s.statements.takeWhile isComment).reverse, u ∈ s.statements := by
    intro u member
    exact (List.takeWhile_sublist _).subset (List.mem_reverse.1 member)
  split
  · rename_i rest
    have whole := (List.takeWhile_prefix isComment).eq_of_length_le (List.drop_eq_nil_iff.1 rest)
    rcases h with ⟨u, member, statement⟩
    have comment := List.takeWhile_eq_self_iff.1 whole u member
    rw [statement] at comment
    cases comment
  · rename_i u others rest
    have member : u ∈ s.statements := (List.drop_sublist _ _).subset (rest ▸ List.mem_cons_self)
    rcases attachedStart_cases s.text u.start
      (s.statements.takeWhile isComment).reverse with same | ⟨v, inComments, same⟩
    · exact ⟨u, member, same⟩
    · exact ⟨v, inFront v inComments, same⟩

theorem mem_directives {u : SyntaxTree} (h : u ∈ directives s) :
    u ∈ s.statements ∧ u.kind = .expressionStatement := by
  have inAll := List.mem_filter.1 ((List.takeWhile_sublist _).subset h)
  have directive := List.mem_takeWhile_imp h
  simp only [isDirective, Bool.and_eq_true, beq_iff_eq] at directive
  exact ⟨inAll.1, directive.1⟩

/-! ## The edit in parts -/

/-- Where the edit inserts. -/
def place (i : Imports) : Nat :=
  match i.joinAt, i.lastEnd with
  | some (offset, _), _ => offset
  | none, some offset => offset
  | none, none => i.top

/-- What the edit writes: a specifier if there is a list to join, or else a statement. -/
def written (i : Imports) (a : Accessor) (file : Path) : String :=
  if i.joinAt.isSome then i.newSpecifier a else i.newStatement a file

/-- What the edit puts in front of it. -/
def lead (i : Imports) : String :=
  match i.joinAt, i.lastEnd with
  | some (_, true), _ => " "
  | some (_, false), _ => ", "
  | none, some _ => "\n"
  | none, none => if i.afterDirective then "\n\n" else ""

/-- What the edit puts behind it. -/
def trail (i : Imports) : String :=
  match i.joinAt, i.lastEnd with
  | some (_, true), _ => " "
  | some (_, false), _ => ""
  | none, some _ => ""
  | none, none => if i.afterDirective then "" else "\n\n"

/-- The edit, unless the accessor is imported already. -/
theorem insertion?_eq_some_iff {i : Imports} {file : Path} {e : Edit} :
    i.insertion? a file = some e ↔
      i.accessorLocal = none ∧
        e = .insert i.place (i.lead ++ i.written a file ++ i.trail) := by
  rw [insertion?, place, lead, written, trail]
  cases i.accessorLocal with
  | some l => simp
  | none =>
    rcases i.joinAt with _ | ⟨offset, _ | _⟩
    · cases i.lastEnd with
      | some offset => simp [eq_comm]
      | none => cases i.afterDirective <;> simp [eq_comm]
    · simp [eq_comm]
    · simp [eq_comm]

/-! ## The place of the edit -/

/-- Where an edit of the import section inserts. -/
inductive Place (s : Source) (file : Path) (a : Accessor) (t : TsConfig) : Nat → Prop
  | joined {names : SyntaxTree} : (accessorLists s file a t).head? = some names →
      Place s file a t (joinPoint names).1
  | before {u : SyntaxTree} : accessorLists s file a t = [] → u ∈ s.statements →
      Place s file a t u.start
  | behind {u : SyntaxTree} : accessorLists s file a t = [] → u ∈ s.statements →
      Place s file a t u.stop

/-- The list that takes the import, in its statement. -/
theorem list_of_head? {names : SyntaxTree} (h : (accessorLists s file a t).head? = some names) :
    ∃ statement, IsAccessorList s file a t statement names ∧ Occurs statement names ∧
      names.wellFormed s.text = true ∧ names.kind = .namedImports := by
  rcases mem_accessorLists_iff.1 (List.mem_of_head? h) with ⟨statement, list⟩
  have facts := namedList?_facts list.list
  have inner := wellFormed_occurs (Component.wellFormed_statement list.member) facts.2
  exact ⟨statement, list, facts.2, inner.1, facts.1⟩

theorem Place.boundary {offset : Nat} (h : Place s file a t offset) :
    Text.isBoundary s.text offset = true := by
  cases h with
  | joined first =>
    rcases list_of_head? first with ⟨_, _, _, wellFormed, kind⟩
    exact (joinPoint_in_list wellFormed kind).1
  | before _ member => exact start_boundary (Component.wellFormed_statement member)
  | behind _ member => exact stop_boundary (Component.wellFormed_statement member)

/-- An end of a statement is not inside any statement. -/
theorem ends_apart_of_statement {u v : SyntaxTree} (first : u ∈ s.statements)
    (second : v ∈ s.statements) :
    (Span.point u.start).Apart v.span ∧ (Span.point u.stop).Apart v.span := by
  have ordered := start_le_stop (Component.wellFormed_statement first)
  rcases Span.eq_or_apart span (Component.statements_pairwise s) first second with rfl | apart
  · exact ⟨Span.start_apart _, Span.stop_apart _⟩
  · exact ⟨apart.mono ⟨Nat.le_refl _, ordered⟩ (.refl _),
      apart.mono ⟨ordered, Nat.le_refl _⟩ (.refl _)⟩

/-- Only the list that takes the import is cut, and no other statement. -/
theorem Place.apart_or_joined {offset : Nat} (h : Place s file a t offset) :
    (∃ names, (accessorLists s file a t).head? = some names ∧ offset = (joinPoint names).1 ∧
        names.span.Contains (.point offset)) ∨
      (accessorLists s file a t = [] ∧ ∀ u ∈ s.statements, (Span.point offset).Apart u.span) := by
  cases h with
  | @joined names first =>
    rcases list_of_head? first with ⟨_, _, _, wellFormed, kind⟩
    exact Or.inl ⟨names, first, rfl, (joinPoint_in_list wellFormed kind).2⟩
  | before none member =>
    exact Or.inr ⟨none, fun u other => (ends_apart_of_statement member other).1⟩
  | behind none member =>
    exact Or.inr ⟨none, fun u other => (ends_apart_of_statement member other).2⟩

/-- Statements other than imports are not cut. -/
theorem Place.apart {offset : Nat} (h : Place s file a t offset) {u : SyntaxTree}
    (member : u ∈ s.statements) (other : u.kind ≠ .importStatement) :
    (Span.point offset).Apart u.span := by
  rcases h.apart_or_joined with ⟨names, first, _, within⟩ | ⟨_, apart⟩
  · rcases list_of_head? first with ⟨statement, list, inside, _⟩
    have inStatement := (wellFormed_occurs (Component.wellFormed_statement list.member) inside).2
    rcases Span.eq_or_apart span (Component.statements_pairwise s) list.member member with
      rfl | apart
    · exact absurd list.isImport other
    · exact apart.mono (inStatement.trans within) (.refl _)
  · exact apart u member

/-- There is an edit unless the accessor is imported already. -/
theorem insertion?_isSome_iff {i : Imports} {file : Path} :
    (i.insertion? a file).isSome = true ↔ i.accessorLocal = none := by
  simp only [Option.isSome_iff_exists, insertion?_eq_some_iff, exists_and_left, exists_eq,
    and_true]

theorem place_joined {names : SyntaxTree} (first : (accessorLists s file a t).head? = some names) :
    (ofSource s file a t).place = (joinPoint names).1 := by
  have joinAt : (ofSource s file a t).joinAt = some (joinPoint names) :=
    congrArg (Option.map joinPoint) first
  rw [place, joinAt]

/-- In a script that has a statement, the import goes to one of the places. -/
theorem place_of_statement (statement : ∃ u ∈ s.statements, u.isComment = false) :
    Place s file a t (ofSource s file a t).place := by
  have joins : ∀ point, (ofSource s file a t).joinAt = some point →
      Place s file a t point.1 := by
    intro point found
    rcases Option.map_eq_some_iff.1 found with ⟨names, first, rfl⟩
    exact .joined first
  have none : (ofSource s file a t).joinAt = none → accessorLists s file a t = [] := by
    intro absent
    exact List.head?_eq_none_iff.1 (Option.map_eq_none_iff.1 absent)
  have follows : ∀ offset, (ofSource s file a t).joinAt = Option.none →
      (ofSource s file a t).lastEnd = some offset → Place s file a t offset := by
    intro offset absent found
    rcases Option.map_eq_some_iff.1 found with ⟨⟨u, specifier⟩, last, rfl⟩
    exact .behind (none absent) (mem_sourced_iff.1 (List.mem_of_getLast? last)).member
  have heads : (ofSource s file a t).joinAt = Option.none →
      Place s file a t (ofSource s file a t).top := by
    intro absent
    change Place s file a t (((directives s).getLast?.map (·.stop)).getD (firstStatementStart s))
    cases last : (directives s).getLast? with
    | none =>
      rcases firstStatementStart_at_statement statement with ⟨u, member, same⟩
      exact same ▸ .before (none absent) member
    | some d => exact .behind (none absent) (mem_directives (List.mem_of_getLast? last)).1
  unfold place
  split
  · rename_i found
    exact joins _ found
  · rename_i absent found
    exact follows _ absent found
  · rename_i absent _
    exact heads absent

theorem insertion?_place {file' : Path} {e : Edit}
    (h : (ofSource s file a t).insertion? a file' = some e)
    (statement : ∃ u ∈ s.statements, u.isComment = false) :
    ∃ offset replacement, e = .insert offset replacement ∧ Place s file a t offset :=
  ⟨_, _, (insertion?_eq_some_iff.1 h).2, place_of_statement statement⟩

/-- In a script without statements, the import goes to the beginning. -/
theorem place_of_no_statement (h : ¬ ∃ u ∈ s.statements, u.isComment = false) :
    (ofSource s file a t).place = 0 := by
  have comments : ∀ u ∈ s.statements, u.isComment = true := by
    intro u member
    rw [← Bool.not_eq_false]
    exact fun other => h ⟨u, member, other⟩
  have noImport : sourced s = [] := by
    refine List.filterMap_eq_nil_iff.2 fun u member => if_neg ?_
    have comment := beq_iff_eq.1 (comments u member)
    rw [isImport, comment]
    exact Bool.false_ne_true
  have noDirective : directives s = [] := by
    have none : s.statements.filter (fun u => !u.isComment) = [] :=
      List.filter_eq_nil_iff.2 fun u member => by simp [comments u member]
    rw [directives, none]
    rfl
  have start : firstStatementStart s = 0 := by
    have all : s.statements.takeWhile isComment = s.statements :=
      List.takeWhile_eq_self_iff.2 comments
    rw [firstStatementStart, all, List.drop_length]
  have noList : accessorLists s file a t = [] := by
    rw [accessorLists, noImport]
    rfl
  rw [place, ofSource, noList, noImport, noDirective, start]
  rfl

/-- The place of the edit does not cut a character. -/
theorem place_boundary (s : Source) (file : Path) (a : Accessor) (t : TsConfig) :
    Text.isBoundary s.text (ofSource s file a t).place = true := by
  by_cases statement : ∃ u ∈ s.statements, u.isComment = false
  · exact (place_of_statement statement).boundary
  · rw [place_of_no_statement statement]
    exact Text.isBoundary_zero _

/-- A new statement cuts no statement. -/
theorem place_apart (none : accessorLists s file a t = []) :
    ∀ u ∈ s.statements, (Span.point (ofSource s file a t).place).Apart u.span := by
  by_cases statement : ∃ u ∈ s.statements, u.isComment = false
  · rcases (place_of_statement statement).apart_or_joined with ⟨names, first, _⟩ | ⟨_, apart⟩
    · rw [none] at first
      cases first
    · exact apart
  · intro u _
    rw [place_of_no_statement statement]
    exact Or.inl (Nat.zero_le _)

end Imports

end ThemeMigration
