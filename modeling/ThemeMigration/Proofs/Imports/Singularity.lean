import ThemeMigration.Proofs.Imports.Growth
import ThemeMigration.Proofs.Migration.Inspection

/-!
# One import of the accessor

A script has no import of the accessor exactly when one is put in.  Once it is, the specifier that
the edit writes is the only one in the script that imports the accessor as a value, and it does so
under the name that components call.  So the edited script has that name, and is not edited again.
-/

namespace ThemeMigration

open Script SyntaxTree

namespace Imports

variable {s s' : Source} {file : Path} {a : Accessor} {t : TsConfig} {e : Edit}
  {statement specifier names : SyntaxTree} {l : String}

/-- A specifier of a statement imports the accessor as a value from its module, under a local
name. -/
structure ImportsAccessor (s : Source) (file : Path) (a : Accessor) (t : TsConfig)
    (statement specifier : SyntaxTree) (l : String) : Prop where
  exists_list : ∃ names, IsAccessorList s file a t statement names ∧ specifier ∈ specifiers names
  ofValue : isTypeOnly specifier = false
  exists_name : ∃ name, specifier.part? .name = some name ∧ s.textOf name = a.exportName ∧
    s.textOf ((specifier.part? .localName).getD name) = l

theorem importsAccessor_iff (member : statement ∈ s.statements) :
    ImportsAccessor s file a t statement specifier l ↔
      ∃ names, accessorList? s file a t statement = some names ∧ specifier ∈ specifiers names ∧
        accessorLocal? s a specifier = some l := by
  constructor
  · rintro ⟨⟨names, list, inList⟩, values, name, part, text, same⟩
    refine ⟨names, list.accessorList?_eq, inList, ?_⟩
    simp [accessorLocal?, values, part, text, same]
  · rintro ⟨names, list, inList, brought⟩
    rw [accessorLocal?] at brought
    split at brought
    · cases brought
    · rename_i values
      split at brought
      · cases brought
      · rename_i name part
        split at brought
        · rename_i text
          exact ⟨⟨names, (isAccessorList_iff member).2 list, inList⟩, Bool.eq_false_iff.2 values,
            name, part, beq_iff_eq.1 text, Option.some.inj brought⟩
        · cases brought

theorem mem_locals_iff (member : statement ∈ s.statements) :
    l ∈ locals s file a t statement ↔
      ∃ specifier, ImportsAccessor s file a t statement specifier l := by
  simp only [importsAccessor_iff member, locals]
  cases accessorList? s file a t statement with
  | none => simp
  | some names => simp [listLocals]

theorem ImportsAccessor.member (h : ImportsAccessor s file a t statement specifier l) :
    statement ∈ s.statements := by
  rcases h.exists_list with ⟨_, list, _⟩
  exact list.member

/-- The accessor has no name exactly where no specifier imports it. -/
theorem accessorLocal_eq_none_iff :
    (ofSource s file a t).accessorLocal = none ↔
      ∀ statement specifier l, ¬ ImportsAccessor s file a t statement specifier l := by
  rw [accessorLocal_eq, List.getLast?_eq_none_iff, List.flatMap_eq_nil_iff]
  constructor
  · intro none statement specifier l imported
    have found := (mem_locals_iff imported.member).2 ⟨specifier, imported⟩
    rw [none statement imported.member] at found
    cases found
  · intro none statement member
    refine List.eq_nil_iff_forall_not_mem.2 fun l found => ?_
    rcases (mem_locals_iff member).1 found with ⟨specifier, imported⟩
    exact none statement specifier l imported

/-- One specifier imports the accessor and no other does: it has the text, and brings the accessor
under the local name. -/
def ImportedOnce (s : Source) (file : Path) (a : Accessor) (t : TsConfig) (text l : String) :
    Prop :=
  ∃ statement specifier, ImportsAccessor s file a t statement specifier l ∧
    s.textOf specifier = text ∧
    ∀ u n k, ImportsAccessor s file a t u n k → u = statement ∧ n = specifier ∧ k = l

theorem ImportedOnce.accessorLocal_eq {text : String} (h : ImportedOnce s file a t text l) :
    (ofSource s file a t).accessorLocal = some l := by
  rcases h with ⟨statement, specifier, found, _, unique⟩
  rw [Imports.accessorLocal_eq]
  refine getLast?_of_all_eq ?_ ?_
  · exact List.mem_flatMap.2
      ⟨statement, found.member, (mem_locals_iff found.member).2 ⟨specifier, found⟩⟩
  · intro k member
    rcases List.mem_flatMap.1 member with ⟨u, inScript, inLocals⟩
    rcases (mem_locals_iff inScript).1 inLocals with ⟨n, imported⟩
    exact (unique u n k imported).2.2

/-- One specifier of one statement is all that imports the accessor if no other specifier of its
list and no other statement does. -/
theorem importedOnce_of_list {new : SyntaxTree} (member : statement ∈ s.statements)
    (list : accessorList? s file a t statement = some names) (inList : new ∈ specifiers names)
    (brought : accessorLocal? s a new = some l) {text : String} (reads : s.textOf new = text)
    (others : ∀ c ∈ specifiers names, c = new ∨ accessorLocal? s a c = none)
    (rest : ∀ u ∈ s.statements, u = statement ∨ locals s file a t u = []) :
    ImportedOnce s file a t text l := by
  refine ⟨statement, new, (importsAccessor_iff member).2 ⟨names, list, inList, brought⟩, reads, ?_⟩
  intro u n k imported
  rcases rest u imported.member with rfl | none
  · rcases (importsAccessor_iff member).1 imported with ⟨names', list', inList', brought'⟩
    rw [list] at list'
    cases list'
    rcases others n inList' with rfl | none
    · rw [brought] at brought'
      exact ⟨rfl, rfl, (Option.some.inj brought').symm⟩
    · rw [none] at brought'
      cases brought'
  · have found := (mem_locals_iff imported.member).2 ⟨n, imported⟩
    rw [none] at found
    cases found

/-! ## After the edit -/

/-- The statements of the new script: the old ones, and the new one where there is no list to
join. -/
theorem mem_statements_iff (h : Grown s file a t e s') {u' : SyntaxTree} :
    u' ∈ s'.statements ↔
      (∃ u ∈ s.statements, graft s.text e (joining s file a t e) u = u') ∨
        (accessorLists s file a t = [] ∧
          u' = (ofSource s file a t).statementNode a file
            (e.span.start + (ofSource s file a t).lead.utf8ByteSize)) := by
  have old : u' ∈ (graftAll s.text e (joining s file a t e) s.tree.children).filter
      (fun c => c.kind.isNamed) ↔
        ∃ u ∈ s.statements, graft s.text e (joining s file a t e) u = u' := by
    rw [graftAll_eq_map, List.filter_map, List.mem_map]
    simp only [Source.statements, SyntaxTree.named, Function.comp_def, graft_kind]
  rw [List.mem_filter] at old
  rw [Source.statements, SyntaxTree.named, h.children_eq, grown]
  split
  · rename_i empty
    rw [List.mem_filter, mem_put, or_and_right, or_comm, old]
    refine or_congr Iff.rfl ?_
    constructor
    · exact fun new => ⟨List.isEmpty_iff.1 empty, new.1⟩
    · rintro ⟨_, rfl⟩
      exact ⟨rfl, rfl⟩
  · rename_i nonempty
    rw [List.mem_filter, old, or_iff_left]
    exact fun new => nonempty (List.isEmpty_iff.2 new.1)

/-- The specifiers of the list that the accessor joins: the old ones and the new one. -/
theorem mem_specifiers_iff (first : (accessorLists s file a t).head? = some names)
    {c : SyntaxTree} :
    c ∈ specifiers (graft s.text e (joining s file a t e) names) ↔
      c = (ofSource s file a t).specifierNode a
          (e.span.start + (ofSource s file a t).lead.utf8ByteSize) ∨
        ∃ d ∈ specifiers names, graft s.text e (joining s file a t e) d = c := by
  rw [joining_eq first]
  exact mem_specifiers_joined rfl

section Grown

variable (added : (ofSource s file a t).insertion? a file = some e) (h : Grown s file a t e s')

include added

theorem sound_of_added : e.Sound s.text := by
  have boundary := place_boundary s file a t
  rw [(insertion?_eq_some_iff.1 added).2]
  exact ⟨Nat.le_refl _, boundary, boundary⟩

include h

theorem standsAt_written :
    Text.StandsAt s'.text (e.span.start + (ofSource s file a t).lead.utf8ByteSize)
      ((ofSource s file a t).written a file) := by
  have edit := (insertion?_eq_some_iff.1 added).2
  have whole := Edit.standsAt_insert (place_boundary s file a t)
    ((ofSource s file a t).lead ++ (ofSource s file a t).written a file ++
      (ofSource s file a t).trail)
  rw [h.text_eq, edit]
  exact whole.part

/-- A statement without the list that the accessor joins reads as before. -/
theorem reads_statement {u : SyntaxTree} (member : u ∈ s.statements)
    (other : ∀ names, (accessorLists s file a t).head? = some names →
      ¬ IsAccessorList s file a t u names) :
    Reads s.text s'.text u (graft s.text e (joining s file a t e) u) := by
  have wellFormed := Component.wellFormed_statement member
  have edit := (insertion?_eq_some_iff.1 added).2
  rw [h.text_eq]
  cases first : (accessorLists s file a t).head? with
  | none =>
    refine reads_graft (sound_of_added added) wellFormed ?_ ?_
    · rw [edit]
      exact place_apart (List.head?_eq_none_iff.1 first) u member
    · rw [joining, first]
      intro p impossible
      cases impossible
  | some names =>
    rcases list_of_head? first with ⟨v, list, inside, listWellFormed, kind⟩
    have point := (joinPoint_in_list listWellFormed kind).2
    refine reads_graft (sound_of_added added) wellFormed ?_ ?_
    · have within := (wellFormed_occurs (Component.wellFormed_statement list.member) inside).2
      rcases Span.eq_or_apart span (Component.statements_pairwise s) list.member member with
        rfl | apart
      · exact absurd list (other names first)
      · rw [edit, place_joined first]
        exact apart.mono (within.trans point) (.refl _)
    · rw [joining, first]
      rintro p ⟨⟩ occurs
      have same := Component.statement_unique list.member member inside occurs
        (brace_boundary listWellFormed kind).1
      exact other names first (same ▸ list)

/-- A statement without the list that the accessor joins does not import the accessor. -/
theorem locals_old {u : SyntaxTree} (member : u ∈ s.statements)
    (other : ∀ names, (accessorLists s file a t).head? = some names →
      ¬ IsAccessorList s file a t u names) :
    locals s' file a t (graft s.text e (joining s file a t e) u) = [] := by
  have none := (insertion?_eq_some_iff.1 added).1
  rw [accessorLocal_eq, List.getLast?_eq_none_iff, List.flatMap_eq_nil_iff] at none
  rw [locals_of_reads (reads_statement added h member other)]
  exact none u member

theorem importedOnce_anew (none : accessorLists s file a t = []) :
    ImportedOnce s' file a t ((ofSource s file a t).newSpecifier a)
      ((ofSource s file a t).callee a) := by
  have absent := (insertion?_eq_some_iff.1 added).1
  have noList : (accessorLists s file a t).head? = Option.none := by
    rw [none]
    rfl
  have written := standsAt_written added h
  have joinAt : (ofSource s file a t).joinAt = Option.none := congrArg (Option.map joinPoint) noList
  rw [Imports.written, joinAt, Option.isSome_none, if_neg Bool.false_ne_true] at written
  rcases accessorList?_statementNode s written with ⟨names, list, specifiers, inside⟩
  refine importedOnce_of_list ((mem_statements_iff h).2 (Or.inr ⟨none, rfl⟩)) list ?_
    (accessorLocal?_specifierNode absent inside) (textOf_specifierNode inside) ?_ ?_
  · rw [specifiers]
    exact List.mem_singleton.2 rfl
  · intro c member
    rw [specifiers] at member
    exact Or.inl (List.mem_singleton.1 member)
  · intro u' member
    rcases (mem_statements_iff h).1 member with ⟨u, inScript, rfl⟩ | ⟨_, rfl⟩
    · refine Or.inr (locals_old added h inScript ?_)
      intro names first
      rw [noList] at first
      cases first
    · exact Or.inl rfl

/-! ## A specifier in a list -/

section Joined

variable (first : (accessorLists s file a t).head? = some names)
  (list : IsAccessorList s file a t statement names)

include first list

/-- What reads as before in the statement: what is apart from the list, and not around it. -/
theorem reads_part {c : SyntaxTree} (below : Occurs statement c)
    (apart : (Span.point (joinPoint names).1).Apart c.span) (other : ¬ Occurs c names) :
    Reads s.text s'.text c (graft s.text e (joining s file a t e) c) := by
  have inner := wellFormed_occurs (Component.wellFormed_statement list.member) below
  rw [h.text_eq, joining_eq first]
  refine reads_graft (sound_of_added added) inner.1 ?_ ?_
  · rw [(insertion?_eq_some_iff.1 added).2, place_joined first]
    exact apart
  · rintro p ⟨⟩
    exact other

/-- The list with the new specifier is what the statement imports from the accessor module. -/
theorem accessorList?_joined :
    accessorList? s' file a t (graft s.text e (joining s file a t e) statement) =
      some (graft s.text e (joining s file a t e) names) := by
  have facts := namedList?_facts list.list
  have point := (joinPoint_in_list (wellFormed_occurs (Component.wellFormed_statement list.member)
    facts.2).1 facts.1).2
  have keeps : Keeps fun c c' => c' = graft s.text e (joining s file a t e) c :=
    ⟨fun same => same ▸ graft_label, fun same => by rw [same, graft_kind]⟩
  -- Only the list has a new part, so whatever is no list keeps its parts.
  have parts : ∀ c, c.kind ≠ .namedImports →
      List.Forall₂ (fun c c' => c' = graft s.text e (joining s file a t e) c) c.children
        (graft s.text e (joining s file a t e) c).children := by
    intro c kind
    rw [graft_children_of_ne, List.forall₂_map_right_iff]
    · exact List.forall₂_same.2 fun _ _ => rfl
    · rw [joining_eq first]
      rintro p ⟨⟩ rfl
      exact kind facts.1
  have top := parts statement (by rw [list.isImport]; decide)
  have types : isTypeOnly (graft s.text e (joining s file a t e) statement) =
      isTypeOnly statement :=
    any_eq_of_forall₂ top fun c c' _ same => by rw [same, graft_kind]
  have source : ((graft s.text e (joining s file a t e) statement).part? .source).map s'.textOf =
      (statement.part? .source).map s.textOf := by
    rcases rel_cases (keeps.part? top .source) with ⟨none, none'⟩ | ⟨c, c', part, part', same⟩
    · rw [none, none']
      rfl
    · have beside := list.source_apart part
      have reads := reads_part added h first list (.child (mem_children_of_part? part))
        (beside.1.mono point (.refl _)) beside.2
      rw [part, part', same]
      exact congrArg some reads.text
  have lists := rel_namedList? keeps (fun c c' same => by rw [same, graft_kind])
    (fun c c' kind same => same ▸ parts c (by rw [kind]; decide)) top
  have related := rel_accessorList? file a t graft_kind types source lists
  rcases rel_cases related with ⟨none, _⟩ | ⟨names₁, names', found, found', same⟩
  · rw [list.accessorList?_eq] at none
    cases none
  · rw [list.accessorList?_eq] at found
    cases found
    rw [found', same]

theorem importedOnce_joined :
    ImportedOnce s' file a t ((ofSource s file a t).newSpecifier a)
      ((ofSource s file a t).callee a) := by
  have absent := (insertion?_eq_some_iff.1 added).1
  have written := standsAt_written added h
  have joinAt : (ofSource s file a t).joinAt = some (joinPoint names) :=
    congrArg (Option.map joinPoint) first
  rw [Imports.written, joinAt, Option.isSome_some, if_pos rfl] at written
  have facts := namedList?_facts list.list
  have wellFormed := (wellFormed_occurs (Component.wellFormed_statement list.member) facts.2).1
  refine importedOnce_of_list ((mem_statements_iff h).2 (Or.inl ⟨statement, list.member, rfl⟩))
    (accessorList?_joined added h first list) ((mem_specifiers_iff first).2 (Or.inl rfl))
    (accessorLocal?_specifierNode absent written) (textOf_specifierNode written) ?_ ?_
  · intro c member
    rcases (mem_specifiers_iff first).1 member with same | ⟨d, old, rfl⟩
    · exact Or.inl same
    · right
      have isChild := mem_children_of_mem_specifiers old
      have reads := reads_part added h first list (facts.2.trans (.child isChild))
        (joinPoint_apart wellFormed old) (not_occurs_of_mem_children isChild)
      rw [accessorLocal?_of_reads reads]
      cases brought : accessorLocal? s a d with
      | none => rfl
      | some k =>
        exact absurd ((importsAccessor_iff list.member).2 ⟨_, list.accessorList?_eq, old, brought⟩)
          (accessorLocal_eq_none_iff.1 absent _ _ _)
  · intro u' member
    rcases (mem_statements_iff h).1 member with ⟨u, inScript, rfl⟩ | ⟨none, _⟩
    · by_cases same : u = statement
      · exact Or.inl (congrArg _ same)
      · refine Or.inr (locals_old added h inScript ?_)
        intro names' first' list'
        rw [first] at first'
        cases first'
        exact same (Component.statement_unique inScript list.member
          (namedList?_facts list'.list).2 facts.2 (brace_boundary wellFormed facts.1).1)
    · rw [none] at first
      cases first

end Joined

theorem importedOnce_of_grown :
    ImportedOnce s' file a t ((ofSource s file a t).newSpecifier a)
      ((ofSource s file a t).callee a) := by
  cases first : (accessorLists s file a t).head? with
  | none => exact importedOnce_anew added h (List.head?_eq_none_iff.1 first)
  | some names =>
    rcases list_of_head? first with ⟨statement, list, _⟩
    exact importedOnce_joined added h first list

end Grown

/-- The accessor is imported where no specifier imports it, and nowhere else.  In the edited script
the specifier that is written is the only one to import it, under the name that components call; so
this is the name that the edited script has for it, and nothing is imported again. -/
theorem accessor_imported_once (s : Source) (file : Path) (a : Accessor) (t : TsConfig) :
    let i := ofSource s file a t
    ((i.insertion? a file).isSome = true ↔ i.accessorLocal = none) ∧
      (i.accessorLocal = none ↔
        ∀ statement specifier l, ¬ ImportsAccessor s file a t statement specifier l) ∧
      ∀ e s', i.insertion? a file = some e → Grown s file a t e s' →
        ImportedOnce s' file a t (i.newSpecifier a) (i.callee a) ∧
          (ofSource s' file a t).accessorLocal = some (i.callee a) ∧
          (ofSource s' file a t).callee a = i.callee a ∧
          (ofSource s' file a t).insertion? a file = none := by
  intro i
  refine ⟨insertion?_isSome_iff, accessorLocal_eq_none_iff, ?_⟩
  intro e s' added h
  have once := importedOnce_of_grown added h
  have known := once.accessorLocal_eq
  refine ⟨once, known, ?_, ?_⟩
  · rw [callee, known]
  · rw [insertion?, known]
    rfl

/-- Behind the last name of a list, with an alias because a constant has the accessor's name. -/
theorem accessor_imported_once_alias :
    let a := Migration.standard.accessor
    let t := Migration.standard.tsconfig
    let file : Path := ⟨"/project/src/Card.tsx"⟩
    let text := "import \x7b a, \x7d from '@/theme'\nconst useTheme = 1"
    ∃ s s' e, Source.parse .tsx text = .ok s ∧
      (ofSource s file a t).insertion? a file = some e ∧
      Source.parse .tsx (Edit.applyAll text [e]) = .ok s' ∧ Grown s file a t e s' ∧
      s'.text = "import \x7b a, useTheme as useThemeAccessor, \x7d from '@/theme'\n" ++
        "const useTheme = 1" ∧
      ImportedOnce s' file a t "useTheme as useThemeAccessor" "useThemeAccessor" := by
  intro a t file text
  have facts : (Source.parse .tsx text).toOption.any (fun s =>
      ((ofSource s file a t).insertion? a file).any fun e =>
        (Source.parse .tsx (Edit.applyAll text [e])).toOption.any fun s' =>
          decide (s'.tree.children = grown s file a t e) &&
            (s'.text == "import \x7b a, useTheme as useThemeAccessor, \x7d from '@/theme'\n" ++
                "const useTheme = 1" &&
              ((ofSource s file a t).newSpecifier a == "useTheme as useThemeAccessor" &&
                (ofSource s file a t).callee a == "useThemeAccessor"))) = true := by
    decide +kernel
  rcases Migration.exists_ok_of_any facts with ⟨s, read, inScript⟩
  rcases (Option.any_eq_true _ _).1 inScript with ⟨e, added, edited⟩
  rcases Migration.exists_ok_of_any edited with ⟨s', read', computed⟩
  simp only [Bool.and_eq_true, decide_eq_true_eq, beq_iff_eq] at computed
  rcases computed with ⟨children, new, specifier, callee⟩
  have texts : s'.text = Edit.applyAll s.text [e] := by
    rw [(Source.text_of_parse read').1, (Source.text_of_parse read).1]
  have once := ((accessor_imported_once s file a t).2.2 e s' added ⟨texts, children⟩).1
  rw [specifier, callee] at once
  exact ⟨s, s', e, read, added, read', ⟨texts, children⟩, new, once⟩

/-- The edited text is read as the grown tree in the other forms of the edit too: in an empty list,
behind the last import, behind a directive, and above the comment of the first statement. -/
example :
    let a := Migration.standard.accessor
    let t := Migration.standard.tsconfig
    let file : Path := ⟨"/project/src/Card.tsx"⟩
    (["import \x7b\x7d from '@/theme'", "import x from \"x\" // x", "'use client'\nlet x",
        "// a\n\n/* b */\nlet x"].all fun text =>
      (Source.parse .tsx text).toOption.any fun s =>
        ((ofSource s file a t).insertion? a file).any fun e =>
          (Source.parse .tsx (Edit.applyAll text [e])).toOption.any fun s' =>
            decide (s'.tree.children = grown s file a t e)) = true := by
  decide +kernel

end Imports

end ThemeMigration
