import ThemeMigration.Proofs.Imports.Bindings
import ThemeMigration.Proofs.Migration.Idempotence
import ThemeMigration.Proofs.Script.Gaps

/-!
# Every import is kept

Whatever the literals are replaced by, each name is referred to as often as before, and import
statements still bind what they bound.  The expressions of the replaced literals stand in gaps of
the tree with the edits in it, so nothing is asked of them.
-/

namespace ThemeMigration

open Script SyntaxTree

namespace Script.Source

theorem parse_of_parse {path : Path} {language : Language} {text : String} {s : Source}
    (h : SourceFile.parse path language text = .ok s) : parse language text = .ok s := by
  unfold SourceFile.parse at h
  split at h
  · rename_i read
    cases h
    exact read
  · cases h

theorem program_of_read {language : Language} {text : String} {tree : SyntaxTree}
    {comments : List Span} (h : Grammar.read language text = .ok (tree, comments)) :
    tree.kind = .program := by
  simp only [Grammar.read] at h
  split at h
  · cases h
  · split at h
    · cases h
      rfl
    · cases h

/-- The root of a tree that was read is a program. -/
theorem program_of_parse {language : Language} {text : String} {s : Source}
    (h : parse language text = .ok s) : s.tree.kind = .program := by
  simp only [parse] at h
  split at h
  · cases h
  · rename_i bare comments read
    split at h
    · cases h
      have program := program_of_read read
      cases bare with
      | node k l s ts =>
        simp only [weave]
        exact program
    · cases h

end Script.Source

namespace References

theorem texts_of_gap {source : String} {t : SyntaxTree} (gap : isGap t = true) :
    texts source t = [] := by
  have facts := kind_of_isGap gap
  rw [texts_of_not (by rw [isReference, facts.1]), facts.2]
  rfl

/-- What fills the gaps of a tree only adds references. -/
theorem texts_sublist_of_completes {source : String} {t t' : SyntaxTree} (h : Completes t t') :
    (texts source t).Sublist (texts source t') := by
  induction t using childInduction generalizing t' with
  | step t ih =>
    by_cases isImport : t.kind = .importStatement
    · rw [h.eq_of_import isImport]
    · rcases h.node isImport with ⟨kind, span, children⟩
      cases reference : isReference t with
      | true =>
        rw [texts_eq source t, if_pos reference, texts_eq source t', isReference_congr kind,
          if_pos reference, SyntaxTree.text, SyntaxTree.text, span]
      | false =>
        rw [texts_of_not reference, texts_of_not ((isReference_congr kind).trans reference)]
        refine sublist_flatMap_of_forall₂ children ?_
        rintro c c' member (⟨_, gap⟩ | related)
        · rw [texts_of_gap gap]
          exact List.nil_sublist _
        · exact ih c member related

theorem namesAmong_sublist {source : String} {ts ts' : List SyntaxTree}
    (h : List.Forall₂ Completes ts ts') :
    (namesAmong source ts).Sublist (namesAmong source ts') :=
  sublist_flatMap_of_forall₂ (forall₂_filter (fun c c' related => by rw [related.kind]) h)
    fun _ _ _ related => texts_sublist_of_completes related

end References

namespace Migration

variable {m : Migration} {file : SourceFile} {u u' : SyntaxTree}

/-! ## Import statements -/

section Statement

variable (inScript : u ∈ file.source.statements) (isImport : u.kind = .importStatement)

include inScript isImport

/-- A part of an import statement that stands apart from a list of names is untouched, whichever
list it is that the accessor joins. -/
theorem untouched_of_beside {c : SyntaxTree} (below : Occurs u c)
    (beside : ∀ names, m.joinedList? file = some names →
      Imports.IsAccessorList file.source file.path m.accessor m.tsconfig u names →
        names.span.Apart c.span) : Untouched m file c := by
  by_cases joins : ∃ names, m.joinedList? file = some names ∧
      Imports.IsAccessorList file.source file.path m.accessor m.tsconfig u names
  · rcases joins with ⟨names, joined, list⟩
    exact untouched_beside list joined below (beside names joined list)
  · refine untouched_of_apart inScript below fun x special => ?_
    have inner := wellFormed_occurs (Component.wellFormed_statement inScript) below
    rcases special_apart_of_import inScript isImport special with apart | both
    · exact apart.mono (.refl _) inner.2
    · exact absurd ⟨x, both⟩ joins

/-- What stands beside the clause is untouched. -/
theorem untouched_beside_clause {c : SyntaxTree} (member : c ∈ u.children)
    (other : c.kind ≠ .importClause) : Untouched m file c := by
  refine untouched_of_beside inScript isImport (.child member) fun names _ list => ?_
  have outer := Component.wellFormed_statement inScript
  rcases Imports.clause_of_namedList? list.list with ⟨clause, inStatement, isClause, inClause, _⟩
  rcases Span.eq_or_apart span (children_pairwise outer) inStatement member with rfl | apart
  · exact absurd isClause other
  · exact apart.mono (wellFormed_child (wellFormed_child outer inStatement).1 inClause).2 (.refl _)

/-- A part of the clause is untouched, or it is the list that the accessor joins. -/
theorem joined_or_untouched {clause p : SyntaxTree} (first : Imports.clause? u = some clause)
    (member : p ∈ clause.children) :
    (m.joinedList? file = some p ∧
        Imports.IsAccessorList file.source file.path m.accessor m.tsconfig u p) ∨
      Untouched m file p := by
  by_cases joins : m.joinedList? file = some p ∧
      Imports.IsAccessorList file.source file.path m.accessor m.tsconfig u p
  · exact Or.inl joins
  · have inStatement := mem_children_of_mem_named (List.mem_of_find?_eq_some first)
    refine Or.inr (untouched_of_beside inScript isImport (.deeper inStatement (.child member)) ?_)
    intro names joined list
    have wellFormed := (wellFormed_child (Component.wellFormed_statement inScript) inStatement).1
    have inClause : names ∈ clause.children := by
      have found := list.list
      rw [Imports.namedList?, first] at found
      exact mem_children_of_mem_named (List.mem_of_find?_eq_some found)
    rcases Span.eq_or_apart span (children_pairwise wellFormed) inClause member with rfl | apart
    · exact absurd ⟨joined, list⟩ joins
    · exact apart

/-- A part of the clause still binds its names. -/
theorem partBindings_sublist {clause p p' : SyntaxTree} (first : Imports.clause? u = some clause)
    (member : p ∈ clause.children) (r : Regrows m file p p') :
    (Imports.bindingTexts file.text (Imports.partBindings p)).Sublist
      (Imports.bindingTexts (m.edited file) (Imports.partBindings p')) := by
  rcases joined_or_untouched inScript isImport first member with ⟨joined, list⟩ | untouched
  · have isList := (Imports.namedList?_facts list.list).1
    rw [Imports.partBindings, Imports.partBindings, (r.of_list joined).1, isList,
      Imports.bindingTexts_flatMap, Imports.bindingTexts_flatMap]
    refine (spliced_specifiers list joined r).sublist_flatMap fun c c' old related => ?_
    have reads := (untouched_specifier list joined old).reads related.2
    rw [Imports.bindingTexts_of_alike (Imports.specifierBindings_alike reads)]
  · rw [Imports.bindingTexts_of_alike (Imports.partBindings_alike (untouched.reads r))]

/-- A `require` import still binds its name. -/
theorem requiredBindings_alike
    (children : List.Forall₂ (Regrows m file) u.children u'.children) :
    List.Forall₂ (Imports.BindsAlike file.text (m.edited file)) (Imports.requiredBindings u)
      (Imports.requiredBindings u') := by
  have clauses : List.Forall₂ (fun c c' => c ∈ u.children ∧ Regrows m file c c')
      (u.named.filter fun c => c.kind == .clause) (u'.named.filter fun c => c.kind == .clause) :=
    forall₂_filter (fun c c' both => by
      rw [kind_of_import_part inScript isImport (.child both.1) both.2])
      (forall₂_filter (fun c c' both => keeps_regrows.isNamed both.2) (forall₂_with_mem children))
  rw [Imports.requiredBindings, Imports.requiredBindings, List.forall₂_map_left_iff,
    List.forall₂_map_right_iff]
  refine (List.rel_flatMap (forall₂_with_mem clauses) fun c c' both => ?_).imp
    fun _ _ alike => ⟨alike, alike⟩
  have isClause : c.kind = .clause := by simpa using (List.mem_filter.1 both.1).2
  have untouched : Untouched m file c :=
    untouched_beside_clause inScript isImport both.2.1 (by rw [isClause]; decide)
  exact Imports.identifiers_of_reads (untouched.reads both.2.2)

/-- An import statement still binds its names. -/
theorem bindings_sublist (r : Regrows m file u u') :
    (Imports.bindingTexts file.text (Imports.bindings u)).Sublist
      (Imports.bindingTexts (m.edited file) (Imports.bindings u')) := by
  have children := (r.of_plain (statement_not_special inScript)).2.2.2
  have parts := forall₂_regrowsIn (.here u) children
  rw [Imports.bindings, Imports.bindings, Imports.bindingTexts_append, Imports.bindingTexts_append]
  refine List.Sublist.append ?_ ?_
  · have clauses : Option.Rel (RegrowsIn m file u) (Imports.clause? u) (Imports.clause? u') :=
      rel_find? (fun c c' both => by
        rw [kind_of_import_part inScript isImport both.1 both.2])
        ((keeps_regrowsIn u).named parts)
    rcases rel_cases clauses with ⟨none, none'⟩ | ⟨c, c', first, first', both⟩
    · rw [none, none']
      exact .slnil
    · have isClause : c.kind = .importClause := by simpa using List.find?_some first
      have inClause := (keeps_regrowsIn u).named
        (parts_of_import_part inScript isImport both.1 (by rw [isClause]; decide) both.2)
      rw [first, first', Option.map_some, Option.map_some, Option.getD_some, Option.getD_some,
        Imports.bindingTexts_flatMap, Imports.bindingTexts_flatMap]
      refine sublist_flatMap_of_forall₂ inClause fun p p' member related => ?_
      exact partBindings_sublist inScript isImport first (mem_children_of_mem_named member)
        related.2
  · rw [Imports.bindingTexts_of_alike (requiredBindings_alike inScript isImport children)]

/-- The module specifier of an import statement is the same. -/
theorem source_eq (r : Regrows m file u u') :
    (u'.part? .source).map (·.text (m.edited file)) =
      (u.part? .source).map (·.text file.text) := by
  have children := (r.of_plain (statement_not_special inScript)).2.2.2
  refine map_eq_of_rel (keeps_regrows.part? children .source) fun c c' part related => ?_
  have string := source_is_string (Component.wellFormed_statement inScript) isImport part
  have untouched : Untouched m file c :=
    untouched_beside_clause inScript isImport (mem_children_of_part? part)
      (by rw [string]; decide)
  exact (untouched.reads related).text

end Statement

/-! ## The whole script -/

/-- An import statement that binds at least the names of another one, from the same module. -/
structure BindsAgain (m : Migration) (file : SourceFile) (u u' : SyntaxTree) : Prop where
  isImport : Imports.isImport u' = true
  source : (u'.part? .source).map (·.text (m.edited file)) =
    (u.part? .source).map (·.text file.text)
  bindings : (Imports.bindingTexts file.text (Imports.bindings u)).Sublist
    (Imports.bindingTexts (m.edited file) (Imports.bindings u'))

theorem exists_bindsAgain {bare : SyntaxTree} (regrown : m.regrownAs file bare = true)
    (inScript : u ∈ file.source.statements) (isImport : Imports.isImport u = true) :
    ∃ u' ∈ bare.named, BindsAgain m file u u' := by
  have image : ∃ u' ∈ bare.named, Regrows m file u u' := by
    rcases statements_of_regrown regrown with ⟨_, statements⟩ | ⟨_, spliced⟩
    · exact exists_of_forall₂_mem statements inScript
    · exact spliced.exists_of_mem inScript
  rcases image with ⟨u', member, related⟩
  have kind : u.kind = .importStatement := by simpa [Imports.isImport] using isImport
  refine ⟨u', member, ?_, source_eq inScript kind related, bindings_sublist inScript kind related⟩
  rw [Imports.isImport, kind_of_statement inScript related]
  exact isImport

/-- What a script refers to is referred to in the new one, also where the tree has gaps at the
replaced literals. -/
theorem references_sublist {bare : SyntaxTree} {s : Source} (text : s.text = m.edited file)
    (program : s.tree.kind = .program) (regrown : m.regrownAs file bare = true)
    (completed : Completes bare s.tree) :
    (References.names file.source).Sublist (References.names s) := by
  rw [References.names_eq s, text]
  have statements := completed.statements (completed.kind.symm.trans program)
  exact (references_of_regrown regrown).trans (References.namesAmong_sublist statements)

/-- A migration removes no import.  Each name is referred to at least as often as before, so no name
that an import statement binds has gone stale, none is counted as removed, and a new text is the
edited one.  Every import statement has one in the new script that binds its names in the same
order, in the same words and from the same module.  The edited text is relied on to be read as the
old tree with the edits in it, where anything may stand for a replaced literal. -/
theorem imports_kept (m : Migration) (file : SourceFile) {bare : SyntaxTree} {s : Source}
    (parsed : SourceFile.parse file.path file.source.language (m.edited file) = .ok s)
    (regrown : m.regrownAs file bare = true) (completed : Completes bare s.tree) :
    (∀ name, (References.names file.source).count name ≤ (References.names s).count name) ∧
      (∀ u ∈ s.statements, ∀ n ∈ Pruning.importedNames s u,
        Pruning.isStale (References.names file.source) (References.names s) n = false) ∧
      (m.transform file).counts.importsRemoved = 0 ∧
      (∀ text, (m.transform file).text = some text → text = s.text) ∧
      ∀ u ∈ file.source.statements, Imports.isImport u = true →
        ∃ u' ∈ s.statements, BindsAgain m file u u' := by
  have read := Source.parse_of_parse parsed
  have text := (Source.text_of_parse read).1
  have program := Source.program_of_parse read
  have references := references_sublist text program regrown completed
  have kept := pruned_of_references parsed references
  refine ⟨fun name => references.count_le name, ?_, ?_, ?_, ?_⟩
  · intro u _ n _
    exact Pruning.isStale_eq_false (fun _ found => references.subset found) n
  · rw [transform]
    split
    · rfl
    · have same : pruned file (Edit.applyAll file.text (m.plan file).edits) = _ := kept
      rw [same]
  · intro new changed
    rw [text_of_transform changed, kept, text]
  · intro u inScript isImport
    rcases exists_bindsAgain regrown inScript isImport with ⟨u', member, binds⟩
    have statements := completed.statements (completed.kind.symm.trans program)
    rcases exists_of_forall₂_mem statements member with ⟨v, inNew, related⟩
    have isImport' : u'.kind = .importStatement := by
      simpa [Imports.isImport] using binds.isImport
    rw [related.eq_of_import isImport'] at inNew
    exact ⟨u', inNew, binds⟩

/-- A list that the accessor joins keeps the name that it brought. -/
theorem imports_kept_joined :
    let old := "import\x7bb\x7dfrom'@/theme'\nconst A=()=>(\x7bcolor:'#fff'\x7d)"
    let new := "import\x7bb, useTheme\x7dfrom'@/theme'\nconst A=()=>\x7b\n" ++
      "  const theme = useTheme();\n  return (\x7bcolor:theme.colors.surface\x7d);\n\x7d"
    ∃ file s, SourceFile.ofText ⟨"/project/A.tsx"⟩ old = .ok file ∧
      SourceFile.parse file.path file.source.language (standard.edited file) = .ok s ∧
      standard.regrownAs file s.tree = true ∧ Completes s.tree s.tree ∧ s.text = new ∧
      (standard.transform file).counts.importsRemoved = 0 ∧
      ∀ u ∈ file.source.statements, Imports.isImport u = true →
        ∃ u' ∈ s.statements, BindsAgain standard file u u' := by
  intro old new
  have facts : (SourceFile.ofText ⟨"/project/A.tsx"⟩ old).toOption.any (fun file =>
      (SourceFile.parse file.path file.source.language (standard.edited file)).toOption.any
        fun s => standard.regrownAs file s.tree && s.text == new) = true := by
    rw [standard_eq]
    decide +kernel
  rcases exists_ofText facts with ⟨file, read, holds⟩
  rcases exists_ok_of_any holds with ⟨s, parsed, both⟩
  rw [Bool.and_eq_true, beq_iff_eq] at both
  have whole := completes_refl s.tree
  rcases imports_kept standard file parsed both.1 whole with ⟨_, _, removed, _, bound⟩
  exact ⟨file, s, read, parsed, both.1, whole, both.2, removed, bound⟩

end Migration

end ThemeMigration
