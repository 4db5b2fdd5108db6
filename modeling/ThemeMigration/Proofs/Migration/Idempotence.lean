import ThemeMigration.Proofs.Migration.ChangedBody
import ThemeMigration.Proofs.Migration.Redetection
import ThemeMigration.Proofs.Migration.Unpruned
import ThemeMigration.Proofs.TokenTable.Overriding

/-!
# Migrating twice

The second pass over a migrated script finds the functions of the first one.  Those that were not
changed read as they did, so the same is decided about them: a blocked component stays blocked and
a function without markup is no component.  In those that were changed nothing is left to replace.
Hence the second pass changes nothing, and it counts what the first one counted and left alone.
-/

namespace ThemeMigration

open Script SyntaxTree

namespace Migration

open Component

variable {m : Migration} {file : SourceFile} {s : Source} {u : SyntaxTree} {q q' : Site}

/-! ## Functions that are changed and functions that are not -/

section Site

variable (inScript : u ∈ file.source.statements) (site : q ∈ sites file.text m.wrappers u)

include inScript site

/-- A part of one function of a statement is no part of another one. -/
theorem site_unique {p : Site} (other : p ∈ sites file.text m.wrappers u) {x : SyntaxTree}
    (first : Occurs p.function x) (near : ¬ x.span.Apart q.function.span) : p = q := by
  have outer := wellFormed_statement inScript
  rcases Span.eq_or_apart (fun q : Site => q.function.span) (sites_pairwise outer) other site with
    same | apart
  · exact same
  · have inner := (wellFormed_occurs outer (sites_occurs other)).1
    exact absurd (apart.mono (wellFormed_occurs inner first).2 (.refl _)) near

/-- The edits of a function are in its body. -/
theorem confined_site : Confined m file [q.function] q.function := by
  have within := (wellFormed_occurs (wellFormed_statement inScript) (sites_occurs site)).2
  intro x special near
  rcases (confined_statement inScript (kind_of_mem_sites site).1).mono within x special near with
    ⟨f, member, body, part, below⟩
  rcases List.mem_map.1 member with ⟨p, isSite, rfl⟩
  have inFunction := Occurs.deeper (mem_children_of_part? part) below
  rw [site_unique inScript site isSite inFunction near] at part
  exact ⟨_, List.mem_singleton_self _, body, part, below⟩

/-- The component of a function is changed, or nothing touches the function. -/
theorem changed_or_untouched :
    (∃ r, Changed m file r ∧
        ofSite? file.text (m.binding (m.imports file)) u q = some r.component) ∨
      Untouched m file q.function := by
  by_cases change : ∃ r, Changed m file r ∧
      ofSite? file.text (m.binding (m.imports file)) u q = some r.component
  · exact Or.inl change
  right
  apply untouched_of_apart inScript (sites_occurs site)
  intro x special
  refine Decidable.byContradiction fun near => ?_
  rcases confined_site inScript site x special near with ⟨f, member, body, part, below⟩
  rw [List.mem_singleton.1 member] at part
  have inStatement := (sites_occurs site).trans (.deeper (mem_children_of_part? part) below)
  rcases special.cases with ⟨r, changed, inBody⟩ | ⟨v, list⟩
  · have component := component_of_mem changed.member
    have inFunction := (Component.body_occurs component).trans inBody
    have same := statement_unique changed.declaration_mem inScript
      ((function_occurs component).trans inFunction) inStatement special.nonempty
    rcases site_of_mem_detect component with ⟨_, p, isSite, found⟩
    rw [same] at isSite found
    rw [(isOf_of_ofSite? found).function_eq] at inFunction
    rw [site_unique inScript site isSite inFunction near] at found
    exact change ⟨r, changed, found⟩
  · have inImport := (Imports.namedList?_facts list.list).2
    have same := statement_unique list.member inScript inImport inStatement special.nonempty
    exact (kind_of_mem_sites site).1 (same ▸ list.isImport)

/-- In a function that nothing touches, nothing is replaced. -/
theorem replaced_eq_zero (untouched : Untouched m file q.function) {c : Component}
    (component : ofSite? file.text (m.binding (m.imports file)) u q = some c) :
    ((Recoloring.ofComponent m.palette file.text c).settled file.text
      (m.binding (m.imports file))).counts.replaced = 0 := by
  refine Nat.eq_zero_of_not_pos fun some => ?_
  have changed : Changed m file ((Recoloring.ofComponent m.palette file.text c).settled file.text
      (m.binding (m.imports file))) := by
    refine ⟨mem_plan_recolorings.2 ⟨c, mem_detect_of_site inScript site component, rfl⟩, ?_⟩
    simpa [Recoloring.isEffective] using some
  have same : ((Recoloring.ofComponent m.palette file.text c).settled file.text
      (m.binding (m.imports file))).component = c := Recoloring.settled_component _
  rcases List.exists_mem_of_ne_nil _ changed.changes.some with ⟨e, replaced⟩
  rcases List.mem_filterMap.1 replaced with ⟨l, member, edited⟩
  have special : Special m file l.literal := by
    refine .literal (mem_replacedLiterals_iff.2 ⟨_, changed, l, member, ?_, rfl⟩)
    rw [edited]
    rfl
  rw [same] at member
  have inBody := PropertyLiteral.literal_occurs member
  exact untouched.free _ special ((isOf_of_ofSite? component).body_occurs.trans inBody)

end Site

/-! ## What is counted for a component -/

theorem settled_counts (p : Palette) (source : String) (b : BindingStatement) (c : Component) :
    ((Recoloring.ofComponent p source c).settled source b).counts =
      if 0 < (c.literalCounts p source).replaced ∧ c.isBlocked source b = true then
        (c.literalCounts p source).withdraw
      else c.literalCounts p source := by
  have effective : (Recoloring.ofComponent p source c).isEffective = true ↔
      0 < (c.literalCounts p source).replaced := decide_eq_true_iff
  rw [Recoloring.settled]
  split
  · rename_i both
    rw [Bool.and_eq_true, effective] at both
    exact (if_pos both).symm
  · rename_i both
    rw [Bool.and_eq_true, effective] at both
    exact (if_neg both).symm

/-- For a component of the new script everything is counted that was counted and not replaced. -/
def Recounts (m : Migration) (file : SourceFile) (c c' : Component) : Prop :=
  ((Recoloring.ofComponent m.palette (m.edited file) c').settled (m.edited file)
      (m.binding (m.imports file))).counts =
    { ((Recoloring.ofComponent m.palette file.text c).settled file.text
        (m.binding (m.imports file))).counts with replaced := 0 }

/-- A function with a changed body is a component again, and nothing in it is replaced. -/
theorem ofSite?_of_changed (free : m.palette.tokens.isStringFree = true)
    (inScript : u ∈ file.source.statements) (site : q ∈ sites file.text m.wrappers u)
    (related : SiteRegrows m file q q') (u' : SyntaxTree) {r : Recoloring}
    (changed : Changed m file r)
    (component : ofSite? file.text (m.binding (m.imports file)) u q = some r.component) :
    ∃ c', ofSite? (m.edited file) (m.binding (m.imports file)) u' q' = some c' ∧
      Recounts m file r.component c' := by
  have facts := isOf_of_ofSite? component
  have plain := related.function.of_plain <| (confined_site inScript site).plain fun f member => by
    rw [List.mem_singleton.1 member]
    exact .here _
  rcases rel_cases (keeps_regrows.part? plain.2.2.2 .body) with
    ⟨none, _⟩ | ⟨body, body', part, part', regrown⟩
  · rw [facts.body_eq] at none
    cases none
  rw [facts.body_eq] at part
  cases part
  have isSome : (ofSite? (m.edited file) (m.binding (m.imports file)) u' q').isSome = true := by
    have before := congrArg Option.isSome component
    rw [isSome_ofSite? facts.body_eq, Option.isSome_some, Bool.or_eq_true] at before
    rw [isSome_ofSite? part', related.name, Bool.or_eq_true]
    exact before.imp_right (changed.containsMarkup (.here _) regrown)
  rcases Option.isSome_iff_exists.1 isSome with ⟨c', found⟩
  refine ⟨c', found, ?_⟩
  have body_eq := (isOf_of_ofSite? found).body_eq
  rw [part'] at body_eq
  cases body_eq
  have counts := changed.literalCounts_eq free regrown
  rw [Recounts, settled_counts, settled_counts, counts, changed.changes.free,
    if_neg (fun both => Nat.lt_irrefl 0 both.1), if_neg (fun both => Bool.false_ne_true both.2)]

/-- A function that nothing touches is a component again if it was one, with the same counts. -/
theorem ofSite?_of_untouched (inScript : u ∈ file.source.statements)
    (site : q ∈ sites file.text m.wrappers u) (related : SiteRegrows m file q q')
    (u' : SyntaxTree) (untouched : Untouched m file q.function) :
    Option.Rel (Recounts m file) (ofSite? file.text (m.binding (m.imports file)) u q)
      (ofSite? (m.edited file) (m.binding (m.imports file)) u' q') := by
  have reads := untouched.reads related.function
  rcases rel_cases (reads.part? .body) with ⟨none, none'⟩ | ⟨body, body', part, part', alike⟩
  · rw [ofSite?, ofSite?, ofFunction?, ofFunction?, none, none']
    exact .none
  have same : (ofSite? (m.edited file) (m.binding (m.imports file)) u' q').isSome =
      (ofSite? file.text (m.binding (m.imports file)) u q).isSome := by
    rw [isSome_ofSite? part, isSome_ofSite? part', related.name, alike.containsMarkup]
  cases component : ofSite? file.text (m.binding (m.imports file)) u q with
  | none =>
    rw [component, Option.isSome_none, Option.isSome_eq_false_iff, Option.isNone_iff_eq_none]
      at same
    rw [same]
    exact .none
  | some c =>
    rw [component, Option.isSome_some] at same
    rcases Option.isSome_iff_exists.1 same with ⟨c', found⟩
    have facts := isOf_of_ofSite? component
    have facts' := isOf_of_ofSite? found
    have body_eq := facts.body_eq
    have body_eq' := facts'.body_eq
    rw [part] at body_eq
    rw [part'] at body_eq'
    cases body_eq
    cases body_eq'
    have binding : c'.hasBinding = c.hasBinding := by
      rw [facts'.binding_eq, facts.binding_eq, alike.presentIn]
    rw [← facts.function_eq, ← facts'.function_eq] at reads
    have zero := replaced_eq_zero inScript site untouched component
    rw [found]
    refine .some ?_
    have counts : ((Recoloring.ofComponent m.palette (m.edited file) c').settled (m.edited file)
        (m.binding (m.imports file))).counts =
          ((Recoloring.ofComponent m.palette file.text c).settled file.text
            (m.binding (m.imports file))).counts := by
      rw [settled_counts, settled_counts, literalCounts_eq_of_reads alike,
        isBlocked_eq_of_reads reads alike binding]
    rw [Recounts, counts]
    ext
    · exact zero
    · rfl
    · rfl
    · rfl

/-- A function is a component again if it was one, and the same is counted for it. -/
theorem ofSite?_regrows (free : m.palette.tokens.isStringFree = true)
    (inScript : u ∈ file.source.statements) (site : q ∈ sites file.text m.wrappers u)
    (related : SiteRegrows m file q q') (u' : SyntaxTree) :
    Option.Rel (Recounts m file) (ofSite? file.text (m.binding (m.imports file)) u q)
      (ofSite? (m.edited file) (m.binding (m.imports file)) u' q') := by
  rcases changed_or_untouched inScript site with ⟨r, changed, component⟩ | untouched
  · rcases ofSite?_of_changed free inScript site related u' changed component with
      ⟨c', found, recounts⟩
    rw [component, found]
    exact .some recounts
  · exact ofSite?_of_untouched inScript site related u' untouched

/-! ## What is counted for the script -/

/-- The components of the old script are found in the new one, and no others. -/
theorem Again.components (h : Again m file s) (free : m.palette.tokens.isStringFree = true) :
    List.Forall₂ (Recounts m file)
      (detect file.source m.wrappers (m.binding (m.imports file)))
      (detect s m.wrappers (m.binding (m.imports file))) := by
  have ofStatements : ∀ ts : List SyntaxTree,
      List.Forall₂ (Regrows m file) file.source.statements ts →
      List.Forall₂ (Recounts m file)
        (detect file.source m.wrappers (m.binding (m.imports file)))
        (ts.flatMap (ofStatement (m.edited file) m.wrappers (m.binding (m.imports file)))) := by
    intro ts statements
    refine List.rel_flatMap (forall₂_with_mem statements) ?_
    rintro u u' ⟨inScript, related⟩
    rw [ofStatement_eq, ofStatement_eq]
    refine List.rel_filterMap ?_ (forall₂_with_mem (sites_regrows inScript related))
    rintro q q' ⟨site, regrown⟩
    exact ofSite?_regrows free inScript site regrown u'
  rw [detect, detect, h.text_eq]
  rcases h.statements with ⟨_, statements⟩ | ⟨_, spliced⟩
  · exact ofStatements s.statements statements
  · rcases spliced.split with ⟨before, new, after, split, fits, rest⟩
    have none : ofStatement (m.edited file) m.wrappers (m.binding (m.imports file)) new = [] := by
      rw [ofStatement_eq, sites_of_import (locals_of_isImport h.text_eq fits).1]
      rfl
    rw [split, List.flatMap_append, List.flatMap_cons, none, List.nil_append,
      ← List.flatMap_append]
    exact ofStatements (before ++ after) rest

/-- The second pass counts for each component what the first one did not replace. -/
theorem Again.recolorings (h : Again m file s) (free : m.palette.tokens.isStringFree = true)
    (change : ∃ r, Changed m file r) :
    List.Forall₂ (fun r r' : Recoloring => r'.counts = { r.counts with replaced := 0 })
      (m.plan file).recolorings (m.plan ⟨file.path, s⟩).recolorings := by
  have binding : m.binding (m.imports ⟨file.path, s⟩) = m.binding (m.imports file) :=
    congrArg (BindingStatement.mk m.accessor.binding) (h.callee change)
  have again : (m.plan ⟨file.path, s⟩).recolorings =
      (detect s m.wrappers (m.binding (m.imports file))).map fun c =>
        (Recoloring.ofComponent m.palette (m.edited file) c).settled (m.edited file)
          (m.binding (m.imports file)) := by
    rw [← binding, ← h.text_eq]
    rfl
  have first : (m.plan file).recolorings =
      (detect file.source m.wrappers (m.binding (m.imports file))).map fun c =>
        (Recoloring.ofComponent m.palette file.text c).settled file.text
          (m.binding (m.imports file)) := rfl
  rw [again, first, List.forall₂_map_left_iff, List.forall₂_map_right_iff]
  exact h.components free

theorem Again.literals (h : Again m file s) (free : m.palette.tokens.isStringFree = true)
    (change : ∃ r, Changed m file r) :
    (m.plan ⟨file.path, s⟩).literals = { (m.plan file).literals with replaced := 0 } :=
  LiteralCounts.foldl_unreplaced (h.recolorings free change) {}

/-! ## What the transformation does -/

theorem components_of_transform (m : Migration) (file : SourceFile) :
    (m.transform file).counts.components = (m.plan file).recolorings.length := by
  rw [transform]
  split <;> rfl

theorem literals_of_transform (m : Migration) (file : SourceFile) :
    (m.transform file).counts.literals = (m.plan file).literals := by
  rw [transform]
  split <;> rfl

/-- Where nothing is replaced, nothing is done. -/
theorem transform_of_zero (zero : (m.plan file).literals.replaced = 0) :
    m.transform file =
      ⟨none, { components := (m.plan file).recolorings.length,
               literals := (m.plan file).literals }⟩ := by
  rw [transform]
  exact if_pos (beq_iff_eq.2 zero)

/-- A file with a new text has a changed component. -/
theorem exists_changed {text : String} (h : (m.transform file).text = some text) :
    ∃ r, Changed m file r := by
  refine Classical.byContradiction fun unchanged => ?_
  have zero : (m.plan file).literals.replaced = 0 := by
    refine LiteralCounts.foldl_replaced_of_none (fun r member => ?_) {}
    refine Nat.eq_zero_of_not_pos fun some => unchanged ⟨r, member, ?_⟩
    exact decide_eq_true some
  rw [transform_of_zero zero] at h
  cases h

theorem again_of_parse
    (parsed : SourceFile.parse file.path file.source.language (m.edited file) = .ok s)
    (regrown : m.regrownAs file s.tree = true) : Again m file s := by
  refine ⟨?_, regrown⟩
  unfold SourceFile.parse at parsed
  split at parsed
  · rename_i read
    cases parsed
    exact (Source.text_of_parse read).1
  · cases parsed

/-- Migrating a migrated file changes nothing: no text comes of it, nothing is replaced, imported
or bound, and what the first pass left alone is counted again, in the same components.  That the
edited text is read as the old tree with the edits in it is what the parser is relied on for; then
no import is pruned, and the edited text is the new one. -/
theorem transform_idempotent (m : Migration) (file : SourceFile)
    (free : m.palette.tokens.isStringFree = true) {text : String}
    (changed : (m.transform file).text = some text) {s : Source}
    (parsed : SourceFile.parse file.path file.source.language (m.edited file) = .ok s)
    (regrown : m.regrownAs file s.tree = true) :
    s.text = text ∧
      m.transform ⟨file.path, s⟩ =
        ⟨none, { components := (m.transform file).counts.components,
                 literals := { (m.transform file).counts.literals with replaced := 0 } }⟩ := by
  have again := again_of_parse parsed regrown
  have change := exists_changed changed
  have literals := again.literals free change
  have components := (again.recolorings free change).length_eq
  constructor
  · rw [text_of_transform changed, pruned_eq_self parsed again, again.text_eq]
  · rw [transform_of_zero (by rw [literals]), components_of_transform, literals_of_transform,
      literals, components]

/-- An arrow function that got the binding and the import, read and migrated again. -/
theorem transform_idempotent_arrow :
    let m : Migration :=
      { root := ⟨"/project"⟩
        palette := ⟨.defaults, ⟨[]⟩⟩
        accessor :=
          { moduleName := "@/theme", exportName := "useTheme", binding := "theme"
            aliases := [], overrides := [], root := ⟨"/project"⟩ }
        tsconfig :=
          { path := ⟨"/project/tsconfig.json"⟩, baseUrl := none, paths := []
            pathsBase := ⟨"/project"⟩ }
        wrappers := []
        dryRun := true }
    let old := "const A=()=>(\x7bcolor:'#fff',fill:'#123'\x7d)"
    let new := "import \x7b useTheme \x7d from '@/theme';\n\nconst A=()=>\x7b\n" ++
      "  const theme = useTheme();\n" ++
      "  return (\x7bcolor:theme.colors.surface,fill:'#123'\x7d);\n\x7d"
    m.palette.tokens.isStringFree = true ∧
      ∃ file s, SourceFile.ofText ⟨"/project/A.tsx"⟩ old = .ok file ∧
        (m.transform file).text = some new ∧
        SourceFile.parse file.path file.source.language (m.edited file) = .ok s ∧
        m.regrownAs file s.tree = true ∧ s.text = new ∧
        m.transform ⟨file.path, s⟩ =
          ⟨none, { components := 1, literals := { unmapped := 1 } }⟩ := by
  intro m old new
  have free : m.palette.tokens.isStringFree = true := TokenTable.isStringFree_defaults
  have facts : (SourceFile.ofText ⟨"/project/A.tsx"⟩ old).toOption.map (fun file =>
      (m.transform file,
        (SourceFile.parse file.path file.source.language (m.edited file)).toOption.map fun s =>
          m.regrownAs file s.tree)) =
      some (⟨some new,
        { components := 1, literals := { replaced := 1, unmapped := 1 }
          importAdded := true, bindingsInserted := 1 }⟩, some true) := by
    simp only [m, TokenTable.defaults_eq]
    decide +kernel
  cases read : SourceFile.ofText ⟨"/project/A.tsx"⟩ old with
  | error e =>
    rw [read] at facts
    cases facts
  | ok file =>
    rw [read] at facts
    simp only [Except.toOption, Option.map_some, Option.some.injEq, Prod.mk.injEq] at facts
    rcases facts with ⟨outcome, parses⟩
    have changed : (m.transform file).text = some new := by rw [outcome]
    cases parsed : SourceFile.parse file.path file.source.language (m.edited file) with
    | error e =>
      rw [parsed] at parses
      cases parses
    | ok s =>
      rw [parsed] at parses
      have regrown : m.regrownAs file s.tree = true := Option.some.inj parses
      have again := transform_idempotent m file free changed parsed regrown
      rw [outcome] at again
      exact ⟨free, file, s, rfl, changed, parsed, regrown, again⟩

end Migration

end ThemeMigration
