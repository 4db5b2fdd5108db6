import ThemeMigration.Proofs.Migration.Regrowth

/-!
# Nodes without edits

A node that no edit touches, and in which nothing stands that an edit belongs to, reads in the new
tree as it did in the old one.  Such nodes are those apart from all edited ones, the atoms of
statements that are no replaced literals, and the specifiers that were imported already.
-/

namespace ThemeMigration

open Script SyntaxTree

namespace Migration

variable {m : Migration} {file : SourceFile} {t t' : SyntaxTree}

theorem keeps_regrows : Keeps (Regrows m file) where
  label := by
    intro t t' h
    by_cases special : Special m file t
    · cases special with
      | literal member => exact (h.of_literal member).1
      | body member => exact (h.of_body member).2.1
      | list joined => exact (h.of_list joined).2.1
    · exact (h.of_plain special).2.1
  isNamed := by
    intro t t' h
    by_cases special : Special m file t
    · cases special with
      | literal member =>
        rcases literal_facts member with ⟨_, _, _, _, string⟩
        rw [(h.of_literal member).2.1, string]
        rfl
      | body member =>
        rcases mem_boundBodies_iff.1 member with ⟨r, changed, _, rfl⟩
        have isNamed : r.component.body.kind.isNamed = true := by
          rw [← Bool.not_eq_false]
          intro unnamed
          have compound := changed.body_not_atom
          rw [isAtomic_of_not_named unnamed] at compound
          cases compound
        rw [(h.of_body member).1, isNamed]
        rfl
      | list joined => rw [(h.of_list joined).1]
    · rw [(h.of_plain special).1]

/-- No edit touches the node, and no node with an edit of its own stands in it. -/
structure Untouched (m : Migration) (file : SourceFile) (t : SyntaxTree) : Prop where
  wellFormed : t.wellFormed file.text = true
  free : ∀ x, Special m file x → ¬ Occurs t x
  apart : ∀ e ∈ (m.plan file).edits, e.span.Apart t.span

theorem Untouched.child (h : Untouched m file t) {c : SyntaxTree} (member : c ∈ t.children) :
    Untouched m file c := by
  have inner := wellFormed_child h.wellFormed member
  refine ⟨inner.1, ?_, ?_⟩
  · intro x special below
    exact h.free x special (.deeper member below)
  · intro e planned
    exact (h.apart e planned).mono (.refl _) inner.2

theorem not_wraps_of_free (free : ∀ x, Special m file x → ¬ Occurs t x) :
    m.wraps file t ≠ true := by
  intro wraps
  rcases List.any_eq_true.1 wraps with ⟨body, member, holds⟩
  rw [Bool.and_eq_true, decide_eq_true_eq] at holds
  exact free body (.body member) holds.2

/-- Where no edit touches a span, its text lands unchanged. -/
theorem text_landed (wellFormed : t.wellFormed file.text = true)
    (apart : ∀ e ∈ (m.plan file).edits, e.span.Apart t.span)
    (lands : t'.span = Edit.landed file.text (m.plan file).edits t.span) :
    t'.text (m.edited file) = t.text file.text := by
  rw [SyntaxTree.text, lands]
  exact Edit.sliceSpan_landed_of_apart (fun _ => sound_of_mem_plan) (plan_edits_apart m file)
    (start_boundary wellFormed) (stop_boundary wellFormed) (start_le_stop wellFormed) apart

/-- What is untouched reads as before. -/
theorem Untouched.reads (h : Untouched m file t) (r : Regrows m file t t') :
    Reads file.text (m.edited file) t t' := by
  induction t using childInduction generalizing t' with
  | step t ih =>
    rcases r.of_plain fun special => h.free t special (.here t) with ⟨kind, label, lands, children⟩
    have text := text_landed h.wellFormed h.apart (lands.resolve_left (not_wraps_of_free h.free))
    refine reads_of_children kind label text ?_
    refine (forall₂_with_mem children).imp ?_
    rintro c c' ⟨member, related⟩
    exact ih c member (h.child member) related

/-! ## Which nodes are untouched -/

theorem import_apart_or_joined {e : Edit} (imported : m.importEdit? file = some e) :
    (∃ names, m.joinedList? file = some names ∧ names.span.Contains e.span ∧
        e.span = .point (Imports.joinPoint names).1) ∨
      (m.joinedList? file = none ∧ ∀ u ∈ file.source.statements, e.span.Apart u.span) := by
  have facts := importEdit?_eq_some_iff.1 imported
  have joined : m.joinedList? file =
      (Imports.accessorLists file.source file.path m.accessor m.tsconfig).head? := by
    rw [joinedList?, imported, Option.isSome_some, if_pos rfl]
  rcases import_place facts.1 facts.2 with ⟨offset, replacement, rfl, place⟩
  rcases place.apart_or_joined with ⟨names, first, rfl, within⟩ | ⟨none, apart⟩
  · exact Or.inl ⟨names, joined.trans first, within, rfl⟩
  · exact Or.inr ⟨by rw [joined, none]; rfl, apart⟩

section InStatement

variable {u : SyntaxTree} (inScript : u ∈ file.source.statements) (below : Occurs u t)

include inScript below

/-- A node apart from all nodes with an edit of their own is untouched. -/
theorem untouched_of_apart (apart : ∀ x, Special m file x → x.span.Apart t.span) :
    Untouched m file t := by
  have inner := wellFormed_occurs (Component.wellFormed_statement inScript) below
  refine ⟨inner.1, ?_, ?_⟩
  · intro x special inside
    have within := (wellFormed_occurs inner.1 inside).2
    exact absurd ((apart x special).stop_le_start (.refl _) within)
      (Nat.not_le_of_lt special.nonempty)
  · intro e planned
    cases mem_plan_edits_iff.1 planned with
    | replacement r changed replaced =>
      rcases Component.exists_literal_of_mem_replacements replaced with ⟨l, member, edited, span⟩
      have literal : Special m file l.literal :=
        .literal (mem_replacedLiterals_iff.2 ⟨r, changed, l, member, by rw [edited]; rfl, rfl⟩)
      rw [span]
      exact apart _ literal
    | imported change found =>
      have imported := importEdit?_eq_some_iff.2 ⟨change, found⟩
      rcases import_apart_or_joined imported with ⟨names, joined, within, _⟩ | ⟨_, clear⟩
      · exact (apart names (.list joined)).mono within (.refl _)
      · exact (clear u inScript).mono (.refl _) inner.2
    | binding r changed fresh inserted =>
      have body : Special m file r.component.body :=
        .body (mem_boundBodies_iff.2 ⟨r, changed, fresh, rfl⟩)
      exact (apart _ body).mono (binding_in_body changed inserted) (.refl _)

/-- A node of the script is a node of the same statement, or it is apart. -/
theorem occurs_or_apart_of_statement {v d : SyntaxTree} (member : v ∈ file.source.statements)
    (inside : Occurs v d) : Occurs u d ∨ d.span.Apart t.span := by
  have within := (wellFormed_occurs (Component.wellFormed_statement inScript) below).2
  rcases Span.eq_or_apart span (Component.statements_pairwise file.source) member inScript with
    rfl | apart
  · exact Or.inl inside
  · exact Or.inr (apart.mono (wellFormed_occurs (Component.wellFormed_statement member) inside).2
      within)

variable (atom : t.kind.isAtomic = true)

include atom

/-- No node with an edit of its own stands in an atom that is no replaced literal. -/
theorem free_of_atom (kept : t ∉ m.replacedLiterals file) :
    ∀ x, Special m file x → ¬ Occurs t x := by
  have wellFormed := (wellFormed_occurs (Component.wellFormed_statement inScript) below).1
  intro x special inside
  have same := inside.eq_of_children_eq_nil (children_eq_nil wellFormed atom)
  subst same
  cases special with
  | literal member => exact kept member
  | body member =>
    rcases mem_boundBodies_iff.1 member with ⟨r, changed, _, rfl⟩
    rw [changed.body_not_atom] at atom
    cases atom
  | list joined =>
    rcases accessorList_of_joined joined with ⟨v, list⟩
    rw [(Imports.namedList?_facts list.list).1] at atom
    cases atom

/-- A replaced literal is apart from every other atom. -/
theorem literal_apart_of_atom (kept : t ∉ m.replacedLiterals file) {x : SyntaxTree}
    (literal : x ∈ m.replacedLiterals file) : x.span.Apart t.span := by
  have outer := Component.wellFormed_statement inScript
  rcases literal_facts literal with ⟨r, changed, inBody, _, string⟩
  rcases occurs_or_apart_of_statement inScript below changed.declaration_mem
    (changed.body_occurs.trans inBody) with here | apart
  · rcases eq_or_occurs_or_apart outer here below atom with same | ⟨different, inside⟩ | apart
    · exact absurd (same ▸ literal) kept
    · have leaf := children_eq_nil (wellFormed_occurs outer here).1 (by rw [string]; rfl)
      exact absurd (inside.eq_of_children_eq_nil leaf).symm different
    · exact apart
  · exact apart

/-- A binding is apart from every atom. -/
theorem binding_apart_of_atom {r : Recoloring} (changed : Changed m file r) {e : Edit}
    (inserted : e ∈ r.component.insertion file.text (m.binding (m.imports file))) :
    e.span.Apart t.span := by
  have outer := Component.wellFormed_statement inScript
  have inBody := binding_in_body changed inserted
  rcases occurs_or_apart_of_statement inScript below changed.declaration_mem changed.body_occurs
    with
    here | apart
  · rcases eq_or_occurs_or_apart outer here below atom with same | ⟨_, inside⟩ | apart
    · have compound := changed.body_not_atom
      rw [same, atom] at compound
      cases compound
    · exact Component.insertion_apart_of_atom changed.body_wellFormed changed.literals_ne_nil
        inserted inside atom
    · exact apart.mono inBody (.refl _)
  · exact apart.mono inBody (.refl _)

/-- An atom is untouched unless it is a literal that is replaced. -/
theorem untouched_of_atom (other : u.kind ≠ .importStatement)
    (kept : t ∉ m.replacedLiterals file) : Untouched m file t := by
  have inner := wellFormed_occurs (Component.wellFormed_statement inScript) below
  refine ⟨inner.1, free_of_atom inScript below atom kept, ?_⟩
  intro e planned
  cases mem_plan_edits_iff.1 planned with
  | replacement r changed replaced =>
    rcases Component.exists_literal_of_mem_replacements replaced with ⟨l, member, edited, span⟩
    rw [span]
    refine literal_apart_of_atom inScript below atom kept (mem_replacedLiterals_iff.2 ?_)
    exact ⟨r, changed, l, member, by rw [edited]; rfl, rfl⟩
  | imported change found =>
    exact (import_apart change found inScript other).mono (.refl _) inner.2
  | binding r changed _ inserted => exact binding_apart_of_atom inScript below atom changed inserted

end InStatement

end Migration

end ThemeMigration
