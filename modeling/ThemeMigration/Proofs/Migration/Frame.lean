import ThemeMigration.Proofs.Edits.Landing
import ThemeMigration.Proofs.Migration.Disjoint

/-!
# What the migration leaves alone

Apart from the import, a file changes only in the bodies of its changed components.  Statements
without a changed component, and components that are not changed, keep their text and their order,
and an import statement differs by the names that join its list at most.
-/

namespace ThemeMigration

open Script SyntaxTree

namespace Migration

variable {m : Migration} {file : SourceFile}

/-- The edit replaces a whole eligible literal of the component, or it is part of the component's
binding. -/
def WritesInto (m : Migration) (file : SourceFile) (r : Recoloring) (e : Edit) : Prop :=
  (∃ pair literal expression,
      Eligible m.palette file.text r.component.body pair literal expression ∧
        e = .replace literal.span expression) ∨
    (r.component.hasBinding = false ∧
      e ∈ r.component.insertion file.text (m.binding (m.imports file)))

/-- Nodes that no change of a component belongs to. -/
inductive LeftAlone (m : Migration) (file : SourceFile) : SyntaxTree → Prop
  /-- A statement in which no component is changed. -/
  | statement (t : SyntaxTree) : t ∈ file.source.statements →
      (∀ r, Changed m file r → ¬ Occurs t r.component.function) → LeftAlone m file t
  /-- A component that is not changed. -/
  | component (r : Recoloring) : r ∈ (m.plan file).recolorings → r.isEffective = false →
      LeftAlone m file r.component.function
  /-- The body of a component that is not changed, as that of a blocked one. -/
  | body (r : Recoloring) : r ∈ (m.plan file).recolorings → r.isEffective = false →
      LeftAlone m file r.component.body

/-! ## Where edits go -/

/-- Every edit but the import writes into the body of a changed component. -/
theorem writesInto_of_mem_plan {e : Edit} (member : e ∈ (m.plan file).edits) :
    m.importEdit? file = some e ∨
      ∃ r, Changed m file r ∧ r.component.body.span.Contains e.span ∧ WritesInto m file r e := by
  cases mem_plan_edits_iff.1 member with
  | replacement r changed replaced =>
    have eligible := (Component.mem_replacements_iff changed.body_wellFormed).1 replaced
    exact Or.inr ⟨r, changed, replacement_in_body changed replaced, Or.inl eligible⟩
  | imported change found => exact Or.inl (importEdit?_eq_some_iff.2 ⟨change, found⟩)
  | binding r changed fresh inserted =>
    exact Or.inr ⟨r, changed, binding_in_body changed inserted, Or.inr ⟨fresh, inserted⟩⟩

/-! ## Nodes that are left alone -/

theorem LeftAlone.wellFormed {t : SyntaxTree} (h : LeftAlone m file t) :
    t.wellFormed file.text = true := by
  cases h with
  | statement _ member _ => exact Component.wellFormed_statement member
  | component r member _ => exact (Component.wellFormed_of_mem_detect (component_of_mem member)).1
  | body r member _ => exact (Component.wellFormed_of_mem_detect (component_of_mem member)).2.1

theorem LeftAlone.apart_of_body {t : SyntaxTree} (h : LeftAlone m file t) {r : Recoloring}
    (changed : Changed m file r) : r.component.body.span.Apart t.span := by
  have within := Component.wellFormed_of_mem_detect (component_of_mem changed.member)
  have different : ∀ q : Recoloring, q.isEffective = false → r ≠ q := by
    rintro q still rfl
    rw [changed.isEffective] at still
    cases still
  cases h with
  | statement _ member free =>
    rcases Span.eq_or_apart span (Component.statements_pairwise file.source)
      changed.declaration_mem member with same | apart
    · have inside := Component.function_occurs (component_of_mem changed.member)
      exact absurd (same ▸ inside) (free r changed)
    · exact apart.mono changed.body_in_declaration (.refl _)
  | component q member still =>
    rcases same_or_apart changed.member member with same | apart
    · exact absurd same (different q still)
    · exact apart.mono within.2.2.1 (.refl _)
  | body q member still =>
    rcases bodies_apart changed.member member with same | apart
    · exact absurd same (different q still)
    · exact apart

/-- The import edit meets a node that is left alone only inside an import statement. -/
theorem LeftAlone.apart_of_import {t : SyntaxTree} (h : LeftAlone m file t) {e : Edit}
    (imported : m.importEdit? file = some e) :
    e.span.Apart t.span ∨ t.kind = .importStatement ∧ t ∈ file.source.statements := by
  have facts := importEdit?_eq_some_iff.1 imported
  have inComponent : ∀ r ∈ (m.plan file).recolorings,
      e.span.Apart r.component.declaration.span := by
    intro r member
    have found := component_of_mem member
    exact import_apart facts.1 facts.2 (Component.site_of_mem_detect found).1
      (Component.kind_of_mem_detect found).1
  cases h with
  | statement _ member _ =>
    by_cases isImport : t.kind = .importStatement
    · exact Or.inr ⟨isImport, member⟩
    · exact Or.inl (import_apart facts.1 facts.2 member isImport)
  | component r member _ =>
    have within := Component.wellFormed_of_mem_detect (component_of_mem member)
    exact Or.inl ((inComponent r member).mono (.refl _) within.2.2.2)
  | body r member _ =>
    have within := Component.wellFormed_of_mem_detect (component_of_mem member)
    exact Or.inl ((inComponent r member).mono (.refl _) (within.2.2.2.trans within.2.2.1))

theorem LeftAlone.apart_of_mem_plan {t : SyntaxTree} (h : LeftAlone m file t) {e : Edit}
    (member : e ∈ (m.plan file).edits) :
    e.span.Apart t.span ∨
      (m.importEdit? file = some e ∧ t.kind = .importStatement ∧ t ∈ file.source.statements) := by
  rcases writesInto_of_mem_plan member with imported | ⟨r, changed, inBody, _⟩
  · rcases h.apart_of_import imported with apart | isImport
    · exact Or.inl apart
    · exact Or.inr ⟨imported, isImport⟩
  · exact Or.inl ((h.apart_of_body changed).mono inBody (.refl _))

/-- The import edit is planned once where it meets a node that is left alone. -/
theorem LeftAlone.count_import {t : SyntaxTree} (h : LeftAlone m file t) {e : Edit}
    (imported : m.importEdit? file = some e) (meets : ¬ e.span.Apart t.span) :
    (m.plan file).edits.count e = 1 := by
  have elsewhere : ∀ r, Changed m file r → ¬ r.component.body.span.Contains e.span := by
    intro r changed within
    exact meets ((h.apart_of_body changed).mono within (.refl _))
  have notReplaced : e ∉ (m.plan file).recolorings.flatMap (·.edits) := by
    intro inEdits
    rcases List.mem_flatMap.1 inEdits with ⟨r, member, planned⟩
    have changed := changed_of_mem_edits member planned
    rw [changed.edits_eq] at planned
    exact elsewhere r changed (replacement_in_body changed planned)
  have notBound : e ∉ (m.unbound file).flatMap fun r =>
      r.component.insertion file.text (m.binding (m.imports file)) := by
    intro inEdits
    rcases List.mem_flatMap.1 inEdits with ⟨r, member, inserted⟩
    have changed := (mem_unbound.1 member).1
    exact elsewhere r changed (binding_in_body changed inserted)
  rw [plan_edits_eq, List.count_append, List.count_append, List.count_eq_zero.2 notReplaced,
    List.count_eq_zero.2 notBound, imported]
  simp

/-! ## Their text -/

/-- The text of a statement with the import edit spliced in. -/
def Extends (text : String) (t : SyntaxTree) (e : Edit) (new : String) : Prop :=
  t.start < e.span.start ∧ e.span.stop < t.stop ∧ e.span.start = e.span.stop ∧
    new = Text.slice text t.start e.span.start ++ e.replacement ++
      Text.slice text e.span.start t.stop

theorem LeftAlone.text_landed {t : SyntaxTree} (h : LeftAlone m file t) :
    let new := Text.sliceSpan (m.edited file)
      (Edit.landed file.text (m.plan file).edits t.span)
    new = t.text file.text ∨
      t.kind = .importStatement ∧ ∃ e, m.importEdit? file = some e ∧
        Extends file.text t e new := by
  have sound : ∀ e ∈ (m.plan file).edits, e.Sound file.text := fun _ => sound_of_mem_plan
  have apart := plan_edits_apart m file
  have start := start_boundary h.wellFormed
  have stop := stop_boundary h.wellFormed
  by_cases untouched : ∀ e ∈ (m.plan file).edits, e.span.Apart t.span
  · exact Or.inl (Edit.sliceSpan_landed_of_apart sound apart start stop (start_le_stop h.wellFormed)
      untouched)
  · simp only [not_forall] at untouched
    rcases untouched with ⟨e, member, meets⟩
    rcases h.apart_of_mem_plan member with impossible | ⟨imported, isImport, _⟩
    · exact absurd impossible meets
    · have facts := importEdit?_eq_some_iff.1 imported
      have once := h.count_import imported meets
      rcases import_place facts.1 facts.2 with ⟨offset, replacement, rfl, _⟩
      have behind : t.start < offset := Nat.lt_of_not_le fun le => meets (Or.inl le)
      have before : offset < t.stop := Nat.lt_of_not_le fun le => meets (Or.inr le)
      refine Or.inr ⟨isImport, _, imported, behind, before, rfl, ?_⟩
      apply Edit.sliceSpan_landed_of_insert sound apart start stop behind before _ once
      intro f inEdits
      rcases h.apart_of_mem_plan inEdits with apart | ⟨same, _⟩
      · exact Or.inl apart
      · rw [imported] at same
        exact Or.inr (Option.some.inj same).symm

/-- What follows in the old text follows in the new one. -/
theorem LeftAlone.landed_in_order {t u : SyntaxTree} (first : LeftAlone m file t)
    (second : LeftAlone m file u) (order : t.stop ≤ u.start) :
    (Edit.landed file.text (m.plan file).edits t.span).stop ≤
      (Edit.landed file.text (m.plan file).edits u.span).start := by
  have sound : ∀ e ∈ (m.plan file).edits, e.Sound file.text := fun _ => sound_of_mem_plan
  apply Edit.landed_stop_le_landed_start sound (plan_edits_apart m file) order
    (start_le_stop first.wellFormed) (stop_boundary first.wellFormed)
    (start_boundary second.wellFormed)
  intro e member
  by_cases apart : e.span.Apart t.span
  · exact Or.inl apart
  · rcases first.apart_of_mem_plan member with impossible | ⟨imported, _⟩
    · exact absurd impossible apart
    · have facts := importEdit?_eq_some_iff.1 imported
      rcases import_place facts.1 facts.2 with ⟨offset, replacement, rfl, _⟩
      have behind : t.start < offset := Nat.lt_of_not_le fun le => apart (Or.inl le)
      have before : offset < t.stop := Nat.lt_of_not_le fun le => apart (Or.inr le)
      exact Or.inr ⟨Nat.le_of_lt behind, Nat.le_of_lt before⟩

/-- A component that cannot take the binding is not changed. -/
theorem not_effective_of_blocked {r : Recoloring} (member : r ∈ (m.plan file).recolorings)
    (blocked : r.component.isBlocked file.text (m.binding (m.imports file)) = true) :
    r.isEffective = false := by
  rw [← Bool.not_eq_true]
  intro effective
  have changed : Changed m file r := ⟨member, effective⟩
  rw [changed.changes.free] at blocked
  cases blocked

/-- Before stale imports are removed, a file changes in the bodies of its changed components and
by the one import edit only.  All else keeps its text and its order; an import statement may hold
the import edit. -/
theorem plan_edits_framed (m : Migration) (file : SourceFile) :
    (∀ e ∈ (m.plan file).edits, m.importEdit? file = some e ∨
        ∃ r, Changed m file r ∧ r.component.body.span.Contains e.span ∧ WritesInto m file r e) ∧
      (∀ t, LeftAlone m file t →
        let new := Text.sliceSpan (m.edited file)
          (Edit.landed file.text (m.plan file).edits t.span)
        new = t.text file.text ∨
          t.kind = .importStatement ∧ ∃ e, m.importEdit? file = some e ∧
            Extends file.text t e new) ∧
      (∀ t u, LeftAlone m file t → LeftAlone m file u → t.stop ≤ u.start →
        (Edit.landed file.text (m.plan file).edits t.span).stop ≤
          (Edit.landed file.text (m.plan file).edits u.span).start) ∧
      (∀ r ∈ (m.plan file).recolorings,
        r.component.isBlocked file.text (m.binding (m.imports file)) = true →
          LeftAlone m file r.component.body) ∧
      ∀ new, (m.transform file).text = some new → new = (pruned file (m.edited file)).1 := by
  refine ⟨?_, ?_, ?_, ?_, ?_⟩
  · intro e member
    exact writesInto_of_mem_plan member
  · intro t alone
    exact alone.text_landed
  · intro t u first second order
    exact first.landed_in_order second order
  · intro r member blocked
    exact .body r member (not_effective_of_blocked member blocked)
  · intro new changed
    exact text_of_transform changed

end Migration

end ThemeMigration
