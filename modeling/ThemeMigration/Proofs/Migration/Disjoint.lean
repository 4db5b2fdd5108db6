import ThemeMigration.Proofs.Edits.Stepwise
import ThemeMigration.Proofs.Migration.Plan

/-!
# All edits of a file are applied

Replacements, the import and the bindings are made independently of each other, yet no two of them
overlap: the bodies of components are disjoint, a binding goes in at the ends of nodes and so never
inside a literal, and the import stays outside every statement that declares a component.  Since
all of them lie between character boundaries of the text, none is dropped.
-/

namespace ThemeMigration

open Script SyntaxTree

namespace Migration

variable {m : Migration} {file : SourceFile}

/-! ## Parts of different components -/

/-- Two recolorings of a file are of one component, or their functions are apart. -/
theorem same_or_apart {r q : Recoloring} (first : r ∈ (m.plan file).recolorings)
    (second : q ∈ (m.plan file).recolorings) :
    r = q ∨ r.component.function.span.Apart q.component.function.span := by
  exact Span.eq_or_apart (fun r : Recoloring => r.component.function.span) recolorings_pairwise
    first second

theorem bodies_apart {r q : Recoloring} (first : r ∈ (m.plan file).recolorings)
    (second : q ∈ (m.plan file).recolorings) :
    r = q ∨ r.component.body.span.Apart q.component.body.span := by
  have left := Component.wellFormed_of_mem_detect (component_of_mem first)
  have right := Component.wellFormed_of_mem_detect (component_of_mem second)
  rcases same_or_apart first second with same | apart
  · exact Or.inl same
  · exact Or.inr (apart.mono left.2.2.1 right.2.2.1)

/-- A body that follows another one follows it as a whole. -/
theorem body_precedes {r q : Recoloring} (first : r ∈ (m.plan file).recolorings)
    (second : q ∈ (m.plan file).recolorings)
    (order : Component.Precedes r.component q.component) :
    r.component.body.stop ≤ q.component.body.start := by
  have left := (Component.wellFormed_of_mem_detect (component_of_mem first)).2.2.1
  have right := (Component.wellFormed_of_mem_detect (component_of_mem second)).2.2.1
  exact Nat.le_trans left.2 (Nat.le_trans order right.1)

section Changed

variable {r : Recoloring} (h : Changed m file r) {e : Edit}

include h

theorem replacement_sound (member : e ∈ r.component.replacements m.palette file.text) :
    e.Sound file.text := by
  rcases Component.exists_literal_of_mem_replacements member with ⟨l, found, _, span⟩
  have below := PropertyLiteral.literal_occurs found
  have wellFormed := (wellFormed_occurs h.body_wellFormed below).1
  refine ⟨?_, ?_, ?_⟩ <;> rw [span]
  · exact start_le_stop wellFormed
  · exact start_boundary wellFormed
  · exact stop_boundary wellFormed

theorem replacement_in_body (member : e ∈ r.component.replacements m.palette file.text) :
    r.component.body.span.Contains e.span := by
  rcases Component.exists_literal_of_mem_replacements member with ⟨l, found, _, span⟩
  rw [span]
  exact PropertyLiteral.span_contains_literal h.body_wellFormed found

theorem binding_in_body
    (member : e ∈ r.component.insertion file.text (m.binding (m.imports file))) :
    r.component.body.span.Contains e.span :=
  Component.insertion_in_body h.body_wellFormed h.literals_ne_nil member

end Changed

/-- The import stands outside all statements that are no imports. -/
theorem import_place {e : Edit} (change : ∃ r, Changed m file r)
    (found : (m.imports file).insertion? m.accessor file.path = some e) :
    ∃ offset replacement, e = .insert offset replacement ∧
      Imports.Place file.source file.path m.accessor m.tsconfig offset := by
  rcases change with ⟨r, changed⟩
  have statement := (Component.kind_of_mem_detect (component_of_mem changed.member)).2
  exact Imports.insertion?_place found
    ⟨r.component.declaration, changed.declaration_mem, by simpa [isComment] using statement⟩

theorem import_apart {e : Edit} (change : ∃ r, Changed m file r)
    (found : (m.imports file).insertion? m.accessor file.path = some e) {t : SyntaxTree}
    (member : t ∈ file.source.statements) (other : t.kind ≠ .importStatement) :
    e.span.Apart t.span := by
  rcases import_place change found with ⟨offset, replacement, rfl, place⟩
  exact place.apart member other

theorem import_apart_of_body {e : Edit} (change : ∃ r, Changed m file r)
    (found : (m.imports file).insertion? m.accessor file.path = some e) {r : Recoloring}
    (h : Changed m file r) : e.span.Apart r.component.body.span := by
  have kind := (Component.kind_of_mem_detect (component_of_mem h.member)).1
  have apart := import_apart change found h.declaration_mem kind
  exact apart.mono (.refl _) h.body_in_declaration

/-! ## All edits -/

theorem sound_of_mem_plan {e : Edit} (member : e ∈ (m.plan file).edits) : e.Sound file.text := by
  cases mem_plan_edits_iff.1 member with
  | replacement r changed inBody => exact replacement_sound changed inBody
  | imported change found =>
    rcases import_place change found with ⟨offset, replacement, rfl, place⟩
    exact ⟨Nat.le_refl _, place.boundary, place.boundary⟩
  | binding r changed _ inserted =>
    exact Component.insertion_sound changed.body_wellFormed changed.literals_ne_nil inserted

theorem replacements_apart :
    ((m.plan file).recolorings.flatMap (·.edits)).Pairwise fun a b => a.span.Apart b.span := by
  rw [List.pairwise_flatMap]
  constructor
  · intro r member
    cases effective : r.isEffective with
    | false =>
      rw [edits_eq_nil member effective]
      exact .nil
    | true =>
      have changed : Changed m file r := ⟨member, effective⟩
      rw [changed.edits_eq]
      exact (Component.replacements_pairwise changed.body_wellFormed).imp Or.inl
  · refine recolorings_pairwise.imp_of_mem ?_
    intro r q first second order e inFirst f inSecond
    have left := changed_of_mem_edits first inFirst
    have right := changed_of_mem_edits second inSecond
    have apart : r.component.body.span.Apart q.component.body.span :=
      Or.inl (body_precedes first second order)
    rw [left.edits_eq] at inFirst
    rw [right.edits_eq] at inSecond
    exact apart.mono (replacement_in_body left inFirst) (replacement_in_body right inSecond)

theorem bindings_apart :
    ((m.unbound file).flatMap fun r =>
      r.component.insertion file.text (m.binding (m.imports file))).Pairwise
        fun a b => a.span.Apart b.span := by
  rw [List.pairwise_flatMap]
  constructor
  · intro r _
    exact Component.insertion_pairwise
  · refine ((recolorings_pairwise.filter _).filter _).imp_of_mem ?_
    intro r q first second order e inFirst f inSecond
    have left := (mem_unbound.1 first).1
    have right := (mem_unbound.1 second).1
    have apart : r.component.body.span.Apart q.component.body.span :=
      Or.inl (body_precedes left.member right.member order)
    exact apart.mono (binding_in_body left inFirst) (binding_in_body right inSecond)

/-- A binding does not cut a literal, of its own component or of another one. -/
theorem replacement_apart_of_binding {r q : Recoloring} (first : Changed m file r)
    (second : Changed m file q) {e f : Edit}
    (replaced : e ∈ r.component.replacements m.palette file.text)
    (bound : f ∈ q.component.insertion file.text (m.binding (m.imports file))) :
    e.span.Apart f.span := by
  rcases bodies_apart first.member second.member with rfl | apart
  · rcases Component.exists_literal_of_mem_replacements replaced with ⟨l, found, _, span⟩
    have string := (PropertyLiteral.isValue_of_mem_inside _ l found).2.isString
    rw [span]
    exact (Component.insertion_apart_of_atom first.body_wellFormed first.literals_ne_nil bound
      (PropertyLiteral.literal_occurs found) (by rw [string]; rfl)).symm
  · exact apart.mono (replacement_in_body first replaced) (binding_in_body second bound)

theorem plan_edits_apart (m : Migration) (file : SourceFile) :
    (m.plan file).edits.Pairwise fun a b => a.span.Apart b.span := by
  rw [plan_edits_eq, List.pairwise_append, List.pairwise_append]
  refine ⟨replacements_apart, ⟨Component.pairwise_toList _ _, bindings_apart, ?_⟩, ?_⟩
  · intro e imported f bound
    rcases List.mem_flatMap.1 bound with ⟨r, member, inserted⟩
    have changed := (mem_unbound.1 member).1
    have found := (importEdit?_eq_some_iff.1 (Option.mem_toList.1 imported)).2
    have apart := import_apart_of_body ⟨r, changed⟩ found changed
    exact apart.mono (.refl _) (binding_in_body changed inserted)
  · intro e replaced f other
    rcases List.mem_flatMap.1 replaced with ⟨r, member, inEdits⟩
    have changed := changed_of_mem_edits member inEdits
    rw [changed.edits_eq] at inEdits
    rcases List.mem_append.1 other with imported | bound
    · have found := (importEdit?_eq_some_iff.1 (Option.mem_toList.1 imported)).2
      have apart := import_apart_of_body ⟨r, changed⟩ found changed
      exact (apart.mono (.refl _) (replacement_in_body changed inEdits)).symm
    · rcases List.mem_flatMap.1 bound with ⟨q, member, inserted⟩
      exact replacement_apart_of_binding changed (mem_unbound.1 member).1 inEdits inserted

/-- The edits that are applied to a file, in the order of application. -/
def applied (m : Migration) (file : SourceFile) : List Edit :=
  Edit.acceptedFrom file.text.utf8ByteSize 0 (Edit.sorted (m.plan file).edits)

theorem applied_eq_sorted (m : Migration) (file : SourceFile) :
    m.applied file = Edit.sorted (m.plan file).edits :=
  Edit.acceptedFrom_eq_self
    (Edit.ordered_sorted (fun _ member => sound_of_mem_plan member) (plan_edits_apart m file))

/-- All edits that are planned for a file lie within its text, between character boundaries, and
no two of them overlap; so all of them are applied. -/
theorem plan_edits_all_applied (m : Migration) (file : SourceFile) :
    (∀ e ∈ (m.plan file).edits,
      e.span.start ≤ e.span.stop ∧ e.span.stop ≤ file.text.utf8ByteSize ∧
        Text.isBoundary file.text e.span.start = true ∧
        Text.isBoundary file.text e.span.stop = true) ∧
      ((m.plan file).edits.Pairwise fun a b => a.span.Apart b.span) ∧
      (Edit.acceptedFrom file.text.utf8ByteSize 0 (Edit.sorted (m.plan file).edits)).Perm
        (m.plan file).edits := by
  refine ⟨?_, plan_edits_apart m file, ?_⟩
  · intro e member
    have sound := sound_of_mem_plan member
    exact ⟨sound.start_le_stop, sound.stop_le_size, sound.start_boundary, sound.stop_boundary⟩
  · have all := Edit.sorted_perm (m.plan file).edits
    rwa [← applied_eq_sorted, applied] at all

/-- The edited text is the old one with the applied edits written one after the other, from the
last to the first.  What lies outside their spans is kept, and the replacement of each stands once
in its place. -/
theorem edited_eq_foldr_applied (m : Migration) (file : SourceFile) :
    m.edited file = (m.applied file).foldr Edit.applyOne file.text ∧
      ∃ kept last, Edit.Cut file.text (m.applied file) kept last ∧
        m.edited file = Edit.woven Edit.replacement kept last := by
  have sound : ∀ e ∈ (m.plan file).edits, e.Sound file.text := fun _ => sound_of_mem_plan
  rw [applied_eq_sorted]
  exact ⟨Edit.applyAll_eq_foldr_sorted sound (plan_edits_apart m file),
    Edit.exists_cut sound (plan_edits_apart m file)⟩

end Migration

end ThemeMigration
