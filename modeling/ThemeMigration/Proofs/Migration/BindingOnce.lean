import ThemeMigration.Proofs.Migration.Scoping
import ThemeMigration.Proofs.Migration.Idempotence
import ThemeMigration.Proofs.Migration.ValidNames

/-!
# One binding for each component

The components that take the binding are those that have a literal replaced and lack a statement of
its form.  Nothing else in their scope has one of its two names, so the statement that goes in is
the only declaration of the binding there.  What decides about a component and what goes into it is
the same statement for all components of a file.
-/

namespace ThemeMigration

open Script SyntaxTree

namespace Migration

variable {m : Migration} {file : SourceFile} {r : Recoloring}

/-- The components that have a literal replaced and no statement of the form of the binding. -/
def lacking (b : BindingStatement) (source : String) (rs : List Recoloring) : List Recoloring :=
  rs.filter fun r =>
    decide (0 < r.counts.replaced ∧ b.presentIn source r.component.body = false)

theorem unbound_eq (m : Migration) (file : SourceFile) :
    m.unbound file =
      lacking (m.binding (m.imports file)) file.text (m.plan file).recolorings := by
  rw [unbound, lacking, List.filter_filter]
  refine List.filter_congr fun r member => ?_
  rw [hasBinding_eq member, Recoloring.isEffective, Bool.and_comm, Bool.decide_and,
    Bool.decide_eq_false]

/-- A component takes the statement: a literal of it is replaced, it has no such statement yet, and
its parameters and statements leave both names to the one that goes in.  That one is a constant by
its text, and with what it declares the name of the binding is declared once. -/
structure TakesBinding (source : String) (b : BindingStatement) (r : Recoloring) : Prop where
  replaced : 0 < r.counts.replaced
  lacks : r.component.body.kind = .statementBlock →
    ∀ t ∈ r.component.body.named, b.holds source t = false
  bindingFree : r.component.binds source b.binding = false
  calleeFree : r.component.binds source b.callee = false
  reads : IsBindable b.binding → IsBindable b.callee → ∀ language,
    b.IsOneConstant language ∧ b.ReadsAsDeclaration language
  declaredOnce :
    (b.declaredNames ++ r.component.scopeNames.map (·.text source)).count b.binding = 1
  /-- The statement goes in, and what goes in stays within the body. -/
  inserted : ∃ offset front back,
    (r.component.insertion source b).head? = some (.insert offset (front ++ b.text ++ back))
  within : ∀ e ∈ r.component.insertion source b, r.component.body.span.Contains e.span

theorem takesBinding_of_mem_unbound (member : r ∈ m.unbound file) :
    TakesBinding file.text (m.binding (m.imports file)) r := by
  rcases mem_unbound.1 member with ⟨changed, fresh⟩
  rw [unbound_eq, lacking, List.mem_filter, decide_eq_true_iff] at member
  rcases changed.not_binds fresh with ⟨bindingFree, calleeFree⟩
  rcases Component.insertion_precedes changed.body_wellFormed (m.binding (m.imports file)) with
    ⟨offset, front, back, head, _⟩
  refine ⟨member.2.1, ?_, bindingFree, calleeFree, fun binding callee language =>
    ⟨isOneConstant_of_isBindable binding callee language,
      readsAsDeclaration_of_isBindable binding callee language⟩, ?_, ⟨offset, front, back, head⟩,
    fun e inserted => binding_in_body changed inserted⟩
  · intro block t statement
    have absent := member.2.2
    rw [BindingStatement.presentIn, block, beq_self_eq_true, Bool.true_and,
      List.any_eq_false] at absent
    exact Bool.eq_false_iff.2 (absent t statement)
  · have undeclared : (m.binding (m.imports file)).binding ∉
        r.component.scopeNames.map (·.text file.text) := by
      intro declared
      rw [Component.binds_iff.2 (List.mem_map.1 declared)] at bindingFree
      cases bindingFree
    rw [BindingStatement.declaredNames_eq, List.singleton_append, List.count_cons_self,
      List.count_eq_zero_of_not_mem undeclared]

/-- No edit of the synthesis reaches into a body that does not take the binding. -/
theorem synthesis_apart {e : Edit} (planned : e ∈ (m.plan file).synthesis.edits)
    (member : r ∈ (m.plan file).recolorings) (other : r ∉ m.unbound file) :
    e.span.Apart r.component.body.span := by
  have edits : (m.plan file).synthesis.edits = (m.importEdit? file).toList ++
      (m.unbound file).flatMap fun q =>
        q.component.insertion file.text (m.binding (m.imports file)) := rfl
  rw [edits, List.mem_append, Option.mem_toList, List.mem_flatMap] at planned
  rcases planned with imported | ⟨q, taking, inserted⟩
  · have site := Component.wellFormed_of_mem_detect (component_of_mem member)
    have kind := (Component.kind_of_mem_detect (component_of_mem member)).1
    have statement := (Component.site_of_mem_detect (component_of_mem member)).1
    rcases importEdit?_eq_some_iff.1 imported with ⟨change, found⟩
    exact (import_apart change found statement kind).mono (.refl _) (site.2.2.2.trans site.2.2.1)
  · have changed := (mem_unbound.1 taking).1
    rcases bodies_apart changed.member member with rfl | apart
    · exact absurd taking other
    · exact apart.mono (binding_in_body changed inserted) (.refl _)

theorem bindingsInserted_of_transform (m : Migration) (file : SourceFile) :
    (m.transform file).counts.bindingsInserted = (m.unbound file).length := by
  rw [transform]
  dsimp only
  split
  · rename_i zero
    -- Where nothing is replaced, no component takes the binding.
    have none : m.unbound file = [] := by
      refine List.eq_nil_iff_forall_not_mem.2 fun r member => ?_
      have changed := (mem_unbound.1 member).1
      have some : 0 < r.counts.replaced := of_decide_eq_true changed.isEffective
      have bound := LiteralCounts.replaced_le_foldl (f := Recoloring.counts) changed.member {}
      rw [Plan.literals, beq_iff_eq] at zero
      omega
    rw [none]
    rfl
  · rfl

/-- What the binding of a file is looked for with, what components are blocked by and what goes in
is one statement.  It goes once into each component that has a literal replaced and no such
statement, where it is the only declaration of its name; it goes into no other component, and as
many bindings are counted. -/
theorem binding_inserted_once (m : Migration) (file : SourceFile) :
    let b := m.binding (m.imports file)
    let p := m.plan file
    let taking := lacking b file.text p.recolorings
    p.recolorings = (Component.detect file.source m.wrappers b).map (fun c =>
        (Recoloring.ofComponent m.palette file.text c).settled file.text b) ∧
      p.synthesis.edits = (m.importEdit? file).toList ++
        taking.flatMap (fun r => r.component.insertion file.text b) ∧
      (∀ r ∈ taking, TakesBinding file.text b r) ∧
      (∀ r ∈ p.recolorings, r ∉ taking →
        ∀ e ∈ p.synthesis.edits, e.span.Apart r.component.body.span) ∧
      (m.transform file).counts.bindingsInserted = taking.length := by
  intro b p taking
  have same : taking = m.unbound file := (unbound_eq m file).symm
  rw [same]
  refine ⟨rfl, rfl, fun r member => takesBinding_of_mem_unbound member, ?_,
    bindingsInserted_of_transform m file⟩
  intro r member other e planned
  exact synthesis_apart planned member other

end Migration

end ThemeMigration
