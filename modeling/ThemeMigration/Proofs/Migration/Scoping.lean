import ThemeMigration.Proofs.Component.Resolution
import ThemeMigration.Proofs.Migration.BoundBeforeUse

/-!
# Names of the binding

A replaced literal becomes an expression that names the binding, and the statement that goes in
calls the accessor.  A component is blocked if its own scope declares one of the two names.  What
scopes inside the body declare and what the statement declares itself is not looked at.  So an
expression may end up with a name of an inner scope, and the statement may call its own name; the
statements here say exactly when.
-/

namespace ThemeMigration

open Script SyntaxTree

namespace Component

/-- The names that can be seen at the head of a component with the binding before those of the
script: what the component declares, and its own name if it is an expression. -/
def visibleNames (c : Component) (source : String) (b : BindingStatement) : List String :=
  c.namesWith source b ++ c.function.ownNames.map (·.text source)

end Component

namespace Migration

variable {m : Migration} {file : SourceFile} {r : Recoloring}

/-- The two names of an inserted binding are declared neither by parameters nor by statements of
the body. -/
theorem Changed.not_binds (changed : Changed m file r) (fresh : r.component.hasBinding = false) :
    r.component.binds file.text (m.binding (m.imports file)).binding = false ∧
      r.component.binds file.text (m.binding (m.imports file)).callee = false :=
  Component.not_binds_of_free changed.changes.free fresh

/-! ## The name in an expression -/

/-- The call in the binding that is inserted reaches the import if and only if the binding has
another name than the accessor, and neither `var` further inside nor the component as an expression
has the name of the accessor.  Parameters and statements of the body never have it. -/
theorem callee_not_visible_iff (m : Migration) (file : SourceFile) {r : Recoloring}
    (changed : Changed m file r) (fresh : r.component.hasBinding = false) :
    let b := m.binding (m.imports file)
    let c := r.component
    (∃ offset front back, .insert offset (front ++ b.text ++ back) ∈ (m.plan file).edits) ∧
      (b.callee ∉ b.binding :: c.scopeNames.map (·.text file.text) ↔ b.callee ≠ b.binding) ∧
      (b.callee ∉ c.visibleNames file.text b ↔
        b.callee ≠ b.binding ∧
          ∀ n ∈ c.body.hoistedNames ++ c.function.ownNames, n.text file.text ≠ b.callee) := by
  intro b c
  have free := (changed.not_binds fresh).2
  have names : c.namesWith file.text b = b.binding :: c.localNames file.text :=
    Component.namesWith_of_fresh fresh
  have undeclared : b.callee ∉ c.scopeNames.map (·.text file.text) := by
    intro member
    rw [Component.binds_iff.2 (List.mem_map.1 member)] at free
    cases free
  refine ⟨changed.exists_inserted fresh, ?_, ?_⟩
  · rw [List.mem_cons, not_or, and_iff_left undeclared]
  · rw [Component.visibleNames, names, List.cons_append, List.mem_cons, not_or, List.mem_append,
      Component.mem_localNames_iff, free]
    simp [List.mem_map, or_imp, forall_and]

/-- Where the accessor is imported under the name of the binding, the statement that goes in calls
its own name. -/
theorem callee_named_like_binding :
    let text := "import \x7buseTheme as theme\x7d from '@/theme'\n" ++
      "function Card()\x7breturn\x7bcolor:'#fff'\x7d\x7d"
    Config.validate {} = .ok () ∧ ofConfig {} ⟨"/project"⟩ standard.tsconfig = .ok standard ∧
      ∃ file r,
        SourceFile.ofText ⟨"/project/src/Card.tsx"⟩ text = .ok file ∧ Changed standard file r ∧
          r.component.hasBinding = false ∧
          (standard.binding (standard.imports file)).text = "const theme = theme();" ∧
          (standard.binding (standard.imports file)).callee ∈
            r.component.visibleNames file.text (standard.binding (standard.imports file)) := by
  intro text
  have facts : (SourceFile.ofText ⟨"/project/src/Card.tsx"⟩ text).toOption.any (fun file =>
      (standard.plan file).recolorings.any fun r => r.isEffective &&
        (!r.component.hasBinding &&
          ((standard.binding (standard.imports file)).text == "const theme = theme();" &&
            (r.component.visibleNames file.text (standard.binding (standard.imports file))).contains
              (standard.binding (standard.imports file)).callee))) = true := by
    rw [standard_eq]
    decide +kernel
  rcases exists_ofText facts with ⟨file, read, inFile⟩
  rcases exists_changed_of_any inFile with ⟨r, changed, inComponent⟩
  simp only [Bool.and_eq_true, Bool.not_eq_true', beq_iff_eq, List.contains_iff_mem]
    at inComponent
  rcases inComponent with ⟨fresh, statement, visible⟩
  exact ⟨rfl, ofConfig_default, file, r, read, changed, fresh, statement, visible⟩

/-- Under another local name the accessor is reached. -/
theorem callee_not_visible_iff_alias :
    let text := "import \x7buseTheme as get\x7d from '@/theme'\n" ++
      "function Card()\x7breturn\x7bcolor:'#fff'\x7d\x7d"
    ∃ file r,
      SourceFile.ofText ⟨"/project/src/Card.tsx"⟩ text = .ok file ∧ Changed standard file r ∧
        r.component.hasBinding = false ∧
        (standard.binding (standard.imports file)).text = "const theme = get();" ∧
        (standard.binding (standard.imports file)).callee ∉
          r.component.visibleNames file.text (standard.binding (standard.imports file)) := by
  intro text
  have facts : (SourceFile.ofText ⟨"/project/src/Card.tsx"⟩ text).toOption.any (fun file =>
      (standard.plan file).recolorings.any fun r => r.isEffective &&
        (!r.component.hasBinding &&
          ((standard.binding (standard.imports file)).text == "const theme = get();" &&
            ((standard.binding (standard.imports file)).callee !=
                (standard.binding (standard.imports file)).binding &&
              (r.component.body.hoistedNames ++ r.component.function.ownNames).all fun n =>
                n.text file.text != (standard.binding (standard.imports file)).callee)))) =
        true := by
    rw [standard_eq]
    decide +kernel
  rcases exists_ofText facts with ⟨file, read, inFile⟩
  rcases exists_changed_of_any inFile with ⟨r, changed, inComponent⟩
  simp only [Bool.and_eq_true, Bool.not_eq_true', beq_iff_eq, bne_iff_ne, List.all_eq_true]
    at inComponent
  rcases inComponent with ⟨fresh, statement, other, unhoisted⟩
  have reached := (callee_not_visible_iff standard file changed fresh).2.2
  exact ⟨file, r, read, changed, fresh, statement, reached.2 ⟨other, unhoisted⟩⟩

end Migration

end ThemeMigration
