import ThemeMigration.Proofs.Migration.Scoping
import ThemeMigration.Proofs.Migration.Unpruned
import ThemeMigration.Proofs.Migration.ValidNames
import ThemeMigration.Proofs.Script.ValueNames

/-!
# Names of the body

No edit touches a name that a component uses.  What a name stands for can change all the same,
since the statement that goes in declares the binding: a name that was taken from outside of the
component and is spelled like the binding becomes the binding.  What the component declares
afterwards is what it declared before and what the tree of the inserted statement declares.
-/

namespace ThemeMigration

open Script SyntaxTree

namespace Migration

variable {m : Migration} {file : SourceFile} {r : Recoloring}

/-- No edit touches a name of the body. -/
theorem Changed.apart_of_names (changed : Changed m file r) {d : SyntaxTree}
    (name : d ∈ r.component.body.valueNames file.text) {e : Edit}
    (planned : e ∈ (m.plan file).edits) : e.span.Apart d.span := by
  rcases occurs_of_mem_valueNames name with ⟨below, isName⟩
  have atom : d.kind.isAtomic = true := by
    rcases isName with kind | kind | kind <;> rw [kind] <;> rfl
  have kept : d ∉ m.replacedLiterals file := by
    intro literal
    rcases literal_facts literal with ⟨_, _, _, _, string⟩
    rcases isName with kind | kind | kind <;> rw [string] at kind <;> cases kind
  exact (untouched_of_atom changed.declaration_mem (changed.body_occurs.trans below) atom
    changed.kind_of_declaration kept).apart e planned

end Migration

end ThemeMigration
