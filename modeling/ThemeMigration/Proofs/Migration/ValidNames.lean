import ThemeMigration.Proofs.Component.BindingText
import ThemeMigration.Proofs.Config.Validity
import ThemeMigration.Proofs.Imports.ImportText
import ThemeMigration.Proofs.Migration.Inspection

/-!
# Names that are valid

What a valid configuration promises about the accessor's two names.  They are identifiers, and
unless they are reserved words the binding and the import that a migration writes with them are read
as what they are meant to be.  That they are no reserved words is not checked, nor that they are
none of the words that strict code keeps for itself: the grammar reads these as names, but no module
can declare them.
-/

namespace ThemeMigration.Migration

open Script

/-- An identifier that is no reserved word, so that the grammar reads it as a name. -/
def IsBindable (name : String) : Prop :=
  Config.IsIdentifier name ∧ name ∉ Grammar.reservedWords

theorem IsBindable.isName {name : String} (h : IsBindable name) : Config.isName name = true :=
  Config.isIdentifier_iff.1 h.1

theorem IsBindable.ne_enum {name : String} (h : IsBindable name) : name ≠ "enum" := by
  rintro rfl
  exact h.2 (by decide)

/-- A name that a declaration of a module can introduce. -/
def IsModuleBindable (name : String) : Prop := IsBindable name ∧ name ∉ Grammar.strictWords

/-- Aliases can be introduced whatever the exported name is. -/
theorem isModuleBindable_aliasCandidate {exportName : String}
    (isIdentifier : Config.IsIdentifier exportName) (n : Nat) :
    IsModuleBindable (Imports.aliasCandidate exportName n) := by
  have other := Imports.aliasCandidate_not_mem exportName n
  simp only [List.mem_cons, List.mem_append, not_or] at other
  have name := Imports.isName_aliasCandidate (Config.isIdentifier_iff.1 isIdentifier) n
  exact ⟨⟨Config.isIdentifier_iff.2 name, other.2.2.1⟩, other.2.2.2⟩

/-- A new import goes by the exported name, or by one that can be introduced. -/
theorem callee_eq_or_isModuleBindable {i : Imports} {a : Accessor} (aliasOnly : i.AliasOnly a)
    (absent : i.accessorLocal = none) (isIdentifier : Config.IsIdentifier a.exportName) :
    i.callee a = a.exportName ∨ IsModuleBindable (i.callee a) := by
  refine (Imports.callee_eq_or aliasOnly absent).imp_right ?_
  rintro ⟨n, isAlias⟩
  rw [isAlias]
  exact isModuleBindable_aliasCandidate isIdentifier n

/-- A new import gives the accessor a name that a declaration can call. -/
theorem isBindable_callee {i : Imports} {a : Accessor} (aliasOnly : i.AliasOnly a)
    (absent : i.accessorLocal = none) (bindable : IsBindable a.exportName) :
    IsBindable (i.callee a) := by
  rcases callee_eq_or_isModuleBindable aliasOnly absent bindable.1 with same | other
  · rwa [same]
  · exact other.1

theorem isOneConstant_of_isBindable {b : BindingStatement} (binding : IsBindable b.binding)
    (callee : IsBindable b.callee) (language : Language) : b.IsOneConstant language :=
  BindingStatement.isOneConstant binding.isName callee.isName binding.ne_enum callee.2 language

/-- The statement of a binding with two names that can be introduced is read as its tree in every
language. -/
theorem readsAsDeclaration_of_isBindable {b : BindingStatement} (binding : IsBindable b.binding)
    (callee : IsBindable b.callee) (language : Language) : b.ReadsAsDeclaration language :=
  BindingStatement.readsAsDeclaration binding.isName callee.isName binding.ne_enum callee.2 language

/-- The words of strict code are identifiers, and the grammar reads a binding of such a name as a
constant; but no module can declare it. -/
theorem isOneConstant_of_strict {word callee : String} (strict : word ∈ Grammar.strictWords)
    (bindable : IsBindable callee) (language : Language) :
    BindingStatement.IsOneConstant language ⟨word, callee⟩ ∧ ¬IsModuleBindable word := by
  have read : ∀ w ∈ Grammar.strictWords, Config.isName w = true ∧ w ∉ Grammar.reservedWords := by
    decide
  have name : IsBindable word :=
    ⟨Config.isIdentifier_iff.2 (read word strict).1, (read word strict).2⟩
  exact ⟨isOneConstant_of_isBindable name bindable language, fun h => h.2 strict⟩

/-- The names of a valid configuration are identifiers.  If they are no reserved words either, the
binding is read as a constant in every language, recognised unless the accessor is exported under
the name `undefined`.  A new import goes by a name for which the same holds, reads as one import of
the accessor in every list of names, and as a statement imports it as a value and nothing else, if
the module specifier can stand between its quotes. -/
theorem valid_names_bind {c : Config} (valid : c.validate = .ok ()) (root : Path)
    (exportFree : c.accessorExport ∉ Grammar.reservedWords)
    (bindingFree : c.accessorBinding ∉ Grammar.reservedWords) :
    let a := Accessor.ofConfig c root
    IsBindable a.exportName ∧ IsBindable a.binding ∧
      (∀ language, BindingStatement.IsOneConstant language ⟨a.binding, a.exportName⟩) ∧
      ∀ s file t, (Imports.ofSource s file a t).accessorLocal = none →
        let i := Imports.ofSource s file a t
        i.ReadsInLists a ∧
          (∀ language, BindingStatement.IsOneConstant language ⟨a.binding, i.callee a⟩) ∧
          (IsQuotable i.quote (a.specifierFor file) →
            ∀ language, i.IsOneImport a file t language) := by
  intro a
  have names := Config.validate_eq_ok_iff.1 valid
  have exportName : IsBindable a.exportName := ⟨names.exportName, exportFree⟩
  have binding : IsBindable a.binding := ⟨names.binding, bindingFree⟩
  refine ⟨exportName, binding, isOneConstant_of_isBindable binding exportName, ?_⟩
  intro s file t absent i
  have aliasOnly := Imports.aliasOnly_ofSource s file a t
  refine ⟨Imports.readsInLists aliasOnly exportName.isName absent, ?_, ?_⟩
  · exact isOneConstant_of_isBindable binding (isBindable_callee aliasOnly absent exportName)
  · exact Imports.isOneImport_ofSource s file a t absent exportName.isName

/-- In a module that has the name already, the accessor goes by an alias. -/
theorem valid_names_bind_taken :
    let a := Accessor.ofConfig {} ⟨"/project"⟩
    let file : Path := ⟨"/project/src/Card.tsx"⟩
    Config.validate {} = .ok () ∧ Config.accessorExport {} ∉ Grammar.reservedWords ∧
      Config.accessorBinding {} ∉ Grammar.reservedWords ∧
      BindingStatement.IsOneConstant .tsx ⟨"theme", "useTheme"⟩ ∧
      ∃ s, Source.parse .tsx "const useTheme = 1;" = .ok s ∧
        let i := Imports.ofSource s file a standard.tsconfig
        i.newStatement a file = "import \x7b useTheme as useThemeAccessor \x7d from '@/theme';" ∧
          i.ReadsInLists a ∧ i.IsOneImport a file standard.tsconfig .tsx ∧
          BindingStatement.IsOneConstant .tsx ⟨"theme", "useThemeAccessor"⟩ := by
  intro a file
  have exportFree : Config.accessorExport {} ∉ Grammar.reservedWords := by decide
  have bindingFree : Config.accessorBinding {} ∉ Grammar.reservedWords := by decide
  have facts : (Source.parse .tsx "const useTheme = 1;").toOption.any (fun s =>
      let i := Imports.ofSource s file a standard.tsconfig
      i.accessorLocal == none &&
        (i.newStatement a file == "import \x7b useTheme as useThemeAccessor \x7d from '@/theme';" &&
          (i.callee a == "useThemeAccessor" && i.quote == '\''))) = true := by
    decide +kernel
  obtain ⟨s, read, facts⟩ := exists_ok_of_any facts
  simp only [Bool.and_eq_true, beq_iff_eq] at facts
  obtain ⟨absent, statement, callee, quote⟩ := facts
  obtain ⟨-, -, alone, imported⟩ :=
    valid_names_bind (c := {}) rfl ⟨"/project"⟩ exportFree bindingFree
  obtain ⟨inLists, bound, asStatement⟩ := imported s file standard.tsconfig absent
  have quotable : IsQuotable (Imports.ofSource s file a standard.tsconfig).quote
      (a.specifierFor file) := by
    rw [quote]
    decide +kernel
  exact ⟨rfl, exportFree, bindingFree, alone .tsx, s, read, statement, inLists,
    asStatement quotable .tsx, callee ▸ bound .tsx⟩

/-- If the names of a valid configuration are no words of strict code either, a module can declare
the binding and what a new import of the accessor is called. -/
theorem isModuleBindable_of_valid {c : Config} (valid : c.validate = .ok ()) (root : Path)
    (exportFree : c.accessorExport ∉ Grammar.reservedWords ++ Grammar.strictWords)
    (bindingFree : c.accessorBinding ∉ Grammar.reservedWords ++ Grammar.strictWords) :
    let a := Accessor.ofConfig c root
    IsModuleBindable a.binding ∧
      ∀ s file t, (Imports.ofSource s file a t).accessorLocal = none →
        IsModuleBindable ((Imports.ofSource s file a t).callee a) := by
  intro a
  have names := Config.validate_eq_ok_iff.1 valid
  rw [List.mem_append, not_or] at exportFree bindingFree
  refine ⟨⟨⟨names.binding, bindingFree.1⟩, bindingFree.2⟩, fun s file t absent => ?_⟩
  have aliasOnly := Imports.aliasOnly_ofSource s file a t
  rcases callee_eq_or_isModuleBindable aliasOnly absent names.exportName with same | other
  · rw [same]
    exact ⟨⟨names.exportName, exportFree.1⟩, exportFree.2⟩
  · exact other

/-- A reserved word passes the check, and no declaration can call the accessor under it. -/
theorem reserved_word_accepted :
    let c : Config := { accessor := { exportName := some "class" } }
    c.validate = .ok () ∧ ¬IsBindable c.accessorExport ∧
      ∀ language,
        ¬BindingStatement.IsOneConstant language ⟨c.accessorBinding, c.accessorExport⟩ := by
  intro c
  have refused : ∀ language, (Source.parse language "const theme = class();").isOk = false := by
    rintro ⟨⟩ <;> decide +kernel
  refine ⟨by decide, fun bindable => bindable.2 (by decide), ?_⟩
  rintro language ⟨s, -, read, -⟩
  have accepted := refused language
  rw [show Source.parse language "const theme = class();" = .ok s from read] at accepted
  cases accepted

end ThemeMigration.Migration
