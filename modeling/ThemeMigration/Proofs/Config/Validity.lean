import Mathlib.Data.List.Basic
import ThemeMigration.Config.Basic

/-!
# What a valid configuration has

The check looks at one setting after the other and stops at the first fault.  It finds none exactly
if the limit on the size of a file is not zero, the modules of the accessor have names that are not
blank, and the accessor and its binding are called by identifiers.
-/

namespace ThemeMigration.Config

/-- A text with a character that is not blank. -/
def HasInk (s : String) : Prop := ∃ c ∈ s.toList, Text.isBlank c = false

/-- A name of ASCII letters, digits, underscores and dollar signs that begins with no digit. -/
def IsIdentifier (s : String) : Prop :=
  ∃ c cs, s.toList = c :: cs ∧ isNameStart c = true ∧
    ∀ d ∈ cs, isNameStart d = true ∨ d.isDigit = true

/-- A configuration that a run can work with. -/
structure Valid (c : Config) : Prop where
  maxFileSize : c.scan.maxFileSize ≠ some 0
  moduleName : HasInk c.accessorModule
  exportName : IsIdentifier c.accessorExport
  binding : IsIdentifier c.accessorBinding
  overrides : ∀ o ∈ c.accessor.overrides, HasInk o.moduleName

theorem hasInk_iff {s : String} : HasInk s ↔ Text.allBlank s = false := by
  simp [HasInk, Text.allBlank]

theorem isIdentifier_iff {s : String} : IsIdentifier s ↔ isName s = true := by
  rw [IsIdentifier, isName]
  cases s.toList with
  | nil => simp
  | cons c cs =>
    simp only [Bool.and_eq_true, List.all_eq_true, Bool.or_eq_true]
    constructor
    · rintro ⟨_, _, ⟨⟩, first, later⟩
      exact ⟨first, later⟩
    · rintro ⟨first, later⟩
      exact ⟨c, cs, rfl, first, later⟩

/-- A fault that is found first hides those behind it. -/
theorem guard_eq_none_iff {fault : Bool} {e : ConfigError} {rest : Option ConfigError} :
    (if fault then some e else rest) = none ↔ fault = false ∧ rest = none := by
  cases fault <;> simp

theorem firstFault?_eq_none_iff {c : Config} : c.firstFault? = none ↔ c.Valid := by
  simp only [firstFault?, guard_eq_none_iff, Option.map_eq_none_iff, List.findIdx?_eq_none_iff,
    beq_eq_false_iff_ne, Bool.not_eq_false', ← hasInk_iff, ← isIdentifier_iff]
  constructor
  · rintro ⟨maxFileSize, moduleName, exportName, binding, overrides⟩
    exact ⟨maxFileSize, moduleName, exportName, binding, overrides⟩
  · rintro ⟨maxFileSize, moduleName, exportName, binding, overrides⟩
    exact ⟨maxFileSize, moduleName, exportName, binding, overrides⟩

theorem validate_eq_ok_iff {c : Config} : c.validate = .ok () ↔ c.Valid := by
  rw [← firstFault?_eq_none_iff, validate]
  cases c.firstFault? <;> simp

end ThemeMigration.Config
