import ThemeMigration.Proofs.Migration.Plan
import ThemeMigration.Proofs.TokenTable.Overriding

/-!
# Facts about single files

Whether a text is read, which of its components are changed and which of their literals are
replaced can be computed.  The lemmas here lead from such a computation to the file, the component
and the literal.  The migration for single files is that of a project without settings of its own.
-/

namespace ThemeMigration

open Script SyntaxTree

namespace Migration

/-- The migration of a project that only says where its sources are. -/
def standard : Migration where
  root := ⟨"/project"⟩
  palette := ⟨.defaults, ⟨[]⟩⟩
  accessor := .ofConfig {} ⟨"/project"⟩
  tsconfig :=
    { path := ⟨"/project/tsconfig.json"⟩, baseUrl := none, paths := [("@/*", ["src/*"])]
      pathsBase := ⟨"/project"⟩ }
  wrappers := Config.defaultWrappers
  dryRun := false

/-- The same migration with the default table written out, in which a literal is looked up without
building the table first. -/
theorem eq_of_palette {m : Migration} (defaults : m.palette = ⟨.defaults, ⟨[]⟩⟩) :
    m = { m with
      palette :=
        ⟨⟨⟨TokenTable.defaultEntries, TokenTable.defaultEntries_ordered⟩⟩, ⟨[]⟩⟩ } := by
  rw [← TokenTable.defaults_eq, ← defaults]

theorem standard_eq :
    standard = { standard with
      palette :=
        ⟨⟨⟨TokenTable.defaultEntries, TokenTable.defaultEntries_ordered⟩⟩, ⟨[]⟩⟩ } :=
  eq_of_palette rfl

theorem ofConfig_default : ofConfig {} ⟨"/project"⟩ standard.tsconfig = .ok standard := by
  rw [ofConfig, TokenTable.ofConfig_eq]
  rfl

theorem exists_ok_of_any {ε α : Type} {x : Except ε α} {p : α → Bool}
    (h : x.toOption.any p = true) : ∃ y, x = .ok y ∧ p y = true := by
  cases x with
  | error e => cases h
  | ok y => exact ⟨y, rfl, h⟩

theorem exists_ofText {path : Path} {text : String} {p : SourceFile → Bool}
    (h : (SourceFile.ofText path text).toOption.any p = true) :
    ∃ file, SourceFile.ofText path text = .ok file ∧ p file = true :=
  exists_ok_of_any h

variable {m : Migration} {file : SourceFile}

theorem exists_changed_of_any {p : Recoloring → Bool}
    (h : ((m.plan file).recolorings.any fun r => r.isEffective && p r) = true) :
    ∃ r, Changed m file r ∧ p r = true := by
  rcases List.any_eq_true.1 h with ⟨r, member, holds⟩
  rw [Bool.and_eq_true] at holds
  exact ⟨r, ⟨member, holds.1⟩, holds.2⟩

/-- A literal of a changed component is eligible if it has an edit. -/
theorem Changed.exists_eligible_of_any {r : Recoloring} (changed : Changed m file r)
    {p : PropertyLiteral → Bool}
    (h : (r.component.literals.any fun l =>
      (l.edit? m.palette file.text).isSome && p l) = true) :
    ∃ pair literal expression,
      Eligible m.palette file.text r.component.body pair literal expression ∧
        p ⟨pair, literal⟩ = true := by
  rcases List.any_eq_true.1 h with ⟨⟨pair, literal⟩, found, holds⟩
  rw [Bool.and_eq_true] at holds
  rcases Option.isSome_iff_exists.1 holds.1 with ⟨e, edited⟩
  rcases Eligible.of_edit? changed.body_wellFormed found edited with ⟨expression, eligible, _⟩
  exact ⟨pair, literal, expression, eligible, holds.2⟩

end Migration

end ThemeMigration
