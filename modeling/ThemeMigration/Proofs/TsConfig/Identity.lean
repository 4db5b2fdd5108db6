import Mathlib.Data.Setoid.Basic
import ThemeMigration.Accessor

/-!
# Which module a specifier names

A specifier is known by the key of the module that it resolves to, or by itself where it resolves
to none.  Two specifiers name the same module exactly if they are known by the same, whichever way
they are resolved, so this is an equivalence, and a package that nothing leads to is the same as
itself alone.  The specifiers of the accessor module are those of the classes of its configured
spellings.
-/

namespace ThemeMigration

namespace TsConfig

/-- What a specifier in a file is known by: its module, or its own text. -/
def identity (t : TsConfig) (file : Path) (specifier : String) : String ⊕ List Path.Component :=
  match t.resolve? specifier file with
  | some p => .inr p.components
  | none => .inl specifier

variable {t : TsConfig} {file : Path} {s u : String}

theorem identity_of_resolved {p : Path} (resolved : t.resolve? s file = some p) :
    t.identity file s = .inr p.components := by
  rw [identity, resolved]

theorem identity_of_unknown (unknown : t.resolve? s file = none) :
    t.identity file s = .inl s := by
  rw [identity, unknown]

theorem sameModule_iff :
    t.sameModule s u file = true ↔ t.identity file s = t.identity file u := by
  have different (other : t.resolve? s file ≠ t.resolve? u file) : s ≠ u :=
    fun same => other (congrArg (t.resolve? · file) same)
  rw [sameModule, Bool.or_eq_true, beq_iff_eq]
  cases first : t.resolve? s file with
  | none =>
    rw [identity_of_unknown first]
    cases second : t.resolve? u file with
    | none => simp [identity_of_unknown second]
    | some q => simp [identity_of_resolved second, different (by simp [first, second])]
  | some p =>
    rw [identity_of_resolved first]
    cases second : t.resolve? u file with
    | none => simp [identity_of_unknown second, different (by simp [first, second])]
    | some q =>
      change s = u ∨ (p.components == q.components) = true ↔ _
      rw [identity_of_resolved second, beq_iff_eq, Sum.inr.injEq, or_iff_right_iff_imp]
      rintro rfl
      rw [first] at second
      rw [Option.some.inj second]

theorem sameModule_equivalence (t : TsConfig) (file : Path) :
    Equivalence fun s u => t.sameModule s u file = true := by
  simp only [sameModule_iff]
  exact (Setoid.ker (t.identity file)).iseqv

/-- A package that nothing leads to is no other module. -/
theorem sameModule_of_unknown (unknown : t.resolve? s file = none) :
    t.sameModule s u file = true ↔ s = u := by
  rw [sameModule, unknown, Bool.or_false, beq_iff_eq]

end TsConfig

namespace Accessor

variable {a : Accessor} {t : TsConfig} {file : Path} {s u : String}

/-- The specifiers of the accessor module are those of the modules of its spellings. -/
theorem namesModule_iff :
    a.namesModule t s file = true ↔
      ∃ spelling ∈ a.spellings file, t.sameModule spelling s file = true := by
  rw [namesModule_eq_any, List.any_eq_true]
  exact exists_congr fun spelling => and_congr_right fun _ =>
    ⟨(t.sameModule_equivalence file).symm, (t.sameModule_equivalence file).symm⟩

theorem namesModule_of_mem (member : s ∈ a.spellings file) : a.namesModule t s file = true :=
  namesModule_iff.2 ⟨s, member, (t.sameModule_equivalence file).refl s⟩

theorem namesModule_of_same (names : a.namesModule t s file = true)
    (same : t.sameModule s u file = true) : a.namesModule t u file = true := by
  rcases namesModule_iff.1 names with ⟨spelling, member, first⟩
  exact namesModule_iff.2 ⟨spelling, member, (t.sameModule_equivalence file).trans first same⟩

/-- The specifier that the first override that holds for the file gives is a spelling. -/
theorem override_mem_spellings {o : PathOverride}
    (chosen : a.overrides.find? (overrideHolds (file.below a.root)) = some o) :
    o.moduleName ∈ a.spellings file := by
  rw [spellings, specifierFor, chosen]
  exact List.mem_cons_of_mem _ List.mem_cons_self

/-- To name the same module is an equivalence of specifiers, under which a package that nothing
leads to is alone.  The accessor is imported through the specifiers that name the same module as a
configured spelling: its module, the override for the file, or an alias; so with one specifier of a
module all of them are accepted. -/
theorem accessor_recognized (t : TsConfig) (file : Path) :
    Equivalence (fun s u => t.sameModule s u file = true) ∧
      (∀ s u, t.resolve? s file = none → (t.sameModule s u file = true ↔ s = u)) ∧
      ∀ a : Accessor,
        a.namesModule t a.moduleName file = true ∧
        (∀ o, a.overrides.find? (overrideHolds (file.below a.root)) = some o →
          a.namesModule t o.moduleName file = true) ∧
        (∀ s ∈ a.aliases, a.namesModule t s file = true) ∧
        (∀ s, a.namesModule t s file = true ↔
          ∃ spelling ∈ a.spellings file, t.sameModule spelling s file = true) ∧
        ∀ s u, a.namesModule t s file = true → t.sameModule s u file = true →
          a.namesModule t u file = true := by
  refine ⟨t.sameModule_equivalence file, fun s u => TsConfig.sameModule_of_unknown, fun a => ?_⟩
  refine ⟨namesModule_of_mem List.mem_cons_self, ?_, ?_, fun s => namesModule_iff, ?_⟩
  · intro o chosen
    exact namesModule_of_mem (override_mem_spellings chosen)
  · intro s member
    exact namesModule_of_mem (List.mem_cons_of_mem _ (List.mem_cons_of_mem _ member))
  · intro s u names same
    exact namesModule_of_same names same

/-- A module that is reached through the path map and by a relative specifier, and a package under
an alias that nothing leads to. -/
theorem accessor_recognized_mapped :
    let root : Path := ⟨"/project"⟩
    let t : TsConfig := ⟨⟨"/project/tsconfig.json"⟩, none, [("@/*", ["src/*"])], root⟩
    let file : Path := ⟨"/project/src/ui/Card.tsx"⟩
    let o : PathOverride := ⟨"src/ui/", "./theme"⟩
    let a : Accessor := ⟨"@/theme", "useTheme", "theme", ["theme-kit"], [o], root⟩
    (t.sameModule "@/theme" "../theme/index.ts" file = true ∧
        a.namesModule t "../theme/index.ts" file = true) ∧
      a.namesModule t "./theme" file = true ∧
      (t.resolve? "theme-kit" file = none ∧ a.namesModule t "theme-kit" file = true ∧
        t.sameModule "theme-kit" "./theme-kit" file = false) := by
  intro root t file o a
  have recognized := accessor_recognized t file
  have mapped : t.sameModule "@/theme" "../theme/index.ts" file = true := by decide +kernel
  have chosen : a.overrides.find? (overrideHolds (file.below a.root)) =
      some o := by decide +kernel
  have unknown : t.resolve? "theme-kit" file = none := by decide +kernel
  rcases recognized.2.2 a with ⟨ofModule, ofOverride, ofAlias, _, closed⟩
  refine ⟨⟨mapped, closed _ _ ofModule mapped⟩, ofOverride _ chosen, unknown,
    ofAlias _ List.mem_cons_self, ?_⟩
  rw [Bool.eq_false_iff]
  exact fun same => absurd ((recognized.2.1 _ _ unknown).1 same) (by decide)

end Accessor

end ThemeMigration
