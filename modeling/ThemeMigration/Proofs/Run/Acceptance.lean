import ThemeMigration.Config.Load
import ThemeMigration.Proofs.TokenTable.Overriding
import ThemeMigration.Run

/-!
# What a run needs

A configuration is loaded, a run is prepared and its files are discovered, unless one of the stages
refuses what it is given.  Each stage accepts exactly what can be said of its input: a file of
settings that is read and a valid result, a directory, patterns, a chain of `tsconfig` files,
colours with their expressions, and globs.
-/

namespace ThemeMigration

/-- A list is read if each member is. -/
theorem exists_mapM_iff {ε α β : Type} {f : α → Except ε β} {xs : List α} :
    (∃ ys, xs.mapM f = .ok ys) ↔ ∀ x ∈ xs, ∃ y, f x = .ok y := by
  induction xs with
  | nil => simp [pure, Except.pure]
  | cons x xs ih =>
    rw [List.mapM_cons, List.forall_mem_cons, ← ih]
    cases f x with
    | error e => simp [bind, Except.bind]
    | ok y => cases xs.mapM f <;> simp [bind, Except.bind, pure, Except.pure]

theorem mem_mapM_iff {ε α β : Type} {f : α → Except ε β} {xs : List α} {ys : List β}
    (read : xs.mapM f = .ok ys) {y : β} : y ∈ ys ↔ ∃ x ∈ xs, f x = .ok y := by
  induction xs generalizing ys with
  | nil =>
    cases read
    simp
  | cons x xs ih =>
    rw [List.mapM_cons] at read
    cases first : f x with
    | error e =>
      rw [first] at read
      cases read
    | ok z =>
      rw [first] at read
      cases rest : xs.mapM f with
      | error e =>
        rw [rest] at read
        cases read
      | ok zs =>
        rw [rest] at read
        cases read
        simp [first, ih rest, eq_comm]

namespace Config

/-- A configuration over one in which nothing is set is as it was. -/
theorem merge_blank (c : Config) : ({} : Config).merge c = c := by
  have list : ∀ {α : Type} (xs : List α), overrideList [] xs = xs := by
    intro α xs
    cases xs <;> rfl
  have table : KeyTable.empty.putAll c.mapping.colors.entries = c.mapping.colors :=
    KeyTable.ofList_entries c.mapping.colors
  rcases c with ⟨⟨_, _⟩, ⟨_, _, _, _, _⟩, ⟨_, _, _, _, _⟩, ⟨_⟩, ⟨_⟩, ⟨_, _⟩⟩
  simp only [merge, override, Option.or_none, list, table]

theorem layers_eq (file : Config) (environment : Environment) (flags : Flags) :
    layers file environment flags =
      (file.merge (ofEnvironment environment)).merge (ofFlags flags) := by
  rw [layers, merge_blank]

theorem load_eq_ok_iff {t : FileTree} {root : Path} {named : Option Path}
    {environment : Environment} {flags : Flags} {c : Config} :
    load t root named environment flags = .ok c ↔
      ∃ file, ofFile t root named = .ok file ∧
        (file.merge (ofEnvironment environment)).merge (ofFlags flags) = c ∧
        c.firstFault? = none := by
  rw [load]
  cases ofFile t root named with
  | error e => simp [bind, Except.bind]
  | ok file =>
    simp only [bind, Except.bind, layers_eq, validate, Except.ok.injEq, exists_eq_left']
    cases fault : ((file.merge (ofEnvironment environment)).merge (ofFlags flags)).firstFault? with
    | none =>
      simp only [pure, Except.pure, Except.ok.injEq]
      constructor
      · rintro rfl
        exact ⟨rfl, fault⟩
      · exact fun h => h.1
    | some e =>
      simp only [reduceCtorEq, false_iff, not_and]
      rintro rfl
      rw [fault]
      exact nofun

end Config

theorem Migration.exists_ofConfig_iff {c : Config} {root : Path} {t : TsConfig} :
    (∃ m, Migration.ofConfig c root t = .ok m) ↔
      ∀ e ∈ c.mapping.colors.entries, TokenTable.entryFault? "mapping.colors" e.1 e.2 = none := by
  rw [← TokenTable.exists_ofConfig_iff, Migration.ofConfig]
  cases TokenTable.ofConfig c.mapping <;> simp [Except.map]

theorem Migration.root_of_ofConfig {c : Config} {root : Path} {t : TsConfig} {m : Migration}
    (made : Migration.ofConfig c root t = .ok m) : m.root = root := by
  rw [Migration.ofConfig] at made
  cases tokens : TokenTable.ofConfig c.mapping with
  | error e =>
    rw [tokens] at made
    cases made
  | ok table =>
    rw [tokens] at made
    cases made
    rfl

namespace Run

variable {t : FileTree} {root : Path} {c : Config} {r : Run}

theorem prepare_eq_ok_iff :
    prepare t root c = .ok r ↔
      r.config = c ∧ c.project.patterns ≠ [] ∧ ∃ real, t.realPath? root = some real ∧
        ∃ path, c.tsconfigPath real = .ok path ∧ ∃ tsconfig, TsConfig.load t path = .ok tsconfig ∧
          Migration.ofConfig c real tsconfig = .ok r.migration := by
  rw [prepare]
  cases t.realPath? root with
  | none => simp
  | some real =>
    simp only [Option.some.injEq, exists_eq_left', List.isEmpty_iff]
    split
    · rename_i none
      simp [none]
    · rename_i some
      cases c.tsconfigPath real with
      | error e => simp [bind, Except.bind]
      | ok path =>
        cases loaded : TsConfig.load t path with
        | error e => simp [bind, Except.bind, loaded]
        | ok tsconfig =>
          simp only [bind, Except.bind, loaded, Except.ok.injEq, exists_eq_left']
          rcases r with ⟨config, migration⟩
          cases Migration.ofConfig c real tsconfig <;> simp [some, eq_comm]

theorem exists_prepare_iff :
    (∃ r, prepare t root c = .ok r) ↔
      c.project.patterns ≠ [] ∧ (∃ real, t.realPath? root = some real ∧
        ∃ path, c.tsconfigPath real = .ok path ∧ ∃ tsconfig, TsConfig.load t path = .ok tsconfig) ∧
      ∀ e ∈ c.mapping.colors.entries, TokenTable.entryFault? "mapping.colors" e.1 e.2 = none := by
  constructor
  · rintro ⟨r, prepared⟩
    rcases prepare_eq_ok_iff.1 prepared with ⟨_, some, real, resolved, path, named, tsconfig,
      loaded, made⟩
    exact ⟨some, ⟨real, resolved, path, named, tsconfig, loaded⟩,
      Migration.exists_ofConfig_iff.1 ⟨_, made⟩⟩
  · rintro ⟨some, ⟨real, resolved, path, named, tsconfig, loaded⟩, mapping⟩
    rcases Migration.exists_ofConfig_iff.2 mapping with ⟨m, made⟩
    exact ⟨⟨c, m⟩, prepare_eq_ok_iff.2 ⟨rfl, some, real, resolved, path, named, tsconfig, loaded,
      made⟩⟩

end Run

namespace Discovery

variable {t : FileTree} {root : Path} {c : Config}

theorem Filter.exists_ofConfig_iff :
    (∃ f, Filter.ofConfig c = .ok f) ↔
      ∀ pattern ∈ c.project.patterns ++ c.exclude, ∃ g, readGlob pattern = .ok g := by
  rw [List.forall_mem_append, ← exists_mapM_iff, ← exists_mapM_iff, Filter.ofConfig]
  cases c.project.patterns.mapM readGlob with
  | error e => simp [bind, Except.bind]
  | ok patterns =>
    cases c.exclude.mapM readGlob <;> simp [bind, Except.bind, pure, Except.pure]

theorem exists_run_iff :
    (∃ d, Discovery.run t root c = .ok d) ↔ t.isDirectory root = true ∧
      ∀ pattern ∈ c.project.patterns ++ c.exclude, ∃ g, readGlob pattern = .ok g := by
  rw [← Filter.exists_ofConfig_iff, Discovery.run, FileTree.isDirectory]
  rcases t.find root with fault | ⟨start, _ | content⟩
  · simp
  · simp only [true_and]
    cases Filter.ofConfig c <;> simp [bind, Except.bind, pure, Except.pure]
  · simp

end Discovery

end ThemeMigration
