import ThemeMigration.CommandLine
import ThemeMigration.Proofs.Run.Acceptance
import ThemeMigration.Proofs.Run.Isolation

/-!
# How the program ends

An error undoes nothing, so it leaves the tree as it is only because all that can end the program
with an error is checked before the first source file is read.  Once the files of the run are
discovered, the program ends without an error, whatever becomes of them and in whatever way its
workers get through them.
-/

namespace ThemeMigration.CommandLine

variable {t : FileTree} {environment : Config.Environment} {a : Arguments}
  {arguments : List String}

/-- What is settled before the first file is read: the run and its files. -/
def prepared (t : FileTree) (environment : Config.Environment) (a : Arguments) :
    Except RunError (Run × Discovery) :=
  match Config.load t a.root a.config environment a.flags with
  | .error e => .error (.config e)
  | .ok c =>
    match Run.prepare t a.root c with
    | .error e => .error e
    | .ok r =>
      match Discovery.run t r.migration.root r.config with
      | .error e => .error (.scan e)
      | .ok d => .ok (r, d)

/-- The session of the program comes to what is settled, in the tree as it was, or to what the work
on the discovered files comes to. -/
theorem start_migrate (work : Run.Work) :
    (migrate work environment a).start t =
      match prepared t environment a with
      | .error e => (.error e, t)
      | .ok (r, d) =>
        let done := work r d.files t
        (.ok (r.settle false done.1), done.2) := by
  rw [migrate, prepared, Session.start_check_bind]
  cases Config.load t a.root a.config environment a.flags with
  | error e => rfl
  | ok c =>
    simp only [Except.mapError, Session.start_check_bind]
    cases Run.prepare t a.root c with
    | error e => rfl
    | ok r =>
      simp only [Run.start_execute]
      cases Discovery.run t r.migration.root r.config <;> rfl

/-- How the program ends with arguments that it understands. -/
theorem runWith_eq (understood : read arguments = .ok a) (work : Run.Work) :
    runWith work t environment arguments =
      match prepared t environment a with
      | .error e => ⟨1, "", [coded e.code e.message], t⟩
      | .ok (r, d) =>
        let done := work r d.files t
        let result := r.settle false done.1
        ⟨0, a.written result.value, result.errors.map fun e => coded e.code e.message,
          done.2⟩ := by
  rw [runWith, understood]
  simp only [start_migrate]
  cases prepared t environment a <;> rfl

/-! ## Accepted arguments -/

/-- A configuration that comes of arguments, and all that a run with it needs. -/
structure Accepts (t : FileTree) (environment : Config.Environment) (a : Arguments) (c : Config) :
    Prop where
  loaded : ∃ file, Config.ofFile t a.root a.config = .ok file ∧
    (file.merge (.ofEnvironment environment)).merge (.ofFlags a.flags) = c
  valid : c.firstFault? = none
  root : t.isDirectory a.root = true
  patterns : c.project.patterns ≠ []
  tsconfig : ∃ real, t.realPath? a.root = some real ∧
    ∃ path, c.tsconfigPath real = .ok path ∧ ∃ tsconfig, TsConfig.load t path = .ok tsconfig
  mapping : ∀ e ∈ c.mapping.colors.entries,
    TokenTable.entryFault? "mapping.colors" e.1 e.2 = none
  globs : ∀ pattern ∈ c.project.patterns ++ c.exclude, ∃ g, Discovery.readGlob pattern = .ok g

theorem prepared_eq_ok_iff {r : Run} {d : Discovery} :
    prepared t environment a = .ok (r, d) ↔
      ∃ c, Config.load t a.root a.config environment a.flags = .ok c ∧
        Run.prepare t a.root c = .ok r ∧
        Discovery.run t r.migration.root r.config = .ok d := by
  rw [prepared]
  cases Config.load t a.root a.config environment a.flags with
  | error e => simp
  | ok c =>
    simp only [Except.ok.injEq, exists_eq_left']
    cases Run.prepare t a.root c with
    | error e => simp
    | ok r' =>
      simp only [Except.ok.injEq]
      cases found : Discovery.run t r'.migration.root r'.config with
      | error e =>
        simp only [reduceCtorEq, false_iff, not_and]
        rintro rfl
        rw [found]
        exact nofun
      | ok d' =>
        simp only [Except.ok.injEq, Prod.mk.injEq]
        constructor
        · rintro ⟨rfl, rfl⟩
          exact ⟨rfl, found⟩
        · rintro ⟨rfl, found'⟩
          exact ⟨rfl, Except.ok.inj (found.symm.trans found')⟩

/-- A run is ready exactly if a configuration comes of the arguments that is accepted. -/
theorem exists_prepared_iff (wellFormed : t.WellFormed) :
    (∃ x, prepared t environment a = .ok x) ↔ ∃ c, Accepts t environment a c := by
  constructor
  · rintro ⟨⟨r, d⟩, ready⟩
    rcases prepared_eq_ok_iff.1 ready with ⟨c, loaded, made, found⟩
    rcases Config.load_eq_ok_iff.1 loaded with ⟨file, read, merged, valid⟩
    rcases Run.exists_prepare_iff.1 ⟨r, made⟩ with ⟨patterns, tsconfig, mapping⟩
    rcases Discovery.exists_run_iff.1 ⟨d, found⟩ with ⟨directory, globs⟩
    rcases Run.prepare_eq_ok_iff.1 made with ⟨rfl, _, real, resolved, _, _, _, _, migration⟩
    rw [Migration.root_of_ofConfig migration, FileTree.isDirectory,
      FileTree.find_realPath wellFormed resolved] at directory
    exact ⟨_, ⟨file, read, merged⟩, valid, directory, patterns, tsconfig, mapping, globs⟩
  · rintro ⟨c, accepts⟩
    rcases accepts.loaded with ⟨file, read, merged⟩
    have loaded := Config.load_eq_ok_iff.2 ⟨file, read, merged, accepts.valid⟩
    rcases Run.exists_prepare_iff.2 ⟨accepts.patterns, accepts.tsconfig, accepts.mapping⟩ with
      ⟨r, made⟩
    rcases Run.prepare_eq_ok_iff.1 made with ⟨rfl, _, real, resolved, _, _, _, _, migration⟩
    have directory : t.isDirectory r.migration.root = true := by
      rw [Migration.root_of_ofConfig migration, FileTree.isDirectory,
        FileTree.find_realPath wellFormed resolved]
      exact accepts.root
    rcases Discovery.exists_run_iff.2 ⟨directory, accepts.globs⟩ with ⟨d, found⟩
    exact ⟨(r, d), prepared_eq_ok_iff.2 ⟨_, loaded, made, found⟩⟩

/-! ## Ways to end -/

/-- The ways in which the program can end: those with any work that goes by courses of runs in which
the system refuses so much. -/
def Ends (t : FileTree) (environment : Config.Environment) (arguments : List String)
    (f : Path → Refusals) (exit : Exit) : Prop :=
  ∃ work : Run.Work, work.GoesByCourses f ∧ runWith work t environment arguments = exit

/-- The program ends with the report of a course over the discovered files. -/
def Reports (t : FileTree) (environment : Config.Environment) (a : Arguments)
    (f : Path → Refusals) (exit : Exit) : Prop :=
  ∃ (r : Run) (d : Discovery) (c : Run.Course r t f d.files),
    prepared t environment a = .ok (r, d) ∧ c.cancelled = false ∧
      exit = ⟨0, a.written c.result.value,
        c.result.errors.map fun e => coded e.code e.message, c.tree⟩

/-- The program ends with an error that was found before a file was read, or with the report of a
course. -/
theorem ends_cases (wellFormed : t.WellFormed) (understood : read arguments = .ok a)
    {f : Path → Refusals} {exit : Exit} (ends : Ends t environment arguments f exit) :
    (∃ e, prepared t environment a = .error e ∧
        exit = ⟨1, "", [coded e.code e.message], t⟩) ∨
      Reports t environment a f exit := by
  rcases ends with ⟨work, courses, rfl⟩
  rw [runWith_eq understood]
  cases ready : prepared t environment a with
  | error e => exact Or.inl ⟨e, rfl, rfl⟩
  | ok x =>
    rcases x with ⟨r, d⟩
    rcases prepared_eq_ok_iff.1 ready with ⟨_, _, _, found⟩
    rcases courses r d.files t (Discovery.keepsApart wellFormed found).distinct with
      ⟨c, active, done⟩
    refine Or.inr ⟨r, d, c, ready, active, ?_⟩
    simp only [done, Run.Course.result, active]

/-- An error of the program leaves every file as it was, whatever the system refuses and in whatever
way the workers get through the files of a run.  The program ends without an error exactly if a
configuration comes of the arguments that is accepted, whatever becomes of the files, and then with
the report of a course. -/
theorem exit_zero_iff_accepts (wellFormed : t.WellFormed) (understood : read arguments = .ok a) :
    Ends t environment arguments (fun _ => {}) (run t environment arguments) ∧
      ∀ f, (∃ exit, Ends t environment arguments f exit) ∧
        ∀ exit, Ends t environment arguments f exit →
          (exit.code ≠ 0 → exit.tree = t) ∧
            (exit.code = 0 ↔ ∃ c, Accepts t environment a c) ∧
            (exit.code = 0 → Reports t environment a f exit) := by
  refine ⟨⟨Run.inTurn, Run.goesByCourses_inTurn, rfl⟩, fun f => ⟨?_, fun exit ends => ?_⟩⟩
  · rcases Run.exists_goesByCourses f with ⟨work, courses⟩
    exact ⟨_, work, courses, rfl⟩
  rw [← exists_prepared_iff wellFormed]
  rcases ends_cases wellFormed understood ends with ⟨e, refused, rfl⟩ | reports
  · exact ⟨fun _ => rfl, by simp [refused], nofun⟩
  · have reports' := reports
    rcases reports' with ⟨r, d, c, ready, active, rfl⟩
    exact ⟨fun failed => absurd rfl failed, by simp [ready], fun _ => reports⟩

/-- A project with a file that is not UTF-8 is accepted, and the program ends without an error. -/
theorem exit_zero_mixed :
    let arguments := ["*.tsx", "--tsconfig", "tsconfig.json", "--root=/project"]
    let a : Arguments := ⟨["*.tsx"], "tsconfig.json", ⟨"/project"⟩, none, false, none, false⟩
    let c : Config := { project := ⟨some "tsconfig.json", ["*.tsx"]⟩ }
    Run.Mixed.project.WellFormed ∧ read arguments = .ok a ∧ Accepts Run.Mixed.project [] a c ∧
      (run Run.Mixed.project [] arguments).code = 0 := by
  intro arguments a c
  have understood : read arguments = .ok a := by decide +kernel
  have chain : ∃ tsconfig, TsConfig.load Run.Mixed.project ⟨"/project/tsconfig.json"⟩ =
      .ok tsconfig := by
    rcases Migration.exists_ok_of_any (p := fun _ => true)
      (x := TsConfig.load Run.Mixed.project ⟨"/project/tsconfig.json"⟩) (by decide +kernel) with
      ⟨tsconfig, loaded, _⟩
    exact ⟨tsconfig, loaded⟩
  have globs : (c.project.patterns ++ c.exclude).all
      (fun pattern => (Discovery.readGlob pattern).toOption.any fun _ => true) = true := by
    decide +kernel
  have read : ∀ pattern ∈ c.project.patterns ++ c.exclude,
      ∃ g, Discovery.readGlob pattern = .ok g := by
    intro pattern member
    rcases Migration.exists_ok_of_any (List.all_eq_true.1 globs pattern member) with ⟨g, read, _⟩
    exact ⟨g, read⟩
  have accepts : Accepts Run.Mixed.project [] a c :=
    { loaded := ⟨{}, by decide +kernel, by decide +kernel⟩
      valid := by decide +kernel
      root := by decide +kernel
      patterns := List.cons_ne_nil _ _
      tsconfig := ⟨⟨"/project"⟩, by decide +kernel, ⟨"/project/tsconfig.json"⟩,
        by decide +kernel, chain⟩
      mapping := by decide +kernel
      globs := read }
  rcases exit_zero_iff_accepts Run.Mixed.wellFormed understood with ⟨ends, decides⟩
  exact ⟨Run.Mixed.wellFormed, understood, accepts, ((decides _).2 _ ends).2.1.2 ⟨c, accepts⟩⟩

end ThemeMigration.CommandLine
