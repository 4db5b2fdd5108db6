import ThemeMigration.Proofs.Run.Isolation

/-!
# Dry runs

A dry run does everything that a run does up to writing.  Its configuration is accepted if that of
the run is, it finds the same files and comes to the same result about each; nothing but the last
step of a visit and the mark in the report asks whether the run is a dry one.  So a dry run that
no one cancels foretells the run: its errors, its report, and the files it changes.
-/

namespace ThemeMigration

/-- The configuration of a dry run, or of one that writes. -/
def Config.withDryRun (c : Config) (dryRun : Bool) : Config :=
  { c with scan := { c.scan with dryRun := some dryRun } }

namespace Migration

/-- The migration in a dry run, or in one that writes. -/
def withDryRun (m : Migration) (dryRun : Bool) : Migration := { m with dryRun }

/-- What is to be done about a file does not depend on whether it is done. -/
theorem plan_withDryRun (m : Migration) (dryRun : Bool) (file : SourceFile) :
    (m.withDryRun dryRun).plan file = m.plan file := rfl

theorem transform_withDryRun (m : Migration) (dryRun : Bool) (file : SourceFile) :
    (m.withDryRun dryRun).transform file = m.transform file := by
  rw [transform, transform, plan_withDryRun]

theorem ofConfig_withDryRun (c : Config) (dryRun : Bool) (root : Path) (t : TsConfig) :
    ofConfig (c.withDryRun dryRun) root t =
      (ofConfig c root t).map fun m => m.withDryRun dryRun := by
  rw [ofConfig, ofConfig]
  change (TokenTable.ofConfig c.mapping).map _ = _
  cases TokenTable.ofConfig c.mapping <;> rfl

end Migration

namespace Visit

variable {f : Refusals} {m : Migration} {p : Path}

/-- Where the system lets a file be written, what was read is kept. -/
theorem outcome_of_writable (writable : f.writing = none) (v : Visit) : v.outcome f m p = v := by
  cases v <;> simp [outcome, writable]

/-- What becomes of a file that can be written does not depend on whether the run is a dry one. -/
theorem foretold_withDryRun (writable : f.writing = none) (dryRun : Bool)
    (content : Except FileTree.Failure ByteArray) :
    foretold f (m.withDryRun dryRun) p content = foretold f m p content := by
  have visit : ofContent (m.withDryRun dryRun) p content = ofContent m p content := by
    simp only [ofContent, Migration.transform_withDryRun]
  rw [foretold, foretold, outcome_of_writable writable, outcome_of_writable writable, visit]

/-- The last step of a visit in a dry run. -/
theorem snd_save_of_dryRun (dry : m.dryRun = true) (t : FileTree) (v : Visit) :
    (v.save f.writing m t p).2 = t := by
  cases v with
  | changed counts text => simp only [save, FileTree.save, dry, if_true]
  | _ => rfl

end Visit

namespace Run

/-- The run as a dry one, or as one that writes. -/
def withDryRun (r : Run) (dryRun : Bool) : Run :=
  ⟨r.config.withDryRun dryRun, r.migration.withDryRun dryRun⟩

/-- A configuration is accepted or refused whether it asks for a dry run or not. -/
theorem prepare_withDryRun (t : FileTree) (root : Path) (c : Config) (dryRun : Bool) :
    prepare t root (c.withDryRun dryRun) = (prepare t root c).map fun r => r.withDryRun dryRun := by
  rw [prepare, prepare]
  cases t.realPath? root with
  | none => rfl
  | some real =>
    dsimp only
    change (if c.project.patterns.isEmpty then _ else _) = _
    split
    · rfl
    · have path : (c.withDryRun dryRun).tsconfigPath real = c.tsconfigPath real := rfl
      rw [path]
      cases c.tsconfigPath real with
      | error e => rfl
      | ok named =>
        cases loaded : TsConfig.load t named with
        | error e =>
          simp only [bind, Except.bind, loaded]
          rfl
        | ok tsconfig =>
          simp only [bind, Except.bind, loaded, Migration.ofConfig_withDryRun]
          cases Migration.ofConfig c real tsconfig <;> rfl

/-! ## Runs that no one cancels -/

namespace Moment

variable {m : Migration} {f : Path → Refusals} {t : FileTree} {files : List Path} {s : Moment}

/-- A file of the run is passed over only if the run is cancelled. -/
theorem cancelled_of_passedOver (events : List Event) {p : Path} (member : p ∈ files)
    (skipped : ((start t files).play m f events).progress p = .passedOver) :
    ((start t files).play m f events).cancelled = true := by
  refine play_induction (motive := fun s => s.progress p = .passedOver → s.cancelled = true)
    events ?_ (fun _ _ _ => rfl) ?_ skipped
  · intro skipped
    simp only [start, if_pos member] at skipped
    cases skipped
  · intro s q ih skipped
    rw [advance_cancelled]
    rw [advance] at skipped
    split at skipped
    · rcases progress_mark_cases skipped with ⟨_, marked⟩ | ⟨_, before⟩
      · cases flag : s.cancelled with
        | true => rfl
        | false =>
          rw [flag] at marked
          cases marked
      · exact ih before
    · rcases progress_mark_cases skipped with ⟨_, ⟨⟩⟩ | ⟨_, before⟩
      exact ih before
    · rcases progress_mark_cases skipped with ⟨_, ⟨⟩⟩ | ⟨_, before⟩
      exact ih before
    · exact ih skipped

/-- A dry run leaves the tree alone at every moment. -/
theorem tree_play_of_dryRun (dry : m.dryRun = true) (events : List Event) :
    (s.play m f events).tree = s.tree := by
  refine play_induction (motive := fun e => e.tree = s.tree) events rfl (fun _ same => same) ?_
  intro e p same
  rw [advance]
  split
  · exact same
  · exact same
  · exact (Visit.snd_save_of_dryRun dry e.tree _).trans same
  · exact same

end Moment

/-- The errors of visits, in their order. -/
theorem errors_recordAll (root : Path) (visits : List (Path × Visit)) :
    (recordAll root visits .blank).errors =
      visits.flatMap fun v => (Visit.alone root v).errors := by
  induction visits with
  | nil => rfl
  | cons v visits ih =>
    rw [recordAll_cons, List.flatMap_cons, ← ih]
    rfl

/-- What files come to that are all begun, as it is foretold from the tree. -/
def told (r : Run) (f : Path → Refusals) (t : FileTree) (files : List Path) : Collected Report :=
  recordAll r.migration.root
    (files.map fun p => (p, Visit.foretold (f p) r.migration p (t.read p))) .blank

theorem told_withDryRun {f : Path → Refusals} (writable : ∀ p, (f p).writing = none) (r : Run)
    (dryRun : Bool) (t : FileTree) (files : List Path) :
    (r.withDryRun dryRun).told f t files = r.told f t files := by
  have same : ∀ p, Visit.foretold (f p) (r.withDryRun dryRun).migration p (t.read p) =
      Visit.foretold (f p) r.migration p (t.read p) :=
    fun p => Visit.foretold_withDryRun (writable p) dryRun _
  simp only [told, same]
  rfl

namespace Course

section

variable {r : Run} {t : FileTree} {d : Discovery} {f : Path → Refusals}

/-- A course that no one cancels visits every file. -/
theorem visits_eq (wellFormed : t.WellFormed)
    (found : Discovery.run t r.migration.root r.config = .ok d) (c : Course r t f d.files)
    (active : c.cancelled = false) :
    c.visits = d.files.map fun p => (p, Visit.foretold (f p) r.migration p (t.read p)) := by
  rw [visits, Moment.visits, ← List.filterMap_eq_map]
  refine List.filterMap_congr fun p member => ?_
  rcases c.progress_cases member with skipped | ⟨v, finished⟩
  · have cancelled := Moment.cancelled_of_passedOver c.events member skipped
    exact absurd (active.symm.trans cancelled) Bool.false_ne_true
  · rw [finished, (c.isolated wellFormed found).finished p v finished]
    rfl

/-- A report of discovered files has no two entries of one file. -/
theorem hasDistinctFiles (wellFormed : t.WellFormed)
    (found : Discovery.run t r.migration.root r.config = .ok d) (c : Course r t f d.files)
    (active : c.cancelled = false) :
    (recordAll r.migration.root c.visits .blank).value.HasDistinctFiles := by
  have distinct := (Discovery.keepsApart wellFormed found).distinct
  rw [Report.HasDistinctFiles, files_recordAll, c.visits_eq wellFormed found active,
    List.filterMap_map, List.pairwise_filterMap]
  refine (List.nodup_iff_pairwise_ne.1 distinct).imp_of_mem ?_
  intro p q member member' different e made e' made'
  have path : ∀ {p v} {e : FileEntry}, Visit.modified? r.migration.root (p, v) = some e →
      e.path = p.below r.migration.root := by
    intro p v e made
    cases v <;> cases made
    rfl
  rw [path made, path made']
  exact Bool.eq_false_iff.2 fun same =>
    different (Discovery.below_inj wellFormed found member member' same)

/-- What a course comes to that no one cancels: what is foretold about the files. -/
theorem result_of_active (wellFormed : t.WellFormed)
    (found : Discovery.run t r.migration.root r.config = .ok d) (c : Course r t f d.files)
    (active : c.cancelled = false) :
    c.result.value =
        { (r.told f t d.files).value.finish with dryRun := r.migration.dryRun } ∧
      c.result.errors.Perm (r.told f t d.files).errors ∧
      (c.schedule.visits = c.visits → c.result.errors = (r.told f t d.files).errors) := by
  have merged : c.schedule.visits.Perm c.visits := c.merged
  have distinct := c.hasDistinctFiles wellFormed found active
  have settled : c.result = { c.schedule.result r.migration.root with
      value := { (c.schedule.result r.migration.root).value.finish with
        dryRun := r.migration.dryRun } } := by
    rw [result, settle, active]
    rfl
  rw [settled, Schedule.result_eq, told]
  rw [c.visits_eq wellFormed found active] at merged distinct ⊢
  have finished := Report.finish_eq_of_perm distinct
    (counts_recordAll_of_perm r.migration.root merged.symm) (by
      rw [files_recordAll, files_recordAll]
      exact merged.symm.filterMap _)
  refine ⟨by rw [← finished], ?_, fun inOrder => by rw [inOrder]⟩
  dsimp only
  rw [errors_recordAll, errors_recordAll]
  exact merged.flatMap_right _

end

variable {rehearsal real : Run} {t : FileTree} {f : Path → Refusals} {files : List Path}

/-- A dry run foretells a run: it leaves the tree alone, both have the same errors and the same
report but for its mark, and the entries that the run changes are those of the listed files. -/
structure Foretells (x : Course rehearsal t f files) (y : Course real t f files) : Prop where
  errors : x.result.errors.Perm y.result.errors
  errors_inOrder : x.schedule.visits = x.visits → y.schedule.visits = y.visits →
    x.result.errors = y.result.errors
  report : y.result.value = { x.result.value with dryRun := false }
  marked : x.result.value.dryRun = true
  tree : x.tree = t
  changes : ∀ l, y.tree.get? l ≠ t.get? l ↔
    ∃ e ∈ x.result.value.files, t.locate (rehearsal.migration.root ++ e.path) = .ok l

theorem foretells {r : Run} {d : Discovery} (wellFormed : t.WellFormed)
    (found : Discovery.run t r.migration.root r.config = .ok d)
    (writable : ∀ p, (f p).writing = none) (x : Course (r.withDryRun true) t f d.files)
    (y : Course (r.withDryRun false) t f d.files) (active : x.cancelled = false)
    (active' : y.cancelled = false) : x.Foretells y := by
  have same : ∀ b,
      Discovery.run t (r.withDryRun b).migration.root (r.withDryRun b).config = .ok d :=
    fun _ => found
  rcases x.result_of_active wellFormed (same true) active with ⟨report, errors, inOrder⟩
  rcases y.result_of_active wellFormed (same false) active' with ⟨report', errors', inOrder'⟩
  rw [told_withDryRun writable] at report errors inOrder report' errors' inOrder'
  have value : y.result.value = { x.result.value with dryRun := false } := by
    rw [report, report']
    rfl
  refine ⟨errors.trans errors'.symm, fun first second =>
    (inOrder first).trans (inOrder' second).symm, value, by rw [report]; rfl,
    Moment.tree_play_of_dryRun rfl x.events, fun l => ?_⟩
  have listed : x.result.value.files = y.result.value.files := by rw [value]
  have whole : ∀ p ∈ d.files, (f p).WritesWhole := by
    intro p _ fault refusal
    rw [writable p] at refusal
    cases refusal
  rw [y.get?_ne_iff wellFormed (same false) whole rfl, listed]
  constructor
  · rintro ⟨p, member, located, e, entry, path⟩
    refine ⟨e, entry, ?_⟩
    rw [path]
    exact (congrArg t.locate (Discovery.append_below wellFormed found member)).trans located
  · rintro ⟨e, entry, located⟩
    rcases y.mem_result_files.1 entry with ⟨⟨p, v⟩, visited, made⟩
    have path : e.path = p.below r.migration.root := by
      cases v <;> cases made
      rfl
    have member := (y.mem_visits.1 visited).1
    refine ⟨p, member, ?_, e, entry, path⟩
    rw [path] at located
    exact (congrArg t.locate (Discovery.append_below wellFormed found member)).symm.trans located

end Course

/-- A dry run foretells the run, for every tree and configuration: the configuration is accepted or
refused alike, the same files are discovered or the same fault is found, and if no one cancels and
the system lets all files be written, each course of the dry run foretells each course of the
run. -/
theorem dry_run_foretells {t : FileTree} {f : Path → Refusals} (wellFormed : t.WellFormed)
    (writable : ∀ p, (f p).writing = none) (root : Path) (c : Config) :
    (∀ e, prepare t root (c.withDryRun true) = .error e ↔
        prepare t root (c.withDryRun false) = .error e) ∧
      ∀ rehearsal real, prepare t root (c.withDryRun true) = .ok rehearsal →
        prepare t root (c.withDryRun false) = .ok real →
        Discovery.run t rehearsal.migration.root rehearsal.config =
            Discovery.run t real.migration.root real.config ∧
          ∀ d, Discovery.run t real.migration.root real.config = .ok d →
            ∀ (x : Course rehearsal t f d.files) (y : Course real t f d.files),
              x.cancelled = false → y.cancelled = false → x.Foretells y := by
  rw [prepare_withDryRun, prepare_withDryRun]
  cases prepare t root c with
  | error e => exact ⟨fun e' => Iff.rfl, fun rehearsal real made => by cases made⟩
  | ok r =>
    refine ⟨fun e => ?_, ?_⟩
    · simp [Except.map]
    rintro _ _ ⟨⟩ ⟨⟩
    exact ⟨rfl, fun d found x y active active' =>
      Course.foretells wellFormed found writable x y active active'⟩

/-- A dry run of a project with one file to change, and the run that it foretells. -/
theorem dry_run_foretells_mixed :
    Mixed.project.WellFormed ∧ ∃ rehearsal real d,
      prepare Mixed.project ⟨"/project"⟩ (Mixed.config.withDryRun true) = .ok rehearsal ∧
        prepare Mixed.project ⟨"/project"⟩ (Mixed.config.withDryRun false) = .ok real ∧
        Discovery.run Mixed.project real.migration.root real.config = .ok d ∧
        ∃ (x : Course rehearsal Mixed.project (fun _ => {}) d.files)
          (y : Course real Mixed.project (fun _ => {}) d.files),
          x.cancelled = false ∧ y.cancelled = false ∧ x.Foretells y ∧
            ∃ n, ⟨⟨"Card.tsx"⟩, n⟩ ∈ x.result.value.files := by
  rcases Mixed.exists_discovery with ⟨⟨files, large, excluded⟩, found, rfl : files = Mixed.files⟩
  let d : Discovery := ⟨Mixed.files, large, excluded⟩
  have prepared : ∀ b, prepare Mixed.project ⟨"/project"⟩ (Mixed.config.withDryRun b) =
      .ok (Mixed.run.withDryRun b) := by
    intro b
    rw [prepare_withDryRun, Mixed.prepare_project]
    rfl
  have distinct : Mixed.files.Nodup := by decide +kernel
  have inside : Mixed.card ∈ Mixed.files := by decide +kernel
  rcases exists_course_of_migrate (Mixed.run.withDryRun true) Mixed.project distinct with
    ⟨x, active, _⟩
  rcases exists_course_of_migrate (Mixed.run.withDryRun false) Mixed.project distinct with
    ⟨y, active', _⟩
  rcases dry_run_foretells (f := fun _ => {}) Mixed.wellFormed (fun _ => rfl) ⟨"/project"⟩
    Mixed.config with ⟨_, foretold⟩
  have foretells := (foretold _ _ (prepared true) (prepared false)).2 d found x y active active'
  rcases Mixed.exists_text with ⟨file, loaded, new⟩
  rcases Option.isSome_iff_exists.1 new with ⟨text, transformed⟩
  have told : Visit.foretold {} (Mixed.run.migration.withDryRun true) Mixed.card
      (Mixed.project.read Mixed.card) = .changed (Mixed.run.migration.transform file).counts text :=
    Visit.foretold_eq_changed_iff.2 ⟨rfl, Or.inr rfl, file, loaded, by
      rw [Migration.transform_withDryRun, ← transformed]⟩
  have visited : (Mixed.card, .changed (Mixed.run.migration.transform file).counts text) ∈
      x.visits := by
    rw [x.visits_eq (r := Mixed.run.withDryRun true) (d := d) Mixed.wellFormed found active, ← told]
    exact List.mem_map_of_mem inside
  have path : Mixed.card.below (Mixed.run.withDryRun true).migration.root = ⟨"Card.tsx"⟩ := by
    decide +kernel
  refine ⟨Mixed.wellFormed, _, _, d, prepared true, prepared false, found, x, y, active, active',
    foretells, (Mixed.run.migration.transform file).counts.literals.replaced,
    x.mem_result_files.2 ⟨_, visited, ?_⟩⟩
  exact congrArg (fun p => some (FileEntry.mk p _)) path

end Run

end ThemeMigration
