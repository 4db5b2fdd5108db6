import ThemeMigration.Proofs.Report.Balance
import ThemeMigration.Proofs.Run.Visits

/-!
# Reports of runs

Every visit of a course has counts that fit together, whatever tree its file was read from, so what
a run returns is balanced however its partial results are merged.
-/

namespace ThemeMigration

open Script

namespace Visit

variable {f : Refusals} {m : Migration} {t : FileTree} {p : Path}

theorem fits_tryRead : (tryRead f m t p).Fits := by
  rw [tryRead]
  cases f.reading with
  | some cause => trivial
  | none => exact fits_read m t p

/-- The last step of a visit keeps what was read, or takes note of a failed write. -/
theorem save_fst (fault : Option FileTree.WriteFault) (v : Visit) :
    (v.save fault m t p).1 = v ∨ ∃ counts e, (v.save fault m t p).1 = .notWritten counts e := by
  cases v with
  | changed counts text =>
    rw [save]
    rcases t.save p text m.dryRun fault with ⟨_ | _, _⟩
    · exact Or.inr ⟨counts, _, rfl⟩
    · exact Or.inl rfl
  | _ => exact Or.inl rfl

end Visit

namespace Migration

variable {m : Migration} {file : SourceFile}

/-- A file without a new text has nothing replaced, or its edited text has the digest of the old
one. -/
theorem unnoticed_of_transform (h : (m.transform file).text = none)
    (some : 0 < (m.transform file).counts.literals.replaced) :
    digestChanged file.digest (pruned file (m.edited file)).1 = false := by
  rw [literals_of_transform] at some
  rw [transform] at h
  dsimp only at h
  rw [if_neg (by simpa using Nat.ne_of_gt some)] at h
  dsimp only at h
  split at h
  · cases h
  · rename_i same
    exact Bool.eq_false_iff.2 same

end Migration

namespace Run

namespace Moment

variable {m : Migration} {f : Path → Refusals} {s : Moment}

/-- The visits of a moment are of files that were read at some time before. -/
def AreRead (m : Migration) (f : Path → Refusals) (s : Moment) : Prop :=
  ∀ p v, s.progress p = .read v ∨ s.progress p = .finished v →
    (∃ t, v = Visit.tryRead (f p) m t p) ∨ ∃ counts e, v = .notWritten counts e

theorem areRead_start (t : FileTree) (files : List Path) : (start t files).AreRead m f := by
  intro p v progress
  simp only [start] at progress
  split at progress <;> rcases progress with progress | progress <;> cases progress

theorem AreRead.mark (h : s.AreRead m f) {p : Path} {u : FileTree} {x : Progress}
    (own : ∀ v, x = .read v ∨ x = .finished v →
      (∃ t, v = Visit.tryRead (f p) m t p) ∨ ∃ counts e, v = .notWritten counts e) :
    ({ s with tree := u }.mark p x).AreRead m f := by
  rintro q v (progress | progress)
  · rcases progress_mark_cases progress with ⟨rfl, read⟩ | ⟨_, before⟩
    · exact own v (Or.inl read)
    · exact h q v (Or.inl before)
  · rcases progress_mark_cases progress with ⟨rfl, finished⟩ | ⟨_, before⟩
    · exact own v (Or.inr finished)
    · exact h q v (Or.inr before)

theorem AreRead.advance (h : s.AreRead m f) (p : Path) : (s.advance m f p).AreRead m f := by
  rw [Moment.advance]
  cases progress : s.progress p with
  | waiting =>
    refine h.mark (u := s.tree) fun v marked => ?_
    split at marked <;> rcases marked with marked | marked <;> cases marked
  | begun =>
    refine h.mark (u := s.tree) fun v marked => ?_
    rcases marked with marked | marked <;> cases marked
    exact Or.inl ⟨s.tree, rfl⟩
  | read v =>
    refine h.mark fun w marked => ?_
    rcases marked with marked | marked
    · cases marked
    have kept : w = (v.save (f p).writing m s.tree p).1 := (Progress.finished.inj marked).symm
    rw [kept]
    rcases Visit.save_fst (m := m) (t := s.tree) (p := p) (f p).writing v with same | written
    · rw [same]
      exact h p v (Or.inl progress)
    · exact Or.inr written
  | passedOver => exact h
  | finished v => exact h

theorem AreRead.play (t : FileTree) (files : List Path) (events : List Event) :
    ((start t files).play m f events).AreRead m f :=
  play_induction events (areRead_start t files) (fun _ h => h) fun _ p h => h.advance p

end Moment

namespace Course

variable {r : Run} {t : FileTree} {f : Path → Refusals} {files : List Path}

/-- The visits of a course, in the order in which their results are merged, have counts that fit
together. -/
theorem fits (c : Course r t f files) : ∀ v ∈ c.schedule.visits, v.2.Fits := by
  rintro ⟨p, v⟩ member
  have visited := c.mem_visits.1 (c.merged.mem_iff.1 member)
  rcases Moment.AreRead.play t files c.events p v (Or.inr visited.2) with ⟨u, rfl⟩ |
    ⟨counts, e, rfl⟩
  · exact Visit.fits_tryRead
  · trivial

/-- A file with replaced literals and without a change came out with the digest of its old text. -/
theorem unnoticed (c : Course r t f files) {p : Path} {counts : FileCounts}
    (visited : (p, .unchanged counts) ∈ c.visits) (some : 0 < counts.literals.replaced) :
    ∃ file, file.path = p ∧ (r.migration.transform file).counts = counts ∧
      digestChanged file.digest (Migration.pruned file (r.migration.edited file)).1 = false := by
  rcases Moment.AreRead.play t files c.events p _ (Or.inr (c.mem_visits.1 visited).2) with
    ⟨u, read⟩ | ⟨_, _, written⟩
  · rw [Visit.tryRead] at read
    split at read
    · cases read
    · rcases Visit.read_eq_unchanged_iff.1 read.symm with ⟨file, loaded, transformed⟩
      refine ⟨file, SourceFile.path_of_load loaded, by rw [transformed], ?_⟩
      refine Migration.unnoticed_of_transform (by rw [transformed]) ?_
      rwa [transformed]
  · cases written

/-- A course returns what its visits come to one after the other, settled. -/
theorem result_eq (c : Course r t f files) :
    c.result.value = (recordAll r.migration.root c.schedule.visits .blank).value.settled
        r.migration.dryRun ∧
      c.result.errors = (recordAll r.migration.root c.schedule.visits .blank).errors ++
        if c.cancelled then [.cancelled] else [] := by
  rw [result, settle, Schedule.result_eq]
  cases c.cancelled with
  | true => exact ⟨rfl, rfl⟩
  | false => exact ⟨rfl, (List.append_nil _).symm⟩

/-- The report of a course is balanced with the errors of its files. -/
theorem balanced (c : Course r t f files) :
    Collected.Balanced
      ⟨c.result.value, (recordAll r.migration.root c.schedule.visits .blank).errors⟩ := by
  rw [c.result_eq.1]
  exact (balanced_recordAll r.migration.root c.fits).settled r.migration.dryRun

theorem filesScanned_eq (c : Course r t f files) :
    c.result.value.filesScanned = c.visits.length := by
  rw [c.result_eq.1]
  exact (filesScanned_recordAll r.migration.root c.schedule.visits).trans c.merged.length_eq

/-- Besides the errors of the files there is one of a run that was cancelled. -/
theorem length_errors (c : Course r t f files) :
    c.result.errors.length =
      c.result.value.filesSkipped + c.result.value.filesNotWritten + c.cancelled.toNat := by
  have last : (if c.cancelled then [RunError.cancelled] else []).length = c.cancelled.toNat := by
    cases c.cancelled <;> rfl
  rw [c.result_eq.2, List.length_append, last]
  exact congrArg (· + c.cancelled.toNat) c.balanced.errors

/-- All replaced literals are in entries, if every file kept its new text. -/
theorem replacements_eq (c : Course r t f files) (written : c.result.value.filesNotWritten = 0)
    (noticed : ∀ p counts, (p, .unchanged counts) ∈ c.visits → counts.literals.replaced = 0) :
    c.result.value.replacements = c.result.value.literals.replaced := by
  rw [c.result_eq.1] at written ⊢
  have none : (c.schedule.visits.map fun v => v.2.withheld).sum = 0 :=
    withheld_eq_zero (fun p counts e => written_of_recordAll r.migration.root written)
      fun p counts visited => noticed p counts (c.merged.mem_iff.1 visited)
  have accounted := replaced_recordAll r.migration.root c.schedule.visits
  rw [none, Nat.add_zero] at accounted
  rw [Report.replacements_settled]
  exact accounted.symm

end Course

/-- Whatever happens in whatever order and however partial results are merged, a report counts the
files that were begun and has an entry for each changed one.  Its counts fit together, and there are
as many errors as files that were refused or not written, and one more if the run was cancelled.
The replacements of the entries are all that are counted, if every write succeeded and no file with
replaced literals came out with the digest of its old text. -/
theorem result_balanced {r : Run} {t : FileTree} {f : Path → Refusals} {files : List Path}
    (c : Course r t f files) :
    let report := c.result.value
    report.filesScanned = c.visits.length ∧
      (∀ e, e ∈ report.files ↔ ∃ v ∈ c.visits, Visit.modified? r.migration.root v = some e) ∧
      report.filesModified = report.files.length ∧
      report.filesModified + report.filesSkipped + report.filesNotWritten ≤ report.filesScanned ∧
      (∀ e ∈ report.files, 1 ≤ e.replacements) ∧
      report.replacements ≤ report.literals.replaced ∧
      (report.filesNotWritten = 0 →
        (∀ p counts, (p, .unchanged counts) ∈ c.visits → counts.literals.replaced = 0) →
        report.replacements = report.literals.replaced) ∧
      (∀ p counts, (p, .unchanged counts) ∈ c.visits → 0 < counts.literals.replaced →
        ∃ file, file.path = p ∧ (r.migration.transform file).counts = counts ∧
          digestChanged file.digest (Migration.pruned file (r.migration.edited file)).1 = false) ∧
      report.importsAdded ≤ report.filesModified ∧
      report.bindingsInserted ≤ report.components ∧
      report.bindingsInserted ≤ report.replacements ∧
      c.result.errors.length =
        report.filesSkipped + report.filesNotWritten + c.cancelled.toNat := by
  have balanced := c.balanced
  exact ⟨c.filesScanned_eq, fun _ => c.mem_result_files, balanced.modified, balanced.scanned,
    balanced.some, balanced.replacements, c.replacements_eq,
    fun p counts visited some => c.unnoticed visited some, balanced.imports,
    balanced.bindings_components, balanced.bindings_replacements, c.length_errors⟩

end Run

end ThemeMigration
