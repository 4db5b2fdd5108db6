import ThemeMigration.Proofs.Report.Merging
import ThemeMigration.Run

/-!
# Sharing out a run

Workers record visits in chunks, each from an empty report on, and the partial results are merged
two at a time.  Recording a visit is merging what it comes to alone, and merging is associative; so
a schedule that keeps the order of the visits has the result of recording one after the other, its
errors included.  In any other order the counts are the same, and the entries once the report is
finished.
-/

namespace ThemeMigration

namespace Collected

/-- The result of two workers: their reports merged, and the errors of the first before those of the
second. -/
def merge (a b : Collected Report) : Collected Report :=
  ⟨a.value.merge b.value, a.errors ++ b.errors⟩

/-- What a worker begins with. -/
def blank : Collected Report := { value := {} }

variable (a b c : Collected Report)

theorem merge_assoc : (a.merge b).merge c = a.merge (b.merge c) := by
  rw [merge, merge, merge, merge, Report.merge_assoc, List.append_assoc]

theorem merge_blank : a.merge blank = a := by
  rw [merge, blank, Report.merge_empty, List.append_nil]

end Collected

namespace Visit

/-- What a visit comes to alone. -/
def alone (root : Path) (v : Path × Visit) : Collected Report := v.2.record root v.1 .blank

/-- The entry of a visit that changed its file. -/
def modified? (root : Path) (v : Path × Visit) : Option FileEntry :=
  match v.2 with
  | .changed counts _ => some ⟨v.1.below root, counts.literals.replaced⟩
  | _ => none

theorem record_eq_merge (root p : Path) (v : Visit) (r : Collected Report) :
    v.record root p r = r.merge (alone root (p, v)) := by
  cases v with
  | refused e => simp [record, alone, Collected.merge, Collected.blank, Collected.add,
      Report.merge, LiteralCounts.add_empty]
  | unchanged counts => simp [record, alone, Collected.merge, Collected.blank,
      Report.recordScanned, Report.merge, LiteralCounts.empty_add]
  | changed counts text => simp [record, alone, Collected.merge, Collected.blank,
      Report.recordScanned, Report.recordModified, Report.merge, LiteralCounts.empty_add]
  | notWritten counts e => simp [record, alone, Collected.merge, Collected.blank, Collected.add,
      Report.recordScanned, Report.recordNotWritten, Report.merge, LiteralCounts.empty_add]

theorem files_alone (root : Path) (v : Path × Visit) :
    (alone root v).value.files = (modified? root v).toList := by
  rcases v with ⟨p, v⟩
  cases v <;> rfl

end Visit

namespace Run

/-- The result after some visits more, one after the other. -/
def recordAll (root : Path) (visits : List (Path × Visit)) (r : Collected Report) :
    Collected Report :=
  visits.foldl (fun r v => v.2.record root v.1 r) r

theorem recordAll_eq_merge (root : Path) (visits : List (Path × Visit)) (r : Collected Report) :
    recordAll root visits r = r.merge (recordAll root visits .blank) := by
  induction visits generalizing r with
  | nil => exact r.merge_blank.symm
  | cons v visits ih =>
    have step : recordAll root (v :: visits) r =
        recordAll root visits (r.merge (Visit.alone root v)) := by
      rw [recordAll, List.foldl_cons, Visit.record_eq_merge]
      rfl
    have first : recordAll root (v :: visits) .blank =
        recordAll root visits (Visit.alone root v) := rfl
    rw [step, first, ih, ih (Visit.alone root v), Collected.merge_assoc]

theorem recordAll_cons (root : Path) (v : Path × Visit) (visits : List (Path × Visit)) :
    recordAll root (v :: visits) .blank =
      (Visit.alone root v).merge (recordAll root visits .blank) :=
  recordAll_eq_merge root visits (Visit.alone root v)

theorem recordAll_append (root : Path) (first second : List (Path × Visit)) :
    recordAll root (first ++ second) .blank =
      (recordAll root first .blank).merge (recordAll root second .blank) := by
  rw [recordAll, List.foldl_append]
  exact recordAll_eq_merge root second _

theorem files_recordAll (root : Path) (visits : List (Path × Visit)) :
    (recordAll root visits .blank).value.files = visits.filterMap (Visit.modified? root) := by
  induction visits with
  | nil => rfl
  | cons v visits ih =>
    have files : (recordAll root (v :: visits) .blank).value.files =
        (Visit.alone root v).value.files ++ (recordAll root visits .blank).value.files := by
      rw [recordAll_cons]
      rfl
    rw [files, ih, Visit.files_alone, List.filterMap_cons]
    cases Visit.modified? root v <;> rfl

/-- The counts do not depend on the order of the visits. -/
theorem counts_recordAll_of_perm (root : Path) {first second : List (Path × Visit)}
    (perm : first.Perm second) :
    (recordAll root first .blank).value.counts = (recordAll root second .blank).value.counts := by
  have step : ∀ v visits, (recordAll root (v :: visits) .blank).value.counts =
      (Visit.alone root v).value.counts.merge (recordAll root visits .blank).value.counts := by
    intro v visits
    rw [recordAll_cons]
    exact Report.counts_merge _ _
  induction perm with
  | nil => rfl
  | cons v _ ih => rw [step, step, ih]
  | swap v w visits =>
    rw [step, step, step, step, ← Report.merge_assoc, ← Report.merge_assoc]
    exact congrArg (Report.merge · _) (Report.counts_merge_comm _ _)
  | trans _ _ ih ih' => exact ih.trans ih'

/-- The visits of a run, each to the tree that the visits before it left. -/
def visits (r : Run) : FileTree → List Path → List (Path × Visit)
  | _, [] => []
  | t, p :: files =>
    let (v, u) := (Visit.read r.migration t p).save none r.migration t p
    (p, v) :: r.visits u files

/-- A run records its visits one after the other. -/
theorem result_migrate (r : Run) (t : FileTree) (files : List Path) :
    (r.migrate t files).result = recordAll r.migration.root (r.visits t files) .blank := by
  have fromState : ∀ s : State, (files.foldl r.step s).result =
      recordAll r.migration.root (r.visits s.tree files) s.result := by
    induction files with
    | nil => exact fun _ => rfl
    | cons p files ih =>
      intro s
      rw [List.foldl_cons, ih]
      rfl
  exact fromState ⟨t, .blank⟩

/-! ## Schedules -/

/-- How the visits of a run are shared out: a chunk is recorded from an empty report on, and two
partial results are merged. -/
inductive Schedule where
  | chunk (visits : List (Path × Visit))
  | merge (first second : Schedule)

namespace Schedule

/-- The visits of a schedule, in the order in which their results are merged. -/
def visits : Schedule → List (Path × Visit)
  | chunk visits => visits
  | merge first second => first.visits ++ second.visits

def result (root : Path) : Schedule → Collected Report
  | chunk visits => recordAll root visits .blank
  | merge first second => (first.result root).merge (second.result root)

/-- A schedule has the result of its visits, one after the other. -/
theorem result_eq (root : Path) (s : Schedule) :
    s.result root = recordAll root s.visits .blank := by
  induction s with
  | chunk => rfl
  | merge first second ih ih' => rw [result, visits, recordAll_append, ih, ih']

end Schedule

/-- However visits of different files are shared out to workers, and in whatever order their results
are merged, the finished report is that of recording one visit after the other.  Merged in the
order of the visits, the results also have the same errors in the same order. -/
theorem finish_result_eq (root : Path) {visits : List (Path × Visit)}
    (distinct : visits.Pairwise fun v w => (v.1.below root).same (w.1.below root) = false)
    (s : Schedule) :
    (s.visits.Perm visits →
        (s.result root).value.finish = (recordAll root visits .blank).value.finish) ∧
      (s.visits = visits →
        s.result root = recordAll root visits .blank) := by
  constructor
  · intro perm
    have files := files_recordAll root visits
    have distinctFiles : (recordAll root visits .blank).value.HasDistinctFiles := by
      rw [Report.HasDistinctFiles, files, List.pairwise_filterMap]
      refine distinct.imp ?_
      rintro ⟨p, v⟩ ⟨q, w⟩ different e entry f entry'
      cases v <;> cases entry
      cases w <;> cases entry'
      exact different
    symm
    rw [Schedule.result_eq]
    apply Report.finish_eq_of_perm distinctFiles
    · exact counts_recordAll_of_perm root perm.symm
    · rw [files, files_recordAll]
      exact perm.symm.filterMap _
  · intro inOrder
    rw [Schedule.result_eq, inOrder]

/-- Two workers of which the second one, who had the later files, is done first. -/
theorem finish_result_eq_second_first :
    let root : Path := ⟨"/project"⟩
    let card : Path × Visit := (⟨"/project/src/Card.tsx"⟩,
      .changed { components := 1, literals := { replaced := 2 }, importAdded := true } "")
    let list : Path × Visit :=
      (⟨"/project/src/List.tsx"⟩, .unchanged { literals := { unmapped := 1 } })
    let button : Path × Visit := (⟨"/project/src/Button.tsx"⟩,
      .changed { components := 2, literals := { replaced := 1 }, bindingsInserted := 1 } "")
    let s : Schedule := .merge (.chunk [button]) (.merge (.chunk []) (.chunk [card, list]))
    ([card, list, button].Pairwise fun v w => (v.1.below root).same (w.1.below root) = false) ∧
      s.visits.Perm [card, list, button] ∧
      (s.result root).value.finish = (recordAll root [card, list, button] .blank).value.finish := by
  intro root card list button s
  have distinct : [card, list, button].Pairwise fun v w =>
      (v.1.below root).same (w.1.below root) = false := by decide +kernel
  have perm : s.visits.Perm [card, list, button] := by decide +kernel
  exact ⟨distinct, perm, (finish_result_eq root distinct s).1 perm⟩

end Run

end ThemeMigration
