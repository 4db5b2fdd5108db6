import Mathlib.Algebra.GroupWithZero.Nat
import ThemeMigration.Proofs.Migration.BindingOnce
import ThemeMigration.Proofs.Run.Schedule

/-!
# Balanced reports

The counts of a report fit together: each is bounded by the ones it is part of, and errors and
entries are as many as their counters say.  What a single visit comes to is balanced, and merging
keeps the balance, so the result of every schedule is balanced.  Beyond the bounds, the literals
that a report counts as replaced are those of its entries and those of files that did not keep a
new text.
-/

namespace ThemeMigration

/-! ## What a change counts -/

/-- The counts of a change: some literal is replaced, and each binding belongs to a component and
to a literal of it. -/
structure FileCounts.OfChange (c : FileCounts) : Prop where
  replaced : 0 < c.literals.replaced
  bindings_components : c.bindingsInserted ≤ c.components
  bindings_replaced : c.bindingsInserted ≤ c.literals.replaced

namespace LiteralCounts

/-- Of summands that replace something there are no more than the sum replaces. -/
theorem length_filter_le_foldl {α : Type} {f : α → LiteralCounts} {p : α → Bool} (xs : List α)
    (some : ∀ x ∈ xs, p x = true → 0 < (f x).replaced) (start : LiteralCounts) :
    start.replaced + (xs.filter p).length ≤ (xs.foldl (fun n x => n + f x) start).replaced := by
  induction xs generalizing start with
  | nil => exact Nat.le_refl _
  | cons x xs ih =>
    rw [List.forall_mem_cons] at some
    have rest := ih some.2 (start + f x)
    have sum : (start + f x).replaced = start.replaced + (f x).replaced := rfl
    rw [List.foldl_cons, List.filter_cons]
    split
    · rename_i chosen
      have first := some.1 chosen
      rw [List.length_cons]
      omega
    · omega

end LiteralCounts

namespace Migration

theorem ofChange_of_transform {m : Migration} {file : SourceFile} {text : String}
    (h : (m.transform file).text = some text) : (m.transform file).counts.OfChange := by
  rcases exists_changed h with ⟨r, changed⟩
  have some : 0 < (m.plan file).literals.replaced :=
    Nat.lt_of_lt_of_le (of_decide_eq_true changed.isEffective)
      (LiteralCounts.replaced_le_foldl (f := Recoloring.counts) changed.member {})
  refine ⟨?_, ?_, ?_⟩
  · rwa [literals_of_transform]
  · rw [bindingsInserted_of_transform, components_of_transform, unbound_eq]
    exact List.length_filter_le _ _
  · rw [bindingsInserted_of_transform, literals_of_transform, unbound_eq]
    have counted := LiteralCounts.length_filter_le_foldl (f := Recoloring.counts)
      (p := fun r => decide (0 < r.counts.replaced ∧
        (m.binding (m.imports file)).presentIn file.text r.component.body = false))
      (m.plan file).recolorings (fun _ _ chosen => (of_decide_eq_true chosen).1) {}
    rwa [Nat.zero_add] at counted

end Migration

namespace Visit

/-- The counts of a visit fit together. -/
def Fits : Visit → Prop
  | changed counts _ => counts.OfChange
  | _ => True

theorem fits_read (m : Migration) (t : FileTree) (p : Path) : (read m t p).Fits := by
  rw [read]
  cases SourceFile.load t p with
  | error e => trivial
  | ok file =>
    dsimp only
    cases transformed : (m.transform file).text with
    | none => trivial
    | some text => exact Migration.ofChange_of_transform transformed

/-- The literals that a visit counts as replaced in a file that does not keep its new text. -/
def withheld : Visit → Nat
  | unchanged counts | notWritten counts _ => counts.literals.replaced
  | _ => 0

end Visit

/-! ## Balance -/

namespace Report

/-- How many literals the entries of a report count as replaced. -/
def replacements (r : Report) : Nat := (r.files.map FileEntry.replacements).sum

theorem replacements_merge (a b : Report) :
    (a.merge b).replacements = a.replacements + b.replacements := by
  rw [replacements, merge, List.map_append, List.sum_append]
  rfl

/-- A finished report with the mark of a dry run or without it. -/
def settled (r : Report) (dryRun : Bool) : Report := { r.finish with dryRun := dryRun }

theorem replacements_settled (r : Report) (dryRun : Bool) :
    (r.settled dryRun).replacements = r.replacements :=
  ((finish_files_perm r).map _).sum_nat

end Report

/-- The counts of a result fit together. -/
structure Collected.Balanced (c : Collected Report) : Prop where
  modified : c.value.filesModified = c.value.files.length
  scanned : c.value.filesModified + c.value.filesSkipped + c.value.filesNotWritten ≤
    c.value.filesScanned
  some : ∀ e ∈ c.value.files, 1 ≤ e.replacements
  replacements : c.value.replacements ≤ c.value.literals.replaced
  imports : c.value.importsAdded ≤ c.value.filesModified
  bindings_components : c.value.bindingsInserted ≤ c.value.components
  bindings_replacements : c.value.bindingsInserted ≤ c.value.replacements
  errors : c.errors.length = c.value.filesSkipped + c.value.filesNotWritten

namespace Collected

theorem balanced_blank : blank.Balanced := by
  constructor <;> simp [blank, Report.replacements]

theorem Balanced.merge {a b : Collected Report} (first : a.Balanced) (second : b.Balanced) :
    (a.merge b).Balanced where
  modified := by
    have counted := congrArg₂ (· + ·) first.modified second.modified
    rw [Collected.merge, Report.merge, List.length_append]
    exact counted
  scanned := by
    have bound := Nat.add_le_add first.scanned second.scanned
    simp only [Collected.merge, Report.merge]
    omega
  some := List.forall_mem_append.2 ⟨first.some, second.some⟩
  replacements := by
    rw [Collected.merge, Report.replacements_merge]
    exact Nat.add_le_add first.replacements second.replacements
  imports := Nat.add_le_add first.imports second.imports
  bindings_components := Nat.add_le_add first.bindings_components second.bindings_components
  bindings_replacements := by
    rw [Collected.merge, Report.replacements_merge]
    exact Nat.add_le_add first.bindings_replacements second.bindings_replacements
  errors := by
    have bound := congrArg₂ (· + ·) first.errors second.errors
    simp only [Collected.merge, Report.merge, List.length_append]
    omega

theorem Balanced.settled {c : Collected Report} (h : c.Balanced) (dryRun : Bool) :
    Balanced ⟨c.value.settled dryRun, c.errors⟩ where
  modified := h.modified.trans (Report.finish_files_perm c.value).length_eq.symm
  scanned := h.scanned
  some e member := h.some e ((Report.finish_files_perm c.value).mem_iff.1 member)
  replacements := (Report.replacements_settled c.value dryRun).trans_le h.replacements
  imports := h.imports
  bindings_components := h.bindings_components
  bindings_replacements :=
    h.bindings_replacements.trans_eq (Report.replacements_settled c.value dryRun).symm
  errors := h.errors

end Collected

namespace Visit

variable {root : Path} {v : Path × Visit}

/-- A report of one file counts the literals of the file. -/
theorem recordScanned_blank (counts : FileCounts) :
    ({} : Report).recordScanned counts =
      { filesScanned := 1, components := counts.components, literals := counts.literals } := by
  simp only [Report.recordScanned, Nat.zero_add, LiteralCounts.empty_add]

/-- The result of one change. -/
theorem alone_changed (root p : Path) (counts : FileCounts) (text : String) :
    (alone root (p, changed counts text)).value =
      { filesScanned := 1, filesModified := 1, literals := counts.literals
        components := counts.components, importsAdded := counts.importAdded.toNat
        bindingsInserted := counts.bindingsInserted, importsRemoved := counts.importsRemoved
        files := [⟨p.below root, counts.literals.replaced⟩] } := by
  simp only [alone, record, Collected.blank, recordScanned_blank, Report.recordModified,
    Nat.zero_add, List.nil_append]

theorem balanced_alone (fits : v.2.Fits) : (alone root v).Balanced := by
  rcases v with ⟨p, v⟩
  cases v with
  | refused e =>
    constructor <;>
      simp [alone, record, Collected.blank, Collected.add, Report.replacements]
  | unchanged counts =>
    constructor <;>
      simp [alone, record, Collected.blank, recordScanned_blank, Report.replacements]
  | changed counts text =>
    have value := alone_changed root p counts text
    have sum : (alone root (p, changed counts text)).value.replacements =
        counts.literals.replaced := by
      rw [value, Report.replacements]
      exact Nat.add_zero _
    have entry : ∀ e ∈ (alone root (p, changed counts text)).value.files, 1 ≤ e.replacements := by
      rw [value]
      exact List.forall_mem_singleton.2 fits.replaced
    constructor
    · rw [value]
      rfl
    · rw [value]
      exact Nat.le_refl 1
    · exact entry
    · rw [sum, value]
    · rw [value]
      exact Bool.toNat_le _
    · rw [value]
      exact fits.bindings_components
    · rw [sum, value]
      exact fits.bindings_replaced
    · rw [value]
      rfl
  | notWritten counts e =>
    constructor <;>
      simp [alone, record, Collected.blank, Collected.add, recordScanned_blank,
        Report.recordNotWritten, Report.replacements]

/-- What a visit counts as replaced is in its entry, or withheld. -/
theorem replaced_alone (root : Path) (v : Path × Visit) :
    (alone root v).value.literals.replaced = (alone root v).value.replacements + v.2.withheld := by
  rcases v with ⟨p, v⟩
  cases v <;>
    simp [alone, record, Collected.blank, Collected.add, recordScanned_blank,
      Report.recordModified, Report.recordNotWritten, Report.replacements, withheld]

end Visit

namespace Run

variable (root : Path) {visits : List (Path × Visit)}

theorem balanced_recordAll (fits : ∀ v ∈ visits, v.2.Fits) :
    (recordAll root visits .blank).Balanced := by
  induction visits with
  | nil => exact Collected.balanced_blank
  | cons v visits ih =>
    rw [List.forall_mem_cons] at fits
    rw [recordAll_cons]
    exact (Visit.balanced_alone fits.1).merge (ih fits.2)

/-- Every visit is counted as a file, whatever became of it. -/
theorem filesScanned_recordAll (visits : List (Path × Visit)) :
    (recordAll root visits .blank).value.filesScanned = visits.length := by
  induction visits with
  | nil => rfl
  | cons v visits ih =>
    have first : (Visit.alone root v).value.filesScanned = 1 := by
      rcases v with ⟨p, v⟩
      cases v <;> rfl
    have sum : (recordAll root (v :: visits) .blank).value.filesScanned =
        (Visit.alone root v).value.filesScanned +
          (recordAll root visits .blank).value.filesScanned := by
      rw [recordAll_cons]
      rfl
    rw [sum, first, ih, List.length_cons, Nat.add_comm]

/-- The literals that are counted as replaced are those of the entries and those of files without
their new texts. -/
theorem replaced_recordAll (visits : List (Path × Visit)) :
    (recordAll root visits .blank).value.literals.replaced =
      (recordAll root visits .blank).value.replacements +
        (visits.map fun v => v.2.withheld).sum := by
  induction visits with
  | nil => rfl
  | cons v visits ih =>
    have alone := Visit.replaced_alone root v
    have replaced : (recordAll root (v :: visits) .blank).value.literals.replaced =
        (Visit.alone root v).value.literals.replaced +
          (recordAll root visits .blank).value.literals.replaced := by
      rw [recordAll_cons]
      rfl
    have listed : (recordAll root (v :: visits) .blank).value.replacements =
        (Visit.alone root v).value.replacements +
          (recordAll root visits .blank).value.replacements := by
      rw [recordAll_cons]
      exact Report.replacements_merge _ _
    rw [List.map_cons, List.sum_cons]
    omega

/-- A report that counts no failed write has no such visit. -/
theorem written_of_recordAll (none : (recordAll root visits .blank).value.filesNotWritten = 0)
    {p : Path} {counts : FileCounts} {e : WriteError} : (p, .notWritten counts e) ∉ visits := by
  induction visits with
  | nil => exact List.not_mem_nil
  | cons v visits ih =>
    have sum : (Visit.alone root v).value.filesNotWritten +
        (recordAll root visits .blank).value.filesNotWritten = 0 := by
      rw [recordAll_cons] at none
      exact none
    rw [List.mem_cons, not_or]
    refine ⟨?_, ih (Nat.eq_zero_of_add_eq_zero_left sum)⟩
    rintro rfl
    exact absurd (Nat.eq_zero_of_add_eq_zero_right sum) Nat.one_ne_zero

/-- Where all writes succeed and every file with replaced literals changes, nothing is withheld. -/
theorem withheld_eq_zero (written : ∀ p counts e, (p, .notWritten counts e) ∉ visits)
    (noticed : ∀ p counts, (p, .unchanged counts) ∈ visits → counts.literals.replaced = 0) :
    (visits.map fun v => v.2.withheld).sum = 0 := by
  rw [List.sum_eq_zero_iff_forall_eq_nat]
  intro n member
  rcases List.mem_map.1 member with ⟨⟨p, v⟩, visited, rfl⟩
  cases v with
  | unchanged counts => exact noticed p counts visited
  | notWritten counts e => exact absurd visited (written p counts e)
  | _ => rfl

end Run

end ThemeMigration
