import Mathlib.Data.List.Pairwise
import ThemeMigration.Proofs.Path.Order
import ThemeMigration.Report

/-!
# Merging reports

Merging adds counts and joins entries, so it is associative, and the empty report changes nothing.
The counts do not depend on the order of the two reports; the entries do, until a report is
finished.  Entries of different files have one order only, the one of their paths.
-/

namespace ThemeMigration

namespace LiteralCounts

theorem add_assoc (a b c : LiteralCounts) : a + b + c = a + (b + c) := by
  ext
  · exact Nat.add_assoc a.replaced b.replaced c.replaced
  · exact Nat.add_assoc a.unmapped b.unmapped c.unmapped
  · exact Nat.add_assoc a.ineligible b.ineligible c.ineligible
  · exact Nat.add_assoc a.conflicting b.conflicting c.conflicting

theorem add_comm (a b : LiteralCounts) : a + b = b + a := by
  ext
  · exact Nat.add_comm a.replaced b.replaced
  · exact Nat.add_comm a.unmapped b.unmapped
  · exact Nat.add_comm a.ineligible b.ineligible
  · exact Nat.add_comm a.conflicting b.conflicting

theorem add_empty (a : LiteralCounts) : a + {} = a := rfl

theorem empty_add (a : LiteralCounts) : {} + a = a := by
  rw [add_comm, add_empty]

end LiteralCounts

namespace Report

variable (a b c : Report)

theorem merge_assoc : (a.merge b).merge c = a.merge (b.merge c) := by
  simp only [merge, Nat.add_assoc, LiteralCounts.add_assoc, Bool.or_assoc, List.append_assoc]

theorem merge_empty : a.merge {} = a := by
  simp only [merge, Nat.add_zero, LiteralCounts.add_empty, Bool.or_false, List.append_nil]

/-- The report without its entries. -/
def counts (r : Report) : Report := { r with files := [] }

theorem counts_merge : (a.merge b).counts = a.counts.merge b.counts := rfl

/-- Without entries, reports can be merged in either order. -/
theorem counts_merge_comm : (a.merge b).counts = (b.merge a).counts := by
  simp only [counts, merge, Nat.add_comm, LiteralCounts.add_comm, Bool.or_comm]

variable {a b c}

/-! ## Finished reports -/

/-- No two entries are of one file. -/
def HasDistinctFiles (r : Report) : Prop := r.files.Pairwise fun e f => e.path.same f.path = false

instance : Std.Symm fun e f : FileEntry => e.path.same f.path = false where
  symm e f different := by
    rw [Path.same, BEq.comm]
    exact different

theorem HasDistinctFiles.eq_of_le (h : a.HasDistinctFiles) {e f : FileEntry} (first : e ∈ a.files)
    (second : f ∈ a.files) (le : e.path.le f.path = true) (ge : f.path.le e.path = true) :
    e = f := by
  by_contra different
  have apart := List.Pairwise.forall h first second different
  rw [Path.same_of_le le ge] at apart
  cases apart

theorem finish_files (r : Report) :
    r.finish.files = r.files.mergeSort fun e f => e.path.le f.path := rfl

/-- The entries of a finished report stand in the order of their paths. -/
theorem finish_files_pairwise (r : Report) :
    r.finish.files.Pairwise fun e f => e.path.le f.path = true := by
  rw [finish_files]
  apply List.pairwise_mergeSort
  · intro e f g first second
    exact Path.le_trans first second
  · intro e f
    exact Path.le_total e.path f.path

theorem finish_files_perm (r : Report) : r.finish.files.Perm r.files := List.mergeSort_perm _ _

/-- Reports with the same counts and, in whatever order, the same entries are finished alike if the
entries are of different files. -/
theorem finish_eq_of_perm (h : a.HasDistinctFiles) (counts : a.counts = b.counts)
    (files : a.files.Perm b.files) : a.finish = b.finish := by
  have antisymm : ∀ e f : FileEntry, e ∈ a.finish.files → f ∈ b.finish.files →
      e.path.le f.path = true → f.path.le e.path = true → e = f := by
    intro e f first second
    have inSecond := (finish_files_perm b).mem_iff.1 second
    exact h.eq_of_le ((finish_files_perm a).mem_iff.1 first) (files.mem_iff.2 inSecond)
  have perm : a.finish.files.Perm b.finish.files :=
    (finish_files_perm a).trans (files.trans (finish_files_perm b).symm)
  have entries : a.finish.files = b.finish.files :=
    List.Perm.eq_of_pairwise antisymm (finish_files_pairwise a) (finish_files_pairwise b) perm
  have fields := congrArg (fun r : Report => { r with files := b.finish.files }) counts
  change { a with files := a.finish.files } = { b with files := b.finish.files }
  rw [entries]
  exact fields

end Report

end ThemeMigration
