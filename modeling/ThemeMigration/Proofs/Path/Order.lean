import Mathlib.Order.Compare
import ThemeMigration.Path.Basic

/-!
# The order of paths

Components are ordered by rank and names besides by their characters, paths lexicographically by
their components.  So of two paths one comes before the other, and where neither does they are the
same.
-/

namespace ThemeMigration.Path

namespace Component

/-- The text of a name, and nothing for the components that are no names. -/
def text : Component → String
  | name s => s
  | _ => ""

theorem eq_of_rank_of_text {a b : Component} (rank : a.rank = b.rank) (text : a.text = b.text) :
    a = b := by
  cases a <;> cases b <;> cases rank <;> first | rfl | (cases text; rfl)

theorem compare_eq :
    Component.compare = compareLex (compareOn rank) (compareOn text) := by
  funext a b
  cases a <;> cases b <;> rfl

instance : Std.TransCmp Component.compare := by
  rw [compare_eq]
  infer_instance

instance : Std.LawfulEqCmp Component.compare where
  compare_self {a} := Std.ReflCmp.compare_self
  eq_of_compare {a b} equal := by
    rw [compare_eq, compareLex_eq_eq] at equal
    exact eq_of_rank_of_text (Std.LawfulEqOrd.eq_of_compare equal.1)
      (Std.LawfulEqOrd.eq_of_compare equal.2)

end Component

theorem compareComponents_eq (as bs : List Component) :
    compareComponents as bs = List.compareLex Component.compare as bs := by
  induction as generalizing bs with
  | nil => cases bs <;> rfl
  | cons a as ih =>
    cases bs with
    | nil => rfl
    | cons b bs => rw [compareComponents, ih, List.compareLex_cons_cons]

theorem le_iff {p q : Path} :
    p.le q = true ↔ (List.compareLex Component.compare p.components q.components).isLE = true := by
  rw [le, compare, compareComponents_eq]

theorem le_trans {p q r : Path} (first : p.le q = true) (second : q.le r = true) :
    p.le r = true := by
  rw [le_iff] at *
  exact Std.TransCmp.isLE_trans first second

theorem le_total (p q : Path) : (p.le q || q.le p) = true := by
  have swapped : List.compareLex Component.compare p.components q.components =
      (List.compareLex Component.compare q.components p.components).swap :=
    Std.OrientedCmp.eq_swap
  rw [Bool.or_eq_true, le_iff, le_iff, swapped]
  cases List.compareLex Component.compare q.components p.components <;> simp

theorem mergeSort_pairwise (ps : List Path) :
    (ps.mergeSort Path.le).Pairwise fun p q => p.le q = true := by
  apply List.pairwise_mergeSort
  · intro p q r first second
    exact le_trans first second
  · exact le_total

/-- Paths of which neither comes after the other are the same. -/
theorem same_of_le {p q : Path} (first : p.le q = true) (second : q.le p = true) :
    p.same q = true := by
  rw [le_iff] at first second
  rw [same, beq_iff_eq]
  exact Std.LawfulEqCmp.eq_of_compare (Std.OrientedCmp.isLE_antisymm first second)

theorem same_of_compare_eq {p q : Path} (equal : p.compare q = .eq) : p.same q = true := by
  rw [compare, compareComponents_eq] at equal
  rw [same, beq_iff_eq]
  exact Std.LawfulEqCmp.eq_of_compare equal

/-- A path that does not come after another one and is not the same comes before it. -/
theorem compare_eq_lt {p q : Path} (first : p.le q = true) (other : p.same q = false) :
    p.compare q = .lt := by
  rw [le] at first
  cases order : p.compare q with
  | lt => rfl
  | eq =>
    rw [same_of_compare_eq order] at other
    cases other
  | gt =>
    rw [order] at first
    cases first

end ThemeMigration.Path
