import Mathlib.Data.List.Forall2
import ThemeMigration.Component.Literals

/-!
# Counting literals

The number of literals that a component counts as replaced is the number of its replacements, and
without those that are replaced the other counts stay.
-/

namespace ThemeMigration

namespace LiteralCounts

/-- Where nothing is replaced, the sum replaces no more than its start does. -/
theorem foldl_replaced_of_none {α : Type} {f : α → LiteralCounts} {xs : List α}
    (none : ∀ x ∈ xs, (f x).replaced = 0) (start : LiteralCounts) :
    (xs.foldl (fun n x => n + f x) start).replaced = start.replaced := by
  induction xs generalizing start with
  | nil => rfl
  | cons x xs ih =>
    rw [List.forall_mem_cons] at none
    rw [List.foldl_cons, ih none.2]
    exact congrArg (start.replaced + ·) none.1

/-- No summand replaces more than the sum does. -/
theorem replaced_le_foldl {α : Type} {f : α → LiteralCounts} {xs : List α} {x : α} (h : x ∈ xs)
    (start : LiteralCounts) :
    (f x).replaced ≤ (xs.foldl (fun n x => n + f x) start).replaced := by
  have grows : ∀ (ys : List α) (n : LiteralCounts),
      n.replaced ≤ (ys.foldl (fun n x => n + f x) n).replaced := by
    intro ys
    induction ys with
    | nil => exact fun n => Nat.le_refl _
    | cons y ys ih => exact fun n => Nat.le_trans (Nat.le_add_right _ _) (ih (n + f y))
  rcases List.mem_iff_append.1 h with ⟨front, back, rfl⟩
  rw [List.foldl_append, List.foldl_cons]
  refine Nat.le_trans ?_ (grows back _)
  exact Nat.le_add_left (f x).replaced _

/-- Counts that agree but for what was replaced add up to counts that agree likewise. -/
theorem foldl_unreplaced {α β : Type} {f : α → LiteralCounts} {g : β → LiteralCounts} {xs : List α}
    {ys : List β} (h : List.Forall₂ (fun x y => g y = { f x with replaced := 0 }) xs ys)
    (start : LiteralCounts) :
    ys.foldl (fun n y => n + g y) { start with replaced := 0 } =
      { xs.foldl (fun n x => n + f x) start with replaced := 0 } := by
  induction h generalizing start with
  | nil => rfl
  | @cons x y _ _ head _ ih =>
    rw [List.foldl_cons, List.foldl_cons, head]
    exact ih (start + f x)

end LiteralCounts

namespace Component

variable (c : Component) (p : Palette) (source : String)

theorem foldl_verdict_replaced (ls : List PropertyLiteral) (start : LiteralCounts) :
    (ls.foldl (fun n l => n + (l.verdict p source).counts) start).replaced =
      start.replaced + (ls.filterMap (·.edit? p source)).length := by
  induction ls generalizing start with
  | nil => rfl
  | cons l ls ih =>
    rw [List.foldl_cons, ih, List.filterMap_cons, PropertyLiteral.edit?]
    cases l.verdict p source with
    | replaced _ => exact Nat.add_right_comm start.replaced 1 _
    | unmapped => rfl
    | ineligible => rfl

theorem literalCounts_replaced :
    (c.literalCounts p source).replaced = (c.replacements p source).length := by
  rw [literalCounts, foldl_verdict_replaced, replacements]
  exact Nat.zero_add _

end Component

namespace PropertyLiteral

variable (p : Palette) (source : String)

/-- The counts of some literals. -/
def total (p : Palette) (source : String) (ls : List PropertyLiteral) : LiteralCounts :=
  ls.foldl (fun n l => n + (l.verdict p source).counts) {}

/-- The literals that stay. -/
def kept (p : Palette) (source : String) (ls : List PropertyLiteral) : List PropertyLiteral :=
  ls.filter fun l => (l.edit? p source).isNone

theorem foldl_kept (ls : List PropertyLiteral) (start : LiteralCounts) :
    (kept p source ls).foldl (fun n l => n + (l.verdict p source).counts)
        { start with replaced := 0 } =
      { ls.foldl (fun n l => n + (l.verdict p source).counts) start with replaced := 0 } := by
  induction ls generalizing start with
  | nil => rfl
  | cons l ls ih =>
    rw [kept, List.filter_cons, List.foldl_cons, edit?]
    cases verdict : l.verdict p source with
    | replaced e =>
      simp only [Option.isNone_some, Bool.false_eq_true, if_false]
      exact ih (start + (Verdict.replaced e).counts)
    | unmapped =>
      simp only [Option.isNone_none, if_true, List.foldl_cons, verdict]
      exact ih (start + Verdict.unmapped.counts)
    | ineligible =>
      simp only [Option.isNone_none, if_true, List.foldl_cons, verdict]
      exact ih (start + Verdict.ineligible.counts)

/-- The literals that stay have the same counts but for those that are replaced. -/
theorem total_kept (ls : List PropertyLiteral) :
    total p source (kept p source ls) = { total p source ls with replaced := 0 } :=
  foldl_kept p source ls {}

end PropertyLiteral

end ThemeMigration
