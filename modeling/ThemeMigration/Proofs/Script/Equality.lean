import ThemeMigration.Proofs.Script.Nesting

/-!
# Trees can be compared

Equality of trees and occurrence of one tree in another are decided by walking over the nodes.
-/

namespace ThemeMigration.Script.SyntaxTree

mutual

/-- Whether two trees are the same. -/
def same : SyntaxTree → SyntaxTree → Bool
  | node k l s ts, node k' l' s' ts' => k == k' && l == l' && s == s' && sameAll ts ts'

def sameAll : List SyntaxTree → List SyntaxTree → Bool
  | [], [] => true
  | t :: ts, u :: us => same t u && sameAll ts us
  | _, _ => false

end

mutual

theorem same_iff : (t u : SyntaxTree) → (same t u = true ↔ t = u)
  | node k l s ts, node k' l' s' ts' => by
    rw [same, Bool.and_eq_true, Bool.and_eq_true, Bool.and_eq_true, sameAll_iff ts ts', node.injEq]
    simp only [beq_iff_eq, and_assoc]

theorem sameAll_iff : (ts us : List SyntaxTree) → (sameAll ts us = true ↔ ts = us)
  | [], [] => by simp [sameAll]
  | [], _ :: _ => by simp [sameAll]
  | _ :: _, [] => by simp [sameAll]
  | t :: ts, u :: us => by
    rw [sameAll, Bool.and_eq_true, same_iff t u, sameAll_iff ts us, List.cons.injEq]

end

instance : DecidableEq SyntaxTree := fun t u => decidable_of_iff _ (same_iff t u)

mutual

/-- Whether a node stands in a tree. -/
def holds (d : SyntaxTree) : SyntaxTree → Bool
  | node k l s ts => same (node k l s ts) d || holdsAny d ts

def holdsAny (d : SyntaxTree) : List SyntaxTree → Bool
  | [] => false
  | t :: ts => holds d t || holdsAny d ts

end

theorem holdsAny_eq (d : SyntaxTree) (ts : List SyntaxTree) : holdsAny d ts = ts.any (holds d) := by
  induction ts with
  | nil => rfl
  | cons t ts ih => rw [holdsAny, ih, List.any_cons]

theorem holds_iff {t d : SyntaxTree} : holds d t = true ↔ Occurs t d := by
  induction t using childInduction with
  | step t ih =>
    have unfolded : holds d t = (same t d || t.children.any (holds d)) := by
      cases t with
      | node k l s ts => rw [holds, holdsAny_eq]; rfl
    rw [unfolded, Bool.or_eq_true, same_iff, List.any_eq_true]
    constructor
    · rintro (rfl | ⟨c, member, inside⟩)
      · exact .here t
      · exact .deeper member ((ih c member).1 inside)
    · intro below
      cases below with
      | here => exact Or.inl rfl
      | deeper member inside => exact Or.inr ⟨_, member, (ih _ member).2 inside⟩

instance : DecidableRel Occurs := fun _ _ => decidable_of_iff _ holds_iff

end ThemeMigration.Script.SyntaxTree
