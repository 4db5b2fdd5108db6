import ThemeMigration.Proofs.Script.Correspondence
import ThemeMigration.Proofs.Script.Equality

/-!
# Trees with gaps

The value of a pair may be left open, as an expression without parts.  A tree completes another one
when it differs only in what stands in such gaps; import statements are the same in both.
-/

namespace ThemeMigration.Script.SyntaxTree

/-- A value that is left open. -/
def isGap : SyntaxTree → Bool
  | .node .expression (some .value) _ [] => true
  | _ => false

mutual

/-- Whether the second tree is the first one with something in its gaps. -/
def completedBy : SyntaxTree → SyntaxTree → Bool
  | node k l s ts, t' =>
    if k = .importStatement then same (node k l s ts) t'
    else
      t'.kind == k && t'.label == l && t'.span == s && completedByAll (k == .pair) ts t'.children

def completedByAll (inPair : Bool) : List SyntaxTree → List SyntaxTree → Bool
  | [], [] => true
  | t :: ts, t' :: ts' =>
    ((inPair && isGap t) || completedBy t t') && completedByAll inPair ts ts'
  | _, _ => false

end

/-- The relation of the nodes of a tree to those of one that completes it. -/
def Completes (t t' : SyntaxTree) : Prop := completedBy t t' = true

theorem completedByAll_iff {inPair : Bool} {ts ts' : List SyntaxTree} :
    completedByAll inPair ts ts' = true ↔
      List.Forall₂ (fun t t' => (inPair = true ∧ isGap t = true) ∨ Completes t t') ts ts' := by
  induction ts generalizing ts' with
  | nil => cases ts' <;> simp [completedByAll]
  | cons t ts ih =>
    cases ts' with
    | nil => simp [completedByAll]
    | cons t' ts' =>
      rw [completedByAll, Bool.and_eq_true, Bool.or_eq_true, Bool.and_eq_true, ih,
        List.forall₂_cons, Completes]

variable {t t' : SyntaxTree}

theorem Completes.eq_of_import (h : Completes t t') (isImport : t.kind = .importStatement) :
    t' = t := by
  cases t with
  | node k l s ts =>
    rw [Completes, completedBy, if_pos (show k = _ from isImport), same_iff] at h
    exact h.symm

/-- Only the children of a pair may be gaps. -/
theorem Completes.node (h : Completes t t') (other : t.kind ≠ .importStatement) :
    t'.kind = t.kind ∧ t'.span = t.span ∧
      List.Forall₂ (fun c c' => (t.kind = .pair ∧ isGap c = true) ∨ Completes c c')
        t.children t'.children := by
  cases t with
  | node k l s ts =>
    rw [Completes, completedBy, if_neg (show k ≠ _ from other)] at h
    simp only [Bool.and_eq_true, beq_iff_eq, completedByAll_iff] at h
    exact ⟨h.1.1.1, h.1.2, h.2⟩

theorem Completes.kind (h : Completes t t') : t'.kind = t.kind := by
  by_cases isImport : t.kind = .importStatement
  · rw [h.eq_of_import isImport]
  · exact (h.node isImport).1

/-- The statements of a script are completed one by one. -/
theorem Completes.statements (h : Completes t t') (program : t.kind = .program) :
    List.Forall₂ Completes t.named t'.named := by
  refine forall₂_filter (fun c c' related => by rw [related.kind])
    ((h.node (by rw [program]; decide)).2.2.imp ?_)
  rintro c c' (⟨pair, _⟩ | related)
  · rw [program] at pair
    cases pair
  · exact related

theorem completes_refl (t : SyntaxTree) : Completes t t := by
  induction t using childInduction with
  | step t ih =>
    cases t with
    | node k l s ts =>
      rw [Completes, completedBy]
      split
      · exact (same_iff _ _).2 rfl
      · simp only [kind, label, span, beq_self_eq_true, Bool.true_and, children]
        exact completedByAll_iff.2 (List.forall₂_same.2 fun c member => Or.inr (ih c member))

theorem kind_of_isGap (h : isGap t = true) : t.kind = .expression ∧ t.children = [] := by
  unfold isGap at h
  split at h
  · exact ⟨rfl, rfl⟩
  · cases h

end ThemeMigration.Script.SyntaxTree
