import ThemeMigration.IgnoreRules
import ThemeMigration.Proofs.FileTree.Places

/-!
# Trees in another order

A file system gives the entries of a directory in no order of its own.  Trees with the same entries
in another order have the same entry at each location, paths lead to the same locations in them, and
the same rules are in force.
-/

namespace ThemeMigration

/-- A search does not depend on the order if at most one member can be found. -/
theorem find?_eq_of_perm {α : Type} {p : α → Bool} {xs ys : List α} (perm : xs.Perm ys)
    (single : xs.Pairwise fun a b => ¬ (p a = true ∧ p b = true)) : xs.find? p = ys.find? p := by
  induction perm with
  | nil => rfl
  | cons x _ ih =>
    rw [List.find?_cons, List.find?_cons, ih (List.pairwise_cons.1 single).2]
  | swap x y xs =>
    have notBoth := (List.pairwise_cons.1 single).1 x List.mem_cons_self
    rw [List.find?_cons, List.find?_cons, List.find?_cons, List.find?_cons]
    cases first : p x <;> cases second : p y
    · rfl
    · rfl
    · rfl
    · exact absurd ⟨second, first⟩ notBoth
  | trans first _ ih ih' =>
    rw [ih single, ih' (first.pairwise single fun notBoth both => notBoth both.symm)]

theorem lookup_eq_find? {α β : Type} [BEq α] (k : α) (xs : List (α × β)) :
    xs.lookup k = (xs.find? fun x => k == x.1).map (·.2) := by
  induction xs with
  | nil => rfl
  | cons x xs ih =>
    rw [List.lookup_cons, List.find?_cons, ih]
    cases k == x.1 <;> rfl

namespace FileTree

/-- Trees with the same entries, listed in any order. -/
structure Reordered (t u : FileTree) : Prop where
  workingDirectory : u.workingDirectory = t.workingDirectory
  entries : t.entries.Perm u.entries

namespace Reordered

variable {t u : FileTree}

theorem get?_eq (same : Reordered t u) (wellFormed : t.WellFormed) (l : Location) :
    u.get? l = t.get? l := by
  have single : t.entries.Pairwise fun a b => ¬ ((l == a.1) = true ∧ (l == b.1) = true) :=
    (List.pairwise_map.1 (List.nodup_iff_pairwise_ne.1 wellFormed.distinct)).imp
      fun different both => different ((eq_of_beq both.1).symm.trans (eq_of_beq both.2))
  rw [FileTree.get?, FileTree.get?, lookup_eq_find?, lookup_eq_find?,
    find?_eq_of_perm same.entries single]

theorem sameShape (same : Reordered t u) (wellFormed : t.WellFormed) : SameShape t u :=
  ⟨same.workingDirectory, fun l => Or.inl (same.get?_eq wellFormed l)⟩

theorem find_eq (same : Reordered t u) (wellFormed : t.WellFormed) (p : Path) :
    u.find p = t.find p := by
  rw [FileTree.find, FileTree.find, (same.sameShape wellFormed).locate]
  simp only [same.get?_eq wellFormed]

theorem files (same : Reordered t u) : t.files.Perm u.files := same.entries.filterMap _

end Reordered

end FileTree

/-! ## Rules in force -/

namespace RuleFile

/-- A rule file stands where its directory has the file of its kind. -/
theorem location_of_ofFile? {l : Location} {content : ByteArray} {f : RuleFile}
    (made : ofFile? l content = some f) : f.directory ++ f.kind.location = l := by
  rw [ofFile?, Option.map_eq_some_iff] at made
  rcases made with ⟨k, found, rfl⟩
  have inside := List.find?_some found
  rw [List.isSuffixOf_iff_suffix] at inside
  rcases inside with ⟨front, rfl⟩
  rw [List.length_append, Nat.add_sub_cancel_right, List.take_left]

/-- Rule files of one kind stand in different directories. -/
theorem ofTree_pairwise {t : FileTree} (wellFormed : t.WellFormed) :
    (ofTree t).Pairwise fun f g => ¬ (f.kind = g.kind ∧ f.directory = g.directory) := by
  rw [ofTree]
  refine (FileTree.files_pairwise wellFormed).filterMap _ ?_
  rintro ⟨l, content⟩ ⟨k, content'⟩ different f made g made' ⟨kind, directory⟩
  have first := location_of_ofFile? made
  rw [kind, directory, location_of_ofFile? made'] at first
  exact different first.symm

end RuleFile

namespace IgnoreRules

variable {r s : IgnoreRules}

theorem keepsByKind?_eq_of_perm (perm : r.Perm s)
    (apart : r.Pairwise fun f g => ¬ (f.kind = g.kind ∧ f.directory = g.directory)) (k : RuleKind)
    (l : Location) (isDirectory : Bool) (depth : Nat) :
    s.keepsByKind? k l isDirectory depth = r.keepsByKind? k l isDirectory depth := by
  induction depth with
  | zero => rfl
  | succ depth ih =>
    have single : r.Pairwise fun f g =>
        ¬ ((f.kind == k && f.directory == l.take depth) = true ∧
          (g.kind == k && g.directory == l.take depth) = true) := by
      refine apart.imp fun {f g} different both => different ?_
      simp only [Bool.and_eq_true, beq_iff_eq] at both
      exact ⟨both.1.1.trans both.2.1.symm, both.1.2.trans both.2.2.symm⟩
    rw [keepsByKind?, keepsByKind?, ih, find?_eq_of_perm perm single]

/-- What rules say does not depend on the order of their files. -/
theorem reaches_eq_of_perm (perm : r.Perm s)
    (apart : r.Pairwise fun f g => ¬ (f.kind = g.kind ∧ f.directory = g.directory)) :
    s.reaches = r.reaches := by
  funext start names
  simp only [reaches, ignores, keeps?, keepsByKind?_eq_of_perm perm apart]

end IgnoreRules

end ThemeMigration
