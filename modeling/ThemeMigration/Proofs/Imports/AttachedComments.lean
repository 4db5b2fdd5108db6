import Mathlib.Data.List.Chain
import Mathlib.Data.List.Induction
import ThemeMigration.Proofs.Imports.Head

/-!
# The comments that belong to a statement

The comments in front of a statement belong to it as far back as each one is at most one line break
away from what follows it.  The search goes through them from the statement upwards, and measures
the gap to the comment that it took last.  So the comments that it takes are the longest row of this
form, and a first import in front of them parts neither a comment nor the row.
-/

namespace ThemeMigration

open Script SyntaxTree

namespace Imports

/-! ## Rows of comments -/

/-- At most one line break stands between two nodes. -/
def IsClose (source : String) (u v : SyntaxTree) : Prop :=
  (Text.slice source u.stop v.start).toList.count '\n' ≤ 1

instance (source : String) (u v : SyntaxTree) : Decidable (IsClose source u v) :=
  inferInstanceAs (Decidable (_ ≤ _))

/-- A row of comments belongs to the node behind it. -/
structure IsAttached (source : String) (run : List SyntaxTree) (t : SyntaxTree) : Prop where
  comments : ∀ c ∈ run, c.isComment = true
  close : (run ++ [t]).IsChain (IsClose source)

/-- Of the nodes in front of a node, these are the longest row that belongs to it. -/
structure IsLongestAttached (source : String) (before run : List SyntaxTree) (t : SyntaxTree) : Prop
    extends IsAttached source run t where
  longest : ∀ front' run', before = front' ++ run' → IsAttached source run' t →
    run'.length ≤ run.length

variable {source : String} {before run : List SyntaxTree} {c t : SyntaxTree}

theorem isAttached_nil (source : String) (t : SyntaxTree) : IsAttached source [] t where
  comments := by
    intro c none
    cases none
  close := .singleton t

/-- The last comment of a row belongs to the node, and the others belong to this comment. -/
theorem isAttached_append_singleton :
    IsAttached source (run ++ [c]) t ↔
      c.isComment = true ∧ IsClose source c t ∧ IsAttached source run c := by
  have chain : (run ++ [c] ++ [t]).IsChain (IsClose source) ↔
      (run ++ [c]).IsChain (IsClose source) ∧ IsClose source c t := by
    rw [List.append_assoc, List.singleton_append, List.isChain_append_cons_cons]
    simp
  constructor
  · rintro ⟨comments, close⟩
    rcases chain.1 close with ⟨front, last⟩
    refine ⟨comments c (List.mem_append_right _ List.mem_cons_self), last, ?_, front⟩
    exact fun u member => comments u (List.mem_append_left _ member)
  · rintro ⟨comment, last, comments, front⟩
    refine ⟨?_, chain.2 ⟨front, last⟩⟩
    intro u member
    rcases List.mem_append.1 member with inFront | same
    · exact comments u inFront
    · exact List.mem_singleton.1 same ▸ comment

/-- A row in front of a node is empty, or it ends with the last of the nodes that stand there, and
the rest of it belongs to that one. -/
theorem IsAttached.eq_nil_or_append {front' run' : List SyntaxTree}
    (attached : IsAttached source run' t) (split : before ++ [c] = front' ++ run') :
    run' = [] ∨ ∃ rest, run' = rest ++ [c] ∧ before = front' ++ rest ∧
      c.isComment = true ∧ IsClose source c t ∧ IsAttached source rest c := by
  rcases List.eq_nil_or_concat' run' with rfl | ⟨rest, last, rfl⟩
  · exact Or.inl rfl
  · rw [← List.append_assoc] at split
    rcases List.append_inj' split rfl with ⟨inFront, same⟩
    rcases List.cons.inj same with ⟨rfl, -⟩
    exact Or.inr ⟨rest, rfl, inFront, isAttached_append_singleton.1 attached⟩

/-- The longest row goes on through a comment that is close enough. -/
theorem IsLongestAttached.append_singleton (row : IsLongestAttached source before run c)
    (comment : c.isComment = true) (close : IsClose source c t) :
    IsLongestAttached source (before ++ [c]) (run ++ [c]) t where
  toIsAttached := isAttached_append_singleton.2 ⟨comment, close, row.toIsAttached⟩
  longest := by
    intro front' run' split other
    rcases other.eq_nil_or_append split with rfl | ⟨rest, rfl, inFront, -, -, attached⟩
    · exact Nat.zero_le _
    · have shorter := row.longest front' rest inFront attached
      rw [List.length_append, List.length_append]
      exact Nat.add_le_add_right shorter _

/-- No row belongs to a node behind anything but a comment that is close enough. -/
theorem isLongestAttached_nil (apart : ¬(c.isComment = true ∧ IsClose source c t)) :
    IsLongestAttached source (before ++ [c]) [] t where
  toIsAttached := isAttached_nil source t
  longest := by
    intro front' run' split other
    rcases other.eq_nil_or_append split with rfl | ⟨_, -, -, comment, close, -⟩
    · exact Nat.le_refl 0
    · exact absurd ⟨comment, close⟩ apart

/-! ## The search -/

/-- One comment more is taken if it is close enough, and then the search goes on from it. -/
theorem attachedStart_append_singleton (source : String) (start : Nat) (before : List SyntaxTree)
    (c : SyntaxTree) :
    attachedStart source start (before ++ [c]).reverse =
      if c.isComment && (Text.slice source c.stop start).toList.count '\n' ≤ 1 then
        attachedStart source c.start before.reverse
      else start := by
  rw [List.reverse_append, List.reverse_singleton, List.singleton_append, attachedStart]

/-- The search ends at the beginning of the longest row of comments that belongs to the node. -/
theorem attachedStart_spec (source : String) (before : List SyntaxTree) (t : SyntaxTree) :
    ∃ front run, before = front ++ run ∧ IsLongestAttached source before run t ∧
      attachedStart source t.start before.reverse = (run.headD t).start := by
  induction before using List.reverseRecOn generalizing t with
  | nil =>
    refine ⟨[], [], rfl, ⟨isAttached_nil source t, ?_⟩, rfl⟩
    intro front' run' split _
    exact Nat.le_of_eq (congrArg List.length (List.append_eq_nil_iff.1 split.symm).2)
  | append_singleton before c ih =>
    rw [attachedStart_append_singleton]
    split
    · rename_i taken
      rw [Bool.and_eq_true, decide_eq_true_eq] at taken
      rcases ih c with ⟨front, run, rfl, longest, found⟩
      refine ⟨front, run ++ [c], List.append_assoc .., longest.append_singleton taken.1 taken.2, ?_⟩
      rw [found]
      cases run <;> rfl
    · rename_i left
      rw [Bool.and_eq_true, decide_eq_true_eq] at left
      exact ⟨before ++ [c], [], (List.append_nil _).symm, isLongestAttached_nil left, rfl⟩

/-- The search with slices that can be out of range. -/
def attachedStart? (source : String) (start : Nat) : List SyntaxTree → Option Nat
  | [] => some start
  | u :: us =>
    if u.isComment then
      (Text.slice? source u.stop start).bind fun gap =>
        if gap.toList.count '\n' ≤ 1 then attachedStart? source u.start us else some start
    else some start

/-- Between nodes that follow one another no slice is out of range. -/
theorem attachedStart?_eq {start : Nat} {us : List SyntaxTree}
    (boundary : Text.isBoundary source start = true)
    (inText : ∀ u ∈ us, u.wellFormed source = true ∧ u.stop ≤ start)
    (order : us.Pairwise fun a b => b.stop ≤ a.start) :
    attachedStart? source start us = some (attachedStart source start us) := by
  induction us generalizing start with
  | nil => rfl
  | cons u us ih =>
    rcases List.pairwise_cons.1 order with ⟨head, tail⟩
    have first := inText u List.mem_cons_self
    have inRange := Text.slice?_eq (stop_boundary first.1) boundary first.2
    have rest := ih (start_boundary first.1)
      (fun v member => ⟨(inText v (List.mem_cons_of_mem _ member)).1, head v member⟩) tail
    rw [attachedStart?, attachedStart, inRange, Option.bind_some, rest]
    cases u.isComment with
    | false => rfl
    | true =>
      simp only [if_true, Bool.true_and, decide_eq_true_eq]
      split <;> rfl

/-! ## In a script -/

variable {s : Source} {after : List SyntaxTree}

/-- A first import goes to where the search from the first statement ends. -/
theorem firstStatementStart_eq (split : s.statements = before ++ t :: after)
    (comments : ∀ u ∈ before, u.isComment = true) (code : t.isComment = false) :
    firstStatementStart s = attachedStart s.text t.start before.reverse := by
  have first : (t :: after).takeWhile isComment = [] := by
    rw [List.takeWhile_cons, code]
    rfl
  have front : s.statements.takeWhile isComment = before := by
    rw [split, List.takeWhile_append_of_pos comments, first, List.append_nil]
  rw [firstStatementStart, front, split, List.drop_left]

/-- A script does not begin with directives if its first statement is none. -/
theorem directives_eq_nil (split : s.statements = before ++ t :: after)
    (comments : ∀ u ∈ before, u.isComment = true) (code : t.isComment = false)
    (other : t.isDirective = false) : directives s = [] := by
  have front : before.filter (fun u => !u.isComment) = [] := by
    refine List.filter_eq_nil_iff.2 fun u member => ?_
    rw [comments u member]
    exact Bool.false_ne_true
  rw [directives, split, List.filter_append, front, List.nil_append, List.filter_cons, code]
  exact List.takeWhile_cons_of_neg (by rw [other]; exact Bool.false_ne_true)

/-- In a script without directives and without imports that name their module, the new statement
goes in front of the first other statement and of the comments that belong to it. -/
theorem insertion?_first {file file' : Path} {a : Accessor} {cfg : TsConfig} {e : Edit}
    (added : (ofSource s file a cfg).insertion? a file' = some e)
    (whole : (ofSource s file a cfg).joinAt = none)
    (noImport : (ofSource s file a cfg).lastEnd = none) (noDirective : directives s = []) :
    e = .insert (firstStatementStart s)
      ((ofSource s file a cfg).newStatement a file' ++ "\n\n") := by
  have afterDirective : (ofSource s file a cfg).afterDirective = false := by
    change (!(directives s).isEmpty) = false
    rw [noDirective]
    rfl
  have top : (ofSource s file a cfg).top = firstStatementStart s := by
    change ((directives s).getLast?.map (·.stop)).getD (firstStatementStart s) = _
    rw [noDirective]
    rfl
  rw [insertion?, whole, noImport, afterDirective, top] at added
  split at added
  · cases added
  · exact (Option.some.inj added).symm

/-- The statements in front of one end where it begins, and the others begin there or later. -/
theorem around_start {u : SyntaxTree} {front back : List SyntaxTree}
    (split : s.statements = front ++ u :: back) :
    (∀ v ∈ front, v.stop ≤ u.start) ∧ ∀ v ∈ u :: back, u.start ≤ v.start := by
  have order := Component.statements_pairwise s
  have inScript : ∀ v ∈ s.statements, v.wellFormed s.text = true :=
    fun v member => Component.wellFormed_statement member
  rw [split] at order inScript
  rcases List.pairwise_append.1 order with ⟨-, backOrder, apart⟩
  refine ⟨fun v inFront => apart v inFront u List.mem_cons_self, fun v inBack => ?_⟩
  exact start_le_of_head? backOrder (fun w member => inScript w (List.mem_append_right _ member))
    rfl inBack

/-- No slice that the search takes from a statement is out of range. -/
theorem attachedStart?_of_split (split : s.statements = before ++ t :: after) :
    attachedStart? s.text t.start before.reverse =
      some (attachedStart s.text t.start before.reverse) := by
  have inScript : ∀ u ∈ before ++ t :: after, u.wellFormed s.text = true :=
    fun u member => Component.wellFormed_statement (split ▸ member)
  have order := Component.statements_pairwise s
  rw [split] at order
  refine attachedStart?_eq (start_boundary (inScript t (by simp))) ?_
    (List.pairwise_reverse.2 (List.pairwise_append.1 order).1)
  intro u member
  have inBefore := List.mem_reverse.1 member
  exact ⟨inScript u (List.mem_append_left _ inBefore), (around_start split).1 u inBefore⟩

/-- The search from a statement ends where the longest row of comments in front of it begins in
which each one is at most one line break away from what follows it, or at the statement itself.  It
takes no slice out of range, and it ends inside no statement, comment or part of one.  A first
statement for the accessor that goes there leaves the row and all that follows it in one piece, and
what does not belong to the row stays above the new statement. -/
theorem attachedStart_longest (split : s.statements = before ++ t :: after) :
    let start := attachedStart s.text t.start before.reverse
    attachedStart? s.text t.start before.reverse = some start ∧
      (∀ u ∈ s.statements, ∀ d, Occurs u d → (Span.point start).Apart d.span) ∧
      ∃ front run above below,
        before = front ++ run ∧ IsLongestAttached s.text before run t ∧
        start = (run.headD t).start ∧
        s.text = above ++ below ∧ above.utf8ByteSize = start ∧
        (∀ u ∈ front, u.stop ≤ start) ∧ (∀ u ∈ run ++ t :: after, start ≤ u.start) ∧
        ∀ (file file' : Path) (a : Accessor) (cfg : TsConfig) (e : Edit),
          (∀ u ∈ before, u.isComment = true) → t.isComment = false → t.isDirective = false →
          (ofSource s file a cfg).joinAt = none → (ofSource s file a cfg).lastEnd = none →
          (ofSource s file a cfg).insertion? a file' = some e →
          e.span = .point start ∧
            Edit.applyAll s.text [e] =
              above ++ ((ofSource s file a cfg).newStatement a file' ++ "\n\n") ++ below := by
  intro start
  rcases attachedStart_spec s.text before t with ⟨front, run, parts, longest, found⟩
  have begins : start = (run.headD t).start := found
  -- The row begins with the node at whose beginning the search ends.
  have row : ∃ back, run ++ t :: after = run.headD t :: back := by
    cases run with
    | nil => exact ⟨after, rfl⟩
    | cons c cs => exact ⟨cs ++ t :: after, rfl⟩
  rcases row with ⟨back, row⟩
  have whole : s.statements = front ++ run.headD t :: back := by
    rw [split, parts, List.append_assoc, row]
  rcases around_start whole with ⟨endsAbove, beginsBelow⟩
  rw [← begins] at endsAbove beginsBelow
  have head := Component.wellFormed_statement (whole ▸ List.mem_append_right _ List.mem_cons_self)
  have boundary : Text.isBoundary s.text start = true := begins ▸ start_boundary head
  rcases Text.isBoundary_iff.1 boundary with ⟨above, below, pieces, size⟩
  refine ⟨attachedStart?_of_split split, ?_, front, run, above, below, parts, longest, begins,
    pieces, size, endsAbove, row ▸ beginsBelow, ?_⟩
  · intro u member d inside
    have within := (wellFormed_occurs (Component.wellFormed_statement member) inside).2
    rw [whole] at member
    rcases List.mem_append.1 member with inFront | inBack
    · exact Or.inr (Nat.le_trans within.2 (endsAbove u inFront))
    · exact Or.inl (Nat.le_trans (beginsBelow u inBack) within.1)
  · intro file file' a cfg e comments code other joined noImport added
    have edit :=
      insertion?_first added joined noImport (directives_eq_nil split comments code other)
    rw [firstStatementStart_eq split comments code] at edit
    change e = .insert start _ at edit
    refine ⟨by rw [edit]; rfl, ?_⟩
    rw [edit, pieces, ← size]
    exact Edit.applyAll_insert above below _

/-- Of four comments in front of a component, the last three belong to it: a blank line is behind
the first one, and the second one goes over two lines and ends on the line of the third. -/
theorem attachedStart_longest_three :
    let text := "// 1\n\n/* 2\n */ // 3\n// 4\nfunction Card()\x7breturn\x7bcolor:'#fff'\x7d\x7d"
    ∃ file before t after e,
      SourceFile.ofText ⟨"/project/src/Card.tsx"⟩ text = .ok file ∧
        file.source.statements = before ++ t :: after ∧
        before.map (·.start) = [0, 6, 15, 20] ∧ t.start = 25 ∧
        attachedStart? file.source.text t.start before.reverse = some 6 ∧
        (Migration.standard.imports file).insertion? Migration.standard.accessor file.path =
          some e ∧
        ∃ above below, text = above ++ below ∧ above.utf8ByteSize = 6 ∧
          Edit.applyAll text [e] =
            above ++ ((Migration.standard.imports file).newStatement Migration.standard.accessor
              file.path ++ "\n\n") ++ below := by
  intro text
  have facts : (SourceFile.ofText ⟨"/project/src/Card.tsx"⟩ text).toOption.any (fun file =>
      ((Migration.standard.imports file).insertion? Migration.standard.accessor file.path).isSome &&
        (Migration.standard.imports file).joinAt.isNone &&
        (Migration.standard.imports file).lastEnd.isNone &&
        (file.source.statements.take 4).all isComment && file.source.text == text &&
        (file.source.statements.take 4).map (·.start) == [0, 6, 15, 20] &&
        (file.source.statements.drop 4).head?.any (fun t =>
          !t.isComment && !t.isDirective && t.start == 25 &&
            attachedStart file.source.text t.start (file.source.statements.take 4).reverse == 6))
      = true := by
    decide +kernel
  rcases Migration.exists_ofText facts with ⟨file, read, holds⟩
  simp only [Bool.and_eq_true, beq_iff_eq, Option.isNone_iff_eq_none, Option.isSome_iff_exists,
    List.all_eq_true] at holds
  rcases holds with ⟨⟨⟨⟨⟨⟨⟨e, added⟩, whole⟩, noImport⟩, comments⟩, same⟩, starts⟩, first⟩
  rcases (Option.any_eq_true _ _).1 first with ⟨t, head, holds⟩
  simp only [Bool.and_eq_true, beq_iff_eq, Bool.not_eq_true'] at holds
  rcases holds with ⟨⟨⟨code, other⟩, begins⟩, found⟩
  rcases List.head?_eq_some_iff.1 head with ⟨after, rest⟩
  have split : file.source.statements = file.source.statements.take 4 ++ t :: after := by
    rw [← rest, List.take_append_drop]
  rcases attachedStart_longest split with
    ⟨inRange, -, _, _, above, below, -, -, -, pieces, size, -, -, applied⟩
  have result := (applied _ _ _ _ e comments code other whole noImport added).2
  rw [found] at inRange size
  rw [same] at pieces result
  exact ⟨file, _, t, after, e, read, split, starts, begins, inRange, added, above, below, pieces,
    size, result⟩

end Imports

end ThemeMigration
