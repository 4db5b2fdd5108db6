import Mathlib.Data.List.TakeWhile
import ThemeMigration.Proofs.Component.Detection
import ThemeMigration.Proofs.Component.Insertion
import ThemeMigration.Proofs.Script.Comments
import ThemeMigration.Proofs.Script.Scopes

/-!
# Literals before the binding and behind it

A binding that is inserted stands before every literal of the body: it goes in front of the first
statement that is no directive, and directives hold no literal that could be replaced.  A binding
that the body has already counts wherever it stands among the statements, so the literals before it
are those of the statements and the declarators in front of its declarator.
-/

namespace ThemeMigration

open Script SyntaxTree

/-! ## The declarator of a binding -/

section Row

variable {xs : List SyntaxTree} {x y : SyntaxTree} {p : SyntaxTree → Bool}

/-- A row of nodes is split by the first one with a property. -/
theorem exists_row_of_find? (found : xs.find? p = some x) :
    ∃ behind, xs = xs.takeWhile (fun z => !p z) ++ x :: behind := by
  rw [List.find?_eq_head?_dropWhile_not] at found
  rcases List.head?_eq_some_iff.1 found with ⟨behind, tail⟩
  exact ⟨behind, tail ▸ List.takeWhile_append_dropWhile.symm⟩

variable (ordered : xs.Pairwise fun a b => a.stop ≤ b.start) (found : xs.find? p = some x)

include ordered found

/-- A node of the row stands in front of the first one with the property, or is it, or is behind
it. -/
theorem before_or_behind (member : y ∈ xs) :
    y ∈ xs.takeWhile (fun z => !p z) ∨ y = x ∨ x.stop ≤ y.start := by
  rcases exists_row_of_find? found with ⟨behind, split⟩
  rw [split] at ordered member
  rcases List.mem_append.1 member with front | tail
  · exact Or.inl front
  · rcases List.mem_cons.1 tail with same | after
    · exact Or.inr (Or.inl same)
    · have order := (List.pairwise_append.1 ordered).2.1
      exact Or.inr (Or.inr ((List.pairwise_cons.1 order).1 y after))

theorem stop_le_of_mem_takeWhile (front : y ∈ xs.takeWhile fun z => !p z) : y.stop ≤ x.start := by
  rcases exists_row_of_find? found with ⟨behind, split⟩
  rw [split] at ordered
  exact (List.pairwise_append.1 ordered).2.2 y front x List.mem_cons_self

end Row

namespace BindingStatement

/-- Whether a node is a declarator that makes its statement the binding. -/
def isDeclarator (b : BindingStatement) (source : String) (d : SyntaxTree) : Bool :=
  d.kind == .variableDeclarator && b.declaratorMatches source d

/-- The declarator of the binding in a body: the first one in the first statement that counts. -/
def declarator? (b : BindingStatement) (source : String) (body : SyntaxTree) : Option SyntaxTree :=
  (body.named.find? (b.holds source)).bind fun t => t.named.find? (b.isDeclarator source)

/-- The statements in front of the binding, the declarators in front of its declarator, and this
declarator. -/
def upToDeclarator (b : BindingStatement) (source : String) (body : SyntaxTree) :
    List SyntaxTree :=
  body.named.takeWhile (fun t => !b.holds source t) ++
    match body.named.find? (b.holds source) with
    | some t =>
      t.named.takeWhile (fun d => !b.isDeclarator source d) ++
        (t.named.find? (b.isDeclarator source)).toList
    | none => []

variable {b : BindingStatement} {source : String} {body d : SyntaxTree}

/-- A body has the binding if it is a block with its declarator. -/
theorem presentIn_iff :
    b.presentIn source body = true ↔
      body.kind = .statementBlock ∧ ∃ d, b.declarator? source body = some d := by
  rw [presentIn, Bool.and_eq_true, beq_iff_eq, and_congr_right_iff]
  intro _
  rw [declarator?, List.any_eq_true, ← List.find?_isSome]
  cases found : body.named.find? (b.holds source) with
  | none => simp
  | some t =>
    have holds := List.find?_some found
    rw [BindingStatement.holds, Bool.and_eq_true] at holds
    have some : (t.named.find? (b.isDeclarator source)).isSome = true :=
      List.find?_isSome.2 (List.any_eq_true.1 holds.2)
    exact ⟨fun _ => Option.isSome_iff_exists.1 some, fun _ => rfl⟩

/-- The declarator of the binding, in its statement. -/
theorem declarator?_eq_some_iff :
    b.declarator? source body = some d ↔
      ∃ t, body.named.find? (b.holds source) = some t ∧
        t.named.find? (b.isDeclarator source) = some d := by
  rw [declarator?, Option.bind_eq_some_iff]

theorem mem_upToDeclarator_iff {t : SyntaxTree}
    (statement : body.named.find? (b.holds source) = some t)
    (declarator : t.named.find? (b.isDeclarator source) = some d) {u : SyntaxTree} :
    u ∈ b.upToDeclarator source body ↔
      u ∈ body.named.takeWhile (fun t => !b.holds source t) ∨
        u ∈ t.named.takeWhile (fun d => !b.isDeclarator source d) ∨ u = d := by
  rw [upToDeclarator, statement]
  simp [declarator]

end BindingStatement

namespace Component

variable {c : Component} {source : String} {b : BindingStatement} {p : Palette}
  {pair literal : SyntaxTree} {expression : String}

/-- A node stands in a function inside the body, so that it is not evaluated with the body. -/
def Defers (c : Component) (d : SyntaxTree) : Prop :=
  ∃ f, Occurs c.body f ∧ f.isFunction = true ∧ Occurs f d

/-! ## Where a literal stands -/

section Eligible

variable (eligible : Eligible p source c.body pair literal expression)

include eligible

/-- A node that is no pair holds the pair of a literal in one of its named children. -/
theorem exists_named_of_reaches {t : SyntaxTree} (reached : Reaches t pair)
    (other : t.kind ≠ .pair) : ∃ d ∈ t.named, Reaches d pair := by
  cases reached with
  | here => exact absurd eligible.isPair other
  | deeper member inside => exact ⟨_, member, inside⟩

/-- An atom holds no pair. -/
theorem not_reaches_of_isAtomic {t : SyntaxTree} (wellFormed : t.wellFormed source = true)
    (atom : t.kind.isAtomic = true) : ¬ Reaches t pair := by
  intro reached
  have same := reached.occurs.eq_of_children_eq_nil (children_eq_nil wellFormed atom)
  rw [← same, eligible.isPair] at atom
  cases atom

end Eligible

/-- A directive consists of its string and comments. -/
theorem isAtomic_of_directive {t d : SyntaxTree} (h : t.wellFormed source = true)
    (directive : t.isDirective = true) (member : d ∈ t.named) : d.kind.isAtomic = true := by
  simp only [isDirective, Bool.and_eq_true, beq_iff_eq] at directive
  rcases Option.map_eq_some_iff.1 directive.2 with ⟨first, head, string⟩
  by_cases comment : d.kind = .comment
  · rw [comment]
    rfl
  · have inChildren := mem_children_of_mem_named (List.mem_of_head? head)
    have same := eq_of_not_comment h directive.1 (mem_children_of_mem_named member) inChildren
      (by simpa [isComment] using comment) (by rw [isComment, string]; rfl)
    rw [same, string]
    rfl

/-- A literal of a block stands in a statement that is neither a comment nor a directive. -/
theorem exists_statement_of_eligible (h : c.body.wellFormed source = true)
    (block : c.hasExpressionBody = false)
    (eligible : Eligible p source c.body pair literal expression) :
    ∃ t ∈ blockStatements c.body, t.isDirective = false ∧ t.span.Contains literal.span := by
  have isBlock : c.body.kind = .statementBlock := by simpa [hasExpressionBody] using block
  rcases exists_named_of_reaches eligible eligible.reached (by rw [isBlock]; decide) with
    ⟨t, member, inside⟩
  have wellFormed := (wellFormed_child h (mem_children_of_mem_named member)).1
  have noAtom := fun atom => not_reaches_of_isAtomic eligible wellFormed atom inside
  refine ⟨t, List.mem_filter.2 ⟨member, ?_⟩, ?_, ?_⟩
  · rw [Bool.not_eq_true']
    refine Bool.eq_false_iff.2 fun comment => noAtom ?_
    rw [beq_iff_eq.1 comment]
    rfl
  · refine Bool.eq_false_iff.2 fun directive => ?_
    have other : t.kind ≠ .pair := by
      rw [isDirective, Bool.and_eq_true, beq_iff_eq] at directive
      rw [directive.1]
      decide
    rcases exists_named_of_reaches eligible inside other with ⟨d, inDirective, deeper⟩
    have leaf := wellFormed_child wellFormed (mem_children_of_mem_named inDirective)
    exact not_reaches_of_isAtomic eligible leaf.1
      (isAtomic_of_directive wellFormed directive inDirective) deeper
  · have below := inside.occurs.trans (.child (mem_children_of_part? eligible.value))
    exact (wellFormed_occurs wellFormed below).2

/-! ## The inserted binding -/

/-- The statements behind the directives hold every literal of a block. -/
theorem exists_behind_directives (h : c.body.wellFormed source = true)
    (block : c.hasExpressionBody = false)
    (eligible : Eligible p source c.body pair literal expression) :
    ∃ t ∈ (blockStatements c.body).drop
        ((blockStatements c.body).takeWhile isDirective).length,
      t.span.Contains literal.span := by
  rcases exists_statement_of_eligible h block eligible with ⟨t, member, other, within⟩
  have split : blockStatements c.body = (blockStatements c.body).takeWhile isDirective ++
      (blockStatements c.body).dropWhile isDirective := List.takeWhile_append_dropWhile.symm
  rw [split] at member
  rcases List.mem_append.1 member with front | behind
  · rw [List.mem_takeWhile_imp front] at other
    cases other
  · exact ⟨t, drop_length_takeWhile _ _ ▸ behind, within⟩

/-- The first statement behind the directives begins before every literal of a block. -/
theorem first_precedes (h : c.body.wellFormed source = true) (block : c.hasExpressionBody = false)
    (eligible : Eligible p source c.body pair literal expression) {first : SyntaxTree}
    {others : List SyntaxTree}
    (rest : (blockStatements c.body).drop
      ((blockStatements c.body).takeWhile isDirective).length = first :: others) :
    first.start ≤ literal.start := by
  rcases exists_behind_directives h block eligible with ⟨t, member, within⟩
  refine Nat.le_trans ?_ within.1
  have ordered : (first :: others).Pairwise fun a b => a.stop ≤ b.start :=
    rest ▸ ((named_pairwise h).filter _).drop
  have inBody : ∀ u ∈ first :: others, u ∈ c.body.named := by
    intro u inRest
    exact (List.mem_filter.1 ((List.drop_sublist _ _).subset (rest ▸ inRest))).1
  rw [rest] at member
  exact start_le_of_head? ordered (fun u inRest => wellFormed_named h (inBody u inRest)) rfl member

/-- The first edit of an insertion writes the binding, and before all literals of the body. -/
theorem insertion_precedes (h : c.body.wellFormed source = true) (b : BindingStatement) :
    ∃ offset front back,
      (c.insertion source b).head? = some (.insert offset (front ++ b.text ++ back)) ∧
        ∀ p pair literal expression, Eligible p source c.body pair literal expression →
          offset ≤ literal.start := by
  cases form : c.hasExpressionBody with
  | true =>
    refine ⟨c.body.start, "\x7b\n" ++ Text.lineIndent source c.function.start ++ "  ",
      "\n" ++ Text.lineIndent source c.function.start ++ "  return ", ?_, ?_⟩
    · rw [insertion, if_pos form]
      simp only [List.head?_cons, String.append_assoc]
    · intro p pair literal expression eligible
      exact (wellFormed_occurs h eligible.occurs).2.1
  | false =>
    -- A block that ends with its directives holds no literal, so any place will do.
    have empty : ∀ offset, (blockStatements c.body).drop
        ((blockStatements c.body).takeWhile isDirective).length = [] →
          ∀ p pair literal expression, Eligible p source c.body pair literal expression →
            offset ≤ literal.start := by
      intro offset rest p pair literal expression eligible
      rcases exists_behind_directives h form eligible with ⟨t, member, _⟩
      rw [rest] at member
      cases member
    rw [insertion, if_neg (by simp [form])]
    dsimp only
    split
    · rename_i first others rest
      refine ⟨first.start, "", "\n" ++ Text.lineIndent source first.start, ?_, ?_⟩
      · simp only [List.head?_cons, String.empty_append, String.append_assoc]
      · intro p pair literal expression eligible
        exact first_precedes h form eligible rest
    · rename_i last rest found
      refine ⟨last.stop, "\n" ++ Text.lineIndent source last.start, "", ?_, empty _ rest⟩
      rw [String.append_empty, List.head?_cons]
    · rename_i rest none
      refine ⟨c.body.start + 1, "\n" ++ Text.lineIndent source c.body.start ++ "  ",
        "\n" ++ Text.lineIndent source c.body.start, ?_, empty _ rest⟩
      simp only [List.head?_cons, String.append_assoc]

/-! ## A binding that stands in the body -/

section Existing

variable (h : c.body.wellFormed source = true) {d : SyntaxTree}
  (found : b.declarator? source c.body = some d)

include h found

/-- What stands up to the declarator of the binding ends with the declarator at the latest. -/
theorem upToDeclarator_stop_le {t : SyntaxTree} (member : t ∈ b.upToDeclarator source c.body) :
    Occurs c.body t ∧ t.stop ≤ d.stop := by
  rcases BindingStatement.declarator?_eq_some_iff.1 found with ⟨u, statement, declarator⟩
  have inBody := List.mem_of_find?_eq_some statement
  have inStatement := List.mem_of_find?_eq_some declarator
  have wellFormed := wellFormed_named h inBody
  have within := wellFormed_child wellFormed (mem_children_of_mem_named inStatement)
  have room := start_le_stop within.1
  have below : Occurs c.body u := .child (mem_children_of_mem_named inBody)
  rcases (BindingStatement.mem_upToDeclarator_iff statement declarator).1 member with
    front | front | rfl
  · have order := stop_le_of_mem_takeWhile (named_pairwise h) statement front
    have inNamed := (List.takeWhile_sublist _).subset front
    exact ⟨.child (mem_children_of_mem_named inNamed),
      Nat.le_trans order (Nat.le_trans within.2.1 room)⟩
  · have order := stop_le_of_mem_takeWhile (named_pairwise wellFormed) declarator front
    have inNamed := (List.takeWhile_sublist _).subset front
    exact ⟨below.trans (.child (mem_children_of_mem_named inNamed)), Nat.le_trans order room⟩
  · exact ⟨below.trans (.child (mem_children_of_mem_named inStatement)), Nat.le_refl _⟩

/-- A literal stands behind the declarator unless it stands in what comes up to it. -/
theorem declarator_precedes_iff (block : c.body.kind = .statementBlock)
    (eligible : Eligible p source c.body pair literal expression) :
    d.stop ≤ literal.start ↔ ¬ ∃ t ∈ b.upToDeclarator source c.body, Occurs t literal := by
  constructor
  · rintro behind ⟨t, member, inside⟩
    have front := upToDeclarator_stop_le h found member
    have within := (wellFormed_occurs (wellFormed_occurs h front.1).1 inside).2
    have room := PropertyLiteral.literal_nonempty h (eligible.mem_inside h)
    exact Nat.not_le_of_lt room (Nat.le_trans (Nat.le_trans within.2 front.2) behind)
  · intro absent
    rcases BindingStatement.declarator?_eq_some_iff.1 found with ⟨u, statement, declarator⟩
    have inValue : Occurs pair literal := .child (mem_children_of_part? eligible.value)
    have inBody := List.mem_of_find?_eq_some statement
    have inStatement := List.mem_of_find?_eq_some declarator
    have wellFormed := wellFormed_named h inBody
    have within := (wellFormed_child wellFormed (mem_children_of_mem_named inStatement)).2
    -- The literal is placed among the statements first, then among the declarators.
    rcases exists_named_of_reaches eligible eligible.reached (by rw [block]; decide) with
      ⟨s, member, inside⟩
    have below := inside.occurs.trans inValue
    rcases before_or_behind (named_pairwise h) statement member with front | rfl | behind
    · exact absurd ⟨s, (BindingStatement.mem_upToDeclarator_iff statement declarator).2
        (Or.inl front), below⟩ absent
    · have other : s.kind ≠ .pair := by
        have holds := List.find?_some statement
        intro isPair
        simp [BindingStatement.holds, isPair] at holds
      rcases exists_named_of_reaches eligible inside other with ⟨v, inNamed, deeper⟩
      have lower := deeper.occurs.trans inValue
      have upTo := BindingStatement.mem_upToDeclarator_iff (u := v) statement declarator
      rcases before_or_behind (named_pairwise wellFormed) declarator inNamed with
        front | same | behind
      · exact absurd ⟨v, upTo.2 (Or.inr (Or.inl front)), lower⟩ absent
      · exact absurd ⟨v, upTo.2 (Or.inr (Or.inr same)), lower⟩ absent
      · have inV := (wellFormed_occurs (wellFormed_named wellFormed inNamed) lower).2
        exact Nat.le_trans behind inV.1
    · have inS := (wellFormed_occurs (wellFormed_named h member) below).2
      exact Nat.le_trans within.2 (Nat.le_trans behind inS.1)

end Existing

end Component

end ThemeMigration
