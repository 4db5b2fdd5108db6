import ThemeMigration.Component.Binding
import ThemeMigration.Component.Literals
import ThemeMigration.Proofs.Component.Selectivity
import ThemeMigration.Proofs.Edits.Order

/-!
# Where a binding is inserted

The edits that put the binding into a body insert at the ends of nodes of that body.  The one
exception is a block without statements, where the binding stands behind the opening brace; such a
block holds comments at most, and so no literal that would ask for a binding.
-/

namespace ThemeMigration

open Script SyntaxTree

namespace Component

variable {c : Component} {source : String} {b : BindingStatement}

/-- A block that holds a literal has a statement. -/
theorem blockStatements_ne_nil (h : c.body.wellFormed source = true)
    (block : c.hasExpressionBody = false) (holds : c.literals ≠ []) :
    blockStatements c.body ≠ [] := by
  intro none
  rcases List.exists_mem_of_ne_nil _ holds with ⟨⟨pair, literal⟩, found⟩
  rcases PropertyLiteral.isValue_of_mem_inside _ _ found with ⟨below, value⟩
  have reached : Reaches c.body pair := reaches_of_occurs h below (by rw [value.kind]; rfl)
  have isBlock : c.body.kind = .statementBlock := by simpa [hasExpressionBody] using block
  cases reached with
  | here =>
    have isPair := value.kind
    rw [isBlock] at isPair
    cases isPair
  | @deeper _ d _ member inside =>
    have comment : d.kind = .comment := by
      have all := List.filter_eq_nil_iff.1 none d member
      simpa [isComment] using all
    have wellFormed := (wellFormed_child h (mem_children_of_mem_named member)).1
    have leaf := children_eq_nil wellFormed (by rw [comment]; rfl)
    have isPair := value.kind
    rw [inside.occurs.eq_of_children_eq_nil leaf, comment] at isPair
    cases isPair

/-- A statement of the block that the binding stands before or behind. -/
theorem insertion_of_block (source : String) (b : BindingStatement)
    (block : c.hasExpressionBody = false)
    (statements : blockStatements c.body ≠ []) :
    ∃ t ∈ c.body.named, ∃ offset replacement,
      c.insertion source b = [.insert offset replacement] ∧
        (offset = t.start ∨ offset = t.stop) := by
  rw [insertion, if_neg (by simp [block])]
  have member : ∀ t ∈ blockStatements c.body, t ∈ c.body.named := by
    intro t inBlock
    exact (List.mem_filter.1 inBlock).1
  dsimp only
  split
  · rename_i first others rest
    have inBlock : first ∈ blockStatements c.body :=
      (List.drop_sublist _ _).subset (rest ▸ List.mem_cons_self)
    exact ⟨first, member first inBlock, _, _, rfl, Or.inl rfl⟩
  · rename_i last _ found
    have inBlock := (List.takeWhile_sublist _).subset (List.mem_of_getLast? found)
    exact ⟨last, member last inBlock, _, _, rfl, Or.inr rfl⟩
  · rename_i rest none
    rw [List.getLast?_eq_none_iff.1 none] at rest
    exact absurd rest statements

theorem insertion_of_expression (source : String) (b : BindingStatement)
    (expression : c.hasExpressionBody = true) :
    ∃ opening closing,
      c.insertion source b = [.insert c.body.start opening, .insert c.body.stop closing] := by
  rw [insertion, if_pos expression]
  exact ⟨_, _, rfl⟩

/-- A binding goes in at the ends of nodes of the body. -/
theorem insertion_at_node (h : c.body.wellFormed source = true) (holds : c.literals ≠ [])
    {e : Edit} (member : e ∈ c.insertion source b) :
    ∃ t offset replacement, e = .insert offset replacement ∧ Occurs c.body t ∧
      (offset = t.start ∨ offset = t.stop) := by
  cases form : c.hasExpressionBody with
  | true =>
    rcases insertion_of_expression source b form with ⟨opening, closing, all⟩
    rw [all, List.mem_pair] at member
    rcases member with rfl | rfl
    · exact ⟨c.body, _, opening, rfl, .here _, Or.inl rfl⟩
    · exact ⟨c.body, _, closing, rfl, .here _, Or.inr rfl⟩
  | false =>
    rcases insertion_of_block source b form
      (blockStatements_ne_nil h form holds) with ⟨t, inBody, offset, replacement, all, place⟩
    rw [all, List.mem_singleton] at member
    exact ⟨t, offset, replacement, member, .child (mem_children_of_mem_named inBody), place⟩

section Holds

variable (h : c.body.wellFormed source = true) (holds : c.literals ≠ []) {e : Edit}
  (member : e ∈ c.insertion source b)

include h holds member

theorem insertion_sound : e.Sound source := by
  rcases insertion_at_node h holds member with ⟨t, offset, replacement, rfl, below, place⟩
  have wellFormed := (wellFormed_occurs h below).1
  have boundary : Text.isBoundary source offset = true := by
    rcases place with rfl | rfl
    · exact start_boundary wellFormed
    · exact stop_boundary wellFormed
  exact ⟨Nat.le_refl _, boundary, boundary⟩

theorem insertion_in_body : c.body.span.Contains e.span := by
  rcases insertion_at_node h holds member with ⟨t, offset, replacement, rfl, below, place⟩
  have within := (wellFormed_occurs h below).2
  have ordered := start_le_stop (wellFormed_occurs h below).1
  rcases place with rfl | rfl
  · exact ⟨within.1, Nat.le_trans ordered within.2⟩
  · exact ⟨Nat.le_trans within.1 ordered, within.2⟩

/-- A binding goes in between the children of the body or at its ends. -/
theorem insertion_apart_of_child {d : SyntaxTree} (inBody : d ∈ c.body.children) :
    e.span.Apart d.span := by
  have within := (wellFormed_child h inBody).2
  cases form : c.hasExpressionBody with
  | true =>
    rcases insertion_of_expression source b form with ⟨opening, closing, all⟩
    rw [all, List.mem_pair] at member
    rcases member with rfl | rfl
    · exact (Span.start_apart _).mono (.refl _) within
    · exact (Span.stop_apart _).mono (.refl _) within
  | false =>
    rcases insertion_of_block source b form
      (blockStatements_ne_nil h form holds) with ⟨t, named, offset, replacement, all, place⟩
    rw [all, List.mem_singleton] at member
    subst member
    have isChild := mem_children_of_mem_named named
    have ordered := start_le_stop (wellFormed_child h isChild).1
    rcases Span.eq_or_apart span (children_pairwise h) isChild inBody with rfl | apart
    · rcases place with rfl | rfl
      · exact Span.start_apart _
      · exact Span.stop_apart _
    · rcases place with rfl | rfl
      · exact apart.mono ⟨Nat.le_refl _, ordered⟩ (.refl _)
      · exact apart.mono ⟨ordered, Nat.le_refl _⟩ (.refl _)

/-- A binding does not cut an atom of the body. -/
theorem insertion_apart_of_atom {a : SyntaxTree} (below : Occurs c.body a)
    (atom : a.kind.isAtomic = true) : e.span.Apart a.span := by
  cases below with
  | here =>
    exact absurd (PropertyLiteral.inside_eq_nil_of_children (children_eq_nil h atom)) holds
  | deeper inBody inChild =>
    have within := (wellFormed_occurs (wellFormed_child h inBody).1 inChild).2
    exact (insertion_apart_of_child h holds member inBody).mono (.refl _) within

end Holds

/-- The edits of one binding are apart, since each inserts. -/
theorem insertion_pairwise :
    (c.insertion source b).Pairwise fun a b => a.span.Apart b.span := by
  rw [insertion]
  split
  · exact List.pairwise_pair.2 (Span.point_apart_point _ _)
  · dsimp only
    split <;> exact List.pairwise_singleton _ _

end Component

end ThemeMigration
