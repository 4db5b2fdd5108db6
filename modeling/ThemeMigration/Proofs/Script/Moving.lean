import ThemeMigration.Proofs.Script.Correspondence

/-!
# Trees at another place

Where the text of a node is copied to, the node stands again: its spans move with the text, and it
reads as it did.
-/

namespace ThemeMigration.Script.SyntaxTree

mutual

/-- The node where the text that began at one offset begins at another. -/
def shifted (base offset : Nat) : SyntaxTree → SyntaxTree
  | node k l s ts =>
    node k l ⟨s.start - base + offset, s.stop - base + offset⟩ (shiftedAll base offset ts)

def shiftedAll (base offset : Nat) : List SyntaxTree → List SyntaxTree
  | [] => []
  | t :: ts => shifted base offset t :: shiftedAll base offset ts

end

/-- The node as it stands where its text begins at the offset. -/
def movedTo (offset : Nat) (t : SyntaxTree) : SyntaxTree := shifted t.start offset t

theorem shiftedAll_eq_map (base offset : Nat) (ts : List SyntaxTree) :
    shiftedAll base offset ts = ts.map (shifted base offset) := by
  induction ts with
  | nil => rfl
  | cons t ts ih => rw [shiftedAll, ih, List.map_cons]

section Shifted

variable {base offset : Nat} {t : SyntaxTree}

theorem shifted_kind : (shifted base offset t).kind = t.kind := by
  cases t
  rfl

theorem shifted_label : (shifted base offset t).label = t.label := by
  cases t
  rfl

theorem shifted_span : (shifted base offset t).span =
    ⟨t.start - base + offset, t.stop - base + offset⟩ := by
  cases t
  rfl

theorem shifted_children :
    (shifted base offset t).children = t.children.map (shifted base offset) := by
  cases t with
  | node k l s ts => exact shiftedAll_eq_map base offset ts

variable {source new : String}

theorem size_text (wellFormed : t.wellFormed source = true) :
    (t.text source).utf8ByteSize = t.stop - t.start :=
  Text.size_slice (start_boundary wellFormed) (stop_boundary wellFormed) (start_le_stop wellFormed)

/-- The text of a child stands in that of its parent. -/
theorem text_eq_append (wellFormed : t.wellFormed source = true) {c : SyntaxTree}
    (member : c ∈ t.children) :
    t.text source = Text.slice source t.start c.start ++ c.text source ++
      Text.slice source c.stop t.stop := by
  have inner := wellFormed_child wellFormed member
  have first := Text.slice_append_slice (start_boundary wellFormed) (start_boundary inner.1)
    (stop_boundary inner.1) inner.2.1 (start_le_stop inner.1)
  have second := Text.slice_append_slice (start_boundary wellFormed) (stop_boundary inner.1)
    (stop_boundary wellFormed) (Nat.le_trans inner.2.1 (start_le_stop inner.1)) inner.2.2
  exact (second.symm.trans (congrArg (· ++ _) first.symm))

theorem reads_shifted (wellFormed : t.wellFormed source = true) (le : base ≤ t.start)
    (stands : Text.StandsAt new (t.start - base + offset) (t.text source)) :
    Reads source new t (shifted base offset t) := by
  induction t using childInduction with
  | step t ih =>
    refine reads_of_children shifted_kind shifted_label ?_ ?_
    · have copied := stands.slice_eq
      have ends : t.start - base + offset + (t.text source).utf8ByteSize =
          t.stop - base + offset := by
        rw [size_text wellFormed]
        have := start_le_stop wellFormed
        omega
      rw [ends] at copied
      rw [SyntaxTree.text, shifted_span]
      exact copied
    · rw [shifted_children, List.forall₂_map_right_iff]
      refine List.forall₂_same.2 fun c member => ?_
      have inner := wellFormed_child wellFormed member
      refine ih c member inner.1 (Nat.le_trans le inner.2.1) ?_
      rw [text_eq_append wellFormed member] at stands
      have part := stands.part
      have size := Text.size_slice (start_boundary wellFormed) (start_boundary inner.1) inner.2.1
      have place : t.start - base + offset + (Text.slice source t.start c.start).utf8ByteSize =
          c.start - base + offset := by
        rw [size]
        have within : t.start ≤ c.start := inner.2.1
        omega
      rwa [place] at part

theorem reads_movedTo (wellFormed : t.wellFormed source = true)
    (stands : Text.StandsAt new offset (t.text source)) :
    Reads source new t (t.movedTo offset) := by
  refine reads_shifted wellFormed (Nat.le_refl _) ?_
  rwa [Nat.sub_self, Nat.zero_add]

end Shifted

end ThemeMigration.Script.SyntaxTree
