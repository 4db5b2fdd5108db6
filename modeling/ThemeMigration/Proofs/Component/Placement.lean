import ThemeMigration.Proofs.Component.Insertion
import ThemeMigration.Proofs.Edits.Stepwise
import ThemeMigration.Proofs.Migration.Inspection
import ThemeMigration.Proofs.Script.Comments
import ThemeMigration.Proofs.Text.Lines

/-!
# The place of the binding

The binding goes between the directives of a block and its other statements, and cuts no statement
and no comment: in front of the first of the other statements, behind the last directive if there is
none, and behind the opening brace if there is no statement at all.  In front of a statement it
copies the spaces and tabs that open the line, so where other white space stands there too, the
statement does not keep its line.  An expression becomes the value that a block returns.
-/

namespace ThemeMigration

open Script SyntaxTree

namespace Component

variable {c : Component} {source : String} {b : BindingStatement} {body u d : SyntaxTree}

/-! ## Directives and other statements -/

/-- The directives that a block begins with. -/
def directives (body : SyntaxTree) : List SyntaxTree :=
  (blockStatements body).takeWhile isDirective

/-- The other statements of a block. -/
def belowDirectives (body : SyntaxTree) : List SyntaxTree :=
  (blockStatements body).dropWhile isDirective

/-- An offset behind the directives of a block, in front of its other statements and in none of its
statements and comments. -/
structure IsBindingPlace (body : SyntaxTree) (offset : Nat) : Prop where
  directives : ∀ d ∈ directives body, d.stop ≤ offset
  others : ∀ u ∈ belowDirectives body, offset ≤ u.start
  apart : ∀ t ∈ body.named, (Span.point offset).Apart t.span

theorem mem_named_of_mem_directives (h : d ∈ directives body) : d ∈ body.named :=
  (mem_solid.1 ((List.takeWhile_sublist _).subset h)).1

theorem mem_named_of_mem_belowDirectives (h : u ∈ belowDirectives body) : u ∈ body.named :=
  (mem_solid.1 ((List.dropWhile_sublist _).subset h)).1

section Places

variable (h : body.wellFormed source = true)

include h

theorem statements_order :
    (directives body).Pairwise (fun x y => x.stop ≤ y.start) ∧
      (belowDirectives body).Pairwise (fun x y => x.stop ≤ y.start) ∧
      ∀ d ∈ directives body, ∀ u ∈ belowDirectives body, d.stop ≤ u.start := by
  have order : (blockStatements body).Pairwise fun x y => x.stop ≤ y.start :=
    (named_pairwise h).filter _
  rw [← List.takeWhile_append_dropWhile (p := isDirective) (l := blockStatements body)] at order
  exact List.pairwise_append.1 order

/-- The ends of a child of a block are in no other child. -/
theorem end_apart {t : SyntaxTree} (first : u ∈ body.named) (second : t ∈ body.named) :
    (Span.point u.start).Apart t.span ∧ (Span.point u.stop).Apart t.span := by
  have room := start_le_stop (wellFormed_named h first)
  rcases Span.eq_or_apart span (named_pairwise h) first second with rfl | apart
  · exact ⟨Span.start_apart _, Span.stop_apart _⟩
  · exact ⟨apart.mono ⟨Nat.le_refl _, room⟩ (.refl _), apart.mono ⟨room, Nat.le_refl _⟩ (.refl _)⟩

theorem isBindingPlace_of_first (first : (belowDirectives body).head? = some u) :
    IsBindingPlace body u.start where
  directives d member := (statements_order h).2.2 d member u (List.mem_of_mem_head? first)
  others _ member := start_le_of_head? (statements_order h).2.1
    (fun _ inBody => wellFormed_named h (mem_named_of_mem_belowDirectives inBody)) first member
  apart _ member :=
    (end_apart h (mem_named_of_mem_belowDirectives (List.mem_of_mem_head? first)) member).1

theorem isBindingPlace_of_last (none : belowDirectives body = [])
    (last : (directives body).getLast? = some d) : IsBindingPlace body d.stop where
  directives _ member := stop_le_of_getLast? (statements_order h).1
    (fun _ inBody => wellFormed_named h (mem_named_of_mem_directives inBody)) last member
  others u member := by
    rw [none] at member
    cases member
  apart _ member :=
    (end_apart h (mem_named_of_mem_directives (List.mem_of_getLast? last)) member).2

/-- Comments begin with a slash, so they stand behind the brace. -/
theorem isBindingPlace_of_comments (block : body.kind = .statementBlock)
    (empty : blockStatements body = [])
    (slashes : ∀ t ∈ body.named, t.isComment = true →
      String.Pos.Raw.get source ⟨t.start⟩ = '/') : IsBindingPlace body (body.start + 1) where
  directives d member := by
    rw [directives, empty] at member
    cases member
  others u member := by
    rw [belowDirectives, empty] at member
    cases member
  apart t member := by
    have comment : t.isComment = true := by
      have all := List.filter_eq_nil_iff.1 empty t member
      simpa using all
    have within := (wellFormed_child h (mem_children_of_mem_named member)).2.1
    have other : body.start ≠ t.start := by
      intro same
      have slash := slashes t member comment
      rw [← same, (begins_with_brace h (Or.inl block)).2] at slash
      exact absurd slash (by decide)
    exact Or.inl (Nat.lt_of_le_of_ne within other)

end Places

/-! ## The edits -/

section Block

variable (block : c.hasExpressionBody = false)

include block

theorem isBlock_of_hasExpressionBody : c.body.kind = .statementBlock := by
  simpa [hasExpressionBody] using block

theorem insertion_of_first (source : String) (b : BindingStatement)
    (first : (belowDirectives c.body).head? = some u) :
    c.insertion source b =
      [.insert u.start (b.text ++ "\n" ++ Text.lineIndent source u.start)] := by
  rcases List.head?_eq_some_iff.1 first with ⟨others, row⟩
  rw [belowDirectives] at row
  rw [insertion, if_neg (by simp [block])]
  dsimp only
  rw [drop_length_takeWhile, row]

theorem insertion_of_last (source : String) (b : BindingStatement)
    (none : belowDirectives c.body = [])
    (last : (directives c.body).getLast? = some d) :
    c.insertion source b = [.insert d.stop ("\n" ++ Text.lineIndent source d.start ++ b.text)] := by
  rw [belowDirectives] at none
  rw [directives] at last
  rw [insertion, if_neg (by simp [block])]
  dsimp only
  rw [drop_length_takeWhile, none, last]

theorem insertion_of_comments (source : String) (b : BindingStatement)
    (empty : blockStatements c.body = []) :
    c.insertion source b = [.insert (c.body.start + 1) ("\n" ++
      Text.lineIndent source c.body.start ++ "  " ++ b.text ++ "\n" ++
        Text.lineIndent source c.body.start)] := by
  rw [insertion, if_neg (by simp [block])]
  dsimp only
  rw [empty]
  rfl

end Block

/-- One insertion at a boundary stands between the two parts of the text. -/
theorem exists_parts_of_insertion {offset : Nat} {piece : String}
    (boundary : Text.isBoundary source offset = true)
    (edits : c.insertion source b = [.insert offset piece]) :
    ∃ front back, source = front ++ back ∧ front.utf8ByteSize = offset ∧
      Edit.applyAll source (c.insertion source b) = front ++ piece ++ back := by
  rcases Text.isBoundary_iff.1 boundary with ⟨front, back, split, size⟩
  refine ⟨front, back, split, size, ?_⟩
  rw [edits, split, ← size, Edit.applyAll_insert]

theorem insertion_of_expression_text (h : c.body.wellFormed source = true)
    (expression : c.hasExpressionBody = true) :
    let indent := Text.lineIndent source c.function.start
    ∃ front back, source = front ++ c.body.text source ++ back ∧
      front.utf8ByteSize = c.body.start ∧
      Edit.applyAll source (c.insertion source b) =
        front ++ ("\x7b\n" ++ indent ++ "  " ++ b.text ++ "\n" ++ indent ++ "  return ") ++
          c.body.text source ++ (";\n" ++ indent ++ "\x7d") ++ back := by
  intro indent
  rcases Text.exists_pieces (start_boundary h) (stop_boundary h) (start_le_stop h) with
    ⟨front, middle, back, split, start, stop⟩
  have body : c.body.text source = middle := by
    have piece := Text.slice_append front middle back
    rw [← split, start, stop] at piece
    exact piece
  have whole : (front ++ middle).utf8ByteSize = c.body.stop := by
    rw [String.utf8ByteSize_append, start, stop]
  refine ⟨front, back, body ▸ split, start, ?_⟩
  have result := Edit.applyAll_insert_insert front middle back
    ("\x7b\n" ++ indent ++ "  " ++ b.text ++ "\n" ++ indent ++ "  return ")
    (";\n" ++ indent ++ "\x7d")
  rw [start, whole, ← split] at result
  rw [insertion, if_pos expression, body, ← result]

/-- In a block the binding is one edit at a place between the statements, which depends on what the
block holds. -/
theorem insertion_of_block_text (h : c.body.wellFormed source = true)
    (block : c.hasExpressionBody = false)
    (slashes : ∀ t ∈ c.body.named, t.isComment = true →
      String.Pos.Raw.get source ⟨t.start⟩ = '/') :
    ∃ front piece back, source = front ++ back ∧
      c.insertion source b = [.insert front.utf8ByteSize piece] ∧
      Edit.applyAll source (c.insertion source b) = front ++ piece ++ back ∧
      IsBindingPlace c.body front.utf8ByteSize ∧
      (∀ u ∈ (belowDirectives c.body).head?, front.utf8ByteSize = u.start ∧
        piece = b.text ++ "\n" ++ Text.lineIndent source u.start) ∧
      (∀ d ∈ (directives c.body).getLast?, belowDirectives c.body = [] →
        front.utf8ByteSize = d.stop ∧ piece = "\n" ++ Text.lineIndent source d.start ++ b.text) ∧
      (blockStatements c.body = [] → front.utf8ByteSize = c.body.start + 1 ∧
        piece = "\n" ++ Text.lineIndent source c.body.start ++ "  " ++ b.text ++ "\n" ++
          Text.lineIndent source c.body.start) := by
  have isBlock := isBlock_of_hasExpressionBody block
  have split : directives c.body ++ belowDirectives c.body = blockStatements c.body :=
    List.takeWhile_append_dropWhile
  -- What comes first behind the directives decides, then whether there are directives.
  cases first : (belowDirectives c.body).head? with
  | some u =>
    have edits := insertion_of_first block source b first
    have inBody := mem_named_of_mem_belowDirectives (List.mem_of_mem_head? first)
    rcases exists_parts_of_insertion (start_boundary (wellFormed_named h inBody)) edits with
      ⟨front, back, parts, size, result⟩
    have some : belowDirectives c.body ≠ [] := List.ne_nil_of_mem (List.mem_of_mem_head? first)
    refine ⟨front, _, back, parts, size ▸ edits, result, size ▸ isBindingPlace_of_first h first,
      ?_, fun _ _ none => absurd none some, fun empty => ?_⟩
    · rintro v ⟨⟩
      exact ⟨size, rfl⟩
    · rw [empty, List.append_eq_nil_iff] at split
      exact absurd split.2 some
  | none =>
    have none := List.head?_eq_none_iff.1 first
    cases last : (directives c.body).getLast? with
    | some d =>
      have edits := insertion_of_last block source b none last
      have inDirectives := List.mem_of_getLast? last
      have inBody := mem_named_of_mem_directives inDirectives
      rcases exists_parts_of_insertion (stop_boundary (wellFormed_named h inBody)) edits with
        ⟨front, back, parts, size, result⟩
      refine ⟨front, _, back, parts, size ▸ edits, result,
        size ▸ isBindingPlace_of_last h none last, nofun, ?_, fun empty => ?_⟩
      · rintro e ⟨⟩ _
        exact ⟨size, rfl⟩
      · rw [empty, List.append_eq_nil_iff] at split
        exact absurd split.1 (List.ne_nil_of_mem inDirectives)
    | none =>
      have empty : blockStatements c.body = [] := by
        rw [← split, none, List.getLast?_eq_none_iff.1 last]
        rfl
      have edits := insertion_of_comments block source b empty
      rcases exists_parts_of_insertion (boundary_behind_brace h (Or.inl isBlock)) edits with
        ⟨front, back, parts, size, result⟩
      exact ⟨front, _, back, parts, size ▸ edits, result,
        size ▸ isBindingPlace_of_comments h isBlock empty slashes, nofun, nofun,
        fun _ => ⟨size, rfl⟩⟩

/-! ## The place -/

variable {s : Source} {wrappers : List String}

/-- The binding of a component stands between the directives of its body and the other statements,
in no statement or comment, and no text is lost.  In front of a statement it is a row of its own,
and all other lines are kept, exactly when spaces and tabs are all that the statement has in front
of it on its line; with directives only it opens a new line behind the last, and with neither it
stands behind the brace.  An expression becomes what a block returns behind the binding. -/
theorem insertion_placed (detected : c ∈ detect s wrappers b) (accessor : BindingStatement)
    (slashes : ∀ t ∈ c.body.named, t.isComment = true →
      String.Pos.Raw.get s.text ⟨t.start⟩ = '/') :
    let indent := Text.lineIndent s.text
    (c.hasExpressionBody = true → ∃ front back, s.text = front ++ c.body.text s.text ++ back ∧
      front.utf8ByteSize = c.body.start ∧
      Edit.applyAll s.text (c.insertion s.text accessor) =
        front ++ ("\x7b\n" ++ indent c.function.start ++ "  " ++ accessor.text ++ "\n" ++
            indent c.function.start ++ "  return ") ++
          c.body.text s.text ++ (";\n" ++ indent c.function.start ++ "\x7d") ++ back) ∧
    (c.hasExpressionBody = false → ∃ front piece back, s.text = front ++ back ∧
      c.insertion s.text accessor = [.insert front.utf8ByteSize piece] ∧
      Edit.applyAll s.text (c.insertion s.text accessor) = front ++ piece ++ back ∧
      IsBindingPlace c.body front.utf8ByteSize ∧
      (∀ u ∈ (belowDirectives c.body).head?, front.utf8ByteSize = u.start ∧
        piece = accessor.text ++ "\n" ++ indent u.start ∧
        (Text.isIndent (String.Pos.Raw.get s.text ⟨u.start⟩) = false →
          '\n' ∉ accessor.text.toList →
          let before := Text.lineFront s.text u.start
          ∃ above, Text.lines s.text = above ++ Text.lines (before ++ back) ∧
            (Text.lines (front ++ piece ++ back) =
                above ++ [before ++ accessor.text] ++ Text.lines (before ++ back) ↔
              ∀ ch ∈ before.toList, Text.isIndent ch = true))) ∧
      (∀ d ∈ (directives c.body).getLast?, belowDirectives c.body = [] →
        front.utf8ByteSize = d.stop ∧ piece = "\n" ++ indent d.start ++ accessor.text) ∧
      (blockStatements c.body = [] → front.utf8ByteSize = c.body.start + 1 ∧
        piece = "\n" ++ indent c.body.start ++ "  " ++ accessor.text ++ "\n" ++
          indent c.body.start)) := by
  intro indent
  have h := (wellFormed_of_mem_detect detected).2.1
  refine ⟨insertion_of_expression_text h, fun block => ?_⟩
  rcases insertion_of_block_text (b := accessor) h block slashes with
    ⟨front, piece, back, split, edits, result, place, first, last, empty⟩
  refine ⟨front, piece, back, split, edits, result, place, fun u isFirst => ?_, last, empty⟩
  rcases first u isFirst with ⟨size, written⟩
  refine ⟨size, written, fun ink one => ?_⟩
  rw [← size] at ink written ⊢
  rw [split] at ink written ⊢
  rw [written]
  exact Text.lines_insert_iff ink one

/-- Behind a directive with a comment, on a line that a tab indents. -/
theorem insertion_placed_row :
    let b : BindingStatement := ⟨"theme", "useTheme"⟩
    let text := "function Card()\x7b\n\t'use strict' // 1\n\treturn\x7bcolor:'#fff'\x7d\n\x7d"
    ∃ s c u, Source.parse .tsx text = .ok s ∧ c ∈ detect s [] b ∧
      (∀ t ∈ c.body.named, t.isComment = true → String.Pos.Raw.get s.text ⟨t.start⟩ = '/') ∧
      (directives c.body).length = 1 ∧ (belowDirectives c.body).head? = some u ∧
      IsBindingPlace c.body u.start ∧
      ∃ above below, Text.lines text = above ++ below ∧
        Text.lines (Edit.applyAll text (c.insertion text b)) =
          above ++ ["\t" ++ b.text] ++ below := by
  intro b text
  have facts : (Source.parse .tsx text).toOption.any (fun s => (detect s [] b).any fun c =>
      (belowDirectives c.body).head?.any fun u =>
        !c.hasExpressionBody && (directives c.body).length == 1 &&
          decide (∀ t ∈ c.body.named, t.isComment = true →
            String.Pos.Raw.get s.text ⟨t.start⟩ = '/') &&
          !Text.isIndent (String.Pos.Raw.get s.text ⟨u.start⟩) &&
          Text.lineFront s.text u.start == "\t") = true := by
    decide +kernel
  rcases Migration.exists_ok_of_any facts with ⟨s, read, inSource⟩
  rcases List.any_eq_true.1 inSource with ⟨c, detected, inBody⟩
  rcases (Option.any_eq_true _ _).1 inBody with ⟨u, first, holds⟩
  simp only [Bool.and_eq_true, Bool.not_eq_true', beq_iff_eq, decide_eq_true_eq] at holds
  rcases holds with ⟨⟨⟨⟨block, directive⟩, slashes⟩, ink⟩, tab⟩
  rcases (insertion_placed detected b slashes).2 block with
    ⟨front, piece, back, split, _, result, place, ofFirst, _, _⟩
  rcases ofFirst u first with ⟨size, _, rows⟩
  have oneRow : '\n' ∉ b.text.toList := by decide +kernel
  rcases rows ink oneRow with ⟨above, old, new⟩
  rw [tab] at old new
  have indented : "\t".toList.all Text.isIndent = true := by decide
  have added := new.2 (List.all_eq_true.1 indented)
  rw [← result] at added
  have same : s.text = text := (Source.text_of_parse read).1
  rw [same] at old added
  exact ⟨s, c, u, read, detected, slashes, directive, first, size ▸ place, above, _, old, added⟩

/-- A statement that is the first on its line, behind no-break spaces, loses them. -/
theorem statement_loses_indentation :
    let b : BindingStatement := ⟨"theme", "useTheme"⟩
    let text := "function Card()\x7b\n\u00a0\u00a0return\x7bcolor:'#fff'\x7d\n\x7d"
    ∃ s c u, Source.parse .tsx text = .ok s ∧ c ∈ detect s [] b ∧
      (belowDirectives c.body).head? = some u ∧
      Text.allBlank (Text.lineFront text u.start) = true ∧
      "\u00a0\u00a0return\x7bcolor:'#fff'\x7d" ∈ Text.lines text ∧
      "\u00a0\u00a0return\x7bcolor:'#fff'\x7d" ∉
        Text.lines (Edit.applyAll text (c.insertion text b)) := by
  intro b text
  let front := "function Card()\x7b\n\u00a0\u00a0"
  let piece := "const theme = useTheme();\n"
  let back := "return\x7bcolor:'#fff'\x7d\n\x7d"
  have facts : (Source.parse .tsx text).toOption.any (fun s => (detect s [] b).any fun c =>
      (belowDirectives c.body).head?.any fun u =>
        Text.allBlank (Text.lineFront text u.start) &&
          c.insertion text b == [.insert front.utf8ByteSize piece]) = true := by
    decide +kernel
  rcases Migration.exists_ok_of_any facts with ⟨s, read, inSource⟩
  rcases List.any_eq_true.1 inSource with ⟨c, detected, inBody⟩
  rcases (Option.any_eq_true _ _).1 inBody with ⟨u, first, holds⟩
  rw [Bool.and_eq_true, beq_iff_eq] at holds
  have result : Edit.applyAll text (c.insertion text b) = front ++ piece ++ back := by
    have split : text = front ++ back := by decide +kernel
    rw [holds.2, split, Edit.applyAll_insert]
  refine ⟨s, c, u, read, detected, first, holds.1, by decide +kernel, ?_⟩
  rw [result]
  decide +kernel

end Component

end ThemeMigration
