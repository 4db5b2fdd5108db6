import Mathlib.Data.List.TakeWhile
import ThemeMigration.Proofs.Text.Slice

/-!
# Lines

A text is the row of its lines, and what ends with a line break contributes whole lines to it.  The
indentation that is read off a line consists of the spaces and tabs that open it, so it is all that
stands in front of an offset exactly when nothing else stands there.
-/

namespace ThemeMigration.Text

/-! ## The lines of a text -/

/-- The lines of a text, without the breaks between them. -/
def lines (s : String) : List String := (s.toList.splitOn '\n').map String.ofList

theorem lines_append_break (a b : String) : lines (a ++ "\n" ++ b) = lines a ++ lines b := by
  have break_toList : "\n".toList = ['\n'] := rfl
  rw [lines, String.toList_append, String.toList_append, break_toList, List.append_assoc,
    List.singleton_append, List.splitOn, List.splitOnP_append_cons _ _ rfl, List.map_append]
  rfl

theorem lines_eq_singleton {s : String} (one : '\n' ∉ s.toList) : lines s = [s] := by
  have noBreak : ∀ c ∈ s.toList, (c == '\n') = false := by
    intro c member
    exact beq_false_of_ne fun same => one (same ▸ member)
  rw [lines, List.splitOn, List.splitOnP_eq_singleton noBreak, List.map_singleton,
    String.ofList_toList]

theorem lines_injective : Function.Injective lines := by
  intro a b same
  have pieces := List.map_injective_iff.2 (fun _ _ => String.ofList_injective) same
  have joined := congrArg (['\n'].intercalate ·) pieces
  rw [List.intercalate_splitOn, List.intercalate_splitOn] at joined
  exact String.toList_inj.1 joined

/-- The text is empty or ends with a line break. -/
def IsFull (s : String) : Prop := s = "" ∨ ∃ a, s = a ++ "\n"

theorem IsFull.exists_lines {a : String} (h : IsFull a) :
    ∃ above, ∀ b, lines (a ++ b) = above ++ lines b := by
  rcases h with rfl | ⟨a, rfl⟩
  · exact ⟨[], fun b => by rw [String.empty_append, List.nil_append]⟩
  · exact ⟨lines a, lines_append_break a⟩

/-! ## The line of an offset -/

/-- What stands in front of an offset on its line. -/
def lineFront (s : String) (offset : Nat) : String := slice s (lineStart s offset) offset

/-- The characters that indent a line. -/
def isIndent (c : Char) : Bool := c == ' ' || c == '\t'

theorem size_ofList (cs : List Char) : (String.ofList cs).utf8ByteSize = byteLength cs := by
  induction cs with
  | nil => rfl
  | cons c cs ih => rw [String.ofList_cons, String.utf8ByteSize_append, ih, byteLength_cons,
      String.utf8ByteSize_singleton]

theorem byteLength_reverse (cs : List Char) : byteLength cs.reverse = byteLength cs := by
  induction cs with
  | nil => rfl
  | cons c cs ih => rw [List.reverse_cons, byteLength_append, ih, byteLength_cons, byteLength_cons,
      byteLength_nil, Nat.add_zero, Nat.add_comm]

/-- The line of an offset begins behind whole lines. -/
theorem exists_line (front back : String) :
    ∃ above, front = above ++ lineFront (front ++ back) front.utf8ByteSize ∧ IsFull above ∧
      '\n' ∉ (lineFront (front ++ back) front.utf8ByteSize).toList ∧
      lineStart (front ++ back) front.utf8ByteSize = above.utf8ByteSize := by
  -- The line is read backwards from the offset, up to the first break.
  let row := front.toList.reverse.takeWhile (· != '\n')
  let rest := front.toList.reverse.dropWhile (· != '\n')
  have split : front = String.ofList rest.reverse ++ String.ofList row.reverse := by
    rw [← String.ofList_append, ← List.reverse_append, List.takeWhile_append_dropWhile,
      List.reverse_reverse, String.ofList_toList]
  have start : lineStart (front ++ back) front.utf8ByteSize =
      (String.ofList rest.reverse).utf8ByteSize := by
    have sizes := congrArg String.utf8ByteSize split
    rw [String.utf8ByteSize_append, size_ofList row.reverse, byteLength_reverse] at sizes
    rw [lineStart, slice_zero_append]
    change front.utf8ByteSize - byteLength row = _
    omega
  have line : lineFront (front ++ back) front.utf8ByteSize = String.ofList row.reverse := by
    have piece := slice_append (String.ofList rest.reverse) (String.ofList row.reverse) back
    rw [← split, ← String.utf8ByteSize_append, ← split] at piece
    rw [lineFront, start, piece]
  have full : rest = [] ∨ ∃ cs, rest = '\n' :: cs := by
    have head := List.head?_dropWhile_not (· != '\n') front.toList.reverse
    cases before : front.toList.reverse.dropWhile (· != '\n') with
    | nil => exact Or.inl before
    | cons c cs =>
      rw [before] at head
      have same : c = '\n' := by simpa using head
      exact Or.inr ⟨cs, same ▸ before⟩
  refine ⟨String.ofList rest.reverse, line ▸ split, ?_, ?_, start⟩
  · rcases full with none | ⟨cs, broken⟩
    · rw [none]
      exact Or.inl rfl
    · rw [broken, List.reverse_cons, String.ofList_append]
      exact Or.inr ⟨String.ofList cs.reverse, rfl⟩
  · rw [line, String.toList_ofList, List.mem_reverse]
    intro member
    exact absurd (List.mem_takeWhile_imp member) (by decide)

theorem lineIndent_eq_takeWhile (front back : String) :
    lineIndent (front ++ back) front.utf8ByteSize =
      String.ofList ((lineFront (front ++ back) front.utf8ByteSize ++ back).toList.takeWhile
        isIndent) := by
  rcases exists_line front back with ⟨above, split, _, _, start⟩
  have tail := sliceFrom_append above (lineFront (front ++ back) front.utf8ByteSize ++ back)
  rw [← String.append_assoc, ← split] at tail
  rw [lineIndent, start, tail]
  rfl

/-- The indentation of a line is what stands there in front of a character that is none. -/
theorem lineIndent_eq_lineFront_iff {front back : String}
    (ink : isIndent (String.Pos.Raw.get (front ++ back) ⟨front.utf8ByteSize⟩) = false) :
    lineIndent (front ++ back) front.utf8ByteSize =
        lineFront (front ++ back) front.utf8ByteSize ↔
      ∀ c ∈ (lineFront (front ++ back) front.utf8ByteSize).toList, isIndent c = true := by
  rw [lineIndent_eq_takeWhile, ← String.toList_inj, String.toList_ofList, String.toList_append]
  generalize lineFront (front ++ back) front.utf8ByteSize = row
  constructor
  · intro same c member
    rw [← same] at member
    exact List.mem_takeWhile_imp member
  · intro all
    have none : back.toList.takeWhile isIndent = [] := by
      have read := String.get_of_valid front.toList back.toList
      rw [← String.toList_append, String.ofList_toList, String.utf8Len_toList] at read
      rw [read] at ink
      cases rest : back.toList with
      | nil => rfl
      | cons c cs =>
        rw [rest, List.headD_cons] at ink
        rw [List.takeWhile_cons_of_neg (by rw [ink]; decide)]
    rw [List.takeWhile_append_of_pos all, none, List.append_nil]

/-- A row that is put in front of an offset, with the indentation of the line below it, is a line of
its own among the lines of the text exactly when that indentation is all that stood there. -/
theorem lines_insert_iff {front back row : String}
    (ink : isIndent (String.Pos.Raw.get (front ++ back) ⟨front.utf8ByteSize⟩) = false)
    (one : '\n' ∉ row.toList) :
    let before := lineFront (front ++ back) front.utf8ByteSize
    ∃ above, lines (front ++ back) = above ++ lines (before ++ back) ∧
      (lines (front ++ (row ++ "\n" ++ lineIndent (front ++ back) front.utf8ByteSize) ++ back) =
          above ++ [before ++ row] ++ lines (before ++ back) ↔
        ∀ c ∈ before.toList, isIndent c = true) := by
  intro before
  rcases exists_line front back with ⟨whole, split, full, within, _⟩
  rcases full.exists_lines with ⟨above, join⟩
  have single : lines (before ++ row) = [before ++ row] := by
    refine lines_eq_singleton ?_
    rw [String.toList_append, List.mem_append, not_or]
    exact ⟨within, one⟩
  refine ⟨above, ?_, ?_⟩
  · rw [← join, ← String.append_assoc, ← split]
  · have rows (indent : String) : lines (front ++ (row ++ "\n" ++ indent) ++ back) =
        above ++ [before ++ row] ++ lines (indent ++ back) := by
      have pieces : front ++ (row ++ "\n" ++ indent) ++ back =
          whole ++ (before ++ row ++ "\n" ++ (indent ++ back)) := by
        conv_lhs => rw [split]
        simp only [String.append_assoc]
        rfl
      rw [pieces, join, lines_append_break, single, List.append_assoc]
    rw [rows, List.append_cancel_left_eq, lines_injective.eq_iff, ← lineIndent_eq_lineFront_iff ink,
      ← String.toList_inj, String.toList_append, String.toList_append, List.append_cancel_right_eq,
      String.toList_inj]

end ThemeMigration.Text
