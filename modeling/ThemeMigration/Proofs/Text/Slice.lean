import Mathlib.Data.String.Basic
import ThemeMigration.Text.Slice

/-!
# Texts cut at character boundaries

An offset is a boundary exactly when the text splits there into two texts.  Between boundaries,
slices behave like pieces: their sizes are differences of offsets, neighbouring slices join, and a
piece of a larger text is found again at the size of what stands before it.
-/

namespace ThemeMigration

namespace Span

/-- One of the two spans ends before the other begins. -/
def Apart (a b : Span) : Prop := a.stop ≤ b.start ∨ b.stop ≤ a.start

instance (a b : Span) : Decidable (a.Apart b) := inferInstanceAs (Decidable (_ ∨ _))

theorem Apart.symm {a b : Span} (h : a.Apart b) : b.Apart a := Or.symm h

/-- What lies inside two spans that are apart is apart. -/
theorem Apart.mono {a b c d : Span} (h : a.Apart b) (left : a.Contains c) (right : b.Contains d) :
    c.Apart d := by
  rcases h with h | h
  · exact Or.inl (Nat.le_trans left.2 (Nat.le_trans h right.1))
  · exact Or.inr (Nat.le_trans right.2 (Nat.le_trans h left.1))

/-- Spans that are apart share no text. -/
theorem Apart.stop_le_start {a b c : Span} (h : a.Apart b) (left : a.Contains c)
    (right : b.Contains c) : c.stop ≤ c.start := by
  rcases h.mono left right with h | h <;> exact h

theorem point_apart_point (a b : Nat) : (point a).Apart (point b) := Nat.le_total a b

/-- The two ends of a span are no points inside it. -/
theorem start_apart (a : Span) : (point a.start).Apart a := Or.inl (Nat.le_refl _)

theorem stop_apart (a : Span) : (point a.stop).Apart a := Or.inr (Nat.le_refl _)

/-- Of things whose spans follow one another, different ones are apart. -/
theorem eq_or_apart {α : Type} (span : α → Span) {xs : List α}
    (h : xs.Pairwise fun a b => (span a).stop ≤ (span b).start) {a b : α} (first : a ∈ xs)
    (second : b ∈ xs) : a = b ∨ (span a).Apart (span b) := by
  induction xs with
  | nil => cases first
  | cons x xs ih =>
    rcases List.pairwise_cons.1 h with ⟨head, tail⟩
    rcases List.mem_cons.1 first with rfl | inTail
    · rcases List.mem_cons.1 second with rfl | inTail
      · exact Or.inl rfl
      · exact Or.inr (Or.inl (head b inTail))
    · rcases List.mem_cons.1 second with rfl | inTail'
      · exact Or.inr (Or.inr (head a inTail))
      · exact ih tail inTail inTail'

end Span

namespace Text

/-! ## Boundaries -/

theorem isBoundary_iff {s : String} {offset : Nat} :
    isBoundary s offset = true ↔
      ∃ before after, s = before ++ after ∧ before.utf8ByteSize = offset := by
  rw [isBoundary, String.Pos.Raw.isValid_eq_true_iff, String.Pos.Raw.isValid_iff_exists_append]
  constructor
  · rintro ⟨before, after, split, offset_eq⟩
    exact ⟨before, after, split, (congrArg String.Pos.Raw.byteIdx offset_eq).symm⟩
  · rintro ⟨before, after, split, rfl⟩
    exact ⟨before, after, split, rfl⟩

theorem isBoundary_size_append (before after : String) :
    isBoundary (before ++ after) before.utf8ByteSize = true :=
  isBoundary_iff.2 ⟨before, after, rfl, rfl⟩

theorem isBoundary_zero (s : String) : isBoundary s 0 = true :=
  isBoundary_iff.2 ⟨"", s, by simp, by simp⟩

theorem isBoundary_size (s : String) : isBoundary s s.utf8ByteSize = true :=
  isBoundary_iff.2 ⟨s, "", by simp, rfl⟩

theorem le_size_of_isBoundary {s : String} {offset : Nat} (h : isBoundary s offset = true) :
    offset ≤ s.utf8ByteSize := by
  rcases isBoundary_iff.1 h with ⟨before, after, rfl, rfl⟩
  simp [String.utf8ByteSize_append]

/-- Of two splits of a text, the shorter beginning is a beginning of the longer one. -/
theorem exists_append_of_append_eq {a b c d : String} (h : a ++ b = c ++ d)
    (le : a.utf8ByteSize ≤ c.utf8ByteSize) : ∃ m, c = a ++ m ∧ b = m ++ d := by
  have lists : a.toList ++ b.toList = c.toList ++ d.toList := by
    simpa only [String.toList_append] using congrArg String.toList h
  rcases List.append_eq_append_iff.1 lists with ⟨m, hc, hb⟩ | ⟨m, ha, hd⟩
  · refine ⟨String.ofList m, ?_, ?_⟩
    · apply String.toList_inj.1
      simpa only [String.toList_append, String.toList_ofList] using hc
    · apply String.toList_inj.1
      simpa only [String.toList_append, String.toList_ofList] using hb
  · have hac : a = c ++ String.ofList m := by
      apply String.toList_inj.1
      simpa only [String.toList_append, String.toList_ofList] using ha
    have empty : String.ofList m = "" := by
      rw [← String.utf8ByteSize_eq_zero_iff]
      rw [hac, String.utf8ByteSize_append] at le
      omega
    refine ⟨"", ?_, ?_⟩
    · rw [hac, empty, String.append_assoc]
      simp
    · have hm : m = [] := by simpa using congrArg String.toList empty
      apply String.toList_inj.1
      simpa [hm] using hd.symm

/-- Two boundaries cut a text into three pieces. -/
theorem exists_pieces {s : String} {i j : Nat} (hi : isBoundary s i = true)
    (hj : isBoundary s j = true) (le : i ≤ j) :
    ∃ before middle after, s = before ++ middle ++ after ∧ before.utf8ByteSize = i ∧
      i + middle.utf8ByteSize = j := by
  rcases isBoundary_iff.1 hi with ⟨a, b, split, rfl⟩
  rcases isBoundary_iff.1 hj with ⟨c, d, split', rfl⟩
  rcases exists_append_of_append_eq (split.symm.trans split') le with ⟨m, rfl, rfl⟩
  exact ⟨a, m, d, by rw [split, String.append_assoc], rfl, (String.utf8ByteSize_append).symm⟩

/-! ## Slices -/

/-- A piece of a text is the slice at its place. -/
theorem slice_append (before middle after : String) :
    slice (before ++ middle ++ after) before.utf8ByteSize
      (before.utf8ByteSize + middle.utf8ByteSize) = middle := by
  have h := String.extract_of_valid before.toList middle.toList after.toList
  simpa only [slice, ← String.toList_append, String.ofList_toList, String.utf8Len_toList] using h

theorem slice_zero_append (before after : String) :
    slice (before ++ after) 0 before.utf8ByteSize = before := by
  have piece := slice_append "" before after
  simpa only [String.empty_append, String.utf8ByteSize_empty, Nat.zero_add] using piece

theorem sliceFrom_append (before after : String) :
    sliceFrom (before ++ after) before.utf8ByteSize = after := by
  have piece := slice_append before after ""
  simpa only [sliceFrom, String.append_empty, String.utf8ByteSize_append] using piece

theorem sliceFrom_zero (s : String) : sliceFrom s 0 = s := by
  have whole := sliceFrom_append "" s
  rwa [String.empty_append, String.utf8ByteSize_empty] at whole

theorem slice_eq_empty {s : String} {i j : Nat} (h : j ≤ i) : slice s i j = "" := by
  simp [slice, String.Pos.Raw.extract, h]

theorem size_slice {s : String} {i j : Nat} (hi : isBoundary s i = true)
    (hj : isBoundary s j = true) (le : i ≤ j) : (slice s i j).utf8ByteSize = j - i := by
  rcases exists_pieces hi hj le with ⟨before, middle, after, rfl, rfl, rfl⟩
  rw [slice_append]
  omega

/-- Neighbouring slices join. -/
theorem slice_append_slice {s : String} {i j k : Nat} (hi : isBoundary s i = true)
    (hj : isBoundary s j = true) (hk : isBoundary s k = true) (ij : i ≤ j) (jk : j ≤ k) :
    slice s i j ++ slice s j k = slice s i k := by
  rcases exists_pieces hi hj ij with ⟨a, m, b, rfl, rfl, rfl⟩
  rcases exists_pieces hj hk jk with ⟨c, n, d, split, size, rfl⟩
  have sizes : (a ++ m).utf8ByteSize = c.utf8ByteSize := by
    rw [size, String.utf8ByteSize_append]
  have both : (a ++ m) ++ b = c ++ (n ++ d) := by rw [split, String.append_assoc]
  rcases exists_append_of_append_eq both (Nat.le_of_eq sizes) with ⟨x, hc, hb⟩
  have hx : x = "" := by
    rw [← String.utf8ByteSize_eq_zero_iff]
    have longer := congrArg String.utf8ByteSize hc
    rw [String.utf8ByteSize_append] at longer
    omega
  subst hx
  have hb' : b = n ++ d := by simpa using hb
  subst hb'
  have first : slice (a ++ m ++ (n ++ d)) a.utf8ByteSize (a.utf8ByteSize + m.utf8ByteSize) = m :=
    slice_append a m (n ++ d)
  have second := slice_append (a ++ m) n d
  have both := slice_append a (m ++ n) d
  simp only [String.utf8ByteSize_append, String.append_assoc, Nat.add_assoc] at first second both ⊢
  rw [first, second, both]

/-- What a slice is made of are slices of the text. -/
theorem slice_of_slice_eq_append {s a b : String} {i j : Nat} (hi : isBoundary s i = true)
    (hj : isBoundary s j = true) (le : i ≤ j) (h : slice s i j = a ++ b) :
    isBoundary s (i + a.utf8ByteSize) = true ∧ i + a.utf8ByteSize ≤ j ∧
      slice s i (i + a.utf8ByteSize) = a ∧ slice s (i + a.utf8ByteSize) j = b := by
  rcases exists_pieces hi hj le with ⟨before, middle, after, rfl, rfl, rfl⟩
  rw [slice_append] at h
  subst h
  have boundary := isBoundary_size_append (before ++ a) (b ++ after)
  have first := slice_append before a (b ++ after)
  have second := slice_append (before ++ a) b after
  simp only [String.utf8ByteSize_append, String.append_assoc, Nat.add_assoc]
    at boundary first second ⊢
  exact ⟨boundary, by omega, first, second⟩

/-- The text between two offsets, provided they are boundaries in this order. -/
def slice? (s : String) (start stop : Nat) : Option String :=
  if start ≤ stop && isBoundary s start && isBoundary s stop then some (slice s start stop)
  else none

theorem slice?_eq {s : String} {i j : Nat} (hi : isBoundary s i = true)
    (hj : isBoundary s j = true) (le : i ≤ j) : slice? s i j = some (slice s i j) := by
  simp [slice?, hi, hj, le]

/-- A piece stands in a text at an offset. -/
def StandsAt (s : String) (offset : Nat) (piece : String) : Prop :=
  ∃ before after, s = before ++ piece ++ after ∧ before.utf8ByteSize = offset

theorem StandsAt.slice_eq {s piece : String} {offset : Nat} (h : StandsAt s offset piece) :
    slice s offset (offset + piece.utf8ByteSize) = piece := by
  rcases h with ⟨before, after, rfl, rfl⟩
  exact slice_append before piece after

theorem standsAt_zero (s : String) : StandsAt s 0 s := ⟨"", "", by simp, rfl⟩

/-- Both ends of a piece stand between characters of the text. -/
theorem StandsAt.isBoundary {s piece : String} {offset : Nat} (h : StandsAt s offset piece) :
    isBoundary s offset = true ∧ isBoundary s (offset + piece.utf8ByteSize) = true := by
  rcases h with ⟨before, after, rfl, rfl⟩
  refine ⟨?_, ?_⟩
  · rw [String.append_assoc]
    exact isBoundary_size_append before (piece ++ after)
  · rw [← String.utf8ByteSize_append]
    exact isBoundary_size_append (before ++ piece) after

/-- What a piece is made of stands in the text too. -/
theorem StandsAt.part {s a b c : String} {offset : Nat} (h : StandsAt s offset (a ++ b ++ c)) :
    StandsAt s (offset + a.utf8ByteSize) b := by
  rcases h with ⟨before, after, rfl, rfl⟩
  refine ⟨before ++ a, c ++ after, ?_, String.utf8ByteSize_append⟩
  simp only [String.append_assoc]

theorem StandsAt.left {s a b : String} {offset : Nat} (h : StandsAt s offset (a ++ b)) :
    StandsAt s offset a := by
  rcases h with ⟨before, after, rfl, size⟩
  exact ⟨before, b ++ after, by simp only [String.append_assoc], size⟩

theorem StandsAt.right {s a b : String} {offset : Nat} (h : StandsAt s offset (a ++ b)) :
    StandsAt s (offset + a.utf8ByteSize) b := by
  rcases h with ⟨before, after, rfl, rfl⟩
  exact ⟨before ++ a, after, by simp only [String.append_assoc], String.utf8ByteSize_append⟩

theorem StandsAt.get_eq {s piece : String} {offset : Nat} {c : Char} {cs : List Char}
    (h : StandsAt s offset piece) (head : piece.toList = c :: cs) :
    String.Pos.Raw.get s ⟨offset⟩ = c := by
  rcases h with ⟨before, after, rfl, rfl⟩
  have read := String.get_of_valid before.toList (piece ++ after).toList
  rw [← String.toList_append, String.ofList_toList, String.utf8Len_toList,
    ← String.append_assoc, String.toList_append, head] at read
  exact read

/-- A character of one byte has a boundary behind it. -/
theorem isBoundary_succ_of_get {s : String} {i : Nat} {c : Char} (hi : isBoundary s i = true)
    (lt : i < s.utf8ByteSize) (h : String.Pos.Raw.get s ⟨i⟩ = c) (small : c.utf8Size = 1) :
    isBoundary s (i + 1) = true := by
  rcases isBoundary_iff.1 hi with ⟨before, after, rfl, rfl⟩
  have read := String.get_of_valid before.toList after.toList
  rw [← String.toList_append, String.ofList_toList, String.utf8Len_toList, h] at read
  cases rest : after.toList with
  | nil =>
    have empty : after = "" := String.toList_inj.1 (by simpa using rest)
    simp [empty] at lt
  | cons d ds =>
    have head : d = c := by simpa [rest] using read.symm
    subst head
    have split : after = String.singleton d ++ String.ofList ds := by
      apply String.toList_inj.1
      simp [rest]
    have boundary := isBoundary_size_append (before ++ String.singleton d) (String.ofList ds)
    rw [String.append_assoc, ← split, String.utf8ByteSize_append] at boundary
    simpa [small] using boundary

end Text

end ThemeMigration
