import Mathlib.Algebra.GroupWithZero.Nat
import ThemeMigration.Proofs.Edits.Order

/-!
# Edits one at a time

Edits that are apart can as well be applied one after the other, the last one first: what an edit
writes does not move the text in front of it, so the offsets of the edits still to come stay right.
The result is the text outside the spans with the replacements in their places, and it depends on
the order of recording only where two edits have the same span.
-/

namespace ThemeMigration

namespace Edit

/-! ## The stable order -/

/-- The same edits in another order, in which edits of one span keep theirs. -/
structure Reorders (recorded other : List Edit) : Prop where
  perm : other.Perm recorded
  keeps : ∀ s : Span, other.filter (·.span == s) = recorded.filter (·.span == s)

/-- The edits by the start and then by the end of their spans, those of one span as recorded. -/
structure InStableOrder (recorded ordered : List Edit) : Prop extends
    Reorders recorded ordered where
  inOrder : ordered.Pairwise fun a b => a.precedes b = true

theorem precedes_of_span_eq {a b : Edit} (same : a.span = b.span) : a.precedes b = true :=
  precedes_iff.2 (Or.inr ⟨by rw [same], by rw [same]⟩)

theorem span_eq_of_precedes {a b : Edit} (first : a.precedes b = true)
    (second : b.precedes a = true) : a.span = b.span := by
  rw [precedes_iff] at first second
  rcases a with ⟨⟨i, j⟩, _⟩
  rcases b with ⟨⟨k, l⟩, _⟩
  simp only [Span.mk.injEq] at *
  omega

theorem filter_insertSorted (e : Edit) (es : List Edit) (s : Span) :
    (insertSorted e es).filter (·.span == s) = (e :: es).filter (·.span == s) := by
  induction es with
  | nil => rfl
  | cons f fs ih =>
    rw [insertSorted]
    split
    · rfl
    · rename_i notBefore
      -- The edit goes behind `f`, so the two have different spans.
      have different : e.span ≠ f.span := fun same => notBefore (precedes_of_span_eq same)
      simp only [List.filter_cons] at ih ⊢
      rw [ih]
      by_cases inFront : f.span = s
      · have other : (e.span == s) = false := by
          rw [← inFront]
          exact beq_false_of_ne different
        simp [other]
      · simp [beq_false_of_ne inFront]

theorem sorted_inStableOrder (edits : List Edit) : InStableOrder edits (sorted edits) where
  perm := sorted_perm edits
  inOrder := sorted_pairwise edits
  keeps s := by
    induction edits with
    | nil => rfl
    | cons e es ih =>
      change (insertSorted e (sorted es)).filter _ = _
      rw [filter_insertSorted, List.filter_cons, List.filter_cons, ih]

/-- Sorted edits are known by the edits of each span. -/
theorem eq_of_filters {xs ys : List Edit} (first : xs.Pairwise fun a b => a.precedes b = true)
    (second : ys.Pairwise fun a b => a.precedes b = true)
    (same : ∀ s : Span, xs.filter (·.span == s) = ys.filter (·.span == s)) : xs = ys := by
  induction xs generalizing ys with
  | nil =>
    cases ys with
    | nil => rfl
    | cons y ys => simpa using same y.span
  | cons x xs ih =>
    cases ys with
    | nil => simpa using same x.span
    | cons y ys =>
      rcases List.pairwise_cons.1 first with ⟨firstHead, firstTail⟩
      rcases List.pairwise_cons.1 second with ⟨secondHead, secondTail⟩
      have inSecond : x ∈ y :: ys := by
        have member : x ∈ (x :: xs).filter (·.span == x.span) := by simp
        rw [same] at member
        exact (List.mem_filter.1 member).1
      have inFirst : y ∈ x :: xs := by
        have member : y ∈ (y :: ys).filter (·.span == y.span) := by simp
        rw [← same] at member
        exact (List.mem_filter.1 member).1
      have spans : x.span = y.span := by
        rcases List.mem_cons.1 inFirst with equal | later
        · rw [equal]
        · rcases List.mem_cons.1 inSecond with equal | later'
          · rw [equal]
          · exact span_eq_of_precedes (firstHead y later) (secondHead x later')
      have heads := same x.span
      simp only [List.filter_cons, spans, beq_self_eq_true, if_true] at heads
      have equal : x = y := (List.cons.inj heads).1
      subst equal
      congr 1
      refine ih firstTail secondTail fun s => ?_
      have both := same s
      simp only [List.filter_cons] at both
      split at both
      · exact (List.cons.inj both).2
      · exact both

theorem InStableOrder.eq_sorted {edits ordered : List Edit} (h : InStableOrder edits ordered) :
    ordered = sorted edits :=
  eq_of_filters h.inOrder (sorted_pairwise edits) fun s =>
    (h.keeps s).trans ((sorted_inStableOrder edits).keeps s).symm

theorem Reorders.sorted_eq {recorded other : List Edit} (h : Reorders recorded other) :
    sorted other = sorted recorded := by
  refine eq_of_filters (sorted_pairwise other) (sorted_pairwise recorded) fun s => ?_
  rw [(sorted_inStableOrder other).keeps, h.keeps, (sorted_inStableOrder recorded).keeps]

/-! ## One edit after the other -/

/-- The text with one edit applied. -/
def applyOne (e : Edit) (text : String) : String :=
  Text.slice text 0 e.span.start ++ e.replacement ++ Text.sliceFrom text e.span.stop

/-- An edit puts its replacement into the place of the text of its span. -/
theorem applyOne_append {e : Edit} {front old back : String}
    (start : front.utf8ByteSize = e.span.start)
    (stop : front.utf8ByteSize + old.utf8ByteSize = e.span.stop) :
    applyOne e (front ++ old ++ back) = front ++ e.replacement ++ back := by
  have before : Text.slice (front ++ old ++ back) 0 e.span.start = front := by
    rw [← start, String.append_assoc, Text.slice_zero_append]
  have after : Text.sliceFrom (front ++ old ++ back) e.span.stop = back := by
    rw [← stop, ← String.utf8ByteSize_append, Text.sliceFrom_append]
  rw [applyOne, before, after]

/-- Ordered edits leave the text in front of them as it is. -/
theorem foldr_applyOne {text : String} {lower : Nat} {es : List Edit}
    (boundary : Text.isBoundary text lower = true)
    (h : Ordered text lower text.utf8ByteSize es) :
    es.foldr applyOne text =
      Text.slice text 0 lower ++ applyBetween text lower text.utf8ByteSize es := by
  have zero := Text.isBoundary_zero text
  induction es generalizing lower with
  | nil =>
    rw [List.foldr_nil, applyBetween,
      Text.slice_append_slice zero boundary (Text.isBoundary_size text) (Nat.zero_le _) h]
    exact (Text.sliceFrom_zero text).symm
  | cons e es ih =>
    rcases h with ⟨low, sound, rest⟩
    have size := Text.size_slice zero sound.start_boundary (Nat.zero_le _)
    have size' := Text.size_slice sound.start_boundary sound.stop_boundary sound.start_le_stop
    have cut := Text.slice_append_slice zero sound.start_boundary sound.stop_boundary
      (Nat.zero_le _) sound.start_le_stop
    have cut' := Text.slice_append_slice zero boundary sound.start_boundary (Nat.zero_le _) low
    rw [List.foldr_cons, ih sound.stop_boundary rest, ← cut,
      applyOne_append (by omega) (by have := sound.start_le_stop; omega), ← cut', applyBetween]
    simp only [String.append_assoc]

theorem Ordered.inOrder {text : String} {lower upper : Nat} {es : List Edit}
    (h : Ordered text lower upper es) : es.Pairwise fun a b => a.precedes b = true := by
  induction es generalizing lower with
  | nil => exact .nil
  | cons e es ih =>
    refine List.pairwise_cons.2 ⟨?_, ih h.2.2⟩
    intro f member
    have behind := h.2.2.bounds member
    have room := h.2.1.start_le_stop
    exact precedes_iff.2 (by omega)

/-- Edits that are recorded in their order are applied from the last to the first. -/
theorem applyAll_eq_foldr {text : String} {es : List Edit}
    (h : Ordered text 0 text.utf8ByteSize es) : applyAll text es = es.foldr applyOne text := by
  rw [applyAll, sorted_eq_self h.inOrder, applyFrom_eq_applyBetween h,
    foldr_applyOne (Text.isBoundary_zero text) h, Text.slice_eq_empty (Nat.le_refl 0),
    String.empty_append]

theorem applyOne_insert (front back piece : String) :
    applyOne (insert front.utf8ByteSize piece) (front ++ back) = front ++ piece ++ back := by
  have nothing : applyOne (insert front.utf8ByteSize piece) (front ++ "" ++ back) =
      front ++ piece ++ back := applyOne_append rfl (Nat.add_zero front.utf8ByteSize)
  rwa [String.append_empty] at nothing

theorem insert_sound (front back piece : String) :
    (insert front.utf8ByteSize piece).Sound (front ++ back) :=
  have boundary := Text.isBoundary_size_append front back
  ⟨Nat.le_refl _, boundary, boundary⟩

/-- An insertion stands between the two parts of the text that it cuts apart. -/
theorem applyAll_insert (front back piece : String) :
    applyAll (front ++ back) [insert front.utf8ByteSize piece] = front ++ piece ++ back := by
  have sound := insert_sound front back piece
  have row : Ordered (front ++ back) 0 (front ++ back).utf8ByteSize
      [insert front.utf8ByteSize piece] := ⟨Nat.zero_le _, sound, sound.stop_le_size⟩
  rw [applyAll_eq_foldr row, List.foldr_cons, List.foldr_nil, applyOne_insert]

/-- Two insertions stand around the part of the text between them. -/
theorem applyAll_insert_insert (front middle back opening closing : String) :
    applyAll (front ++ middle ++ back)
        [insert front.utf8ByteSize opening, insert (front ++ middle).utf8ByteSize closing] =
      front ++ opening ++ middle ++ closing ++ back := by
  have first := insert_sound front (middle ++ back) opening
  have second := insert_sound (front ++ middle) back closing
  rw [← String.append_assoc] at first
  have order : front.utf8ByteSize ≤ (front ++ middle).utf8ByteSize := by
    rw [String.utf8ByteSize_append]
    exact Nat.le_add_right _ _
  have row : Ordered (front ++ middle ++ back) 0 (front ++ middle ++ back).utf8ByteSize
      [insert front.utf8ByteSize opening, insert (front ++ middle).utf8ByteSize closing] :=
    ⟨Nat.zero_le _, first, order, second, second.stop_le_size⟩
  have next := applyOne_insert front (middle ++ closing ++ back) opening
  simp only [← String.append_assoc] at next
  rw [applyAll_eq_foldr row, List.foldr_cons, List.foldr_cons, List.foldr_nil, applyOne_insert,
    next]

/-! ## What is kept -/

/-- Texts with an edit behind each and one more text at the end, written out; `write` says what
stands for an edit. -/
def woven (write : Edit → String) : List (String × Edit) → String → String
  | [], last => last
  | (kept, e) :: rest, last => kept ++ write e ++ woven write rest last

/-- A text cut at the spans of ordered edits into the texts that are kept and those that are
replaced. -/
structure Cut (text : String) (ordered : List Edit) (kept : List (String × Edit))
    (last : String) : Prop where
  edits : kept.map Prod.snd = ordered
  text_eq : woven (fun e => Text.sliceSpan text e.span) kept last = text
  place : ∀ before gap e after, kept = before ++ (gap, e) :: after →
    (woven (fun e => Text.sliceSpan text e.span) before gap).utf8ByteSize = e.span.start ∧
      e.span.start + (Text.sliceSpan text e.span).utf8ByteSize = e.span.stop

/-- The texts kept from an offset on, and their places seen from there. -/
theorem exists_woven {text : String} {lower : Nat} {es : List Edit}
    (boundary : Text.isBoundary text lower = true)
    (h : Ordered text lower text.utf8ByteSize es) :
    ∃ kept last, kept.map Prod.snd = es ∧
      woven (fun e => Text.sliceSpan text e.span) kept last = Text.sliceFrom text lower ∧
      woven replacement kept last = applyBetween text lower text.utf8ByteSize es ∧
      ∀ before gap e after, kept = before ++ (gap, e) :: after →
        lower + (woven (fun e => Text.sliceSpan text e.span) before gap).utf8ByteSize =
            e.span.start ∧
          e.span.start + (Text.sliceSpan text e.span).utf8ByteSize = e.span.stop := by
  induction es generalizing lower with
  | nil => exact ⟨[], Text.sliceFrom text lower, rfl, rfl, rfl, by simp⟩
  | cons e es ih =>
    rcases h with ⟨low, sound, rest⟩
    rcases ih sound.stop_boundary rest with ⟨kept, last, edits, old, new, place⟩
    have ordered := sound.start_le_stop
    have gapSize := Text.size_slice boundary sound.start_boundary low
    have oldSize : (Text.sliceSpan text e.span).utf8ByteSize = _ :=
      Text.size_slice sound.start_boundary sound.stop_boundary ordered
    refine ⟨(Text.slice text lower e.span.start, e) :: kept, last, ?_, ?_, ?_, ?_⟩
    · rw [List.map_cons, edits]
    · rw [woven, old, Text.sliceSpan, Text.slice_append_slice boundary sound.start_boundary
          sound.stop_boundary low ordered, Text.sliceFrom, Text.sliceFrom,
        Text.slice_append_slice boundary sound.stop_boundary (Text.isBoundary_size text)
          (Nat.le_trans low ordered) rest.le]
    · rw [woven, new, applyBetween]
    · intro before gap f after split
      cases before with
      | nil =>
        cases split
        rw [woven]
        exact ⟨by omega, by omega⟩
      | cons head before =>
        rcases List.cons.inj split with ⟨rfl, tail⟩
        rcases place before gap f after tail with ⟨start, stop⟩
        rw [woven, String.utf8ByteSize_append, String.utf8ByteSize_append]
        exact ⟨by omega, stop⟩

theorem size_applyBetween {text : String} {lower : Nat} {es : List Edit}
    (boundary : Text.isBoundary text lower = true)
    (h : Ordered text lower text.utf8ByteSize es) :
    lower + (applyBetween text lower text.utf8ByteSize es).utf8ByteSize +
        (es.map (·.span.size)).sum =
      text.utf8ByteSize + (es.map (·.replacement.utf8ByteSize)).sum := by
  induction es generalizing lower with
  | nil =>
    have size := Text.size_slice boundary (Text.isBoundary_size text) h
    have le : lower ≤ text.utf8ByteSize := h
    rw [applyBetween, size]
    simp only [List.map_nil, List.sum_nil]
    omega
  | cons e es ih =>
    rcases h with ⟨low, sound, rest⟩
    have tail := ih sound.stop_boundary rest
    have size := Text.size_slice boundary sound.start_boundary low
    have ordered := sound.start_le_stop
    rw [applyBetween, String.utf8ByteSize_append, String.utf8ByteSize_append, size]
    simp only [List.map_cons, List.sum_cons, Span.size] at tail ⊢
    omega

section

variable {text : String} {edits : List Edit} (sound : ∀ e ∈ edits, e.Sound text)
  (apart : edits.Pairwise fun a b => a.span.Apart b.span)
include sound apart

theorem applyAll_eq_applyBetween :
    applyAll text edits = applyBetween text 0 text.utf8ByteSize (sorted edits) :=
  applyFrom_eq_applyBetween (ordered_sorted sound apart)

/-- One pass comes to the same as the edits one at a time, from the last to the first. -/
theorem applyAll_eq_foldr_sorted : applyAll text edits = (sorted edits).foldr applyOne text := by
  rw [applyAll_eq_applyBetween sound apart,
    foldr_applyOne (Text.isBoundary_zero text) (ordered_sorted sound apart),
    Text.slice_eq_empty (Nat.le_refl 0), String.empty_append]

/-- The text outside the spans is kept, and each replacement stands once in its place. -/
theorem exists_cut :
    ∃ kept last, Cut text (sorted edits) kept last ∧
      applyAll text edits = woven replacement kept last := by
  rcases exists_woven (Text.isBoundary_zero text) (ordered_sorted sound apart) with
    ⟨kept, last, inOrder, old, new, place⟩
  refine ⟨kept, last, ⟨inOrder, old.trans (Text.sliceFrom_zero text), ?_⟩,
    (applyAll_eq_applyBetween sound apart).trans new.symm⟩
  intro before gap e after split
  simpa using place before gap e after split

end

/-- Edits that are apart are applied in one pass as they are one at a time from the last to the
first in their stable order: the text outside the spans is kept, each replacement stands once in
its place, the sizes add up, and recording edits of different spans in another order changes
nothing. -/
theorem applyAll_stepwise {text : String} {edits : List Edit} (sound : ∀ e ∈ edits, e.Sound text)
    (apart : edits.Pairwise fun a b => a.span.Apart b.span) :
    ∃ ordered, InStableOrder edits ordered ∧
      (∀ other, InStableOrder edits other → other = ordered) ∧
      applyAll text edits = ordered.foldr applyOne text ∧
      (∃ kept last, Cut text ordered kept last ∧
        applyAll text edits = woven replacement kept last) ∧
      (applyAll text edits).utf8ByteSize + (edits.map (·.span.size)).sum =
        text.utf8ByteSize + (edits.map (·.replacement.utf8ByteSize)).sum ∧
      ∀ other, Reorders edits other → applyAll text other = applyAll text edits := by
  refine ⟨sorted edits, sorted_inStableOrder edits, fun other stable => stable.eq_sorted,
    applyAll_eq_foldr_sorted sound apart, exists_cut sound apart, ?_, ?_⟩
  · have sizes := size_applyBetween (Text.isBoundary_zero text) (ordered_sorted sound apart)
    rw [← applyAll_eq_applyBetween sound apart, Nat.zero_add,
      ((sorted_perm edits).map _).sum_nat, ((sorted_perm edits).map _).sum_nat] at sizes
    exact sizes
  · intro other reordered
    rw [applyAll, applyAll, reordered.sorted_eq]

instance (text : String) (e : Edit) : Decidable (e.Sound text) :=
  decidable_of_iff
    (e.span.start ≤ e.span.stop ∧ Text.isBoundary text e.span.start = true ∧
      Text.isBoundary text e.span.stop = true)
    ⟨fun ⟨ordered, start, stop⟩ => ⟨ordered, start, stop⟩,
      fun ⟨ordered, start, stop⟩ => ⟨ordered, start, stop⟩⟩

/-- Insertions at both ends of a replaced literal, two of them at one offset, behind a character of
two bytes. -/
theorem applyAll_stepwise_insertions :
    let text := "aé='#fff';"
    let edits := [replace ⟨4, 10⟩ "t.c", insert 4 "(", insert 10 ")", insert 4 "[", insert 0 "let "]
    (∀ e ∈ edits, e.Sound text) ∧ (edits.Pairwise fun a b => a.span.Apart b.span) ∧
      applyAll text edits = "let aé=([t.c);" ∧
      applyAll text edits =
        [insert 0 "let ", insert 4 "(", insert 4 "[", replace ⟨4, 10⟩ "t.c", insert 10 ")"].foldr
          applyOne text ∧
      (applyAll text edits).utf8ByteSize + 6 = text.utf8ByteSize + 10 := by
  intro text edits
  have sound : ∀ e ∈ edits, e.Sound text := by decide +kernel
  have apart : edits.Pairwise fun a b => a.span.Apart b.span := by decide +kernel
  have order : sorted edits =
      [insert 0 "let ", insert 4 "(", insert 4 "[", replace ⟨4, 10⟩ "t.c", insert 10 ")"] := by
    decide +kernel
  rcases applyAll_stepwise sound apart with ⟨ordered, _, unique, stepwise, _, sizes, _⟩
  rw [← unique _ (sorted_inStableOrder edits), order] at stepwise
  exact ⟨sound, apart, by decide +kernel, stepwise, sizes⟩

end Edit

end ThemeMigration
