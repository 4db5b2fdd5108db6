import ThemeMigration.Edits
import ThemeMigration.Proofs.Text.Slice

/-!
# Edits that are apart

Edits are applied in one pass over the text.  When they lie between characters and apart from one
another, sorting them leaves each one behind its predecessor, and none of them is dropped.  The new
text is then a row of pieces, which an offset that no edit reaches over cuts in two: in front of
the edits that begin at the offset, or behind those that end there.
-/

namespace ThemeMigration

namespace Edit

/-- An edit lies between two character boundaries of a text. -/
structure Sound (text : String) (e : Edit) : Prop where
  start_le_stop : e.span.start ≤ e.span.stop
  start_boundary : Text.isBoundary text e.span.start = true
  stop_boundary : Text.isBoundary text e.span.stop = true

theorem Sound.stop_le_size {text : String} {e : Edit} (h : e.Sound text) :
    e.span.stop ≤ text.utf8ByteSize :=
  Text.le_size_of_isBoundary h.stop_boundary

/-! ## Sorting -/

theorem insertSorted_perm (e : Edit) (es : List Edit) : (insertSorted e es).Perm (e :: es) := by
  induction es with
  | nil => exact .refl _
  | cons f fs ih =>
    simp only [insertSorted]
    split
    · exact .refl _
    · exact ((ih.cons f).trans (.swap e f fs))

theorem sorted_perm (edits : List Edit) : (sorted edits).Perm edits := by
  induction edits with
  | nil => exact .refl _
  | cons e es ih => exact (insertSorted_perm e (sorted es)).trans (ih.cons e)

theorem mem_sorted {e : Edit} {edits : List Edit} : e ∈ sorted edits ↔ e ∈ edits :=
  (sorted_perm edits).mem_iff

theorem precedes_iff {a b : Edit} :
    a.precedes b = true ↔
      a.span.start < b.span.start ∨ a.span.start = b.span.start ∧ a.span.stop ≤ b.span.stop := by
  simp [precedes]

theorem insertSorted_pairwise (e : Edit) {es : List Edit}
    (h : es.Pairwise fun a b => a.precedes b = true) :
    (insertSorted e es).Pairwise fun a b => a.precedes b = true := by
  induction es with
  | nil => simp [insertSorted]
  | cons f fs ih =>
    rcases List.pairwise_cons.1 h with ⟨first, rest⟩
    simp only [insertSorted]
    split
    · rename_i before
      refine List.pairwise_cons.2 ⟨?_, h⟩
      intro g member
      rcases List.mem_cons.1 member with rfl | member
      · exact before
      · have after := precedes_iff.1 (first g member)
        have before := precedes_iff.1 before
        exact precedes_iff.2 (by omega)
    · rename_i notBefore
      refine List.pairwise_cons.2 ⟨?_, ih rest⟩
      intro g member
      rcases List.mem_cons.1 ((insertSorted_perm e fs).mem_iff.1 member) with rfl | member
      · have total : ¬ (g.span.start < f.span.start ∨
            g.span.start = f.span.start ∧ g.span.stop ≤ f.span.stop) :=
          fun impossible => notBefore (precedes_iff.2 impossible)
        exact precedes_iff.2 (by omega)
      · exact first g member

theorem sorted_pairwise (edits : List Edit) :
    (sorted edits).Pairwise fun a b => a.precedes b = true := by
  induction edits with
  | nil => exact .nil
  | cons e es ih => exact insertSorted_pairwise e ih

/-- Edits in the order of application need no sorting. -/
theorem sorted_eq_self {edits : List Edit}
    (h : edits.Pairwise fun a b => a.precedes b = true) : sorted edits = edits := by
  induction edits with
  | nil => rfl
  | cons e es ih =>
    rcases List.pairwise_cons.1 h with ⟨first, rest⟩
    change insertSorted e (sorted es) = e :: es
    rw [ih rest]
    cases es with
    | nil => rfl
    | cons f fs => rw [insertSorted, if_pos (first f List.mem_cons_self)]

/-! ## Edits behind one another -/

/-- Sound edits between two offsets, each behind the one before it. -/
def Ordered (text : String) (lower upper : Nat) : List Edit → Prop
  | [] => lower ≤ upper
  | e :: es => lower ≤ e.span.start ∧ e.Sound text ∧ Ordered text e.span.stop upper es

theorem Ordered.le {text : String} {lower upper : Nat} {es : List Edit}
    (h : Ordered text lower upper es) : lower ≤ upper := by
  induction es generalizing lower with
  | nil => exact h
  | cons e es ih => exact Nat.le_trans h.1 (Nat.le_trans h.2.1.start_le_stop (ih h.2.2))

theorem Ordered.bounds {text : String} {lower upper : Nat} {es : List Edit}
    (h : Ordered text lower upper es) {e : Edit} (member : e ∈ es) :
    lower ≤ e.span.start ∧ e.span.start ≤ e.span.stop ∧ e.span.stop ≤ upper := by
  induction es generalizing lower with
  | nil => cases member
  | cons f fs ih =>
    rcases List.mem_cons.1 member with rfl | member
    · exact ⟨h.1, h.2.1.start_le_stop, h.2.2.le⟩
    · have inner := ih h.2.2 member
      exact ⟨Nat.le_trans h.1 (Nat.le_trans h.2.1.start_le_stop inner.1), inner.2⟩

/-- Sound edits that are apart and sorted are ordered: of two empty spans at one offset neither is
in the way of the other. -/
theorem ordered_of_pairwise {text : String} {lower : Nat} {es : List Edit}
    (bound : lower ≤ text.utf8ByteSize) (below : ∀ e ∈ es, lower ≤ e.span.start)
    (sound : ∀ e ∈ es, e.Sound text) (apart : es.Pairwise fun a b => a.span.Apart b.span)
    (inOrder : es.Pairwise fun a b => a.precedes b = true) :
    Ordered text lower text.utf8ByteSize es := by
  induction es generalizing lower with
  | nil => exact bound
  | cons e es ih =>
    have soundHead := sound e List.mem_cons_self
    rcases List.pairwise_cons.1 apart with ⟨apartHead, apartTail⟩
    rcases List.pairwise_cons.1 inOrder with ⟨orderHead, orderTail⟩
    refine ⟨below e List.mem_cons_self, soundHead, ?_⟩
    apply ih soundHead.stop_le_size _ (fun f member => sound f (List.mem_cons_of_mem _ member))
      apartTail orderTail
    intro f member
    have soundTail := sound f (List.mem_cons_of_mem _ member)
    have order := precedes_iff.1 (orderHead f member)
    have := soundTail.start_le_stop
    rcases apartHead f member with h | h <;> omega

theorem ordered_sorted {text : String} {edits : List Edit} (sound : ∀ e ∈ edits, e.Sound text)
    (apart : edits.Pairwise fun a b => a.span.Apart b.span) :
    Ordered text 0 text.utf8ByteSize (sorted edits) := by
  apply ordered_of_pairwise (Nat.zero_le _) (fun _ _ => Nat.zero_le _)
  · intro e member
    exact sound e (mem_sorted.1 member)
  · exact (sorted_perm edits).symm.pairwise apart (fun h => h.symm)
  · exact sorted_pairwise edits

theorem Ordered.head_fits {text : String} {cursor : Nat} {e : Edit} {es : List Edit}
    (h : Ordered text cursor text.utf8ByteSize (e :: es)) :
    e.fits text.utf8ByteSize cursor = true := by
  simp [fits, h.1, h.2.1.stop_le_size]

/-- Ordered edits all take effect. -/
theorem acceptedFrom_eq_self {text : String} {cursor : Nat} {es : List Edit}
    (h : Ordered text cursor text.utf8ByteSize es) :
    acceptedFrom text.utf8ByteSize cursor es = es := by
  induction es generalizing cursor with
  | nil => rfl
  | cons e es ih =>
    rw [acceptedFrom, if_pos h.head_fits, ih h.2.2]

/-! ## The new text in pieces -/

/-- The text between two offsets under ordered edits that lie between them. -/
def applyBetween (text : String) (cursor stop : Nat) : List Edit → String
  | [] => Text.slice text cursor stop
  | e :: es =>
    Text.slice text cursor e.span.start ++ e.replacement ++ applyBetween text e.span.stop stop es

theorem applyFrom_eq_applyBetween {text : String} {cursor : Nat} {es : List Edit}
    (h : Ordered text cursor text.utf8ByteSize es) :
    applyFrom text cursor es = applyBetween text cursor text.utf8ByteSize es := by
  induction es generalizing cursor with
  | nil => rfl
  | cons e es ih =>
    rw [applyFrom, if_pos h.head_fits, ih h.2.2, applyBetween]

/-- A text under edits on both sides of a boundary is cut in two at the boundary. -/
theorem applyBetween_append {text : String} {lower middle upper : Nat} {xs ys : List Edit}
    (lowerBoundary : Text.isBoundary text lower = true)
    (middleBoundary : Text.isBoundary text middle = true)
    (upperBoundary : Text.isBoundary text upper = true)
    (left : Ordered text lower middle xs) (right : Ordered text middle upper ys) :
    applyBetween text lower upper (xs ++ ys) =
      applyBetween text lower middle xs ++ applyBetween text middle upper ys := by
  induction xs generalizing lower with
  | cons e es ih =>
    simp only [List.cons_append, applyBetween, ih left.2.1.stop_boundary left.2.2,
      String.append_assoc]
  | nil =>
    cases ys with
    | nil =>
      exact (Text.slice_append_slice lowerBoundary middleBoundary upperBoundary left right).symm
    | cons e es =>
      have first := Text.slice_append_slice lowerBoundary middleBoundary
        right.2.1.start_boundary left right.1
      simp only [List.nil_append, applyBetween, ← first, String.append_assoc]

/-- Ordered edits are cut at an offset by a test that they stop meeting once they are behind it. -/
theorem Ordered.split {text : String} {lower upper : Nat} {es : List Edit}
    (h : Ordered text lower upper es) (middle : Nat) (before : Edit → Bool) (low : lower ≤ middle)
    (high : middle ≤ upper) (ends : ∀ e ∈ es, before e = true → e.span.stop ≤ middle)
    (begins : ∀ e ∈ es, before e = false → middle ≤ e.span.start)
    (closed : ∀ e f : Edit, before e = false → e.span.stop ≤ f.span.start →
      e.span.start ≤ e.span.stop → f.span.start ≤ f.span.stop → before f = false) :
    es = es.filter before ++ es.filter (fun e => !before e) ∧
      Ordered text lower middle (es.filter before) ∧
      Ordered text middle upper (es.filter fun e => !before e) := by
  induction es generalizing lower with
  | nil => exact ⟨rfl, low, high⟩
  | cons e es ih =>
    cases head : before e with
    | true =>
      have tail := ih h.2.2 (ends e List.mem_cons_self head)
        (fun f member => ends f (List.mem_cons_of_mem _ member))
        (fun f member => begins f (List.mem_cons_of_mem _ member))
      rcases tail with ⟨split, first, second⟩
      simp only [List.filter_cons, head, if_true, Bool.not_true, Bool.false_eq_true, if_false,
        List.cons_append]
      exact ⟨congrArg (e :: ·) split, ⟨h.1, h.2.1, first⟩, second⟩
    | false =>
      have behind : ∀ f ∈ e :: es, before f = false := by
        intro f member
        rcases List.mem_cons.1 member with rfl | member
        · exact head
        · have bounds := h.2.2.bounds member
          exact closed e f head bounds.1 h.2.1.start_le_stop bounds.2.1
      have none : (e :: es).filter before = [] := by
        apply List.filter_eq_nil_iff.2
        intro f member
        simp [behind f member]
      have all : (e :: es).filter (fun f => !before f) = e :: es := by
        apply List.filter_eq_self.2
        intro f member
        simp [behind f member]
      rw [none, all]
      exact ⟨rfl, low, begins e List.mem_cons_self head, h.2⟩

/-- Ordered edits that do not reach over an offset are cut in front of those that begin there. -/
theorem Ordered.cut_before {text : String} {lower upper middle : Nat} {es : List Edit}
    (h : Ordered text lower upper es) (low : lower ≤ middle) (high : middle ≤ upper)
    (clear : ∀ e ∈ es, e.span.stop ≤ middle ∨ middle ≤ e.span.start) :
    es = es.filter (fun e => decide (e.span.stop ≤ middle)) ++
        es.filter (fun e => !decide (e.span.stop ≤ middle)) ∧
      Ordered text lower middle (es.filter fun e => decide (e.span.stop ≤ middle)) ∧
      Ordered text middle upper (es.filter fun e => !decide (e.span.stop ≤ middle)) := by
  apply h.split middle _ low high
  · intro e _ ends
    simpa using ends
  · intro e member ends
    exact (clear e member).resolve_left (by simpa using ends)
  · intro e f ends between _ _
    have late : middle < e.span.stop := by simpa using ends
    simp only [decide_eq_false_iff_not, Nat.not_le]
    omega

/-- Ordered edits that do not reach over an offset are cut behind those that end there. -/
theorem Ordered.cut_behind {text : String} {lower upper middle : Nat} {es : List Edit}
    (h : Ordered text lower upper es) (low : lower ≤ middle) (high : middle ≤ upper)
    (clear : ∀ e ∈ es, e.span.stop ≤ middle ∨ middle ≤ e.span.start) :
    es = es.filter (fun e => decide (e.span.start < middle)) ++
        es.filter (fun e => !decide (e.span.start < middle)) ∧
      Ordered text lower middle (es.filter fun e => decide (e.span.start < middle)) ∧
      Ordered text middle upper (es.filter fun e => !decide (e.span.start < middle)) := by
  apply h.split middle _ low high
  · intro e member begins
    have early : e.span.start < middle := by simpa using begins
    exact (clear e member).resolve_right (Nat.not_le_of_lt early)
  · intro e _ begins
    simpa using begins
  · intro e f begins between _ _
    have late : middle ≤ e.span.start := by simpa using begins
    simp only [decide_eq_false_iff_not, Nat.not_lt]
    omega

/-- Of ordered edits, those between two offsets are ordered between them. -/
theorem Ordered.filter_within {text : String} {lower upper first last : Nat} {es : List Edit}
    (h : Ordered text lower upper es) (chosen : Edit → Bool) (le : first ≤ last)
    (within : ∀ e ∈ es, chosen e = true → first ≤ e.span.start ∧ e.span.stop ≤ last) :
    Ordered text first last (es.filter chosen) := by
  induction es generalizing lower first with
  | nil => exact le
  | cons e es ih =>
    have tail : ∀ f ∈ es, chosen f = true → first ≤ f.span.start ∧ f.span.stop ≤ last :=
      fun f member => within f (List.mem_cons_of_mem _ member)
    cases head : chosen e with
    | false =>
      simp only [List.filter_cons, head, Bool.false_eq_true, if_false]
      exact ih h.2.2 le tail
    | true =>
      have bounds := within e List.mem_cons_self head
      simp only [List.filter_cons, head, if_true]
      refine ⟨bounds.1, h.2.1, ih h.2.2 bounds.2 ?_⟩
      intro f member kept
      exact ⟨(h.2.2.bounds member).1, (tail f member kept).2⟩

/-- Ordered edits that end by an offset are ordered up to it. -/
theorem Ordered.filter_stop_le {text : String} {lower middle upper : Nat} {es : List Edit}
    (h : Ordered text lower upper es) (low : lower ≤ middle) :
    Ordered text lower middle (es.filter fun e => e.span.stop ≤ middle) := by
  apply h.filter_within _ low
  intro e member ends
  exact ⟨(h.bounds member).1, by simpa using ends⟩

end Edit

end ThemeMigration
