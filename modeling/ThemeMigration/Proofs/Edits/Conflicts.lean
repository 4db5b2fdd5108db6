import ThemeMigration.Proofs.Edits.Stepwise

/-!
# Edits in conflict

Edits that overlap, that are recorded twice or that reach beyond the text cannot all be applied.
The pass over the sorted edits decides on each of them by what it has applied so far, and a single
offset is enough for that: it ends no earlier than any edit that was applied.  So an edit is left
out exactly when it ends beyond the text or begins inside an applied one, the others are apart, and
the text is what they alone make of it.  Every piece that the pass copies lies between two character
boundaries of the text, in their order.
-/

namespace ThemeMigration

namespace Edit

/-- An edit does not end before it begins, and cuts no character of the text; it may reach beyond
the text. -/
structure Offered (text : String) (e : Edit) : Prop where
  start_le_stop : e.span.start ≤ e.span.stop
  start_boundary : e.span.start ≤ text.utf8ByteSize → Text.isBoundary text e.span.start = true
  stop_boundary : e.span.stop ≤ text.utf8ByteSize → Text.isBoundary text e.span.stop = true

instance (text : String) (e : Edit) : Decidable (e.Offered text) :=
  decidable_of_iff
    (e.span.start ≤ e.span.stop ∧
      (e.span.start ≤ text.utf8ByteSize → Text.isBoundary text e.span.start = true) ∧
        (e.span.stop ≤ text.utf8ByteSize → Text.isBoundary text e.span.stop = true))
    ⟨fun ⟨ordered, start, stop⟩ => ⟨ordered, start, stop⟩,
      fun ⟨ordered, start, stop⟩ => ⟨ordered, start, stop⟩⟩

theorem fits_iff {size cursor : Nat} {e : Edit} :
    e.fits size cursor = true ↔ cursor ≤ e.span.start ∧ e.span.stop ≤ size := by
  simp [fits]

theorem Offered.sound {text : String} {e : Edit} (h : e.Offered text)
    (inside : e.span.stop ≤ text.utf8ByteSize) : e.Sound text where
  start_le_stop := h.start_le_stop
  start_boundary := h.start_boundary (Nat.le_trans h.start_le_stop inside)
  stop_boundary := h.stop_boundary inside

/-! ## The decision on each edit -/

/-- Edits in the order of application, each with whether it takes effect. -/
abbrev Verdicts := List (Edit × Bool)

/-- The edits that take effect. -/
def Verdicts.taken (verdicts : Verdicts) : List Edit := (verdicts.filter (·.2)).map (·.1)

/-- An edit is left out exactly when it ends beyond the text, or begins before the end of an edit in
front of it that takes effect. -/
def Verdicts.AreJust (size : Nat) (verdicts : Verdicts) : Prop :=
  ∀ before e taken after, verdicts = before ++ (e, taken) :: after →
    (taken = false ↔
      size < e.span.stop ∨ ∃ a, (a, true) ∈ before ∧ e.span.start < a.span.stop)

/-- The decisions of the pass from an offset on. -/
def verdictsFrom (size cursor : Nat) : List Edit → Verdicts
  | [] => []
  | e :: es =>
    if e.fits size cursor then (e, true) :: verdictsFrom size e.span.stop es
    else (e, false) :: verdictsFrom size cursor es

theorem map_fst_verdictsFrom (size cursor : Nat) (es : List Edit) :
    (verdictsFrom size cursor es).map Prod.fst = es := by
  induction es generalizing cursor with
  | nil => rfl
  | cons e es ih =>
    rw [verdictsFrom]
    split <;> rw [List.map_cons, ih]

theorem taken_verdictsFrom (size cursor : Nat) (es : List Edit) :
    (verdictsFrom size cursor es).taken = acceptedFrom size cursor es := by
  induction es generalizing cursor with
  | nil => rfl
  | cons e es ih =>
    rw [verdictsFrom, acceptedFrom]
    split
    · rw [← ih e.span.stop]
      rfl
    · rw [← ih cursor]
      rfl

/-- The offset of the pass stands for all edits that were applied so far. -/
theorem verdictsFrom_split {size cursor : Nat} {es : List Edit}
    (forward : ∀ e ∈ es, e.span.start ≤ e.span.stop) {before after : Verdicts} {e : Edit}
    {taken : Bool} (split : verdictsFrom size cursor es = before ++ (e, taken) :: after) :
    taken = false ↔ size < e.span.stop ∨ e.span.start < cursor ∨
      ∃ a, (a, true) ∈ before ∧ e.span.start < a.span.stop := by
  induction es generalizing cursor before with
  | nil => simp [verdictsFrom] at split
  | cons f fs ih =>
    have later := fun g member => forward g (List.mem_cons_of_mem f member)
    rw [verdictsFrom] at split
    split at split
    · rename_i fit
      have bounds := fits_iff.1 fit
      cases before with
      | nil =>
        cases split
        simp only [Bool.true_eq_false, List.not_mem_nil, false_and, exists_false, or_false,
          false_iff, not_or, Nat.not_lt]
        exact ⟨bounds.2, bounds.1⟩
      | cons head before =>
        rcases List.cons.inj split with ⟨rfl, tail⟩
        have room := forward f List.mem_cons_self
        rw [ih later tail]
        refine or_congr_right ⟨?_, ?_⟩
        · rintro (inside | ⟨a, member, inside⟩)
          · exact Or.inr ⟨f, List.mem_cons_self, inside⟩
          · exact Or.inr ⟨a, List.mem_cons_of_mem _ member, inside⟩
        · rintro (inside | ⟨a, member, inside⟩)
          · exact Or.inl (by omega)
          · rcases List.mem_cons.1 member with same | member
            · cases same
              exact Or.inl inside
            · exact Or.inr ⟨a, member, inside⟩
    · rename_i noFit
      cases before with
      | nil =>
        cases split
        have bounds := mt fits_iff.2 noFit
        simp only [true_iff, List.not_mem_nil, false_and, exists_false, or_false]
        omega
      | cons head before =>
        rcases List.cons.inj split with ⟨rfl, tail⟩
        rw [ih later tail]
        simp

theorem verdictsFrom_areJust {size : Nat} {es : List Edit}
    (forward : ∀ e ∈ es, e.span.start ≤ e.span.stop) : (verdictsFrom size 0 es).AreJust size := by
  intro before e taken after split
  rw [verdictsFrom_split forward split]
  simp only [Nat.not_lt_zero, false_or]

/-! ## The edits that take effect -/

theorem ordered_acceptedFrom {text : String} {cursor : Nat} {es : List Edit}
    (offered : ∀ e ∈ es, e.Offered text) (bound : cursor ≤ text.utf8ByteSize) :
    Ordered text cursor text.utf8ByteSize (acceptedFrom text.utf8ByteSize cursor es) := by
  induction es generalizing cursor with
  | nil => exact bound
  | cons e es ih =>
    have later := fun f member => offered f (List.mem_cons_of_mem e member)
    rw [acceptedFrom]
    split
    · rename_i fit
      have bounds := fits_iff.1 fit
      exact ⟨bounds.1, (offered e List.mem_cons_self).sound bounds.2, ih later bounds.2⟩
    · exact ih later bound

theorem Ordered.sound {text : String} {lower upper : Nat} {es : List Edit}
    (h : Ordered text lower upper es) {e : Edit} (member : e ∈ es) : e.Sound text := by
  induction es generalizing lower with
  | nil => cases member
  | cons f fs ih =>
    rcases List.mem_cons.1 member with rfl | member
    · exact h.2.1
    · exact ih h.2.2 member

theorem Ordered.apart {text : String} {lower upper : Nat} {es : List Edit}
    (h : Ordered text lower upper es) : es.Pairwise fun a b => a.span.Apart b.span := by
  induction es generalizing lower with
  | nil => exact .nil
  | cons e es ih =>
    refine List.pairwise_cons.2 ⟨?_, ih h.2.2⟩
    intro f member
    exact Or.inl (h.2.2.bounds member).1

/-! ## The accepted edits as they were recorded -/

theorem precedes_trans {a b c : Edit} (first : a.precedes b = true) (second : b.precedes c = true) :
    a.precedes c = true := by
  rw [precedes_iff] at *
  omega

/-- An edit that precedes all others is put in front of them. -/
theorem insertSorted_eq_cons {e : Edit} {es : List Edit} (first : ∀ f ∈ es, e.precedes f = true) :
    insertSorted e es = e :: es := by
  cases es with
  | nil => rfl
  | cons f fs => rw [insertSorted, if_pos (first f List.mem_cons_self)]

/-- Leaving edits out and sorting an edit in can be done in either order. -/
theorem sublist_insertSorted {e : Edit} {xs es : List Edit}
    (inOrder : es.Pairwise fun a b => a.precedes b = true)
    (h : xs.Sublist (insertSorted e es)) :
    xs.Sublist es ∨ ∃ zs, zs.Sublist es ∧ xs = insertSorted e zs := by
  induction es generalizing xs with
  | nil =>
    rcases List.sublist_singleton.1 h with rfl | rfl
    · exact Or.inl (List.Sublist.refl _)
    · exact Or.inr ⟨[], List.Sublist.refl _, rfl⟩
  | cons f fs ih =>
    rcases List.pairwise_cons.1 inOrder with ⟨head, tail⟩
    rw [insertSorted] at h
    split at h
    · rename_i before
      have first : ∀ g ∈ f :: fs, e.precedes g = true := by
        intro g member
        rcases List.mem_cons.1 member with rfl | member
        · exact before
        · exact precedes_trans before (head g member)
      rcases List.sublist_cons_iff.1 h with without | ⟨zs, rfl, sub⟩
      · exact Or.inl without
      · exact Or.inr ⟨zs, sub, (insertSorted_eq_cons fun g member =>
          first g (sub.subset member)).symm⟩
    · rename_i notBefore
      rcases List.sublist_cons_iff.1 h with without | ⟨ys, rfl, sub⟩
      · rcases ih tail without with within | ⟨zs, sub, rfl⟩
        · exact Or.inl (within.cons f)
        · exact Or.inr ⟨zs, sub.cons f, rfl⟩
      · rcases ih tail sub with within | ⟨zs, kept, rfl⟩
        · exact Or.inl (within.cons_cons f)
        · refine Or.inr ⟨f :: zs, kept.cons_cons f, ?_⟩
          rw [insertSorted, if_neg notBefore]

/-- Some of the sorted edits are some of the recorded edits, sorted. -/
theorem exists_sublist_of_sorted {xs edits : List Edit} (h : xs.Sublist (sorted edits)) :
    ∃ ys, ys.Sublist edits ∧ sorted ys = xs := by
  induction edits generalizing xs with
  | nil => exact ⟨[], List.Sublist.refl _, (List.sublist_nil.1 h).symm⟩
  | cons e es ih =>
    rcases sublist_insertSorted (sorted_pairwise es) h with without | ⟨zs, sub, rfl⟩
    · rcases ih without with ⟨ys, recorded, same⟩
      exact ⟨ys, recorded.cons e, same⟩
    · rcases ih sub with ⟨ys, recorded, rfl⟩
      exact ⟨e :: ys, recorded.cons_cons e, rfl⟩

theorem acceptedFrom_sublist (size cursor : Nat) (es : List Edit) :
    (acceptedFrom size cursor es).Sublist es := by
  induction es generalizing cursor with
  | nil => exact List.Sublist.refl _
  | cons e es ih =>
    rw [acceptedFrom]
    split
    · exact (ih e.span.stop).cons_cons e
    · exact (ih cursor).cons e

/-! ## The pieces that are copied -/

/-- The pass, stopped by a piece that is not between two boundaries in their order. -/
def applyFrom? (text : String) (cursor : Nat) : List Edit → Option String
  | [] => Text.slice? text cursor text.utf8ByteSize
  | e :: es =>
    if e.fits text.utf8ByteSize cursor then do
      let kept ← Text.slice? text cursor e.span.start
      let rest ← applyFrom? text e.span.stop es
      pure (kept ++ e.replacement ++ rest)
    else applyFrom? text cursor es

/-- The text with the edits applied, if every piece that is copied can be. -/
def applyAll? (text : String) (edits : List Edit) : Option String :=
  applyFrom? text 0 (sorted edits)

theorem applyFrom?_eq {text : String} {cursor : Nat} {es : List Edit}
    (boundary : Text.isBoundary text cursor = true) (offered : ∀ e ∈ es, e.Offered text) :
    applyFrom? text cursor es = some (applyFrom text cursor es) := by
  induction es generalizing cursor with
  | nil =>
    exact Text.slice?_eq boundary (Text.isBoundary_size text) (Text.le_size_of_isBoundary boundary)
  | cons e es ih =>
    have later := fun f member => offered f (List.mem_cons_of_mem e member)
    rw [applyFrom?, applyFrom]
    split
    · rename_i fit
      have bounds := fits_iff.1 fit
      have sound := (offered e List.mem_cons_self).sound bounds.2
      rw [Text.slice?_eq boundary sound.start_boundary bounds.1, ih sound.stop_boundary later]
      rfl
    · exact ih boundary later

/-- Of edits in conflict some are left out: those that end beyond the text, and those that begin
before the end of an accepted one in front of them in the stable order.  The accepted ones are
recorded edits, apart and inside the text, they alone make the text what it becomes, and no piece is
copied that the text does not have. -/
theorem applyAll_conflicting {text : String} {edits : List Edit}
    (offered : ∀ e ∈ edits, e.Offered text) :
    ∃ (verdicts : Verdicts) (accepted : List Edit),
      InStableOrder edits (verdicts.map Prod.fst) ∧ verdicts.AreJust text.utf8ByteSize ∧
      accepted.Sublist edits ∧ InStableOrder accepted verdicts.taken ∧
      (∀ e ∈ accepted, e.Sound text) ∧ (accepted.Pairwise fun a b => a.span.Apart b.span) ∧
      applyAll text edits = applyAll text accepted ∧
      applyAll? text edits = some (applyAll text edits) := by
  have inOrder : ∀ e ∈ sorted edits, e.Offered text := fun e member =>
    offered e (mem_sorted.1 member)
  have ordered := ordered_acceptedFrom inOrder (Nat.zero_le _)
  rcases exists_sublist_of_sorted (acceptedFrom_sublist text.utf8ByteSize 0 (sorted edits)) with
    ⟨accepted, recorded, same⟩
  refine ⟨verdictsFrom text.utf8ByteSize 0 (sorted edits), accepted, ?_, ?_, recorded, ?_, ?_, ?_,
    ?_, ?_⟩
  · rw [map_fst_verdictsFrom]
    exact sorted_inStableOrder edits
  · exact verdictsFrom_areJust fun e member => (inOrder e member).start_le_stop
  · rw [taken_verdictsFrom, ← same]
    exact sorted_inStableOrder accepted
  · intro e member
    exact ordered.sound (same ▸ mem_sorted.2 member)
  · exact (same ▸ sorted_perm accepted).pairwise ordered.apart fun h => h.symm
  · rw [applyAll, applyAll, same, applyFrom_acceptedFrom]
  · exact applyFrom?_eq (Text.isBoundary_zero text) inOrder

/-- An insertion at the beginning of a replaced part is accepted and one inside it is not, of two
equal replacements one is accepted, and so on. -/
theorem applyAll_conflicting_nested :
    let text := "aé='#fff';"
    let edits := [replace ⟨4, 10⟩ "t.c", insert 5 "lost", replace ⟨4, 10⟩ "t.c", insert 4 "(",
      replace ⟨9, 12⟩ "lost", insert 10 ")", replace ⟨1, 3⟩ "b", replace ⟨0, 3⟩ "lost",
      replace ⟨0, 1⟩ "x"]
    (∀ e ∈ edits, e.Offered text) ∧ applyAll text edits = "xb=(t.c);" ∧
      applyAll? text edits = some "xb=(t.c);" ∧
      ∃ accepted : List Edit, accepted.Sublist edits ∧ (∀ e ∈ accepted, e.Sound text) ∧
        (accepted.Pairwise fun a b => a.span.Apart b.span) ∧
        applyAll text accepted = "xb=(t.c);" := by
  intro text edits
  have offered : ∀ e ∈ edits, e.Offered text := by decide +kernel
  have result : applyAll text edits = "xb=(t.c);" := by decide +kernel
  rcases applyAll_conflicting offered with
    ⟨_, accepted, _, _, recorded, _, sound, apart, same, copied⟩
  rw [result] at same copied
  exact ⟨offered, result, copied, accepted, recorded, sound, apart, same.symm⟩

end Edit

end ThemeMigration
