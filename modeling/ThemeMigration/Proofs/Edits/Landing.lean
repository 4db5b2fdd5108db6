import ThemeMigration.Proofs.Edits.Order

/-!
# Where the text between edits lands

An offset lands where the text in front of it ends once the edits are applied.  An insertion at the
offset stands before the text that begins there and behind the text that ends there, so the two
ends of a span land by two rules.  Text that no edit touches is found again at the span where it
lands, and spans that follow one another land in the same order.
-/

namespace ThemeMigration

namespace Edit

/-- What an insertion writes stands at its offset. -/
theorem standsAt_insert {text : String} {offset : Nat}
    (boundary : Text.isBoundary text offset = true) (replacement : String) :
    Text.StandsAt (applyAll text [insert offset replacement]) offset replacement := by
  have inText := Text.le_size_of_isBoundary boundary
  refine ⟨Text.slice text 0 offset, Text.sliceFrom text offset, ?_, ?_⟩
  · simp [applyAll, sorted, insertSorted, applyFrom, fits, insert, Span.point, inText]
  · rw [Text.size_slice (Text.isBoundary_zero text) boundary (Nat.zero_le _), Nat.sub_zero]

/-- Where the text that begins at an offset begins under the edits. -/
def landingStart (text : String) (edits : List Edit) (offset : Nat) : Nat :=
  (applyBetween text 0 offset ((sorted edits).filter fun e => e.span.stop ≤ offset)).utf8ByteSize

/-- Where the text that ends at an offset ends under the edits. -/
def landingStop (text : String) (edits : List Edit) (offset : Nat) : Nat :=
  (applyBetween text 0 offset ((sorted edits).filter fun e => e.span.start < offset)).utf8ByteSize

/-- The span of a text under the edits. -/
def landed (text : String) (edits : List Edit) (s : Span) : Span :=
  ⟨landingStart text edits s.start, landingStop text edits s.stop⟩

/-- The sorted edits that change the text of a span. -/
def touching (edits : List Edit) (s : Span) : List Edit :=
  (sorted edits).filter fun e => s.start < e.span.stop && e.span.start < s.stop

theorem touching_eq_nil {edits : List Edit} {s : Span} (h : ∀ e ∈ edits, e.span.Apart s) :
    touching edits s = [] := by
  apply List.filter_eq_nil_iff.2
  intro e member
  have apart := h e (mem_sorted.1 member)
  simp only [Bool.and_eq_true, decide_eq_true_eq, not_and]
  rcases apart with apart | apart <;> omega

variable {text : String} {edits : List Edit}

/-- Of the edits that do not end in front of a span, those that begin in front of its end. -/
theorem filter_touching (edits : List Edit) (s : Span) :
    ((sorted edits).filter fun e => !decide (e.span.stop ≤ s.start)).filter
      (fun e => decide (e.span.start < s.stop)) = touching edits s := by
  rw [List.filter_filter, touching]
  apply List.filter_congr
  intro e _
  rw [Bool.and_comm, ← decide_not, decide_eq_decide.2 Nat.not_le]

/-- A nonempty span over whose ends no edit reaches: the new text up to its start, its own text
under the edits inside it, and the rest. -/
theorem exists_landed (sound : ∀ e ∈ edits, e.Sound text)
    (apart : edits.Pairwise fun a b => a.span.Apart b.span) {s : Span}
    (start : Text.isBoundary text s.start = true) (stop : Text.isBoundary text s.stop = true)
    (nonempty : s.start < s.stop) (clear : ∀ e ∈ edits, e.span.Apart s ∨ s.Contains e.span) :
    ∃ before after,
      applyAll text edits =
        before ++ applyBetween text s.start s.stop (touching edits s) ++ after ∧
      landed text edits s =
        ⟨before.utf8ByteSize, before.utf8ByteSize +
          (applyBetween text s.start s.stop (touching edits s)).utf8ByteSize⟩ := by
  have ordered := ordered_sorted sound apart
  have clearSorted : ∀ e ∈ sorted edits,
      e.span.start ≤ e.span.stop ∧ (e.span.Apart s ∨ s.Contains e.span) := fun e member =>
    ⟨(sound e (mem_sorted.1 member)).start_le_stop, clear e (mem_sorted.1 member)⟩
  -- First cut where the span begins; what is left is cut where it ends.
  have atStart := ordered.cut_before (Nat.zero_le _) (Text.le_size_of_isBoundary start) (by
    intro e member
    rcases clearSorted e member with ⟨_, (h | h) | h⟩
    · exact Or.inl h
    · exact Or.inr (Nat.le_trans (Nat.le_of_lt nonempty) h)
    · exact Or.inr h.1)
  rcases atStart with ⟨splitStart, first, rest⟩
  have atStop := rest.cut_behind (Nat.le_of_lt nonempty) (Text.le_size_of_isBoundary stop) (by
    intro e member
    rcases clearSorted e (List.mem_filter.1 member).1 with ⟨_, (h | h) | h⟩
    · exact Or.inl (Nat.le_trans h (Nat.le_of_lt nonempty))
    · exact Or.inr h
    · exact Or.inl h.2)
  rcases atStop with ⟨splitStop, second, third⟩
  rw [filter_touching] at splitStop second
  have begun : (sorted edits).filter (fun e => decide (e.span.start < s.stop)) =
      (sorted edits).filter (fun e => decide (e.span.stop ≤ s.start)) ++ touching edits s := by
    have prefixAll : ((sorted edits).filter fun e => decide (e.span.stop ≤ s.start)).filter
        (fun e => decide (e.span.start < s.stop)) =
          (sorted edits).filter fun e => decide (e.span.stop ≤ s.start) := by
      apply List.filter_eq_self.2
      intro e member
      have facts := clearSorted e (List.mem_filter.1 member).1
      have : e.span.stop ≤ s.start := by simpa using (List.mem_filter.1 member).2
      simp only [decide_eq_true_eq]
      omega
    have both := congrArg (List.filter fun e => decide (e.span.start < s.stop)) splitStart
    rwa [List.filter_append, prefixAll, filter_touching] at both
  have outer := applyBetween_append (Text.isBoundary_zero text) start (Text.isBoundary_size text)
    first rest
  have inner := applyBetween_append start stop (Text.isBoundary_size text) second third
  have ends := applyBetween_append (Text.isBoundary_zero text) start stop first second
  rw [← splitStart, ← applyFrom_eq_applyBetween ordered] at outer
  rw [← splitStop] at inner
  rw [← begun] at ends
  have whole := outer.trans (congrArg (_ ++ ·) inner)
  rw [← String.append_assoc] at whole
  refine ⟨_, _, whole, ?_⟩
  rw [landed, landingStart, landingStop, ends, String.utf8ByteSize_append]

theorem sliceSpan_landed (sound : ∀ e ∈ edits, e.Sound text)
    (apart : edits.Pairwise fun a b => a.span.Apart b.span) {s : Span}
    (start : Text.isBoundary text s.start = true) (stop : Text.isBoundary text s.stop = true)
    (nonempty : s.start < s.stop) (clear : ∀ e ∈ edits, e.span.Apart s ∨ s.Contains e.span) :
    Text.sliceSpan (applyAll text edits) (landed text edits s) =
      applyBetween text s.start s.stop (touching edits s) := by
  rcases exists_landed sound apart start stop nonempty clear with ⟨before, after, split, place⟩
  rw [split, place]
  exact Text.slice_append _ _ _

/-- What ends by an offset lands in front of what begins there. -/
theorem landingStop_le_landingStart (sound : ∀ e ∈ edits, e.Sound text)
    (apart : edits.Pairwise fun a b => a.span.Apart b.span) {a b : Nat} (le : a ≤ b)
    (first : Text.isBoundary text a = true) (second : Text.isBoundary text b = true)
    (clear : ∀ e ∈ edits, e.span.stop ≤ a ∨ a ≤ e.span.start) :
    landingStop text edits a ≤ landingStart text edits b := by
  have ordered := ordered_sorted sound apart
  have cut := ordered.cut_behind (Nat.zero_le _) (Text.le_size_of_isBoundary first)
    fun e member => clear e (mem_sorted.1 member)
  rcases cut with ⟨split, left, right⟩
  have leftEnds : ((sorted edits).filter fun e => decide (e.span.start < a)).filter
      (fun e => decide (e.span.stop ≤ b)) =
        (sorted edits).filter fun e => decide (e.span.start < a) := by
    apply List.filter_eq_self.2
    intro e member
    have bounds := left.bounds member
    simp only [decide_eq_true_eq]
    omega
  have both := congrArg (List.filter fun e => decide (e.span.stop ≤ b)) split
  rw [List.filter_append, leftEnds] at both
  rw [landingStop, landingStart, both,
    applyBetween_append (Text.isBoundary_zero _) first second left (right.filter_stop_le le),
    String.utf8ByteSize_append]
  exact Nat.le_add_right _ _

/-- Spans that follow one another land in the same order. -/
theorem landed_stop_le_landed_start (sound : ∀ e ∈ edits, e.Sound text)
    (apart : edits.Pairwise fun a b => a.span.Apart b.span) {s t : Span} (le : s.stop ≤ t.start)
    (nonempty : s.start ≤ s.stop) (first : Text.isBoundary text s.stop = true)
    (second : Text.isBoundary text t.start = true)
    (clear : ∀ e ∈ edits, e.span.Apart s ∨ s.Contains e.span) :
    (landed text edits s).stop ≤ (landed text edits t).start := by
  apply landingStop_le_landingStart sound apart le first second
  intro e member
  rcases clear e member with h | h
  · rcases h with h | h
    · exact Or.inl (Nat.le_trans h nonempty)
    · exact Or.inr h
  · exact Or.inl h.2

/-- Text that no edit touches stays as it is. -/
theorem sliceSpan_landed_of_apart (sound : ∀ e ∈ edits, e.Sound text)
    (apart : edits.Pairwise fun a b => a.span.Apart b.span) {s : Span}
    (start : Text.isBoundary text s.start = true) (stop : Text.isBoundary text s.stop = true)
    (le : s.start ≤ s.stop) (untouched : ∀ e ∈ edits, e.span.Apart s) :
    Text.sliceSpan (applyAll text edits) (landed text edits s) = Text.sliceSpan text s := by
  rcases Nat.lt_or_eq_of_le le with nonempty | empty
  · rw [sliceSpan_landed sound apart start stop nonempty
        fun e member => Or.inl (untouched e member),
      touching_eq_nil untouched]
    rfl
  · have before := landed_stop_le_landed_start sound apart (s := s) (t := s)
      (Nat.le_of_eq empty.symm) le stop start fun e member => Or.inl (untouched e member)
    rw [Text.sliceSpan, Text.sliceSpan, Text.slice_eq_empty before,
      Text.slice_eq_empty (Nat.le_of_eq empty.symm)]

/-- If all other edits are apart from a span, the edit that meets it is the only one there. -/
theorem touching_eq_singleton {s : Span} {e : Edit} (behind : s.start < e.span.stop)
    (before : e.span.start < s.stop) (others : ∀ f ∈ edits, f.span.Apart s ∨ f = e)
    (once : edits.count e = 1) : touching edits s = [e] := by
  have same : (sorted edits).filter
      (fun f => decide (s.start < f.span.stop) && decide (f.span.start < s.stop)) =
        (sorted edits).filter (· == e) := by
    apply List.filter_congr
    intro f inSorted
    rcases others f (mem_sorted.1 inSorted) with h | rfl
    · have different : f ≠ e := by
        rintro rfl
        rcases h with h | h
        · exact absurd h (Nat.not_le.2 behind)
        · exact absurd h (Nat.not_le.2 before)
      rw [beq_false_of_ne different, Bool.and_eq_false_iff]
      simp only [decide_eq_false_iff_not, Nat.not_lt]
      exact h
    · simp [behind, before]
  rw [touching, same, List.filter_beq, (sorted_perm edits).count_eq, once]
  rfl

/-- Text in which one edit inserts is the old text with what is inserted. -/
theorem sliceSpan_landed_of_insert (sound : ∀ e ∈ edits, e.Sound text)
    (apart : edits.Pairwise fun a b => a.span.Apart b.span) {s : Span}
    (start : Text.isBoundary text s.start = true) (stop : Text.isBoundary text s.stop = true)
    {offset : Nat} {replacement : String} (behind : s.start < offset) (before : offset < s.stop)
    (others : ∀ e ∈ edits, e.span.Apart s ∨ e = insert offset replacement)
    (once : edits.count (insert offset replacement) = 1) :
    Text.sliceSpan (applyAll text edits) (landed text edits s) =
      Text.slice text s.start offset ++ replacement ++ Text.slice text offset s.stop := by
  have clear : ∀ e ∈ edits, e.span.Apart s ∨ s.Contains e.span := by
    intro e inEdits
    rcases others e inEdits with h | rfl
    · exact Or.inl h
    · exact Or.inr ⟨Nat.le_of_lt behind, Nat.le_of_lt before⟩
  rw [sliceSpan_landed sound apart start stop (Nat.lt_trans behind before) clear,
    touching_eq_singleton behind before others once]
  rfl

/-- What a text is replaced by stands where the text lands. -/
theorem landed_of_replace (sound : ∀ e ∈ edits, e.Sound text)
    (apart : edits.Pairwise fun a b => a.span.Apart b.span) {s : Span} {replacement : String}
    (nonempty : s.start < s.stop) (member : replace s replacement ∈ edits)
    (others : ∀ e ∈ edits, e.span.Apart s ∨ e = replace s replacement)
    (once : edits.count (replace s replacement) = 1) :
    Text.StandsAt (applyAll text edits) (landed text edits s).start replacement ∧
      (landed text edits s).stop =
        (landed text edits s).start + replacement.utf8ByteSize := by
  have start : Text.isBoundary text s.start = true := (sound _ member).start_boundary
  have stop : Text.isBoundary text s.stop = true := (sound _ member).stop_boundary
  have clear : ∀ e ∈ edits, e.span.Apart s ∨ s.Contains e.span := by
    intro e inEdits
    rcases others e inEdits with h | rfl
    · exact Or.inl h
    · exact Or.inr ⟨Nat.le_refl _, Nat.le_refl _⟩
  have single : touching edits s = [replace s replacement] :=
    touching_eq_singleton nonempty nonempty others once
  have inside : applyBetween text s.start s.stop [replace s replacement] = replacement := by
    rw [applyBetween, applyBetween, replace, Text.slice_eq_empty (Nat.le_refl _),
      Text.slice_eq_empty (Nat.le_refl _), String.empty_append, String.append_empty]
  rcases exists_landed sound apart start stop nonempty clear with ⟨before, after, split, place⟩
  rw [single, inside] at split place
  rw [place]
  exact ⟨⟨before, after, split, rfl⟩, rfl⟩

/-- Text whose edits all end by an offset inside it keeps what stands behind the offset. -/
theorem exists_sliceSpan_landed_append (sound : ∀ e ∈ edits, e.Sound text)
    (apart : edits.Pairwise fun a b => a.span.Apart b.span) {s : Span} {cut : Nat}
    (start : Text.isBoundary text s.start = true) (middle : Text.isBoundary text cut = true)
    (stop : Text.isBoundary text s.stop = true) (behind : s.start ≤ cut) (before : cut < s.stop)
    (clear : ∀ e ∈ edits, e.span.Apart s ∨ (s.Contains e.span ∧ e.span.stop ≤ cut)) :
    ∃ front, Text.sliceSpan (applyAll text edits) (landed text edits s) =
      front ++ Text.slice text cut s.stop := by
  have nonempty := Nat.lt_of_le_of_lt behind before
  have inFront : Ordered text s.start cut (touching edits s) := by
    apply (ordered_sorted sound apart).filter_within _ behind
    intro e member touches
    simp only [Bool.and_eq_true, decide_eq_true_eq] at touches
    rcases clear e (mem_sorted.1 member) with (h | h) | h
    · omega
    · omega
    · exact ⟨h.1.1, h.2⟩
  have noMore : Ordered text cut s.stop [] := Nat.le_of_lt before
  have pieces := applyBetween_append start middle stop inFront noMore
  rw [List.append_nil] at pieces
  refine ⟨applyBetween text s.start cut (touching edits s), ?_⟩
  rw [sliceSpan_landed sound apart start stop nonempty fun e member =>
    (clear e member).imp id And.left]
  exact pieces

end Edit

end ThemeMigration
