import ThemeMigration.Proofs.Text.Slice
import ThemeMigration.Script.SyntaxTree

/-!
# Nodes of a well-formed tree

The spans of a well-formed tree are nested like its nodes: what occurs in a node lies inside its
span, siblings are apart, and of two nodes one occurs in the other or their spans are apart.  So an
atom is apart from every node but itself and those that it stands in.
-/

namespace ThemeMigration.Script.SyntaxTree

/-- The node `d` is `t` or stands in it at some depth. -/
inductive Occurs : SyntaxTree → SyntaxTree → Prop
  | here (t : SyntaxTree) : Occurs t t
  | deeper {t c d : SyntaxTree} : c ∈ t.children → Occurs c d → Occurs t d

theorem Occurs.child {t c : SyntaxTree} (h : c ∈ t.children) : Occurs t c := .deeper h (.here c)

theorem Occurs.trans {t d e : SyntaxTree} (h : Occurs t d) (k : Occurs d e) : Occurs t e := by
  induction h with
  | here => exact k
  | deeper member _ ih => exact .deeper member (ih k)

theorem Occurs.sizeOf_le {t d : SyntaxTree} (h : Occurs t d) : sizeOf d ≤ sizeOf t := by
  induction h with
  | here => exact Nat.le_refl _
  | deeper member _ ih => exact Nat.le_trans ih (Nat.le_of_lt (sizeOf_lt_of_mem_children member))

/-- A node does not occur in one of its children. -/
theorem not_occurs_of_mem_children {t c : SyntaxTree} (h : c ∈ t.children) : ¬ Occurs c t :=
  fun impossible => Nat.not_le_of_lt (sizeOf_lt_of_mem_children h) impossible.sizeOf_le

theorem Occurs.eq_of_children_eq_nil {t d : SyntaxTree} (h : Occurs t d) (leaf : t.children = []) :
    d = t := by
  cases h with
  | here => rfl
  | deeper member _ =>
    rw [leaf] at member
    cases member

/-- Induction on trees through everything that stands in their children. -/
theorem occursInduction {P : SyntaxTree → Prop}
    (step : ∀ t : SyntaxTree, (∀ c ∈ t.children, ∀ d, Occurs c d → P d) → P t) (t : SyntaxTree) :
    P t := by
  have all : ∀ d, Occurs t d → P d := by
    induction t using childInduction with
    | step t ih =>
      intro d below
      cases below with
      | here => exact step t ih
      | deeper member below => exact ih _ member d below
  exact all t (.here t)

variable {source : String}

/-! ## What a well-formed node promises -/

-- the equations of the checks are made here once, in front of the lemmas that rewrite by them
attribute [local simp] hasForm wellFormed wellFormedFrom

theorem wellFormedFrom_iff {lower upper : Nat} {ts : List SyntaxTree} :
    wellFormedFrom source lower upper ts = true ↔
      lower ≤ upper ∧
        (∀ t ∈ ts, lower ≤ t.start ∧ t.stop ≤ upper ∧ t.wellFormed source = true) ∧
          ts.Pairwise fun a b => a.stop ≤ b.start := by
  induction ts generalizing lower with
  | nil => simp
  | cons t ts ih =>
    rw [wellFormedFrom, Bool.and_eq_true, Bool.and_eq_true, decide_eq_true_eq, ih,
      List.pairwise_cons]
    constructor
    · rintro ⟨⟨low, head⟩, high, tail, order⟩
      have ordered : t.start ≤ t.stop := by
        cases t with
        | node k l s cs =>
          simp only [wellFormed, Bool.and_eq_true, decide_eq_true_eq] at head
          exact head.1.1.1.1
      refine ⟨Nat.le_trans low (Nat.le_trans ordered high), ?_, ?_, order⟩
      · intro u member
        rcases List.mem_cons.1 member with rfl | member
        · exact ⟨low, high, head⟩
        · have facts := tail u member
          exact ⟨Nat.le_trans low (Nat.le_trans ordered facts.1), facts.2⟩
      · intro u member
        exact (tail u member).1
    · rintro ⟨_, all, first, order⟩
      have facts := all t List.mem_cons_self
      refine ⟨⟨facts.1, facts.2.2⟩, facts.2.1, ?_, order⟩
      intro u member
      exact ⟨first u member, (all u (List.mem_cons_of_mem _ member)).2⟩

section WellFormed

variable {t : SyntaxTree} (h : t.wellFormed source = true)

include h

theorem wellFormed_node :
    t.start ≤ t.stop ∧ Text.isBoundary source t.start = true ∧
      Text.isBoundary source t.stop = true ∧ hasForm source t.kind t.span t.children = true ∧
        wellFormedFrom source t.start t.stop t.children = true := by
  cases t with
  | node k l s ts =>
    simp only [wellFormed, Bool.and_eq_true, decide_eq_true_eq] at h
    exact ⟨h.1.1.1.1, h.1.1.1.2, h.1.1.2, h.1.2, h.2⟩

theorem start_le_stop : t.start ≤ t.stop := (wellFormed_node h).1

theorem start_boundary : Text.isBoundary source t.start = true := (wellFormed_node h).2.1

theorem stop_boundary : Text.isBoundary source t.stop = true := (wellFormed_node h).2.2.1

theorem wellFormed_child {c : SyntaxTree} (member : c ∈ t.children) :
    c.wellFormed source = true ∧ t.span.Contains c.span := by
  rcases wellFormedFrom_iff.1 (wellFormed_node h).2.2.2.2 with ⟨_, all, _⟩
  exact ⟨(all c member).2.2, (all c member).1, (all c member).2.1⟩

theorem children_pairwise : t.children.Pairwise fun a b => a.stop ≤ b.start :=
  (wellFormedFrom_iff.1 (wellFormed_node h).2.2.2.2).2.2

theorem wellFormed_occurs {d : SyntaxTree} (inside : Occurs t d) :
    d.wellFormed source = true ∧ t.span.Contains d.span := by
  induction inside with
  | here => exact ⟨h, .refl _⟩
  | deeper member _ ih =>
    have outer := wellFormed_child h member
    have inner := ih outer.1
    exact ⟨inner.1, outer.2.trans inner.2⟩

/-- Atoms have no parts. -/
theorem children_eq_nil (atom : t.kind.isAtomic = true) : t.children = [] := by
  have form := (wellFormed_node h).2.2.2.1
  simp only [hasForm, atom, Bool.not_true, Bool.false_or, Bool.and_eq_true,
    List.isEmpty_iff] at form
  exact form.1.1

/-- No two children play the same part. -/
theorem labels_nodup : (t.children.filterMap label).Nodup := by
  have form := (wellFormed_node h).2.2.2.1
  simp only [hasForm, Bool.and_eq_true, decide_eq_true_eq] at form
  exact form.1.2

theorem isQuoted_text (isString : t.kind = .string) : isQuoted (t.text source) = true := by
  have form := (wellFormed_node h).2.2.2.1
  simp only [hasForm, isString, Bool.and_eq_true] at form
  exact form.2

theorem source_is_string (isImport : t.kind = .importStatement) {c : SyntaxTree}
    (source : t.part? .source = some c) : c.kind = .string := by
  have form := (wellFormed_node h).2.2.2.1
  simp only [hasForm, isImport, Bool.and_eq_true, List.all_eq_true] at form
  have string := form.2 c (mem_children_of_part? source)
  rw [label_of_part? source] at string
  simpa using string

/-- An expression statement holds one expression, and comments. -/
theorem eq_of_not_comment (statement : t.kind = .expressionStatement) {c d : SyntaxTree}
    (first : c ∈ t.children) (second : d ∈ t.children) (expression : c.isComment = false)
    (other : d.isComment = false) : c = d := by
  have form := (wellFormed_node h).2.2.2.1
  simp only [hasForm, statement, Bool.and_eq_true, decide_eq_true_eq] at form
  have inFirst : c ∈ t.children.filter fun u => !u.isComment :=
    List.mem_filter.2 ⟨first, by rw [expression]; rfl⟩
  have inSecond : d ∈ t.children.filter fun u => !u.isComment :=
    List.mem_filter.2 ⟨second, by rw [other]; rfl⟩
  rcases List.length_eq_one_iff.1
    (Nat.le_antisymm form.2 (List.length_pos_of_mem inFirst)) with ⟨only, all⟩
  rw [all, List.mem_singleton] at inFirst inSecond
  exact inFirst.trans inSecond.symm

/-- A node around one part, with the span of that part. -/
theorem wellFormed_around {k : Kind} (form : hasForm source k t.span [t] = true)
    (l : Option Label) : wellFormed source (.node k l t.span [t]) = true := by
  have ordered : t.span.start ≤ t.span.stop := start_le_stop h
  have first : Text.isBoundary source t.span.start = true := start_boundary h
  have last : Text.isBoundary source t.span.stop = true := stop_boundary h
  rw [wellFormed, form, wellFormedFrom, wellFormedFrom, h, first, last]
  simp [ordered]

/-- Blocks and lists of imported names begin with their brace. -/
theorem begins_with_brace (braced : t.kind = .statementBlock ∨ t.kind = .namedImports) :
    t.start < t.stop ∧ String.Pos.Raw.get source ⟨t.start⟩ = '\x7b' := by
  have form := (wellFormed_node h).2.2.2.1
  rcases braced with kind | kind
  all_goals
    simp only [hasForm, kind, Bool.and_eq_true, decide_eq_true_eq, beq_iff_eq] at form
    exact form.2

theorem boundary_behind_brace (braced : t.kind = .statementBlock ∨ t.kind = .namedImports) :
    Text.isBoundary source (t.start + 1) = true := by
  rcases begins_with_brace h braced with ⟨room, brace⟩
  have size := Text.le_size_of_isBoundary (stop_boundary h)
  exact Text.isBoundary_succ_of_get (start_boundary h) (Nat.lt_of_lt_of_le room size) brace
    (by decide)

/-- A list of imported names has room for its brace. -/
theorem brace_boundary (list : t.kind = .namedImports) :
    t.start + 1 ≤ t.stop ∧ Text.isBoundary source (t.start + 1) = true :=
  ⟨(begins_with_brace h (Or.inr list)).1, boundary_behind_brace h (Or.inr list)⟩

/-- The child that plays a part is the only one with the label of the part. -/
theorem part?_eq_some_iff {l : Label} {c : SyntaxTree} :
    t.part? l = some c ↔ c ∈ t.children ∧ c.label = some l := by
  constructor
  · intro found
    exact ⟨mem_children_of_part? found, label_of_part? found⟩
  · rintro ⟨member, labelled⟩
    have unique := labels_nodup h
    rcases List.append_of_mem member with ⟨before, after, split⟩
    rw [split, List.filterMap_append, List.filterMap_cons_some labelled] at unique
    have absent : ∀ d ∈ before, d.label ≠ some l := by
      intro d inBefore same
      have disjoint := (List.nodup_append.1 unique).2.2
      exact disjoint l (List.mem_filterMap.2 ⟨d, inBefore, same⟩) l List.mem_cons_self rfl
    rw [part?, split, List.find?_append,
      List.find?_eq_none.2 fun d inBefore => by simpa using absent d inBefore]
    simp [labelled]

end WellFormed

/-! ## Rows of nodes -/

section Row

variable {ts : List SyntaxTree} {t u : SyntaxTree}
  (row : ts.Pairwise fun a b => a.stop ≤ b.start)
  (wellFormed : ∀ t ∈ ts, t.wellFormed source = true)

include row wellFormed

theorem start_le_of_head? (first : ts.head? = some u) (member : t ∈ ts) : u.start ≤ t.start := by
  rcases List.head?_eq_some_iff.1 first with ⟨others, split⟩
  have room := start_le_stop (wellFormed u (List.mem_of_mem_head? first))
  rw [split] at row member
  rcases List.mem_cons.1 member with rfl | later
  · exact Nat.le_refl _
  · exact Nat.le_trans room ((List.pairwise_cons.1 row).1 t later)

theorem stop_le_of_getLast? (last : ts.getLast? = some u) (member : t ∈ ts) : t.stop ≤ u.stop := by
  rcases List.getLast?_eq_some_iff.1 last with ⟨front, split⟩
  have room := start_le_stop (wellFormed u (List.mem_of_getLast? last))
  rw [split] at row member
  rcases List.mem_append.1 member with inFront | isLast
  · exact Nat.le_trans ((List.pairwise_append.1 row).2.2 t inFront u List.mem_cons_self) room
  · rw [List.mem_singleton.1 isLast]

end Row

/-! ## Apart or one inside the other -/

/-- Of two nodes of a well-formed tree, one occurs in the other, or they are apart. -/
theorem occurs_or_apart {t a b : SyntaxTree} (h : t.wellFormed source = true) (first : Occurs t a)
    (second : Occurs t b) : Occurs a b ∨ Occurs b a ∨ a.span.Apart b.span := by
  induction first with
  | here => exact Or.inl second
  | deeper inFirst deepFirst ih =>
    cases second with
    | here => exact Or.inr (Or.inl (.deeper inFirst deepFirst))
    | deeper inSecond deepSecond =>
      rcases Span.eq_or_apart span (children_pairwise h) inFirst inSecond with rfl | apart
      · exact ih (wellFormed_child h inFirst).1 deepSecond
      · have left := (wellFormed_occurs (wellFormed_child h inFirst).1 deepFirst).2
        have right := (wellFormed_occurs (wellFormed_child h inSecond).1 deepSecond).2
        exact Or.inr (Or.inr (apart.mono left right))

/-- An atom is apart from every node that it is not and does not stand in. -/
theorem eq_or_occurs_or_apart {t a b : SyntaxTree} (h : t.wellFormed source = true)
    (first : Occurs t a) (second : Occurs t b) (atom : b.kind.isAtomic = true) :
    a = b ∨ (a ≠ b ∧ Occurs a b) ∨ a.span.Apart b.span := by
  rcases occurs_or_apart h first second with inside | inside | apart
  · by_cases same : a = b
    · exact Or.inl same
    · exact Or.inr (Or.inl ⟨same, inside⟩)
  · have leaf := children_eq_nil (wellFormed_occurs h second).1 atom
    exact Or.inl (inside.eq_of_children_eq_nil leaf)
  · exact Or.inr (Or.inr apart)

/-! ## Named children -/

/-- The node `d` is `t` or is reached from it through named children. -/
inductive Reaches : SyntaxTree → SyntaxTree → Prop
  | here (t : SyntaxTree) : Reaches t t
  | deeper {t c d : SyntaxTree} : c ∈ t.named → Reaches c d → Reaches t d

theorem Reaches.occurs {t d : SyntaxTree} (h : Reaches t d) : Occurs t d := by
  induction h with
  | here => exact .here _
  | deeper member _ ih => exact .deeper (mem_children_of_mem_named member) ih

theorem isAtomic_of_not_named {k : Kind} (h : k.isNamed = false) : k.isAtomic = true := by
  cases k <;> first | rfl | cases h

/-- Only atoms are not named, so every named node is reached through named children. -/
theorem reaches_of_occurs {t d : SyntaxTree} (h : t.wellFormed source = true) (below : Occurs t d)
    (isNamed : d.kind.isNamed = true) : Reaches t d := by
  induction below with
  | here => exact .here _
  | @deeper t c d member below ih =>
    have inner := (wellFormed_child h member).1
    cases childNamed : c.kind.isNamed with
    | true => exact .deeper (List.mem_filter.2 ⟨member, childNamed⟩) (ih inner isNamed)
    | false =>
      have atom := isAtomic_of_not_named childNamed
      have same := below.eq_of_children_eq_nil (children_eq_nil inner atom)
      rw [same, childNamed] at isNamed
      cases isNamed

/-- A node with a text has one parent. -/
theorem parent_unique {t a b c : SyntaxTree} (h : t.wellFormed source = true)
    (nonempty : c.start < c.stop) (first : Occurs t a) (second : Occurs t b)
    (inFirst : c ∈ a.children) (inSecond : c ∈ b.children) : a = b := by
  -- One parent occurs in the other; were it deeper, it would stand in the node or beside it.
  have nested : ∀ {x y : SyntaxTree}, x.wellFormed source = true → Occurs x y → c ∈ x.children →
      c ∈ y.children → x = y := by
    intro x y wellFormed below inOuter inInner
    cases below with
    | here => rfl
    | @deeper _ d _ member below =>
      have inside := below.trans (.child inInner)
      rcases Span.eq_or_apart span (children_pairwise wellFormed) member inOuter with rfl | apart
      · exact absurd below (not_occurs_of_mem_children inInner)
      · have within := (wellFormed_occurs (wellFormed_child wellFormed member).1 inside).2
        exact absurd (apart.stop_le_start within (.refl _)) (Nat.not_le_of_lt nonempty)
  rcases occurs_or_apart h first second with below | below | apart
  · exact nested (wellFormed_occurs h first).1 below inFirst inSecond
  · exact (nested (wellFormed_occurs h second).1 below inSecond inFirst).symm
  · have left := (wellFormed_child (wellFormed_occurs h first).1 inFirst).2
    have right := (wellFormed_child (wellFormed_occurs h second).1 inSecond).2
    exact absurd (apart.stop_le_start left right) (Nat.not_le_of_lt nonempty)

end ThemeMigration.Script.SyntaxTree
