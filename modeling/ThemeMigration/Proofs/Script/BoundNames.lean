import ThemeMigration.Proofs.Script.Correspondence

/-!
# What a pattern binds

A pattern binds the names that stand for its targets, and each form of pattern has a rule that says
where its targets are.  What stands beside them, the keys of properties, default values, type
annotations and decorators, binds nothing, whatever it holds.  The word `undefined` can be a target
like any other name, but inside a pattern it is read as a constant, and the search for bound names
looks for names only.
-/

namespace ThemeMigration.Script.SyntaxTree

/-! ## Targets -/

/-- The forms of patterns in which every member has targets. -/
def holdsTargets : Kind → Bool
  | .formalParameters | .objectPattern | .arrayPattern | .restPattern => true
  | _ => false

/-- The one part in which other forms of patterns have their targets: the value of a property, what
a default is the default of, and the pattern of a parameter. -/
def targetLabel? : Kind → Option Label
  | .pairPattern => some .value
  | .assignmentPattern | .objectAssignmentPattern => some .left
  | .requiredParameter | .optionalParameter => some .pattern
  | _ => none

/-- The targets of a pattern are in this child of it. -/
inductive IsTargetPart (t c : SyntaxTree) : Prop
  | member : holdsTargets t.kind = true → c ∈ t.children → IsTargetPart t c
  | part {l : Label} : targetLabel? t.kind = some l → t.part? l = some c → IsTargetPart t c

/-- A single word that is a name as a target. -/
inductive IsWord (source : String) (n : SyntaxTree) : Prop
  | name : n.kind = .identifier ∨ n.kind = .shorthandPattern → IsWord source n
  | constant : n.kind = .expression → n.children = [] → n.text source = "undefined" →
      IsWord source n

/-- A word is a name that a pattern binds, at any depth. -/
inductive Binds (source : String) : SyntaxTree → SyntaxTree → Prop
  | word {n : SyntaxTree} : IsWord source n → Binds source n n
  | inside {t c n : SyntaxTree} : IsTargetPart t c → Binds source c n → Binds source t n

variable {source : String} {t c n : SyntaxTree}

theorem IsTargetPart.mem_children (h : IsTargetPart t c) : c ∈ t.children := by
  cases h with
  | member _ inside => exact inside
  | part _ part => exact mem_children_of_part? part

theorem Binds.occurs (h : Binds source t n) : Occurs t n := by
  induction h with
  | word => exact .here _
  | inside part _ ih => exact .deeper part.mem_children ih

theorem Binds.isWord (h : Binds source t n) : IsWord source n := by
  induction h with
  | word isWord => exact isWord
  | inside _ _ ih => exact ih

theorem IsWord.children_eq_nil (h : IsWord source n) (wellFormed : n.wellFormed source = true) :
    n.children = [] := by
  cases h with
  | name isName =>
    refine SyntaxTree.children_eq_nil wellFormed ?_
    rcases isName with kind | kind <;> rw [kind] <;> rfl
  | constant _ leaf => exact leaf

/-! ## The names that are found -/

theorem mem_boundNames_part_iff {l : Label} :
    n ∈ ((t.part? l).map boundNames).getD [] ↔ ∃ c, t.part? l = some c ∧ n ∈ c.boundNames := by
  cases t.part? l <;> simp

/-- The search finds a name itself, and looks on where the targets of a pattern are. -/
theorem mem_boundNames_iff_part :
    n ∈ t.boundNames ↔
      ((t.kind = .identifier ∨ t.kind = .shorthandPattern) ∧ n = t) ∨
        ∃ c, IsTargetPart t c ∧ n ∈ c.boundNames := by
  have ofPart : ∀ {l : Label}, targetLabel? t.kind = some l →
      n ∈ ((t.part? l).map boundNames).getD [] → ∃ c, IsTargetPart t c ∧ n ∈ c.boundNames := by
    intro l label found
    rcases mem_boundNames_part_iff.1 found with ⟨c, part, found⟩
    exact ⟨c, .part label part, found⟩
  constructor
  · intro found
    rw [boundNames_eq] at found
    split at found
    case h_1 kind | h_2 kind => exact Or.inl ⟨by simp [kind], List.mem_singleton.1 found⟩
    case h_3 kind | h_4 kind | h_5 kind | h_6 kind =>
      rcases List.mem_flatMap.1 found with ⟨c, inside, found⟩
      exact Or.inr ⟨c, .member (by rw [kind]; rfl) inside, found⟩
    case h_7 kind | h_8 kind | h_9 kind | h_10 kind | h_11 kind =>
      exact Or.inr (ofPart (by rw [kind]; rfl) found)
    case h_12 => cases found
  · rintro (⟨isName, rfl⟩ | ⟨c, part, found⟩)
    · rw [boundNames_eq]
      rcases isName with kind | kind <;> rw [kind] <;> exact List.mem_singleton_self n
    · rw [boundNames_eq]
      cases part with
      | member holds inside =>
        have among := List.mem_flatMap.2 ⟨c, inside, found⟩
        generalize t.kind = k at holds
        cases k <;> first | exact among | cases holds
      | @part l label part =>
        have among := mem_boundNames_part_iff.2 ⟨c, part, found⟩
        generalize t.kind = k at label
        cases k <;> cases label <;> exact among

/-- The names that are found are the targets that are no constants. -/
theorem mem_boundNames_iff : n ∈ t.boundNames ↔ Binds source t n ∧ n.kind ≠ .expression := by
  constructor
  · intro found
    induction t using childInduction with
    | step t ih =>
      rcases mem_boundNames_iff_part.1 found with ⟨isName, rfl⟩ | ⟨c, part, found⟩
      · refine ⟨.word (.name isName), ?_⟩
        rcases isName with kind | kind <;> rw [kind] <;> decide
      · rcases ih c part.mem_children found with ⟨binds, name⟩
        exact ⟨.inside part binds, name⟩
  · rintro ⟨binds, name⟩
    induction binds with
    | word isWord =>
      cases isWord with
      | name isName => exact mem_boundNames_iff_part.2 (Or.inl ⟨isName, rfl⟩)
      | constant kind => exact absurd kind name
    | inside part _ ih => exact mem_boundNames_iff_part.2 (Or.inr ⟨_, part, ih name⟩)

/-! ## Beside the targets -/

/-- A child of a node stands beside the targets: the key of a property, a default value, a type
annotation or a decorator of a parameter, a computed name, a type, or an operand of an
expression. -/
inductive IsAside (d a : SyntaxTree) : Prop
  | beside {l : Label} : targetLabel? d.kind = some l → a ∈ d.children → a.label ≠ some l →
      IsAside d a
  | computed : a ∈ d.children → a.kind = .computedPropertyName → IsAside d a
  | type : a ∈ d.children → a.kind = .typeForm → IsAside d a
  | operand : d.kind = .expression → a ∈ d.children → IsAside d a

variable {d a : SyntaxTree}

theorem IsAside.mem_children (h : IsAside d a) : a ∈ d.children := by
  cases h with
  | beside _ inside | computed inside | type inside | operand _ inside => exact inside

theorem Binds.kind_ne (h : Binds source t n) :
    t.kind ≠ .computedPropertyName ∧ t.kind ≠ .typeForm := by
  cases h with
  | word isWord =>
    cases isWord with
    | name isName => rcases isName with kind | kind <;> rw [kind] <;> decide
    | constant kind => rw [kind]; decide
  | inside part =>
    cases part with
    | member holds => exact ⟨fun kind => by simp [kind, holdsTargets] at holds,
        fun kind => by simp [kind, holdsTargets] at holds⟩
    | part label => exact ⟨fun kind => by simp [kind, targetLabel?] at label,
        fun kind => by simp [kind, targetLabel?] at label⟩

theorem targetLabel?_of_holdsTargets {k : Kind} (h : holdsTargets k = true) :
    targetLabel? k = none := by
  cases k <;> first | rfl | cases h

/-- What targets are in does not stand beside them. -/
theorem IsTargetPart.not_isAside (part : IsTargetPart t c) (binds : Binds source c n) :
    ¬ IsAside t c := by
  intro aside
  cases aside with
  | computed _ kind => exact binds.kind_ne.1 kind
  | type _ kind => exact binds.kind_ne.2 kind
  | beside label _ other =>
    cases part with
    | member holds =>
      rw [targetLabel?_of_holdsTargets holds] at label
      cases label
    | part label' part =>
      cases label.symm.trans label'
      exact other (label_of_part? part)
  | operand kind =>
    cases part with
    | member holds => rw [kind] at holds; cases holds
    | part label => rw [kind] at label; cases label

/-- A name that a pattern binds stands in nothing that is beside the targets. -/
theorem Binds.not_occurs_of_isAside (h : Binds source t n) (wellFormed : t.wellFormed source = true)
    (room : n.start < n.stop) (inside : Occurs t d) (aside : IsAside d a) : ¬ Occurs a n := by
  intro inAside
  induction h with
  | word isWord =>
    have leaf := isWord.children_eq_nil wellFormed
    cases inside.eq_of_children_eq_nil leaf
    have member := aside.mem_children
    rw [leaf] at member
    cases member
  | @inside t c n part binds ih =>
    have child := wellFormed_child wellFormed part.mem_children
    -- Two children that both hold the name are the same.
    have same : ∀ e ∈ t.children, Occurs e n → c = e := by
      intro e member holds
      rcases Span.eq_or_apart span (children_pairwise wellFormed) part.mem_children member
        with same | apart
      · exact same
      · have left := (wellFormed_occurs child.1 binds.occurs).2
        have right := (wellFormed_occurs (wellFormed_child wellFormed member).1 holds).2
        exact absurd (apart.stop_le_start left right) (Nat.not_le_of_lt room)
    cases inside with
    | here =>
      cases same a aside.mem_children inAside
      exact part.not_isAside binds aside
    | @deeper _ e _ member inside =>
      cases same e member (inside.trans (.deeper aside.mem_children inAside))
      exact ih child.1 room inside inAside

/-! ## Patterns -/

/-- A node is a pattern: wherever its targets are in, there are patterns again, down to words and to
expressions that something is assigned to. -/
inductive IsPattern : SyntaxTree → Prop
  | name {t : SyntaxTree} : t.kind = .identifier ∨ t.kind = .shorthandPattern → IsPattern t
  | expression {t : SyntaxTree} : t.kind = .expression → IsPattern t
  | comment {t : SyntaxTree} : t.isComment = true → IsPattern t
  | members {t : SyntaxTree} :
      holdsTargets t.kind = true → (∀ c ∈ t.children, IsPattern c) → IsPattern t
  | part {t : SyntaxTree} {l : Label} :
      targetLabel? t.kind = some l → (∀ c, t.part? l = some c → IsPattern c) → IsPattern t

/-- A pattern binds every word in it that does not stand beside the targets. -/
theorem IsPattern.binds (h : IsPattern t) (wellFormed : t.wellFormed source = true)
    (isWord : IsWord source n) (inside : Occurs t n)
    (free : ∀ d a, Occurs t d → IsAside d a → ¬ Occurs a n) : Binds source t n := by
  have atom : ∀ {u : SyntaxTree}, u.wellFormed source = true → u.kind.isAtomic = true →
      Occurs u n → Binds source u n := by
    intro u wellFormed atomic inside
    cases inside.eq_of_children_eq_nil (SyntaxTree.children_eq_nil wellFormed atomic)
    exact .word isWord
  induction h with
  | name isName =>
    refine atom wellFormed ?_ inside
    rcases isName with kind | kind <;> rw [kind] <;> rfl
  | comment isComment =>
    exact atom wellFormed (by rw [eq_of_beq isComment]; rfl) inside
  | expression kind =>
    cases inside with
    | here => exact .word isWord
    | deeper member inside => exact absurd inside (free _ _ (.here _) (.operand kind member))
  | @members t holds _ ih =>
    cases inside with
    | here => exact .word isWord
    | @deeper _ c _ member inside =>
      exact .inside (.member holds member)
        (ih c member (wellFormed_child wellFormed member).1 inside
          fun d a below => free d a (.deeper member below))
  | @part t l label _ ih =>
    cases inside with
    | here => exact .word isWord
    | @deeper _ c _ member inside =>
      by_cases labelled : c.label = some l
      · have part := (part?_eq_some_iff wellFormed).2 ⟨member, labelled⟩
        exact .inside (.part label part) (ih c part (wellFormed_child wellFormed member).1 inside
          fun d a below => free d a (.deeper member below))
      · exact absurd inside (free _ _ (.here _) (.beside label member labelled))

/-- What a pattern binds are the words in it that do not stand beside the targets. -/
theorem IsPattern.binds_iff (h : IsPattern t) (wellFormed : t.wellFormed source = true)
    (room : n.start < n.stop) :
    Binds source t n ↔
      IsWord source n ∧ Occurs t n ∧ ∀ d a, Occurs t d → IsAside d a → ¬ Occurs a n := by
  constructor
  · intro binds
    exact ⟨binds.isWord, binds.occurs,
      fun d a inside aside => binds.not_occurs_of_isAside wellFormed room inside aside⟩
  · rintro ⟨isWord, inside, free⟩
    exact h.binds wellFormed isWord inside free

end ThemeMigration.Script.SyntaxTree
