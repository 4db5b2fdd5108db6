import ThemeMigration.Component.Literals
import ThemeMigration.Proofs.Script.Nesting

/-!
# The literals that are replaced

In a well-formed body, the property literals are exactly the strings that play the value of a pair,
wherever the pair stands; they come in source order and never overlap.  Of these, the replacements
pick the ones under a static key that is a colour property and with a value that has a token.
-/

namespace ThemeMigration

open Script SyntaxTree

namespace PropertyLiteral

/-! ## Where property literals stand -/

/-- The property literal that a child is, or those inside it. -/
def ofChild (parent t : SyntaxTree) : List PropertyLiteral :=
  if parent.kind == .pair && t.label == some .value && t.kind == .string then [⟨parent, t⟩]
  else inside t

theorem insideParts_eq (parent : SyntaxTree) (ts : List SyntaxTree) :
    insideParts parent ts = ts.flatMap (ofChild parent) := by
  induction ts with
  | nil => rfl
  | cons t ts ih => rw [insideParts, ih, List.flatMap_cons, ofChild]

theorem inside_eq (t : SyntaxTree) :
    inside t = if t.kind == .string then [] else t.children.flatMap (ofChild t) := by
  cases t with
  | node k l s ts => rw [inside, insideParts_eq]; rfl

theorem inside_eq_nil_of_children {t : SyntaxTree} (leaf : t.children = []) : inside t = [] := by
  rw [inside_eq, leaf]
  split <;> rfl

theorem ofChild_of_not {parent t : SyntaxTree}
    (h : ¬ (parent.kind = .pair ∧ t.label = some .value ∧ t.kind = .string)) :
    ofChild parent t = inside t := by
  rw [ofChild, if_neg (by simpa [and_assoc] using h)]

/-- In a block no child is itself a property literal. -/
theorem inside_of_block {t : SyntaxTree} (block : t.kind = .statementBlock) :
    inside t = t.children.flatMap inside := by
  rw [inside_eq, block]
  apply List.flatMap_congr
  intro c _
  apply ofChild_of_not
  rw [block]
  rintro ⟨pair, _⟩
  cases pair

/-- The node is the string value of the pair. -/
structure IsValue (pair literal : SyntaxTree) : Prop where
  kind : pair.kind = .pair
  member : literal ∈ pair.children
  label : literal.label = some .value
  isString : literal.kind = .string

theorem mem_ofChild {parent t : SyntaxTree} {l : PropertyLiteral} (h : l ∈ ofChild parent t) :
    (l = ⟨parent, t⟩ ∧ parent.kind = .pair ∧ t.label = some .value ∧ t.kind = .string) ∨
      l ∈ inside t := by
  rw [ofChild] at h
  split at h
  · rename_i test
    simp only [Bool.and_eq_true, beq_iff_eq] at test
    exact Or.inl ⟨List.mem_singleton.1 h, test.1.1, test.1.2, test.2⟩
  · exact Or.inr h

/-- A property literal inside a node is the string value of a pair that stands in the node. -/
theorem isValue_of_mem_inside (t : SyntaxTree) :
    ∀ l ∈ inside t, Occurs t l.property ∧ IsValue l.property l.literal := by
  induction t using childInduction with
  | step t ih =>
    intro l h
    rw [inside_eq] at h
    split at h
    · cases h
    · rcases List.mem_flatMap.1 h with ⟨c, member, found⟩
      rcases mem_ofChild found with ⟨rfl, pair, value, string⟩ | deep
      · exact ⟨.here t, pair, member, value, string⟩
      · have below := ih c member l deep
        exact ⟨.deeper member below.1, below.2⟩

variable {source : String}

theorem mem_inside_of_isValue {t : SyntaxTree} (h : t.wellFormed source = true)
    {pair literal : SyntaxTree} (below : Occurs t pair) (value : IsValue pair literal) :
    ⟨pair, literal⟩ ∈ inside t := by
  induction below with
  | here t =>
    rw [inside_eq, value.kind]
    apply List.mem_flatMap.2
    refine ⟨literal, value.member, ?_⟩
    simp [ofChild, value.kind, value.label, value.isString]
  | @deeper t c pair member below ih =>
    have atomic : Kind.string.isAtomic = true := rfl
    have notString : t.kind ≠ .string := by
      intro string
      have leaf := children_eq_nil h (string ▸ atomic)
      rw [leaf] at member
      cases member
    have childNotString : c.kind ≠ .string := by
      intro string
      have leaf := children_eq_nil (wellFormed_child h member).1 (string ▸ atomic)
      have same := below.eq_of_children_eq_nil leaf
      have kinds := value.kind
      rw [same, string] at kinds
      cases kinds
    rw [inside_eq, if_neg (by simpa using notString)]
    apply List.mem_flatMap.2
    refine ⟨c, member, ?_⟩
    rw [ofChild, if_neg (by simp [childNotString])]
    exact ih (wellFormed_child h member).1 value

theorem mem_inside_iff {t : SyntaxTree} (h : t.wellFormed source = true)
    {pair literal : SyntaxTree} :
    ⟨pair, literal⟩ ∈ inside t ↔ Occurs t pair ∧ IsValue pair literal :=
  ⟨fun found => isValue_of_mem_inside t _ found,
    fun ⟨below, value⟩ => mem_inside_of_isValue h below value⟩

theorem literal_occurs {t : SyntaxTree} {l : PropertyLiteral} (found : l ∈ inside t) :
    Occurs t l.literal := by
  have value := isValue_of_mem_inside t l found
  exact value.1.trans (.child value.2.member)

section WellFormed

variable {t : SyntaxTree} (h : t.wellFormed source = true)

include h

/-- A literal has the room of its quotes. -/
theorem literal_nonempty {l : PropertyLiteral} (found : l ∈ inside t) :
    l.literal.start < l.literal.stop := by
  have below := (wellFormed_occurs h (literal_occurs found)).1
  have quoted := isQuoted_text below (isValue_of_mem_inside t l found).2.isString
  rcases Nat.lt_or_eq_of_le (start_le_stop below) with room | empty
  · exact room
  · rw [SyntaxTree.text, Text.sliceSpan, Text.slice_eq_empty (Nat.le_of_eq empty.symm)] at quoted
    cases quoted

theorem span_contains_literal {l : PropertyLiteral} (found : l ∈ inside t) :
    t.span.Contains l.literal.span :=
  (wellFormed_occurs h (literal_occurs found)).2

omit h in
/-- The literals of two nodes that follow one another follow one another. -/
theorem inside_pairwise (t : SyntaxTree) (h : t.wellFormed source = true) :
    (inside t).Pairwise fun a b => a.literal.stop ≤ b.literal.start := by
  induction t using childInduction with
  | step t ih =>
    rw [inside_eq]
    split
    · exact .nil
    · -- A child holds its literals within its span, whether it is one or holds them deeper.
      have within : ∀ c ∈ t.children, ∀ l ∈ ofChild t c, c.span.Contains l.literal.span := by
        intro c member l found
        rcases mem_ofChild found with ⟨rfl, _⟩ | deep
        · exact .refl _
        · exact span_contains_literal (wellFormed_child h member).1 deep
      rw [List.pairwise_flatMap]
      constructor
      · intro c member
        rw [ofChild]
        split
        · exact List.pairwise_singleton _ _
        · exact ih c member (wellFormed_child h member).1
      · have order := children_pairwise h
        refine order.imp_of_mem ?_
        intro a b first second between l inFirst k inSecond
        have left := (within a first l inFirst).2
        have right := (within b second k inSecond).1
        exact Nat.le_trans left (Nat.le_trans between right)

end WellFormed

/-! ## Which of them are replaced -/

/-- The name that a static key spells out. -/
inductive Spells (source : String) (key : SyntaxTree) : String → Prop
  | identifier : key.kind = .propertyIdentifier → Spells source key (key.text source)
  | number : key.kind = .number → Spells source key (key.text source)
  | string : key.kind = .string → Spells source key (unquote (key.text source))

theorem keyName?_eq_some_iff {key : SyntaxTree} {name : String} :
    keyName? source key = some name ↔ Spells source key name := by
  constructor
  · intro h
    rw [keyName?] at h
    split at h
    · rename_i kind
      cases h
      exact .identifier kind
    · rename_i kind
      cases h
      exact .number kind
    · rename_i kind
      cases h
      exact .string kind
    · cases h
  · intro h
    cases h with
    | identifier kind => rw [keyName?, kind]
    | number kind => rw [keyName?, kind]
    | string kind => rw [keyName?, kind]

variable {p : Palette}

theorem edit?_eq_some_iff {l : PropertyLiteral} {e : Edit} :
    l.edit? p source = some e ↔
      ∃ key name expression, l.property.part? .key = some key ∧ Spells source key name ∧
        p.properties.contains name = true ∧
        p.tokens.lookup? (unquote (l.literal.text source)) = some expression ∧
        e = .replace l.literal.span expression := by
  constructor
  · intro h
    rw [edit?, verdict] at h
    split at h
    · rename_i expression found
      cases h
      split at found
      · cases found
      · rename_i name keyed
        rcases Option.bind_eq_some_iff.1 keyed with ⟨key, keyPart, spelled⟩
        split at found
        · rename_i eligible
          split at found
          · rename_i mapped
            cases found
            exact ⟨key, name, _, keyPart, keyName?_eq_some_iff.1 spelled, eligible, mapped, rfl⟩
          · cases found
        · cases found
    · cases h
  · rintro ⟨key, name, expression, keyPart, spelled, eligible, mapped, rfl⟩
    rw [edit?, verdict, keyPart, Option.bind_some, keyName?_eq_some_iff.2 spelled]
    simp only [eligible, if_true, mapped]

theorem span_of_edit? {l : PropertyLiteral} {e : Edit} (h : l.edit? p source = some e) :
    e.span = l.literal.span := by
  rcases edit?_eq_some_iff.1 h with ⟨_, _, _, _, _, _, _, rfl⟩
  rfl

end PropertyLiteral

end ThemeMigration
