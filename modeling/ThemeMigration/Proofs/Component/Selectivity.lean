import ThemeMigration.Proofs.Component.Literals

/-!
# Exactly the eligible literals are replaced

A literal is eligible when it is the string value of a pair in the body, under a static key that is
a colour property, and has a token.  The replacements of a component are the eligible literals in
source order, each once and as a whole.  Strings that are no value of a pair, such as keys, markup
attributes and parts of larger values, are not eligible; neither are values under a computed key.
-/

namespace ThemeMigration

open Script SyntaxTree

/-- The node `literal` is a value in the body that has to be replaced by the expression. -/
structure Eligible (p : Palette) (source : String) (body pair literal : SyntaxTree)
    (expression : String) : Prop where
  reached : Reaches body pair
  isPair : pair.kind = .pair
  value : pair.part? .value = some literal
  isString : literal.kind = .string
  key : ∃ key name, pair.part? .key = some key ∧ PropertyLiteral.Spells source key name ∧
    p.properties.contains name = true
  mapped : p.tokens.lookup? (unquote (literal.text source)) = some expression

namespace Eligible

variable {p : Palette} {source : String} {body pair literal : SyntaxTree} {expression : String}

theorem occurs (eligible : Eligible p source body pair literal expression) :
    Occurs body literal :=
  eligible.reached.occurs.trans (.child (mem_children_of_part? eligible.value))

theorem edit?_eq (eligible : Eligible p source body pair literal expression) :
    PropertyLiteral.edit? p source ⟨pair, literal⟩ = some (.replace literal.span expression) := by
  rcases eligible.key with ⟨key, name, keyed, spelled, colour⟩
  exact PropertyLiteral.edit?_eq_some_iff.2
    ⟨key, name, expression, keyed, spelled, colour, eligible.mapped, rfl⟩

section WellFormed

variable (h : body.wellFormed source = true)

include h

theorem mem_inside (eligible : Eligible p source body pair literal expression) :
    ⟨pair, literal⟩ ∈ PropertyLiteral.inside body := by
  have below := eligible.reached.occurs
  rcases (part?_eq_some_iff (wellFormed_occurs h below).1).1 eligible.value with ⟨member, label⟩
  exact PropertyLiteral.mem_inside_of_isValue h below
    ⟨eligible.isPair, member, label, eligible.isString⟩

/-- A literal with an edit is eligible. -/
theorem of_edit? {l : PropertyLiteral} (found : l ∈ PropertyLiteral.inside body) {e : Edit}
    (edited : l.edit? p source = some e) :
    ∃ expression, Eligible p source body l.property l.literal expression ∧
      e = .replace l.literal.span expression := by
  rcases PropertyLiteral.isValue_of_mem_inside _ _ found with ⟨below, value⟩
  rcases PropertyLiteral.edit?_eq_some_iff.1 edited with
    ⟨key, name, expression, keyed, spelled, colour, mapped, rfl⟩
  have reached := reaches_of_occurs h below (by rw [value.kind]; rfl)
  have part := (part?_eq_some_iff (wellFormed_occurs h below).1).2 ⟨value.member, value.label⟩
  exact ⟨expression,
    ⟨reached, value.kind, part, value.isString, ⟨key, name, keyed, spelled, colour⟩, mapped⟩, rfl⟩

end WellFormed

end Eligible

namespace Component

variable {c : Component} {p : Palette} {source : String}

theorem mem_replacements_iff (h : c.body.wellFormed source = true) {e : Edit} :
    e ∈ c.replacements p source ↔
      ∃ pair literal expression, Eligible p source c.body pair literal expression ∧
        e = .replace literal.span expression := by
  rw [replacements, List.mem_filterMap]
  constructor
  · rintro ⟨⟨pair, literal⟩, found, edited⟩
    rcases Eligible.of_edit? h found edited with ⟨expression, eligible, same⟩
    exact ⟨pair, literal, expression, eligible, same⟩
  · rintro ⟨pair, literal, expression, eligible, rfl⟩
    exact ⟨⟨pair, literal⟩, eligible.mem_inside h, eligible.edit?_eq⟩

theorem replacements_pairwise (h : c.body.wellFormed source = true) :
    (c.replacements p source).Pairwise fun a b => a.span.stop ≤ b.span.start := by
  rw [replacements, List.pairwise_filterMap]
  refine (PropertyLiteral.inside_pairwise c.body h).imp ?_
  intro l k order a first b second
  rw [PropertyLiteral.span_of_edit? first, PropertyLiteral.span_of_edit? second]
  exact order

/-- A replacement takes the place of one of the literals of the body. -/
theorem exists_literal_of_mem_replacements {e : Edit} (member : e ∈ c.replacements p source) :
    ∃ l ∈ c.literals, l.edit? p source = some e ∧ e.span = l.literal.span := by
  rcases List.mem_filterMap.1 member with ⟨l, found, edited⟩
  exact ⟨l, found, edited, PropertyLiteral.span_of_edit? edited⟩

theorem replacement_nonempty (h : c.body.wellFormed source = true) {e : Edit}
    (member : e ∈ c.replacements p source) : e.span.start < e.span.stop := by
  rcases exists_literal_of_mem_replacements member with ⟨l, found, _, span⟩
  rw [span]
  exact PropertyLiteral.literal_nonempty h found

theorem replacements_nodup (h : c.body.wellFormed source = true) :
    (c.replacements p source).Nodup := by
  refine (replacements_pairwise h).imp_of_mem ?_
  intro a b first _ order same
  have room := replacement_nonempty h first
  rw [← same] at order
  exact Nat.not_le_of_lt room order

/-- What a replacement takes out is a whole literal with both its quotes, and what it puts in is
the expression for the text between them. -/
theorem replacement_of_whole_literal (h : c.body.wellFormed source = true) {e : Edit}
    (member : e ∈ c.replacements p source) :
    isQuoted (Text.sliceSpan source e.span) = true ∧
      p.tokens.lookup? (unquote (Text.sliceSpan source e.span)) = some e.replacement := by
  rcases (mem_replacements_iff h).1 member with ⟨pair, literal, expression, eligible, rfl⟩
  have inPair := mem_children_of_part? eligible.value
  have below := eligible.reached.occurs.trans (.child inPair)
  exact ⟨isQuoted_text (wellFormed_occurs h below).1 eligible.isString, eligible.mapped⟩

/-- A replacement meets a node only where its literal stands in the node. -/
theorem replacement_apart_or_inside (h : c.body.wellFormed source = true) {t : SyntaxTree}
    (reached : Reaches c.body t) {e : Edit} (member : e ∈ c.replacements p source) :
    e.span.Apart t.span ∨
      ∃ pair literal expression, Eligible p source c.body pair literal expression ∧
        e = .replace literal.span expression ∧ Reaches t literal := by
  rcases (mem_replacements_iff h).1 member with ⟨pair, literal, expression, eligible, rfl⟩
  have inPair := mem_children_of_part? eligible.value
  have below := eligible.reached.occurs.trans (.child inPair)
  have wellFormed := (wellFormed_occurs h reached.occurs).1
  have isNamed : literal.kind.isNamed = true := by rw [eligible.isString]; rfl
  have atom : literal.kind.isAtomic = true := by rw [eligible.isString]; rfl
  rcases eq_or_occurs_or_apart h reached.occurs below atom with rfl | ⟨_, inside⟩ | apart
  · exact Or.inr ⟨pair, t, expression, eligible, rfl, .here t⟩
  · exact Or.inr ⟨pair, literal, expression, eligible, rfl,
      reaches_of_occurs wellFormed inside isNamed⟩
  · exact Or.inl apart.symm

/-- No string is touched that is not an eligible value of its own parent. -/
theorem replacement_apart_of_not_eligible (h : c.body.wellFormed source = true)
    {parent t : SyntaxTree} (reached : Reaches c.body parent) (child : t ∈ parent.named)
    (string : t.kind = .string)
    (other : ∀ expression, ¬ Eligible p source c.body parent t expression) {e : Edit}
    (member : e ∈ c.replacements p source) : e.span.Apart t.span := by
  have inParent := mem_children_of_mem_named child
  have below := reached.occurs.trans (.child inParent)
  have wellFormed := (wellFormed_occurs h below).1
  have inside : Reaches c.body t := reaches_of_occurs h below (by rw [string]; rfl)
  rcases replacement_apart_or_inside h inside member with
    apart | ⟨pair, literal, expression, eligible, edited, deeper⟩
  · exact apart
  · have leaf := children_eq_nil wellFormed (by rw [string]; rfl)
    have same := deeper.occurs.eq_of_children_eq_nil leaf
    subst same
    have room := replacement_nonempty h member
    rw [edited] at room
    have parents := parent_unique h room eligible.reached.occurs reached.occurs
      (mem_children_of_part? eligible.value) inParent
    subst parents
    exact absurd eligible (other expression)

/-- The replacements in a well-formed body are the eligible literals, each once, in source order
and as a whole, and nothing else is touched. -/
theorem replacements_exactly_eligible (c : Component) (p : Palette) (source : String)
    (h : c.body.wellFormed source = true) :
    (∀ e, e ∈ c.replacements p source ↔
        ∃ pair literal expression, Eligible p source c.body pair literal expression ∧
          e = .replace literal.span expression) ∧
      (c.replacements p source).Pairwise (fun a b => a.span.stop ≤ b.span.start) ∧
      (c.replacements p source).Nodup ∧
      (∀ e ∈ c.replacements p source, isQuoted (Text.sliceSpan source e.span) = true ∧
        p.tokens.lookup? (unquote (Text.sliceSpan source e.span)) = some e.replacement) ∧
      (∀ parent t, Reaches c.body parent → t ∈ parent.named → t.kind = .string →
        (∀ expression, ¬ Eligible p source c.body parent t expression) →
        ∀ e ∈ c.replacements p source, e.span.Apart t.span) ∧
      ∀ t, Reaches c.body t → ∀ e ∈ c.replacements p source, e.span.Apart t.span ∨
        ∃ pair literal expression, Eligible p source c.body pair literal expression ∧
          e = .replace literal.span expression ∧ Reaches t literal := by
  refine ⟨fun e => mem_replacements_iff h, replacements_pairwise h, replacements_nodup h, ?_, ?_,
    ?_⟩
  · intro e member
    exact replacement_of_whole_literal h member
  · intro parent t reached child string other e member
    exact replacement_apart_of_not_eligible h reached child string other member
  · intro t reached e member
    exact replacement_apart_or_inside h reached member

/-- In `{[color]:'#fff',fill:'#000'}` the value under the computed key stays, and the other one is
replaced. -/
theorem replacements_exactly_eligible_fill :
    let source := "\x7b[color]:'#fff',fill:'#000'\x7d"
    let computed : SyntaxTree := .node .pair none ⟨1, 15⟩
      [.node .computedPropertyName (some .key) ⟨1, 8⟩ [.node .identifier none ⟨2, 7⟩ []],
        .node .string (some .value) ⟨9, 15⟩ []]
    let static : SyntaxTree := .node .pair none ⟨16, 27⟩
      [.node .propertyIdentifier (some .key) ⟨16, 20⟩ [], .node .string (some .value) ⟨21, 27⟩ []]
    let c : Component :=
      { (default : Component) with body := .node .object none ⟨0, 28⟩ [computed, static] }
    let p : Palette := ⟨.defaults, ⟨[]⟩⟩
    c.body.wellFormed source = true ∧
      (∃ pair literal expression, Eligible p source c.body pair literal expression ∧
        Edit.replace ⟨21, 27⟩ "theme.colors.onSurface" = .replace literal.span expression) ∧
      ¬ ∃ pair literal expression, Eligible p source c.body pair literal expression ∧
        Edit.replace ⟨9, 15⟩ "theme.colors.surface" = .replace literal.span expression := by
  intro source computed static c p
  have wellFormed : c.body.wellFormed source = true := by decide +kernel
  have exactly := (replacements_exactly_eligible c p source wellFormed).1
  have found : c.replacements p source = [.replace ⟨21, 27⟩ "theme.colors.onSurface"] := by
    decide +kernel
  rw [found] at exactly
  refine ⟨wellFormed, (exactly _).1 (by decide), ?_⟩
  intro eligible
  exact absurd ((exactly _).2 eligible) (by decide)

end Component

end ThemeMigration
