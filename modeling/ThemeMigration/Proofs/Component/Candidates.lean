import ThemeMigration.Proofs.Component.Comments

/-!
# What is detected

A component is specified here without the search for it: by the forms of declaration that a
statement can have, the values that unwrap to a function, and what the name and the body must be.
Detection finds exactly what is specified so, in source order, with one exception.  A value is
unwrapped at its first operand, and the search takes the first node for it, which may be a comment:
then it ends there, and the function behind the comment is not found.
-/

namespace ThemeMigration

open Script SyntaxTree

namespace Component

variable {source : String} {wrappers : List String} {b : BindingStatement} {t v f : SyntaxTree}

/-! ## Values that unwrap to a function -/

/-- What parentheses hold, and the first argument of a call: comments are no operands. -/
def firstOperand? (t : SyntaxTree) : Option SyntaxTree := (solid t.named).head?

/-- A value is a function, inside any number of parentheses and wrapper calls. -/
inductive UnwrapsTo (source : String) (wrappers : List String) : SyntaxTree → SyntaxTree → Prop
  | function {f : SyntaxTree} : f.kind = .arrowFunction ∨ f.kind = .functionExpression →
      UnwrapsTo source wrappers f f
  | parentheses {t v f : SyntaxTree} : t.kind = .parenthesizedExpression →
      firstOperand? t = some v → UnwrapsTo source wrappers v f → UnwrapsTo source wrappers t f
  | wrapper {t callee a v f : SyntaxTree} : t.kind = .callExpression →
      t.part? .callee = some callee → callee.text source ∈ wrappers →
      t.part? .arguments = some a → firstOperand? a = some v → UnwrapsTo source wrappers v f →
      UnwrapsTo source wrappers t f

/-- The search for the function behind a value comes to no comment. -/
def Unobstructed (source : String) (wrappers : List String) (v : SyntaxTree) : Prop :=
  ∀ d, ComesTo source wrappers v d → d.isComment = false

/-- A value that unwraps to a function without a comment in the way. -/
def OpensTo (source : String) (wrappers : List String) (v f : SyntaxTree) : Prop :=
  UnwrapsTo source wrappers v f ∧ Unobstructed source wrappers v

theorem Unobstructed.next (clear : Unobstructed source wrappers t)
    (step : next? source wrappers t = some v) : Unobstructed source wrappers v :=
  fun d way => clear d (.next step way)

theorem functionIn?_of_next (step : next? source wrappers t = some v) :
    functionIn? source wrappers t = functionIn? source wrappers v := by
  rw [functionIn?_eq_next]
  split
  · rename_i isFunction
    rw [next?_of_function isFunction] at step
    cases step
  · rw [step, Option.bind_some]

theorem firstNamed?_of_operand (first : firstOperand? t = some v)
    (clear : ∀ c ∈ t.named.head?, c.isComment = false) : t.firstNamed? = some v := by
  rw [firstOperand?, head?_solid clear] at first
  exact first

theorem firstOperand?_of_named (first : t.firstNamed? = some v) (code : v.isComment = false) :
    firstOperand? t = some v := by
  have head : t.named.head? = some v := first
  rw [firstOperand?, head?_solid, head]
  intro c member
  rw [head] at member
  cases member
  exact code

/-- Where the search goes on, as a step of unwrapping. -/
theorem UnwrapsTo.of_next (step : next? source wrappers t = some v) (code : v.isComment = false)
    (inner : UnwrapsTo source wrappers v f) : UnwrapsTo source wrappers t f := by
  rw [next?] at step
  split at step
  · rename_i kind
    exact .parentheses kind (firstOperand?_of_named step code) inner
  · rename_i kind
    rcases Option.bind_eq_some_iff.1 step with ⟨callee, called, wrapped⟩
    split at wrapped
    · rename_i listed
      rcases Option.bind_eq_some_iff.1 wrapped with ⟨a, argument, first⟩
      exact .wrapper kind called (List.contains_iff_mem.1 listed) argument
        (firstOperand?_of_named first code) inner
    · cases wrapped
  · cases step

theorem unwrapsTo_of_functionIn? (clear : Unobstructed source wrappers v)
    (found : functionIn? source wrappers v = some f) : UnwrapsTo source wrappers v f := by
  induction v using occursInduction with
  | step v ih =>
    rw [functionIn?_eq_next] at found
    split at found
    · rename_i isFunction
      cases found
      exact .function isFunction
    · rcases Option.bind_eq_some_iff.1 found with ⟨c, step, inner⟩
      rcases next?_occurs step with ⟨d, member, inside⟩
      exact .of_next step (clear c (.next step (.here c)))
        (ih d member c inside (clear.next step) inner)

theorem UnwrapsTo.found (h : UnwrapsTo source wrappers v f)
    (clear : Unobstructed source wrappers v) : functionIn? source wrappers v = some f := by
  -- Each step of unwrapping is one of the search, since no comment stands first.
  induction h with
  | function isFunction => rw [functionIn?_eq_next, if_pos isFunction]
  | @parentheses t v f kind first _ ih =>
    have step : next? source wrappers t = some v := by
      rw [next?_of_parentheses kind]
      refine firstNamed?_of_operand first fun c head => clear c (.next ?_ (.here c))
      rw [next?_of_parentheses kind]
      exact head
    rw [functionIn?_of_next step]
    exact ih (clear.next step)
  | @wrapper t callee a v f kind called listed argument first _ ih =>
    have goesOn : next? source wrappers t = a.firstNamed? := by
      rw [next?_of_call kind called, if_pos (List.contains_iff_mem.2 listed), argument,
        Option.bind_some]
    have step : next? source wrappers t = some v := by
      rw [goesOn]
      refine firstNamed?_of_operand first fun c head => clear c (.next ?_ (.here c))
      rw [goesOn]
      exact head
    rw [functionIn?_of_next step]
    exact ih (clear.next step)

/-- The search finds the function that a value unwraps to, unless it comes to a comment. -/
theorem functionIn?_eq_some_iff :
    functionIn? source wrappers v = some f ↔ OpensTo source wrappers v f := by
  constructor
  · intro found
    have clear : Unobstructed source wrappers v := by
      intro d way
      refine Bool.eq_false_iff.2 fun comment => ?_
      rw [functionIn?_eq_none_of_comment way comment] at found
      cases found
    exact ⟨unwrapsTo_of_functionIn? clear found, clear⟩
  · rintro ⟨unwraps, clear⟩
    exact unwraps.found clear

/-! ## Declarations of functions -/

/-- A declaration declares a function under a name: itself, or what one of its variables is given;
`unwraps` says which functions a value stands for. -/
inductive Declares (source : String) (unwraps : SyntaxTree → SyntaxTree → Prop) :
    SyntaxTree → Site → Prop
  | function {t : SyntaxTree} :
      t.kind = .functionDeclaration ∨ t.kind = .generatorFunctionDeclaration →
      Declares source unwraps t ⟨(t.part? .name).map (·.text source), t⟩
  | variable {t d name v f : SyntaxTree} :
      t.kind = .lexicalDeclaration ∨ t.kind = .variableDeclaration → d ∈ t.declarators →
      d.part? .name = some name → name.kind = .identifier → d.part? .value = some v →
      unwraps v f → Declares source unwraps t ⟨name.text source, f⟩

/-- A statement declares a function at the top level: by a declaration, by one under `export`, or by
exporting a value.  An export statement has a value or a declaration, never a function behind a
value and a declaration. -/
inductive DeclaresAtTop (source : String) (unwraps : SyntaxTree → SyntaxTree → Prop) :
    SyntaxTree → Site → Prop
  | plain {t : SyntaxTree} {q : Site} : Declares source unwraps t q →
      DeclaresAtTop source unwraps t q
  | exported {t d : SyntaxTree} {q : Site} : t.kind = .exportStatement →
      (∀ v f, t.part? .value = some v → ¬ unwraps v f) → d ∈ t.named →
      Declares source unwraps d q → DeclaresAtTop source unwraps t q
  | value {t v f : SyntaxTree} : t.kind = .exportStatement → t.part? .value = some v →
      unwraps v f → DeclaresAtTop source unwraps t ⟨(f.part? .name).map (·.text source), f⟩

theorem mem_declared_iff {q : Site} :
    q ∈ declared source wrappers t ↔ Declares source (OpensTo source wrappers) t q := by
  constructor
  · intro member
    have ofVariable (kind : t.kind = .lexicalDeclaration ∨ t.kind = .variableDeclaration)
        (found : q ∈ t.named.filterMap (declaratorSite? source wrappers)) :
        Declares source (OpensTo source wrappers) t q := by
      rcases List.mem_filterMap.1 found with ⟨d, inStatement, site⟩
      rcases declaratorSite?_eq_some_iff.1 site with
        ⟨isDeclarator, name, v, part, identifier, value, behind, known⟩
      have declarator : d ∈ t.declarators :=
        List.mem_filter.2 ⟨inStatement, beq_iff_eq.2 isDeclarator⟩
      rcases q with ⟨n, f⟩
      cases known
      exact .variable kind declarator part identifier value (functionIn?_eq_some_iff.1 behind)
    rw [declared] at member
    split at member
    · rename_i kind
      rw [List.mem_singleton.1 member]
      exact .function (Or.inl kind)
    · rename_i kind
      rw [List.mem_singleton.1 member]
      exact .function (Or.inr kind)
    · rename_i kind
      exact ofVariable (Or.inl kind) member
    · rename_i kind
      exact ofVariable (Or.inr kind) member
    · cases member
  · rintro (⟨kind⟩ | ⟨kind, declarator, part, identifier, value, behind⟩)
    · rcases kind with kind | kind <;> simp only [declared, kind, List.mem_singleton]
    · rename_i d name v f
      have facts := List.mem_filter.1 declarator
      have site : declaratorSite? source wrappers d = some ⟨name.text source, f⟩ :=
        declaratorSite?_eq_some_iff.2 ⟨beq_iff_eq.1 facts.2, name, v, part, identifier, value,
          functionIn?_eq_some_iff.2 behind, rfl⟩
      have found := List.mem_filterMap.2 ⟨d, facts.1, site⟩
      rcases kind with kind | kind <;> simpa only [declared, kind] using found

theorem exported?_eq_some_iff {q : Site} :
    exported? source wrappers t = some q ↔
      ∃ v f, t.part? .value = some v ∧ OpensTo source wrappers v f ∧
        ⟨(f.part? .name).map (·.text source), f⟩ = q := by
  rw [exported?, Option.map_eq_some_iff]
  constructor
  · rintro ⟨f, behind, same⟩
    rcases Option.bind_eq_some_iff.1 behind with ⟨v, value, found⟩
    exact ⟨v, f, value, functionIn?_eq_some_iff.1 found, same⟩
  · rintro ⟨v, f, value, opens, same⟩
    refine ⟨f, ?_, same⟩
    rw [value, Option.bind_some, functionIn?_eq_some_iff]
    exact opens

/-- A declaration is no export statement. -/
theorem Declares.not_export {unwraps : SyntaxTree → SyntaxTree → Prop} {q : Site}
    (h : Declares source unwraps t q) : t.kind ≠ .exportStatement := by
  cases h with
  | function kind => rcases kind with kind | kind <;> rw [kind] <;> decide
  | «variable» kind => rcases kind with kind | kind <;> rw [kind] <;> decide

theorem mem_sites_iff {q : Site} :
    q ∈ sites source wrappers t ↔ DeclaresAtTop source (OpensTo source wrappers) t q := by
  by_cases isExport : t.kind = .exportStatement
  · rw [sites_of_export source wrappers isExport]
    cases found : exported? source wrappers t with
    | some p =>
      rcases exported?_eq_some_iff.1 found with ⟨v, f, value, opens, site⟩
      rw [List.mem_singleton]
      constructor
      · rintro rfl
        rw [← site]
        exact .value isExport value opens
      · rintro (declares | ⟨_, noValue, _, _⟩ | ⟨_, value', opens'⟩)
        · exact absurd isExport declares.not_export
        · exact absurd opens (noValue v f value)
        · have again := exported?_eq_some_iff.2 ⟨_, _, value', opens', rfl⟩
          rw [found] at again
          exact (Option.some.inj again).symm
    | none =>
      have noValue : ∀ v f, t.part? .value = some v → ¬ OpensTo source wrappers v f := by
        intro v f value opens
        have site := exported?_eq_some_iff.2 ⟨v, f, value, opens, rfl⟩
        rw [found] at site
        cases site
      constructor
      · intro member
        rcases List.mem_flatMap.1 member with ⟨d, inStatement, declares⟩
        exact .exported isExport noValue inStatement (mem_declared_iff.1 declares)
      · rintro (declares | ⟨_, _, inStatement, declares⟩ | ⟨_, value, opens⟩)
        · exact absurd isExport declares.not_export
        · exact List.mem_flatMap.2 ⟨_, inStatement, mem_declared_iff.2 declares⟩
        · exact absurd opens (noValue _ _ value)
  · rw [sites_of_other isExport, mem_declared_iff]
    constructor
    · exact .plain
    · rintro (declares | ⟨kind, _, _, _⟩ | ⟨kind, _, _⟩)
      · exact declares
      · exact absurd kind isExport
      · exact absurd kind isExport

/-! ## Components -/

/-- A node makes an element: it is markup, or a call of a function that creates elements. -/
inductive MakesElement (source : String) : SyntaxTree → Prop
  | markup {t : SyntaxTree} :
      t.kind = .jsxElement ∨ t.kind = .jsxSelfClosingElement ∨ t.kind = .jsxFragment →
      MakesElement source t
  | call {t f : SyntaxTree} : t.kind = .callExpression → t.part? .callee = some f →
      (f.text source = "createElement" ∨ ∃ front, f.text source = front ++ ".createElement") →
      MakesElement source t

theorem isElementFactory_iff {callee : String} :
    isElementFactory callee = true ↔
      callee = "createElement" ∨ ∃ front, callee = front ++ ".createElement" := by
  rw [isElementFactory, Bool.or_eq_true, beq_iff_eq, List.isSuffixOf_iff_suffix]
  refine or_congr_right ⟨?_, ?_⟩
  · rintro ⟨front, whole⟩
    refine ⟨String.ofList front, String.toList_inj.1 ?_⟩
    rw [String.toList_append, String.toList_ofList, whole]
  · rintro ⟨front, rfl⟩
    exact ⟨front.toList, String.toList_append.symm⟩

theorem isMarkup_iff : isMarkup source t = true ↔ MakesElement source t := by
  constructor
  · intro h
    rw [isMarkup] at h
    split at h
    · rename_i kind
      exact .markup (Or.inl kind)
    · rename_i kind
      exact .markup (Or.inr (Or.inl kind))
    · rename_i kind
      exact .markup (Or.inr (Or.inr kind))
    · rename_i kind
      cases called : t.part? .callee with
      | none =>
        rw [called] at h
        cases h
      | some f =>
        rw [called] at h
        exact .call kind called (isElementFactory_iff.1 h)
    · cases h
  · rintro (kind | ⟨kind, called, factory⟩)
    · rcases kind with kind | kind | kind <;> simp only [isMarkup, kind]
    · simp only [isMarkup, kind, called, Option.map_some, Option.getD_some]
      exact isElementFactory_iff.2 factory

/-- Markup is looked for at every depth. -/
theorem containsMarkup_iff :
    containsMarkup source t = true ↔ ∃ d, Occurs t d ∧ MakesElement source d := by
  induction t using childInduction with
  | step t ih =>
    rw [containsMarkup_eq, Bool.or_eq_true, isMarkup_iff, List.any_eq_true]
    constructor
    · rintro (here | ⟨c, member, inside⟩)
      · exact ⟨t, .here t, here⟩
      · rcases (ih c member).1 inside with ⟨d, below, element⟩
        exact ⟨d, .deeper member below, element⟩
    · rintro ⟨d, below, element⟩
      cases below with
      | here => exact Or.inl element
      | deeper member below => exact Or.inr ⟨_, member, (ih _ member).2 ⟨d, below, element⟩⟩

/-- A declared function is a component: it has a body, and its name begins with a capital or its
body makes an element.  The name decides on the reason. -/
structure IsComponent (source : String) (b : BindingStatement) (declaration : SyntaxTree) (q : Site)
    (c : Component) : Prop extends IsOf source b declaration q c where
  name_eq : c.name = q.name
  markup_iff : c.makesMarkup = true ↔ ∃ d, Occurs c.body d ∧ MakesElement source d
  chosen : (∃ n ∈ c.name, Text.startsUpper n = true) ∨ c.makesMarkup = true
  reason_iff : c.reason = .byName ↔ ∃ n ∈ c.name, Text.startsUpper n = true

theorem getD_startsUpper_iff {name : Option String} :
    (name.map Text.startsUpper).getD false = true ↔ ∃ n ∈ name, Text.startsUpper n = true := by
  cases name <;> simp

theorem isComponent_of_ofSite? {declaration : SyntaxTree} {q : Site} {c : Component}
    (h : ofSite? source b declaration q = some c) : IsComponent source b declaration q c := by
  have facts := isOf_of_ofSite? h
  rw [ofSite?, ofFunction?] at h
  split at h
  · cases h
  · dsimp only at h
    split at h
    · rename_i capital
      have named := getD_startsUpper_iff.1 capital
      cases h
      exact ⟨facts, rfl, containsMarkup_iff, Or.inl named, iff_of_true rfl named⟩
    · rename_i small
      split at h
      · rename_i markup
        have unnamed := mt getD_startsUpper_iff.2 small
        have other : Reason.byMarkup ≠ .byName := by decide
        cases h
        exact ⟨facts, rfl, containsMarkup_iff, Or.inr markup, iff_of_false other unnamed⟩
      · cases h

/-- A declared function is one component at most. -/
theorem IsComponent.unique {declaration : SyntaxTree} {q : Site} {c d : Component}
    (h : IsComponent source b declaration q c) (h' : IsComponent source b declaration q d) :
    c = d := by
  have body : c.body = d.body := Option.some.inj (h.body_eq.symm.trans h'.body_eq)
  have markup : c.makesMarkup = d.makesMarkup :=
    Bool.eq_iff_iff.2 (h.markup_iff.trans (body ▸ h'.markup_iff.symm))
  have binding : c.hasBinding = d.hasBinding := by rw [h.binding_eq, h'.binding_eq, body]
  have byName : c.reason = .byName ↔ d.reason = .byName := by
    rw [h.reason_iff, h'.reason_iff, h.name_eq, h'.name_eq]
  have reason : c.reason = d.reason := by
    cases left : c.reason <;> cases right : d.reason <;> simp [left, right] at byName ⊢
  have name := h.name_eq.trans h'.name_eq.symm
  have outer := h.declaration_eq.trans h'.declaration_eq.symm
  have function := h.function_eq.trans h'.function_eq.symm
  cases c
  cases d
  rw [mk.injEq]
  exact ⟨name, outer, function, body, markup, binding, reason⟩

theorem ofSite?_eq_some_iff {declaration : SyntaxTree} {q : Site} {c : Component} :
    ofSite? source b declaration q = some c ↔ IsComponent source b declaration q c := by
  constructor
  · exact isComponent_of_ofSite?
  · intro h
    have markup : c.makesMarkup = containsMarkup source c.body :=
      Bool.eq_iff_iff.2 (h.markup_iff.trans containsMarkup_iff.symm)
    have is : (ofSite? source b declaration q).isSome = true := by
      rw [isSome_ofSite? h.body_eq, ← h.name_eq, ← markup, Bool.or_eq_true, getD_startsUpper_iff]
      exact h.chosen
    rcases Option.isSome_iff_exists.1 is with ⟨d, found⟩
    rw [found, (isComponent_of_ofSite? found).unique h]

/-! ## Around a component -/

/-- Every node around the second one, from the first one on, has a property. -/
inductive Around (p : SyntaxTree → Prop) : SyntaxTree → SyntaxTree → Prop
  | here (t : SyntaxTree) : Around p t t
  | deeper {t c d : SyntaxTree} : p t → c ∈ t.children → Around p c d → Around p t d

theorem Around.occurs {p : SyntaxTree → Prop} (h : Around p t f) : Occurs t f := by
  induction h with
  | here => exact .here _
  | deeper _ member _ ih => exact .deeper member ih

/-- A node with a text stands in no others than those around it. -/
theorem Around.holds {p : SyntaxTree → Prop} {g c : SyntaxTree} (h : Around p t f)
    (wellFormed : t.wellFormed source = true) (room : f.start < f.stop) (inside : Occurs t g)
    (member : c ∈ g.children) (below : Occurs c f) : p g := by
  induction h with
  | here =>
    -- The node would stand in itself.
    exact absurd (Occurs.trans below inside) (not_occurs_of_mem_children member)
  | @deeper t d f holds child way ih =>
    cases inside with
    | here => exact holds
    | @deeper _ e _ child' inside =>
      rcases Span.eq_or_apart span (children_pairwise wellFormed) child child' with rfl | apart
      · exact ih (wellFormed_child wellFormed child).1 room inside below
      · have left := (wellFormed_occurs (wellFormed_child wellFormed child).1 way.occurs).2
        have right := (wellFormed_occurs (wellFormed_child wellFormed child').1
          (inside.trans (.deeper member below))).2
        exact absurd (apart.stop_le_start left right) (Nat.not_le_of_lt room)

/-- What may stand around the function of a component: declarations of variables, exports,
parentheses and calls with their arguments.  No function, class, block or object is among them. -/
def MayEnclose (t : SyntaxTree) : Prop :=
  t.kind ∈ [.exportStatement, .lexicalDeclaration, .variableDeclaration, .variableDeclarator,
    .parenthesizedExpression, .callExpression] ∨ t.label = some .arguments

theorem mem_children_of_firstOperand? (h : firstOperand? t = some v) : v ∈ t.children :=
  mem_children_of_mem_named (mem_solid.1 (List.mem_of_mem_head? h)).1

theorem UnwrapsTo.around (h : UnwrapsTo source wrappers v f) : Around MayEnclose v f := by
  induction h with
  | function => exact .here _
  | parentheses kind first _ ih =>
    exact .deeper (Or.inl (by simp [kind])) (mem_children_of_firstOperand? first) ih
  | wrapper kind _ _ argument first _ ih =>
    have inArguments := Around.deeper (Or.inr (label_of_part? argument))
      (mem_children_of_firstOperand? first) ih
    exact .deeper (Or.inl (by simp [kind])) (mem_children_of_part? argument) inArguments

theorem Declares.around {q : Site} (h : Declares source (OpensTo source wrappers) t q) :
    Around MayEnclose t q.function := by
  cases h with
  | function => exact .here _
  | @«variable» d name v f kind declarator _ _ value opens =>
    rcases List.mem_filter.1 declarator with ⟨inStatement, isDeclarator⟩
    have inDeclarator : Around MayEnclose d f :=
      .deeper (Or.inl (by simp [eq_of_beq isDeclarator])) (mem_children_of_part? value)
        opens.1.around
    refine .deeper (Or.inl ?_) (mem_children_of_mem_named inStatement) inDeclarator
    rcases kind with kind | kind <;> simp [kind]

theorem DeclaresAtTop.around {q : Site}
    (h : DeclaresAtTop source (OpensTo source wrappers) t q) :
    Around MayEnclose t q.function := by
  cases h with
  | plain declares => exact declares.around
  | exported kind _ inStatement declares =>
    exact .deeper (Or.inl (by simp [kind])) (mem_children_of_mem_named inStatement) declares.around
  | value kind value opens =>
    exact .deeper (Or.inl (by simp [kind])) (mem_children_of_part? value) opens.1.around

/-! ## Exactness -/

variable {s : Source}

theorem mem_detect_iff {c : Component} :
    c ∈ detect s wrappers b ↔ ∃ t ∈ s.statements, ∃ q,
      DeclaresAtTop s.text (OpensTo s.text wrappers) t q ∧ IsComponent s.text b t q c := by
  constructor
  · intro h
    rcases site_of_mem_detect h with ⟨inScript, q, site, component⟩
    exact ⟨c.declaration, inScript, q, mem_sites_iff.1 site, ofSite?_eq_some_iff.1 component⟩
  · rintro ⟨t, inScript, q, declares, component⟩
    exact mem_detect_of_site inScript (mem_sites_iff.2 declares) (ofSite?_eq_some_iff.2 component)

theorem bodies_pairwise (s : Source) (wrappers : List String) (b : BindingStatement) :
    (detect s wrappers b).Pairwise fun c d => c.body.stop ≤ d.body.start := by
  refine (detect_pairwise s wrappers b).imp_of_mem fun {c d} first second order => ?_
  have left := (wellFormed_of_mem_detect first).2.2.1.2
  have right := (wellFormed_of_mem_detect second).2.2.1.1
  exact Nat.le_trans left (Nat.le_trans order right)

theorem mayEnclose_of_mem_detect {c : Component} (h : c ∈ detect s wrappers b)
    (room : c.function.start < c.function.stop) {g d : SyntaxTree} (inScript : t ∈ s.statements)
    (inside : Occurs t g) (member : d ∈ g.children) (below : Occurs d c.function) :
    MayEnclose g := by
  rcases mem_detect_iff.1 h with ⟨t', inScript', q, declares, component⟩
  have way := declares.around
  rw [← component.function_eq] at way
  have same : t' = t :=
    statement_unique inScript' inScript way.occurs (inside.trans (.deeper member below)) room
  subst same
  exact way.holds (wellFormed_statement inScript) room inside member below

/-- The components of a file are the functions that its statements declare at the top level and that
have a body and a name with a capital or markup, where values unwrap unless a comment is in the way.
They stand in source order with their bodies apart, so that each is found once, and none stands in
another function, a class or a block. -/
theorem detect_exact (s : Source) (wrappers : List String) (b : BindingStatement) :
    (∀ c, c ∈ detect s wrappers b ↔ ∃ t ∈ s.statements, ∃ q,
      DeclaresAtTop s.text (OpensTo s.text wrappers) t q ∧ IsComponent s.text b t q c) ∧
    (detect s wrappers b).Pairwise (fun c d => c.function.stop ≤ d.function.start ∧
      c.body.stop ≤ d.body.start ∧
      (c.function.start < c.function.stop → c.function ≠ d.function)) ∧
    (∀ c ∈ detect s wrappers b, c.function.start < c.function.stop →
      ∀ t ∈ s.statements, ∀ g, Occurs t g → ∀ d ∈ g.children, Occurs d c.function →
        MayEnclose g) := by
  refine ⟨fun c => mem_detect_iff, ?_, ?_⟩
  · refine (List.pairwise_and_iff.2
      ⟨detect_pairwise s wrappers b, bodies_pairwise s wrappers b⟩).imp ?_
    rintro c d ⟨order, bodies⟩
    refine ⟨order, bodies, fun room same => ?_⟩
    rw [Precedes, ← same] at order
    exact Nat.not_le_of_lt room order
  · intro c member room t inScript g inside d child below
    exact mayEnclose_of_mem_detect member room inScript inside child below

/-- The function behind a comment is declared and is a component, but it is not found. -/
theorem component_behind_comment :
    let b : BindingStatement := ⟨"theme", "useTheme"⟩
    ∃ s, Source.parse .tsx "const Card=memo(/* c */function()\x7breturn <p/>\x7d)" = .ok s ∧
      (∃ t ∈ s.statements, ∃ q c, DeclaresAtTop s.text (UnwrapsTo s.text ["memo"]) t q ∧
        IsComponent s.text b t q c) ∧
      detect s ["memo"] b = [] := by
  intro b
  have facts : (Source.parse .tsx
      "const Card=memo(/* c */function()\x7breturn <p/>\x7d)").toOption.any (fun s =>
        (s.statements.any fun t => t.kind == .lexicalDeclaration && t.declarators.any fun d =>
          (d.part? .name).any fun name => name.kind == .identifier && name.text s.text == "Card" &&
            (d.part? .value).any fun v => v.kind == .callExpression &&
              ((v.part? .callee).any fun callee => callee.text s.text == "memo") &&
              (v.part? .arguments).any fun a => (firstOperand? a).any fun f =>
                f.kind == .functionExpression && (f.part? .body).isSome) &&
        (detect s ["memo"] b).isEmpty) = true := by
    decide +kernel
  rcases Migration.exists_ok_of_any facts with ⟨s, read, holds⟩
  simp only [Bool.and_eq_true, beq_iff_eq, List.any_eq_true, Option.any_eq_true,
    List.isEmpty_iff] at holds
  rcases holds with ⟨⟨t, inScript, kind, d, declarator, name, part, ⟨identifier, named⟩, v, value,
    ⟨call, callee, called, memo⟩, a, argument, f, first, function, hasBody⟩, none⟩
  have unwraps : UnwrapsTo s.text ["memo"] v f :=
    .wrapper call called (List.mem_singleton.2 memo) argument first (.function (Or.inr function))
  have declares : DeclaresAtTop s.text (UnwrapsTo s.text ["memo"]) t ⟨name.text s.text, f⟩ :=
    .plain (.variable (Or.inl kind) declarator part identifier value unwraps)
  rcases Option.isSome_iff_exists.1 hasBody with ⟨body, hasBody⟩
  have is : (ofSite? s.text b t ⟨name.text s.text, f⟩).isSome = true := by
    have capital : Text.startsUpper "Card" = true := by decide
    rw [isSome_ofSite? hasBody, named, Option.map_some, capital]
    rfl
  rcases Option.isSome_iff_exists.1 is with ⟨c, component⟩
  exact ⟨s, read, ⟨t, inScript, _, c, declares, ofSite?_eq_some_iff.1 component⟩, none⟩

end Component

end ThemeMigration
