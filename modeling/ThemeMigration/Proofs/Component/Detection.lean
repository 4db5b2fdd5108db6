import ThemeMigration.Component.Basic
import ThemeMigration.Proofs.Script.Nesting

/-!
# Where components are found

Every component stands in the statement it was found in, and no two of them share any text: the
functions of a file's components follow one another in source order.  Import statements hold none.
Whether a function is looked at depends on where it is declared, and whether it is a component on
its name and its body only.
-/

namespace ThemeMigration

open Script SyntaxTree

namespace Component

/-! ## The function behind a value -/

section FunctionIn

variable (source : String) (wrappers : List String)

theorem functionInFirst?_eq (t : SyntaxTree) :
    functionInFirst? source wrappers t.children =
      t.firstNamed?.bind (functionIn? source wrappers) := by
  rw [firstNamed?, named, List.head?_filter]
  induction t.children with
  | nil => rfl
  | cons c cs ih =>
    rw [functionInFirst?, List.find?_cons]
    cases c.kind.isNamed with
    | true => rfl
    | false => simpa using ih

theorem functionInArguments?_eq (t : SyntaxTree) :
    functionInArguments? source wrappers t.children =
      (t.part? .arguments).bind fun a => a.firstNamed?.bind (functionIn? source wrappers) := by
  rw [part?]
  induction t.children with
  | nil => rfl
  | cons c cs ih =>
    cases c with
    | node k l s ts =>
      rw [functionInArguments?, List.find?_cons]
      have head := functionInFirst?_eq source wrappers (.node k l s ts)
      cases labelled : l == some Label.arguments with
      | true => simpa [label, labelled, children] using head
      | false => simpa [label, labelled] using ih

/-- What is behind a value, without the recursion of the search. -/
theorem functionIn?_eq (t : SyntaxTree) :
    functionIn? source wrappers t =
      match t.kind with
      | .arrowFunction | .functionExpression => some t
      | .parenthesizedExpression => t.firstNamed?.bind (functionIn? source wrappers)
      | .callExpression =>
        (t.part? .callee).bind fun callee =>
          if wrappers.contains (callee.text source) then
            (t.part? .arguments).bind fun a => a.firstNamed?.bind (functionIn? source wrappers)
          else none
      | _ => none := by
  have first := functionInFirst?_eq source wrappers t
  have arguments := functionInArguments?_eq source wrappers t
  cases t with
  | node k l s ts =>
    cases k
    case callExpression =>
      change functionInArguments? source wrappers ts = _ at arguments
      rw [functionIn?, arguments]
      cases SyntaxTree.part? (.node .callExpression l s ts) .callee <;> rfl
    case parenthesizedExpression => exact first
    all_goals rfl

variable {source wrappers}

theorem functionIn?_of_parenthesized {t : SyntaxTree} (kind : t.kind = .parenthesizedExpression) :
    functionIn? source wrappers t = t.firstNamed?.bind (functionIn? source wrappers) := by
  rw [functionIn?_eq, kind]

theorem functionIn?_of_call {t callee a : SyntaxTree} (kind : t.kind = .callExpression)
    (called : t.part? .callee = some callee) (argument : t.part? .arguments = some a) :
    functionIn? source wrappers t =
      if wrappers.contains (callee.text source) then
        a.firstNamed?.bind (functionIn? source wrappers)
      else none := by
  simp only [functionIn?_eq source wrappers t, kind, called, argument, Option.bind_some]

/-- A call without a callee or without arguments wraps no function. -/
theorem functionIn?_of_bare_call {t : SyntaxTree} (kind : t.kind = .callExpression)
    (bare : t.part? .callee = none ∨ t.part? .arguments = none) :
    functionIn? source wrappers t = none := by
  rw [functionIn?_eq, kind]
  dsimp only
  rcases bare with none | none
  · rw [none, Option.bind_none]
  · cases t.part? .callee with
    | none => rfl
    | some callee => simp [none]

theorem functionIn?_occurs (t : SyntaxTree) :
    ∀ f, functionIn? source wrappers t = some f → Occurs t f := by
  induction t using occursInduction with
  | step t ih =>
    intro f found
    rw [functionIn?_eq] at found
    split at found
    · cases found
      exact .here _
    · cases found
      exact .here _
    · rcases Option.bind_eq_some_iff.1 found with ⟨c, first, inner⟩
      have member := mem_children_of_mem_named (List.mem_of_mem_head? first)
      exact .deeper member (ih c member c (.here c) f inner)
    · rcases Option.bind_eq_some_iff.1 found with ⟨callee, _, wrapped⟩
      split at wrapped
      · rcases Option.bind_eq_some_iff.1 wrapped with ⟨a, argument, inArguments⟩
        rcases Option.bind_eq_some_iff.1 inArguments with ⟨c, first, inner⟩
        have member := mem_children_of_part? argument
        have deeper := mem_children_of_mem_named (List.mem_of_mem_head? first)
        exact .deeper member (.deeper deeper (ih a member c (.child deeper) f inner))
      · cases wrapped
    · cases found

/-- The function that a call wraps stands in its arguments. -/
theorem functionIn?_in_arguments {t a f : SyntaxTree} (kind : t.kind = .callExpression)
    (argument : t.part? .arguments = some a) (found : functionIn? source wrappers t = some f) :
    Occurs a f := by
  cases called : t.part? .callee with
  | none =>
    rw [functionIn?_of_bare_call kind (Or.inl called)] at found
    cases found
  | some callee =>
    rw [functionIn?_of_call kind called argument] at found
    split at found
    · rcases Option.bind_eq_some_iff.1 found with ⟨c, first, inner⟩
      have member := mem_children_of_mem_named (List.mem_of_mem_head? first)
      exact .deeper member (functionIn?_occurs c f inner)
    · cases found

end FunctionIn

/-! ## The functions that a statement declares -/

/-- A function that a statement declares, with the name it is declared under. -/
structure Site where
  name : Option String
  function : SyntaxTree

section Sites

variable (source : String) (wrappers : List String)

/-- The function that a declarator gives a name. -/
def declaratorSite? (d : SyntaxTree) : Option Site :=
  if d.kind != .variableDeclarator then none
  else
    match d.part? .name with
    | none => none
    | some name =>
      if name.kind != .identifier then none
      else ((d.part? .value).bind (functionIn? source wrappers)).map (Site.mk (name.text source))

/-- The functions that a declaration without `export` declares. -/
def declared (t : SyntaxTree) : List Site :=
  match t.kind with
  | .functionDeclaration | .generatorFunctionDeclaration =>
    [⟨(t.part? .name).map (·.text source), t⟩]
  | .lexicalDeclaration | .variableDeclaration =>
    t.named.filterMap (declaratorSite? source wrappers)
  | _ => []

/-- The function that a statement exports as a value. -/
def exported? (t : SyntaxTree) : Option Site :=
  ((t.part? .value).bind (functionIn? source wrappers)).map fun f =>
    ⟨(f.part? .name).map (·.text source), f⟩

def sites (t : SyntaxTree) : List Site :=
  match t.kind with
  | .exportStatement =>
    match exported? source wrappers t with
    | some q => [q]
    | none => t.named.flatMap (declared source wrappers)
  | _ => declared source wrappers t

end Sites

variable {source : String} {wrappers : List String} {b : BindingStatement}

theorem declaratorSite?_eq_some_iff {d : SyntaxTree} {q : Site} :
    declaratorSite? source wrappers d = some q ↔
      d.kind = .variableDeclarator ∧ ∃ name v, d.part? .name = some name ∧
        name.kind = .identifier ∧ d.part? .value = some v ∧
        functionIn? source wrappers v = some q.function ∧ q.name = some (name.text source) := by
  rw [declaratorSite?]
  constructor
  · intro h
    split at h
    · cases h
    · rename_i kind
      split at h
      · cases h
      · rename_i name part
        split at h
        · cases h
        · rename_i nameKind
          rcases Option.map_eq_some_iff.1 h with ⟨f, value, rfl⟩
          rcases Option.bind_eq_some_iff.1 value with ⟨v, valuePart, behind⟩
          exact ⟨by simpa using kind, name, v, part, by simpa using nameKind, valuePart, behind,
            rfl⟩
  · rintro ⟨kind, name, v, part, nameKind, valuePart, behind, named⟩
    simp [kind, part, nameKind, valuePart, behind, ← named]

/-- A declarator is looked at part by part. -/
theorem declaratorSite?_eq (source : String) (wrappers : List String) (d : SyntaxTree) :
    declaratorSite? source wrappers d =
      if d.kind = .variableDeclarator then
        (d.part? .name).bind fun name => (d.part? .value).bind fun v =>
          if name.kind = .identifier then
            (functionIn? source wrappers v).map (Site.mk (name.text source))
          else none
      else none := by
  rw [declaratorSite?]
  simp only [bne_iff_ne, ne_eq, ite_not]
  congr 1
  cases d.part? .name with
  | none => rfl
  | some name =>
    cases d.part? .value with
    | none => exact ite_self none
    | some v => rfl

theorem declaratorSite?_of_parts {d name v : SyntaxTree} (kind : d.kind = .variableDeclarator)
    (part : d.part? .name = some name) (identifier : name.kind = .identifier)
    (value : d.part? .value = some v) :
    declaratorSite? source wrappers d =
      (functionIn? source wrappers v).map (Site.mk (name.text source)) := by
  simp [declaratorSite?, kind, part, identifier, value]

theorem declaratorSite?_occurs {d : SyntaxTree} {q : Site}
    (h : declaratorSite? source wrappers d = some q) : Occurs d q.function := by
  rcases declaratorSite?_eq_some_iff.1 h with ⟨_, _, v, _, _, part, behind, _⟩
  exact .deeper (mem_children_of_part? part) (functionIn?_occurs v _ behind)

theorem declared_occurs {t : SyntaxTree} {q : Site} (h : q ∈ declared source wrappers t) :
    Occurs t q.function := by
  have ofDeclarator : q ∈ t.named.filterMap (declaratorSite? source wrappers) →
      Occurs t q.function := by
    intro member
    rcases List.mem_filterMap.1 member with ⟨d, inStatement, found⟩
    exact .deeper (mem_children_of_mem_named inStatement) (declaratorSite?_occurs found)
  rw [declared] at h
  split at h
  · rw [List.mem_singleton.1 h]
    exact .here t
  · rw [List.mem_singleton.1 h]
    exact .here t
  · exact ofDeclarator h
  · exact ofDeclarator h
  · cases h

theorem exported?_occurs {t : SyntaxTree} {q : Site} (h : exported? source wrappers t = some q) :
    Occurs t q.function := by
  rcases Option.map_eq_some_iff.1 h with ⟨f, value, rfl⟩
  rcases Option.bind_eq_some_iff.1 value with ⟨v, part, behind⟩
  exact .deeper (mem_children_of_part? part) (functionIn?_occurs v _ behind)

theorem sites_occurs {t : SyntaxTree} {q : Site} (h : q ∈ sites source wrappers t) :
    Occurs t q.function := by
  rw [sites] at h
  split at h
  · split at h
    · rename_i found
      rw [List.mem_singleton.1 h]
      exact exported?_occurs found
    · rcases List.mem_flatMap.1 h with ⟨d, member, found⟩
      exact .deeper (mem_children_of_mem_named member) (declared_occurs found)
  · exact declared_occurs h

/-- Imports and comments declare no functions. -/
theorem kind_of_mem_sites {t : SyntaxTree} {q : Site} (h : q ∈ sites source wrappers t) :
    t.kind ≠ .importStatement ∧ t.kind ≠ .comment := by
  rw [sites] at h
  split at h
  · rename_i kind
    rw [kind]
    decide
  · rw [declared] at h
    split at h
    case h_5 => cases h
    all_goals
      rename_i kind
      rw [kind]
      decide

theorem sites_of_export (source : String) (wrappers : List String) {t : SyntaxTree}
    (isExport : t.kind = .exportStatement) :
    sites source wrappers t =
      match exported? source wrappers t with
      | some q => [q]
      | none => t.named.flatMap (declared source wrappers) := by
  simp only [sites, isExport]

theorem sites_of_other {t : SyntaxTree} (other : t.kind ≠ .exportStatement) :
    sites source wrappers t = declared source wrappers t := by
  rw [sites]
  split
  · contradiction
  · rfl

theorem sites_of_import {t : SyntaxTree} (isImport : t.kind = .importStatement) :
    sites source wrappers t = [] := by
  simp only [sites, declared, isImport]

/-- A declaration is no value behind which a function is looked for. -/
theorem functionIn?_of_declared {source' : String} {t t' : SyntaxTree}
    (declares : declared source wrappers t ≠ []) (kind : t'.kind = t.kind) :
    functionIn? source' wrappers t' = none := by
  rw [declared] at declares
  split at declares
  case h_5 => exact absurd rfl declares
  all_goals
    rename_i isDeclaration
    rw [functionIn?_eq, kind, isDeclaration]

/-! ## Their order -/

/-- The functions follow one another in the source. -/
def Site.Precedes (a b : Site) : Prop := a.function.stop ≤ b.function.start

theorem Site.precedes_of_occurs {x y : SyntaxTree} {p q : Site} (first : x.wellFormed source = true)
    (second : y.wellFormed source = true) (order : x.stop ≤ y.start)
    (inFirst : Occurs x p.function) (inSecond : Occurs y q.function) : p.Precedes q := by
  have left := (wellFormed_occurs first inFirst).2.2
  have right := (wellFormed_occurs second inSecond).2.1
  exact Nat.le_trans left (Nat.le_trans order right)

theorem pairwise_toList {α : Type} (r : α → α → Prop) (o : Option α) : o.toList.Pairwise r := by
  cases o with
  | none => exact .nil
  | some a => exact List.pairwise_singleton r a

theorem named_pairwise {t : SyntaxTree} (h : t.wellFormed source = true) :
    t.named.Pairwise fun a b => a.stop ≤ b.start :=
  (children_pairwise h).filter _

theorem wellFormed_named {t c : SyntaxTree} (h : t.wellFormed source = true)
    (member : c ∈ t.named) :
    c.wellFormed source = true :=
  (wellFormed_child h (mem_children_of_mem_named member)).1

theorem declared_pairwise {t : SyntaxTree} (h : t.wellFormed source = true) :
    (declared source wrappers t).Pairwise Site.Precedes := by
  have ofDeclarators :
      (t.named.filterMap (declaratorSite? source wrappers)).Pairwise Site.Precedes := by
    rw [List.pairwise_filterMap]
    refine (named_pairwise h).imp_of_mem ?_
    intro x y inFirst inSecond between p first q second
    exact Site.precedes_of_occurs (wellFormed_named h inFirst) (wellFormed_named h inSecond) between
      (declaratorSite?_occurs first) (declaratorSite?_occurs second)
  rw [declared]
  split
  · exact List.pairwise_singleton _ _
  · exact List.pairwise_singleton _ _
  · exact ofDeclarators
  · exact ofDeclarators
  · exact .nil

theorem sites_pairwise {t : SyntaxTree} (h : t.wellFormed source = true) :
    (sites source wrappers t).Pairwise Site.Precedes := by
  rw [sites]
  split
  · split
    · exact List.pairwise_singleton _ _
    · rw [List.pairwise_flatMap]
      constructor
      · intro d member
        exact declared_pairwise (wellFormed_named h member)
      · refine (named_pairwise h).imp_of_mem ?_
        intro x y inFirst inSecond between p first q second
        exact Site.precedes_of_occurs (wellFormed_named h inFirst) (wellFormed_named h inSecond)
          between (declared_occurs first) (declared_occurs second)
  · exact declared_pairwise h

/-! ## The components of a statement -/

/-- The component of a site, if there is one. -/
def ofSite? (source : String) (b : BindingStatement) (declaration : SyntaxTree) (q : Site) :
    Option Component :=
  ofFunction? source b declaration q.name q.function

/-- The component is what the site makes it. -/
structure IsOf (source : String) (b : BindingStatement) (declaration : SyntaxTree) (q : Site)
    (c : Component) : Prop where
  declaration_eq : c.declaration = declaration
  function_eq : c.function = q.function
  body_eq : q.function.part? .body = some c.body
  binding_eq : c.hasBinding = b.presentIn source c.body

theorem isOf_of_ofSite? {declaration : SyntaxTree} {q : Site} {c : Component}
    (h : ofSite? source b declaration q = some c) : IsOf source b declaration q c := by
  rw [ofSite?, ofFunction?] at h
  split at h
  · cases h
  · rename_i body part
    dsimp only at h
    split at h
    · cases h
      exact ⟨rfl, rfl, part, rfl⟩
    · split at h
      · cases h
        exact ⟨rfl, rfl, part, rfl⟩
      · cases h

/-- A function is a component if its name begins with a capital or its body makes markup. -/
theorem isSome_ofSite? {declaration body : SyntaxTree} {q : Site}
    (part : q.function.part? .body = some body) :
    (ofSite? source b declaration q).isSome =
      ((q.name.map Text.startsUpper).getD false || containsMarkup source body) := by
  rw [ofSite?, ofFunction?, part]
  dsimp only
  cases (q.name.map Text.startsUpper).getD false with
  | true => rfl
  | false => cases containsMarkup source body <;> rfl

theorem IsOf.body_occurs {declaration : SyntaxTree} {q : Site} {c : Component}
    (h : IsOf source b declaration q c) : Occurs q.function c.body :=
  .child (mem_children_of_part? h.body_eq)

theorem filterMap_ofSite?_singleton (declaration : SyntaxTree) (q : Site) :
    [q].filterMap (ofSite? source b declaration) =
      (ofFunction? source b declaration q.name q.function).toList := by
  rw [List.filterMap_cons, List.filterMap_nil, ofSite?]
  cases ofFunction? source b declaration q.name q.function <;> rfl

theorem ofDeclaration_of_function (declaration : SyntaxTree) {t : SyntaxTree}
    (kind : t.kind = .functionDeclaration ∨ t.kind = .generatorFunctionDeclaration) :
    ofDeclaration source wrappers b declaration t =
      (declared source wrappers t).filterMap (ofSite? source b declaration) := by
  rcases kind with kind | kind
  · simp only [ofDeclaration, declared, kind, filterMap_ofSite?_singleton]
  · simp only [ofDeclaration, declared, kind, filterMap_ofSite?_singleton]

theorem ofDeclaration_of_declarators (declaration : SyntaxTree) {t : SyntaxTree}
    (kind : t.kind = .lexicalDeclaration ∨ t.kind = .variableDeclaration) :
    ofDeclaration source wrappers b declaration t =
      (declared source wrappers t).filterMap (ofSite? source b declaration) := by
  have declarators : declared source wrappers t =
      t.named.filterMap (declaratorSite? source wrappers) := by
    rcases kind with kind | kind <;> simp only [declared, kind]
  rw [declarators, List.filterMap_filterMap]
  rcases kind with kind | kind
  all_goals
    simp only [ofDeclaration, kind]
    congr 1
    funext d
    rw [declaratorSite?]
    split
    · rfl
    · cases d.part? .name with
      | none => rfl
      | some name =>
        dsimp only
        split
        · rfl
        · cases (d.part? .value).bind (functionIn? source wrappers) <;> rfl

theorem ofDeclaration_eq (declaration t : SyntaxTree) :
    ofDeclaration source wrappers b declaration t =
      (declared source wrappers t).filterMap (ofSite? source b declaration) := by
  by_cases function : t.kind = .functionDeclaration ∨ t.kind = .generatorFunctionDeclaration
  · exact ofDeclaration_of_function declaration function
  by_cases names : t.kind = .lexicalDeclaration ∨ t.kind = .variableDeclaration
  · exact ofDeclaration_of_declarators declaration names
  rw [not_or] at function names
  have none : declared source wrappers t = [] := by
    rw [declared]
    split <;> simp_all only [not_true_eq_false, false_and, and_false]
  have none' : ofDeclaration source wrappers b declaration t = [] := by
    rw [ofDeclaration]
    split <;> simp_all only [not_true_eq_false, false_and, and_false]
  rw [none, none', List.filterMap_nil]

theorem ofStatement_eq (t : SyntaxTree) :
    ofStatement source wrappers b t =
      (sites source wrappers t).filterMap (ofSite? source b t) := by
  by_cases isExport : t.kind = .exportStatement
  · rw [sites_of_export source wrappers isExport]
    simp only [ofStatement, isExport, exported?]
    cases (t.part? .value).bind (functionIn? source wrappers) with
    | some f => exact (filterMap_ofSite?_singleton t ⟨_, f⟩).symm
    | none =>
      simp only [Option.map_none, List.filterMap_flatMap]
      congr 1
      funext d
      exact ofDeclaration_eq t d
  · have other : ofStatement source wrappers b t = ofDeclaration source wrappers b t t := by
      rw [ofStatement]
      split
      · contradiction
      · rfl
    rw [other, sites_of_other isExport]
    exact ofDeclaration_eq t t

/-! ## The components of a file -/

/-- The functions of two components follow one another in the source. -/
def Precedes (c d : Component) : Prop := c.function.stop ≤ d.function.start

variable {s : Source}

theorem wellFormed_statement {t : SyntaxTree} (h : t ∈ s.statements) :
    t.wellFormed s.text = true :=
  wellFormed_named s.wellFormed h

theorem statements_pairwise (s : Source) : s.statements.Pairwise fun a b => a.stop ≤ b.start :=
  named_pairwise s.wellFormed

/-- A node with a text stands in one statement. -/
theorem statement_unique {x y t : SyntaxTree} (first : x ∈ s.statements) (second : y ∈ s.statements)
    (inFirst : Occurs x t) (inSecond : Occurs y t) (room : t.start < t.stop) : x = y := by
  rcases Span.eq_or_apart span (statements_pairwise s) first second with same | apart
  · exact same
  · have left := (wellFormed_occurs (wellFormed_statement first) inFirst).2
    have right := (wellFormed_occurs (wellFormed_statement second) inSecond).2
    exact absurd (apart.stop_le_start left right) (Nat.not_le_of_lt room)

/-- A component is that of a site of its declaration. -/
theorem site_of_mem_detect {c : Component} (h : c ∈ detect s wrappers b) :
    c.declaration ∈ s.statements ∧ ∃ q ∈ sites s.text wrappers c.declaration,
      ofSite? s.text b c.declaration q = some c := by
  rcases List.mem_flatMap.1 h with ⟨t, member, found⟩
  rw [ofStatement_eq] at found
  rcases List.mem_filterMap.1 found with ⟨q, site, component⟩
  have same := (isOf_of_ofSite? component).declaration_eq
  subst same
  exact ⟨member, q, site, component⟩

/-- The component of a site of a statement is one of the script. -/
theorem mem_detect_of_site {t : SyntaxTree} {q : Site} {c : Component} (inScript : t ∈ s.statements)
    (site : q ∈ sites s.text wrappers t) (component : ofSite? s.text b t q = some c) :
    c ∈ detect s wrappers b := by
  apply List.mem_flatMap.2
  refine ⟨t, inScript, ?_⟩
  rw [ofStatement_eq]
  exact List.mem_filterMap.2 ⟨q, site, component⟩

theorem function_occurs {c : Component} (h : c ∈ detect s wrappers b) :
    Occurs c.declaration c.function := by
  rcases site_of_mem_detect h with ⟨_, q, site, component⟩
  rw [(isOf_of_ofSite? component).function_eq]
  exact sites_occurs site

theorem kind_of_mem_detect {c : Component} (h : c ∈ detect s wrappers b) :
    c.declaration.kind ≠ .importStatement ∧ c.declaration.kind ≠ .comment := by
  rcases site_of_mem_detect h with ⟨_, q, site, _⟩
  exact kind_of_mem_sites site

theorem detect_pairwise (s : Source) (wrappers : List String) (b : BindingStatement) :
    (detect s wrappers b).Pairwise Precedes := by
  rw [detect, List.pairwise_flatMap]
  constructor
  · intro t member
    rw [ofStatement_eq, List.pairwise_filterMap]
    refine (sites_pairwise (wellFormed_statement member)).imp ?_
    intro p q order c first d second
    rw [Precedes, (isOf_of_ofSite? first).function_eq, (isOf_of_ofSite? second).function_eq]
    exact order
  · refine (statements_pairwise s).imp_of_mem ?_
    intro x y inFirst inSecond between c first d second
    rw [ofStatement_eq] at first second
    rcases List.mem_filterMap.1 first with ⟨p, inX, left⟩
    rcases List.mem_filterMap.1 second with ⟨q, inY, right⟩
    rw [Precedes, (isOf_of_ofSite? left).function_eq, (isOf_of_ofSite? right).function_eq]
    exact Site.precedes_of_occurs (wellFormed_statement inFirst) (wellFormed_statement inSecond)
      between (sites_occurs inX) (sites_occurs inY)

theorem body_occurs {c : Component} (h : c ∈ detect s wrappers b) : Occurs c.function c.body := by
  rcases site_of_mem_detect h with ⟨_, q, _, component⟩
  have facts := isOf_of_ofSite? component
  rw [facts.function_eq]
  exact facts.body_occurs

/-- The body of a component is well formed and lies in its function, which lies in its
declaration. -/
theorem wellFormed_of_mem_detect {c : Component} (h : c ∈ detect s wrappers b) :
    c.function.wellFormed s.text = true ∧ c.body.wellFormed s.text = true ∧
      c.function.span.Contains c.body.span ∧ c.declaration.span.Contains c.function.span := by
  have member := (site_of_mem_detect h).1
  have outer := wellFormed_occurs (wellFormed_statement member) (function_occurs h)
  have inner := wellFormed_occurs outer.1 (body_occurs h)
  exact ⟨outer.1, inner.1, inner.2, outer.2⟩

end Component

end ThemeMigration
