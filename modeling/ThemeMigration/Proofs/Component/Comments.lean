import ThemeMigration.Proofs.Component.Alike
import ThemeMigration.Proofs.Migration.Inspection
import ThemeMigration.Proofs.Script.Comments

/-!
# Detection up to comments

Sources with the same code have the same components, blocked or not, as long as no comment is seen.
Comments are seen in three places.  One that stands first in parentheses or in the arguments of a
wrapper call hides the function behind it, one inside a callee changes the text that is compared,
and one alone between the parentheses of the accessor's call makes it a call with an argument.
-/

namespace ThemeMigration

open Script SyntaxTree

variable {old new : String} {t t' : SyntaxTree}

namespace Component

/-! ## Callees -/

/-- No comment changes whether the callee of a call passes a test. -/
def PlainCallee (source : String) (p : String → Bool) (t : SyntaxTree) : Prop :=
  t.kind = .callExpression → ∀ f ∈ t.part? .callee, p (f.text source) = p (f.bareText source)

instance (source : String) (p : String → Bool) (t : SyntaxTree) :
    Decidable (PlainCallee source p t) :=
  inferInstanceAs (Decidable (_ → ∀ f ∈ t.part? .callee, _))

theorem callee_passes_eq {p : String → Bool} (plain : PlainCallee old p t)
    (plain' : PlainCallee new p t') (h : SameCode old new t t') (call : t.kind = .callExpression)
    {f f' : SyntaxTree} (called : t.part? .callee = some f) (called' : t'.part? .callee = some f')
    (related : SameCode old new f f') : p (f'.text new) = p (f.text old) := by
  rw [plain call f called, plain' (h.kind.trans call) f' called',
    related.bareText (label_of_part? called)]

/-! ## The way to a function -/

/-- Where a search for a function goes on: at what stands first in parentheses, or in the arguments
of a wrapper call. -/
def next? (source : String) (wrappers : List String) (t : SyntaxTree) : Option SyntaxTree :=
  match t.kind with
  | .parenthesizedExpression => t.firstNamed?
  | .callExpression =>
    (t.part? .callee).bind fun callee =>
      if wrappers.contains (callee.text source) then
        (t.part? .arguments).bind SyntaxTree.firstNamed?
      else none
  | _ => none

/-- A search for a function behind the first node comes to the second one. -/
inductive ComesTo (source : String) (wrappers : List String) : SyntaxTree → SyntaxTree → Prop
  | here (t : SyntaxTree) : ComesTo source wrappers t t
  | next {t c d : SyntaxTree} : next? source wrappers t = some c → ComesTo source wrappers c d →
      ComesTo source wrappers t d

/-- No comment is on the way to a function, and none changes how a callee on the way reads. -/
def ClearWay (source : String) (wrappers : List String) (v : SyntaxTree) : Prop :=
  ∀ t, ComesTo source wrappers v t →
    t.isComment = false ∧ PlainCallee source wrappers.contains t

variable {source : String} {wrappers : List String}

/-- Whether a way of limited length is clear. -/
def isClear (source : String) (wrappers : List String) : Nat → SyntaxTree → Bool
  | 0, _ => false
  | n + 1, t =>
    !t.isComment && decide (PlainCallee source wrappers.contains t) &&
      (next? source wrappers t).all (isClear source wrappers n)

theorem clearWay_of_isClear {n : Nat} {v : SyntaxTree} (h : isClear source wrappers n v = true) :
    ClearWay source wrappers v := by
  intro d way
  induction way generalizing n with
  | here t =>
    cases n with
    | zero => cases h
    | succ n =>
      rw [isClear, Bool.and_eq_true, Bool.and_eq_true, Bool.not_eq_true', decide_eq_true_eq] at h
      exact h.1
  | next step _ ih =>
    cases n with
    | zero => cases h
    | succ n =>
      rw [isClear, step, Option.all_some, Bool.and_eq_true] at h
      exact ih h.2

theorem next?_of_parentheses (kind : t.kind = .parenthesizedExpression) :
    next? source wrappers t = t.firstNamed? := by rw [next?, kind]

theorem next?_of_call {f : SyntaxTree} (kind : t.kind = .callExpression)
    (called : t.part? .callee = some f) :
    next? source wrappers t =
      if wrappers.contains (f.text source) then (t.part? .arguments).bind SyntaxTree.firstNamed?
      else none := by
  simp only [next?, kind, called, Option.bind_some]

theorem next?_of_bare_call (kind : t.kind = .callExpression) (bare : t.part? .callee = none) :
    next? source wrappers t = none := by
  simp only [next?, kind, bare, Option.bind_none]

theorem next?_of_other (noParentheses : t.kind ≠ .parenthesizedExpression)
    (noCall : t.kind ≠ .callExpression) : next? source wrappers t = none := by
  rw [next?]
  split
  · contradiction
  · contradiction
  · rfl

/-- A search ends at a function. -/
theorem next?_of_function (h : t.kind = .arrowFunction ∨ t.kind = .functionExpression) :
    next? source wrappers t = none := by
  rcases h with kind | kind <;> exact next?_of_other (by rw [kind]; decide) (by rw [kind]; decide)

theorem functionIn?_eq_next (source : String) (wrappers : List String) (t : SyntaxTree) :
    functionIn? source wrappers t =
      if t.kind = .arrowFunction ∨ t.kind = .functionExpression then some t
      else (next? source wrappers t).bind (functionIn? source wrappers) := by
  rw [functionIn?_eq]
  split
  case h_1 kind => rw [if_pos (Or.inl kind)]
  case h_2 kind => rw [if_pos (Or.inr kind)]
  case h_3 kind => rw [kind, if_neg (by decide), next?_of_parentheses kind]
  case h_4 kind =>
    rw [kind, if_neg (by decide)]
    cases called : t.part? .callee with
    | none => rw [next?_of_bare_call kind called, Option.bind_none, Option.bind_none]
    | some f =>
      rw [next?_of_call kind called, Option.bind_some]
      split
      · rw [Option.bind_assoc]
      · rfl
  case h_5 noArrow noExpression noParentheses noCall =>
    rw [if_neg (not_or.2 ⟨noArrow, noExpression⟩), next?_of_other noParentheses noCall,
      Option.bind_none]

theorem next?_occurs {c : SyntaxTree} (step : next? source wrappers t = some c) :
    ∃ d ∈ t.children, Occurs d c := by
  rw [next?] at step
  split at step
  · exact ⟨c, mem_children_of_mem_named (List.mem_of_mem_head? step), .here c⟩
  · rcases Option.bind_eq_some_iff.1 step with ⟨callee, _, wrapped⟩
    split at wrapped
    · rcases Option.bind_eq_some_iff.1 wrapped with ⟨a, argument, first⟩
      exact ⟨a, mem_children_of_part? argument,
        .child (mem_children_of_mem_named (List.mem_of_mem_head? first))⟩
    · cases wrapped
  · cases step

theorem kind_of_functionIn? (v : SyntaxTree) :
    ∀ f, functionIn? source wrappers v = some f →
      f.kind = .arrowFunction ∨ f.kind = .functionExpression := by
  induction v using occursInduction with
  | step v ih =>
    intro f found
    rw [functionIn?_eq_next] at found
    split at found
    · cases found
      assumption
    · rcases Option.bind_eq_some_iff.1 found with ⟨c, step, inner⟩
      rcases next?_occurs step with ⟨d, member, inside⟩
      exact ih d member c inside f inner

/-- A comment that the search comes to hides the function. -/
theorem functionIn?_eq_none_of_comment {v c : SyntaxTree} (way : ComesTo source wrappers v c)
    (comment : c.isComment = true) : functionIn? source wrappers v = none := by
  induction way with
  | here t =>
    have kind : t.kind = .comment := eq_of_beq comment
    rw [functionIn?_eq, kind]
  | next step _ ih =>
    rw [functionIn?_eq_next]
    split
    · rename_i isFunction
      rw [next?_of_function isFunction] at step
      cases step
    · rw [step, Option.bind_some, ih comment]

theorem ClearWay.next {v c : SyntaxTree} (clear : ClearWay source wrappers v)
    (step : next? source wrappers v = some c) : ClearWay source wrappers c :=
  fun d way => clear d (.next step way)

theorem ClearWay.not_comment {v c : SyntaxTree} (clear : ClearWay source wrappers v)
    (step : next? source wrappers v = some c) : c.isComment = false :=
  (clear.next step c (.here c)).1

theorem rel_next? (h : SameCode old new t t') (clear : ClearWay old wrappers t)
    (clear' : ClearWay new wrappers t') :
    Option.Rel (SameCode old new) (next? old wrappers t) (next? new wrappers t') := by
  by_cases parentheses : t.kind = .parenthesizedExpression
  · have first : next? old wrappers t = t.firstNamed? := next?_of_parentheses parentheses
    have first' : next? new wrappers t' = t'.firstNamed? :=
      next?_of_parentheses (h.kind.trans parentheses)
    rw [first, first']
    exact h.firstNamed? (fun c found => clear.not_comment (first.trans found))
      fun c found => clear'.not_comment (first'.trans found)
  by_cases call : t.kind = .callExpression
  · have call' := h.kind.trans call
    rcases rel_cases (h.part? .callee) with ⟨none, none'⟩ | ⟨f, f', called, called', related⟩
    · rw [next?_of_bare_call call none, next?_of_bare_call call' none']
      exact .none
    · have reading := callee_passes_eq (clear t (.here t)).2 (clear' t' (.here t')).2 h call called
        called' related
      by_cases wraps : wrappers.contains (f.text old) = true
      · have step : next? old wrappers t = (t.part? .arguments).bind SyntaxTree.firstNamed? := by
          rw [next?_of_call call called, if_pos wraps]
        have step' : next? new wrappers t' =
            (t'.part? .arguments).bind SyntaxTree.firstNamed? := by
          rw [next?_of_call call' called', reading, if_pos wraps]
        rw [step, step']
        refine rel_bind (h.part? .arguments) fun a a' part part' arguments => ?_
        rw [part, Option.bind_some] at step
        rw [part', Option.bind_some] at step'
        exact arguments.firstNamed? (fun c found => clear.not_comment (step.trans found))
          fun c found => clear'.not_comment (step'.trans found)
      · rw [next?_of_call call called, next?_of_call call' called', reading, if_neg wraps,
          if_neg wraps]
        exact .none
  · have other := h.kind
    rw [next?_of_other parentheses call, next?_of_other (other ▸ parentheses) (other ▸ call)]
    exact .none

/-- On clear ways the same function is found. -/
theorem rel_functionIn? (h : SameCode old new t t') (clear : ClearWay old wrappers t)
    (clear' : ClearWay new wrappers t') :
    Option.Rel (SameCode old new) (functionIn? old wrappers t) (functionIn? new wrappers t') := by
  induction t using occursInduction generalizing t' with
  | step t ih =>
    rw [functionIn?_eq_next old, functionIn?_eq_next new, h.kind]
    split
    · exact .some h
    · refine rel_bind (rel_next? h clear clear') fun c c' step step' related => ?_
      rcases next?_occurs step with ⟨d, member, inside⟩
      exact ih d member c inside related (clear.next step) (clear'.next step')

end Component

/-! ## Bodies -/

namespace BindingStatement

/-- The arguments of the call of the accessor that a declarator gives to the name of the
binding. -/
def accessorArguments? (b : BindingStatement) (source : String) (d : SyntaxTree) :
    Option SyntaxTree :=
  (d.part? .name).bind fun n => (d.part? .value).bind fun v => (v.part? .callee).bind fun f =>
    (v.part? .arguments).bind fun a =>
      if isNamed source b.binding n && v.kind == .callExpression && isNamed source b.callee f &&
        a.kind == .arguments then some a else none

theorem declaratorMatches_eq (b : BindingStatement) (source : String) (d : SyntaxTree) :
    b.declaratorMatches source d =
      (b.accessorArguments? source d).any fun a => a.named.isEmpty := by
  rw [declaratorMatches, accessorArguments?]
  cases d.part? .name with
  | none => rfl
  | some n =>
    cases d.part? .value with
    | none => simp
    | some v =>
      simp only [isCall, Option.map_some, Option.getD_some, Option.bind_some]
      cases v.part? .callee with
      | none => simp
      | some f =>
        cases v.part? .arguments with
        | none => simp
        | some a =>
          simp only [Option.map_some, Option.getD_some, Option.bind_some]
          cases isNamed source b.binding n <;> cases v.kind == .callExpression <;>
            cases isNamed source b.callee f <;> cases a.kind == .arguments <;> simp

end BindingStatement

namespace Script.SyntaxTree

theorem SameCode.isNamed (h : SameCode old new t t') (name : String) :
    BindingStatement.isNamed new name t' = BindingStatement.isNamed old name t := by
  rw [BindingStatement.isNamed, BindingStatement.isNamed, h.kind]
  cases kind : t.kind == Kind.identifier with
  | false => rfl
  | true => rw [h.text (by rw [eq_of_beq kind]; rfl)]

theorem SameCode.accessorArguments? (h : SameCode old new t t') (b : BindingStatement) :
    Option.Rel (SameCode old new) (b.accessorArguments? old t) (b.accessorArguments? new t') := by
  refine rel_bind (h.part? .name) fun n n' _ _ name => ?_
  refine rel_bind (h.part? .value) fun v v' _ _ value => ?_
  refine rel_bind (value.part? .callee) fun f f' _ _ callee => ?_
  refine rel_bind (value.part? .arguments) fun a a' _ _ arguments => ?_
  rw [name.isNamed, value.kind, callee.isNamed, arguments.kind]
  split
  · exact .some arguments
  · exact .none

end Script.SyntaxTree

namespace Component

/-- In a body no comment changes whether a callee names a function that creates elements, and none
stands alone between the parentheses of a call that may be the binding. -/
structure LegibleBody (source : String) (b : BindingStatement) (body : SyntaxTree) : Prop where
  factory : ∀ t ∈ body.nodes, PlainCallee source isElementFactory t
  arguments : ∀ statement ∈ body.named, ∀ d ∈ statement.declarators,
    ∀ a ∈ b.accessorArguments? source d, solid a.named = [] → a.named = []

variable {source : String} {wrappers : List String} {b : BindingStatement}

theorem isMarkup_eq (h : SameCode old new t t')
    (factory : PlainCallee old isElementFactory t)
    (factory' : PlainCallee new isElementFactory t') : isMarkup new t' = isMarkup old t := by
  rw [isMarkup, isMarkup, h.kind]
  split
  case h_4 call =>
    rcases rel_cases (h.part? .callee) with ⟨none, none'⟩ | ⟨f, f', part, part', callee⟩
    · rw [none, none']
      rfl
    · rw [part, part', Option.map_some, Option.map_some,
        callee_passes_eq factory factory' h call part part' callee]
  all_goals rfl

theorem containsMarkup_eq_of_sameCode (h : SameCode old new t t')
    (factory : ∀ d ∈ t.nodes, PlainCallee old isElementFactory d)
    (factory' : ∀ d ∈ t'.nodes, PlainCallee new isElementFactory d) :
    containsMarkup new t' = containsMarkup old t := by
  induction t using childInduction generalizing t' with
  | step t ih =>
    have parts : t'.children.any (containsMarkup new) = t.children.any (containsMarkup old) :=
      h.children.any_eq (fun _ => rfl) (fun _ => rfl) fun c member c' member' related =>
        ih c member related (fun d inside => factory d (mem_nodes_of_child member inside))
          fun d inside => factory' d (mem_nodes_of_child member' inside)
    rw [containsMarkup_eq new t', containsMarkup_eq old t, parts,
      isMarkup_eq h (factory t (mem_nodes_iff.2 (.here t)))
        (factory' t' (mem_nodes_iff.2 (.here t')))]

theorem declaratorMatches_eq_of_sameCode (h : SameCode old new t t') (b : BindingStatement)
    (clear : ∀ a ∈ b.accessorArguments? old t, solid a.named = [] → a.named = [])
    (clear' : ∀ a ∈ b.accessorArguments? new t', solid a.named = [] → a.named = []) :
    b.declaratorMatches new t' = b.declaratorMatches old t := by
  rw [b.declaratorMatches_eq new, b.declaratorMatches_eq old]
  rcases rel_cases (h.accessorArguments? b) with ⟨none, none'⟩ | ⟨a, a', called, called', related⟩
  · rw [none, none']
  · have bare : a.named = [] ↔ solid a.named = [] :=
      ⟨fun empty => by rw [empty]; rfl, clear a called⟩
    have bare' : a'.named = [] ↔ solid a'.named = [] :=
      ⟨fun empty => by rw [empty]; rfl, clear' a' called'⟩
    rw [called, called', Option.any_some, Option.any_some, Bool.eq_iff_iff, List.isEmpty_iff,
      List.isEmpty_iff, bare, bare', ← List.length_eq_zero_iff, ← List.length_eq_zero_iff,
      related.forall₂_named.length_eq]

theorem presentIn_eq_of_sameCode (h : SameCode old new t t') (legible : LegibleBody old b t)
    (legible' : LegibleBody new b t') : b.presentIn new t' = b.presentIn old t := by
  rw [BindingStatement.presentIn, BindingStatement.presentIn, h.kind]
  congr 1
  refine h.named.any_eq (fun _ => rfl) (fun _ => rfl) ?_
  intro statement inside statement' inside' alike
  rw [BindingStatement.holds, BindingStatement.holds, alike.kind]
  congr 1
  refine alike.named.any_eq (fun _ => rfl) (fun _ => rfl) ?_
  intro d member d' member' declarator
  rw [declarator.kind]
  cases kind : d.kind == Kind.variableDeclarator with
  | false => rfl
  | true =>
    have kind' : (d'.kind == Kind.variableDeclarator) = true := by rw [declarator.kind, kind]
    rw [declaratorMatches_eq_of_sameCode declarator b
      (legible.arguments statement inside d (List.mem_filter.2 ⟨member, kind⟩))
      (legible'.arguments statement' inside' d' (List.mem_filter.2 ⟨member', kind'⟩))]

instance (source : String) (b : BindingStatement) (body : SyntaxTree) :
    Decidable (LegibleBody source b body) :=
  decidable_of_iff
    ((∀ t ∈ body.nodes, PlainCallee source isElementFactory t) ∧
      ∀ statement ∈ body.named, ∀ d ∈ statement.declarators,
        ∀ a ∈ b.accessorArguments? source d, solid a.named = [] → a.named = [])
    ⟨fun ⟨factory, arguments⟩ => ⟨factory, arguments⟩,
      fun ⟨factory, arguments⟩ => ⟨factory, arguments⟩⟩

/-! ## Components -/

/-- Functions with the same code are declared under the same name. -/
structure SameSite (old new : String) (q q' : Site) : Prop where
  name : q'.name = q.name
  function : SameCode old new q.function q'.function

/-- The components are the same but for comments, and blocked for the same bindings. -/
structure SameComponent (old new : String) (c c' : Component) : Prop where
  name : c'.name = c.name
  reason : c'.reason = c.reason
  makesMarkup : c'.makesMarkup = c.makesMarkup
  hasBinding : c'.hasBinding = c.hasBinding
  declaration : SameCode old new c.declaration c'.declaration
  function : SameCode old new c.function c'.function
  body : SameCode old new c.body c'.body
  blocked : ∀ b, c'.isBlocked new b = c.isBlocked old b

/-- The values that a declaration gives to names. -/
def namedValues (t : SyntaxTree) : List SyntaxTree :=
  t.declarators.filterMap fun d =>
    ((d.part? .name).filter fun n => n.kind == .identifier).bind fun _ => d.part? .value

/-- The values of a statement behind which a function is looked for. -/
def searchedValues (t : SyntaxTree) : List SyntaxTree :=
  match t.kind with
  | .exportStatement => (t.part? .value).toList ++ t.named.flatMap namedValues
  | _ => namedValues t

theorem searchedValues_of_export (isExport : t.kind = .exportStatement) :
    searchedValues t = (t.part? .value).toList ++ t.named.flatMap namedValues := by
  rw [searchedValues, isExport]

theorem searchedValues_of_other (other : t.kind ≠ .exportStatement) :
    searchedValues t = namedValues t := by
  rw [searchedValues]
  split
  · contradiction
  · rfl

/-- No comment of a statement is seen. -/
structure Legible (source : String) (wrappers : List String) (b : BindingStatement)
    (t : SyntaxTree) : Prop where
  ways : ∀ v ∈ searchedValues t, ClearWay source wrappers v
  bodies : ∀ q ∈ sites source wrappers t, ∀ body ∈ q.function.part? .body,
    LegibleBody source b body

/-- Whether no comment of a statement is seen, with ways of limited length. -/
def isLegible (source : String) (wrappers : List String) (b : BindingStatement)
    (t : SyntaxTree) : Bool :=
  ((searchedValues t).all fun v => isClear source wrappers 4 v) &&
    decide (∀ q ∈ sites source wrappers t, ∀ body ∈ q.function.part? .body,
      LegibleBody source b body)

theorem legible_of_isLegible (h : isLegible source wrappers b t = true) :
    Legible source wrappers b t := by
  rw [isLegible, Bool.and_eq_true, List.all_eq_true, decide_eq_true_eq] at h
  exact ⟨fun v member => clearWay_of_isClear (h.1 v member), h.2⟩

theorem mem_namedValues {d n v : SyntaxTree} (declarator : d ∈ t.declarators)
    (name : d.part? .name = some n) (identifier : n.kind = .identifier)
    (value : d.part? .value = some v) : v ∈ namedValues t :=
  List.mem_filterMap.2 ⟨d, declarator, by simp [name, identifier, value, Option.filter]⟩

theorem rel_declaratorSite? {d d' : SyntaxTree} (h : SameCode old new d d')
    (inFirst : d ∈ t.declarators) (inSecond : d' ∈ t'.declarators)
    (clear : ∀ v ∈ namedValues t, ClearWay old wrappers v)
    (clear' : ∀ v ∈ namedValues t', ClearWay new wrappers v) :
    Option.Rel (SameSite old new) (declaratorSite? old wrappers d)
      (declaratorSite? new wrappers d') := by
  have kind : d.kind = .variableDeclarator := eq_of_beq (List.mem_filter.1 inFirst).2
  have kind' : d'.kind = .variableDeclarator := eq_of_beq (List.mem_filter.1 inSecond).2
  rw [declaratorSite?_eq, declaratorSite?_eq, if_pos kind, if_pos kind']
  refine rel_bind (h.part? .name) fun n n' name name' named =>
    rel_bind (h.part? .value) fun v v' value value' related => ?_
  rw [named.kind]
  split
  · rename_i identifier
    have behind := rel_functionIn? related (clear v (mem_namedValues inFirst name identifier value))
      (clear' v' (mem_namedValues inSecond name' (named.kind.trans identifier) value'))
    exact rel_map behind fun f f' _ function =>
      ⟨congrArg some (named.text (by rw [identifier]; rfl)), function⟩
  · exact .none

theorem declaratorSites_eq (t : SyntaxTree) :
    t.named.filterMap (declaratorSite? source wrappers) =
      t.declarators.filterMap (declaratorSite? source wrappers) := by
  rw [declarators, List.filterMap_filter]
  refine List.filterMap_congr fun d _ => ?_
  split
  · rfl
  · rename_i other
    rw [declaratorSite?_eq, if_neg fun kind => other (beq_iff_eq.2 kind)]

theorem forall₂_declared (h : SameCode old new t t') (atomic : t.HasAtomicNames)
    (clear : ∀ v ∈ namedValues t, ClearWay old wrappers v)
    (clear' : ∀ v ∈ namedValues t', ClearWay new wrappers v) :
    List.Forall₂ (SameSite old new) (declared old wrappers t) (declared new wrappers t') := by
  have ofDeclarators : List.Forall₂ (SameSite old new)
      (t.named.filterMap (declaratorSite? old wrappers))
      (t'.named.filterMap (declaratorSite? new wrappers)) := by
    rw [declaratorSites_eq, declaratorSites_eq]
    refine List.rel_filterMap ?_ (forall₂_with_members h.declarators)
    rintro d d' ⟨inFirst, inSecond, related⟩
    exact rel_declaratorSite? related inFirst inSecond clear clear'
  rw [declared, declared, h.kind]
  split
  case h_1 kind | h_2 kind =>
    have own : t.hasOwnName = true := by rw [hasOwnName, kind]
    exact .cons ⟨h.ownName (atomic.name own), h⟩ .nil
  · exact ofDeclarators
  · exact ofDeclarators
  · exact .nil

theorem rel_exported? (h : SameCode old new t t') (atomic : t.HasAtomicNames)
    (clear : ∀ v ∈ t.part? .value, ClearWay old wrappers v)
    (clear' : ∀ v ∈ t'.part? .value, ClearWay new wrappers v) :
    Option.Rel (SameSite old new) (exported? old wrappers t) (exported? new wrappers t') := by
  have behind : Option.Rel (SameCode old new) ((t.part? .value).bind (functionIn? old wrappers))
      ((t'.part? .value).bind (functionIn? new wrappers)) :=
    rel_bind (h.part? .value) fun v v' value value' related =>
      rel_functionIn? related (clear v value) (clear' v' value')
  refine rel_map behind fun f f' found function => ?_
  rcases Option.bind_eq_some_iff.1 found with ⟨v, value, inValue⟩
  have own : f.hasOwnName = true := by
    rcases kind_of_functionIn? v f inValue with kind | kind <;> rw [hasOwnName, kind]
  have inside : Occurs t f :=
    .deeper (mem_children_of_part? value) (functionIn?_occurs v f inValue)
  exact ⟨function.ownName ((atomic.of_occurs inside).name own), function⟩

theorem declared_of_comment (h : t.isComment = true) : declared source wrappers t = [] := by
  have kind : t.kind = .comment := eq_of_beq h
  rw [declared, kind]

/-- Statements with the same code declare the same functions. -/
theorem forall₂_sites (h : SameCode old new t t') (atomic : t.HasAtomicNames)
    (legible : Legible old wrappers b t) (legible' : Legible new wrappers b t') :
    List.Forall₂ (SameSite old new) (sites old wrappers t) (sites new wrappers t') := by
  by_cases isExport : t.kind = .exportStatement
  · have isExport' := h.kind.trans isExport
    have ways := legible.ways
    have ways' := legible'.ways
    rw [searchedValues_of_export isExport, List.forall_mem_append] at ways
    rw [searchedValues_of_export isExport', List.forall_mem_append] at ways'
    rw [sites_of_export old wrappers isExport, sites_of_export new wrappers isExport']
    have exported := rel_exported? h atomic (fun v value => ways.1 v (Option.mem_toList.2 value))
      fun v value => ways'.1 v (Option.mem_toList.2 value)
    rcases rel_cases exported with ⟨none, none'⟩ | ⟨q, q', found, found', site⟩
    · rw [none, none']
      dsimp only
      refine h.named.forall₂_flatMap (fun _ => declared_of_comment) (fun _ => declared_of_comment)
        fun u member u' member' related => ?_
      exact forall₂_declared related
        (atomic.of_occurs (.child (mem_children_of_mem_named member)))
        (fun v value => ways.2 v (List.mem_flatMap.2 ⟨u, member, value⟩))
        fun v value => ways'.2 v (List.mem_flatMap.2 ⟨u', member', value⟩)
    · rw [found, found']
      exact .cons site .nil
  · have other : t'.kind ≠ .exportStatement := h.kind ▸ isExport
    have ways := legible.ways
    have ways' := legible'.ways
    rw [searchedValues_of_other isExport] at ways
    rw [searchedValues_of_other other] at ways'
    rw [sites_of_other isExport, sites_of_other other]
    exact forall₂_declared h atomic ways ways'

theorem isBlocked_eq_of_sameCode {c c' : Component}
    (function : SameCode old new c.function c'.function) (body : SameCode old new c.body c'.body)
    (atomic : c.body.HasAtomicNames) (binding : c'.hasBinding = c.hasBinding)
    (b : BindingStatement) :
    c'.isBlocked new b = c.isBlocked old b := by
  refine isBlocked_congr binding body.kind ?_ ?_ b
  · exact parameterNames_eq function.part? fun _ _ related => related.boundNames
  · refine body.named.map_flatMap_eq (fun _ => declaredNames_of_comment)
      (fun _ => declaredNames_of_comment) fun u member u' _ related => ?_
    have inside := mem_children_of_mem_named member
    exact related.declaredNames (atomic.of_occurs (.child inside)).name

/-- A function with the same code is the same component, or none again. -/
theorem rel_ofSite? {q q' : Site} (site : SameSite old new q q') (h : SameCode old new t t')
    (atomic : q.function.HasAtomicNames)
    (legible : ∀ body ∈ q.function.part? .body, LegibleBody old b body)
    (legible' : ∀ body ∈ q'.function.part? .body, LegibleBody new b body) :
    Option.Rel (SameComponent old new) (ofSite? old b t q) (ofSite? new b t' q') := by
  rw [ofSite?, ofSite?, ofFunction?, ofFunction?, site.name]
  rcases rel_cases (site.function.part? .body) with ⟨none, none'⟩ | ⟨body, body', part, part', same⟩
  · rw [none, none']
    exact .none
  · have markup : containsMarkup new body' = containsMarkup old body :=
      containsMarkup_eq_of_sameCode same (legible body part).factory (legible' body' part').factory
    have binding : b.presentIn new body' = b.presentIn old body :=
      presentIn_eq_of_sameCode same (legible body part) (legible' body' part')
    have names : body.HasAtomicNames := atomic.of_occurs (.child (mem_children_of_part? part))
    rw [part, part']
    dsimp only
    rw [markup, binding]
    have alike (reason : Reason) : SameComponent old new
        ⟨q.name, t, q.function, body, containsMarkup old body, b.presentIn old body, reason⟩
        ⟨q.name, t', q'.function, body', containsMarkup old body, b.presentIn old body, reason⟩ :=
      ⟨rfl, rfl, rfl, rfl, h, site.function, same,
        isBlocked_eq_of_sameCode site.function same names rfl⟩
    split
    · exact .some (alike .byName)
    · split
      · exact .some (alike .byMarkup)
      · exact .none

theorem forall₂_ofStatement (h : SameCode old new t t') (atomic : t.HasAtomicNames)
    (legible : Legible old wrappers b t) (legible' : Legible new wrappers b t') :
    List.Forall₂ (SameComponent old new) (ofStatement old wrappers b t)
      (ofStatement new wrappers b t') := by
  rw [ofStatement_eq, ofStatement_eq]
  refine List.rel_filterMap ?_ (forall₂_with_members (forall₂_sites h atomic legible legible'))
  rintro q q' ⟨member, member', site⟩
  exact rel_ofSite? site h (atomic.of_occurs (sites_occurs member)) (legible.bodies q member)
    (legible'.bodies q' member')

theorem ofStatement_of_comment (h : t.isComment = true) :
    ofStatement source wrappers b t = [] := by
  have kind : t.kind = .comment := eq_of_beq h
  rw [ofStatement, kind]
  dsimp only
  rw [ofDeclaration, kind]

/-- Sources that differ in comments have the same components, blocked for the same bindings, where
no comment is seen. -/
theorem detect_upToComments {s s' : Source} (h : SameCode s.text s'.text s.tree s'.tree)
    (atomic : s.tree.HasAtomicNames)
    (legible : ∀ t ∈ s.statements, Legible s.text wrappers b t)
    (legible' : ∀ t ∈ s'.statements, Legible s'.text wrappers b t) :
    List.Forall₂ (SameComponent s.text s'.text) (detect s wrappers b) (detect s' wrappers b) := by
  rw [detect, detect]
  refine UpToComments.forall₂_flatMap (fun _ => ofStatement_of_comment)
    (fun _ => ofStatement_of_comment) h.named fun t member t' member' related => ?_
  have inside := mem_children_of_mem_named member
  exact forall₂_ofStatement related (atomic.of_occurs (.child inside)) (legible t member)
    (legible' t' member')

/-- Comments between statements, in patterns and parameters, in bodies and behind a function. -/
theorem detect_upToComments_everywhere :
    let wrappers := ["memo"]
    let b : BindingStatement := ⟨"theme", "useTheme"⟩
    let text := "function Card(\x7ba\x7d)\x7bconst theme=useTheme();return f(a)\x7d\n" ++
      "const row=memo((()=>createElement('b')))"
    let commented := "/* 1 */function Card(/* 2 */\x7ba/* 3 */\x7d/* 4 */)\x7b/* 5 */" ++
      "const theme=/* 6 */useTheme();return f(/* 7 */a)\x7d\n// 8\n" ++
      "const row=memo((()=>createElement(/* 9 */'b')/* 10 */)/* 11 */)"
    ∃ s s', Source.parse .tsx text = .ok s ∧ Source.parse .tsx commented = .ok s' ∧
      SameCode s.text s'.text s.tree s'.tree ∧ s.tree.HasAtomicNames ∧
      (∀ t ∈ s.statements, Legible s.text wrappers b t) ∧
      (∀ t ∈ s'.statements, Legible s'.text wrappers b t) ∧
      List.Forall₂ (SameComponent s.text s'.text) (detect s wrappers b) (detect s' wrappers b) ∧
      (detect s wrappers b).map (·.name) = [some "Card", some "row"] := by
  intro wrappers b text commented
  have facts : (Source.parse .tsx text).toOption.any (fun s =>
      (Source.parse .tsx commented).toOption.any fun s' =>
        hasSameCode s.text s'.text s.tree s'.tree && decide s.tree.HasAtomicNames &&
          s.statements.all (isLegible s.text wrappers b) &&
          s'.statements.all (isLegible s'.text wrappers b) &&
          (detect s wrappers b).map (·.name) == [some "Card", some "row"]) = true := by
    decide +kernel
  rcases Migration.exists_ok_of_any facts with ⟨s, read, inner⟩
  rcases Migration.exists_ok_of_any inner with ⟨s', read', holds⟩
  simp only [Bool.and_eq_true, decide_eq_true_eq, beq_iff_eq, List.all_eq_true] at holds
  rcases holds with ⟨⟨⟨⟨same, atomic⟩, legible⟩, legible'⟩, names⟩
  have code := sameCode_of_hasSameCode same
  have unseen := fun t member => legible_of_isLegible (legible t member)
  have unseen' := fun t member => legible_of_isLegible (legible' t member)
  exact ⟨s, s', read, read', code, atomic, unseen, unseen',
    detect_upToComments code atomic unseen unseen', names⟩

/-- A comment in front of a function makes a component disappear. -/
theorem comment_hides_component :
    let b : BindingStatement := ⟨"theme", "useTheme"⟩
    ∃ s s', Source.parse .tsx "const Card=memo(()=>(\x7bcolor:'#fff'\x7d))" = .ok s ∧
      Source.parse .tsx "const Card=memo(/* c */()=>(\x7bcolor:'#fff'\x7d))" = .ok s' ∧
      SameCode s.text s'.text s.tree s'.tree ∧
      (detect s ["memo"] b).map (·.name) = [some "Card"] ∧ detect s' ["memo"] b = [] := by
  intro b
  have facts : (Source.parse .tsx "const Card=memo(()=>(\x7bcolor:'#fff'\x7d))").toOption.any
      (fun s => (Source.parse .tsx
        "const Card=memo(/* c */()=>(\x7bcolor:'#fff'\x7d))").toOption.any fun s' =>
          hasSameCode s.text s'.text s.tree s'.tree &&
            (detect s ["memo"] b).map (·.name) == [some "Card"] &&
            (detect s' ["memo"] b).isEmpty) = true := by
    decide +kernel
  rcases Migration.exists_ok_of_any facts with ⟨s, read, inner⟩
  rcases Migration.exists_ok_of_any inner with ⟨s', read', holds⟩
  simp only [Bool.and_eq_true, beq_iff_eq, List.isEmpty_iff] at holds
  exact ⟨s, s', read, read', sameCode_of_hasSameCode holds.1.1, holds.1.2, holds.2⟩

end Component

end ThemeMigration
