import ThemeMigration.Component.Binding
import ThemeMigration.Proofs.Component.BindingText
import ThemeMigration.Proofs.Script.Scopes

/-!
# What a name in a component stands for

A name that is used in the body of a component is declared in a scope inside the body, by the
component itself, or outside of it.  The component declares its parameters, what the statements of
its body declare, and what `var` declares further inside.  A binding that is inserted adds what its
statement declares to these, which is one name; it takes over the uses of that name that were
declared outside, and no others.
-/

namespace ThemeMigration

open Script SyntaxTree

/-- Where a name is declared that is used in the body of a component. -/
inductive Resolution where
  /-- In the innermost of the scopes inside the body that declare it. -/
  | nested (scope : SyntaxTree)
  /-- By the component. -/
  | component
  /-- In the script around the component, or nowhere. -/
  | outside
  deriving DecidableEq, Repr

namespace Component

/-- What a body consists of: the nodes of its block, or its expression. -/
def parts (c : Component) : List SyntaxTree :=
  if c.hasExpressionBody then [c.body] else c.body.children

/-- A node stands inside the body, so that a scope it opens is none of the component itself. -/
def Encloses (c : Component) (s : SyntaxTree) : Prop := ∃ t ∈ c.parts, Occurs t s

/-- The names that a component declares for its body. -/
def localNames (c : Component) (source : String) : List String :=
  (c.scopeNames ++ c.body.hoistedNames).map (·.text source)

/-- Where a name is declared that is used at a node of the body, if the component declares the
given names. -/
def resolve (c : Component) (source : String) (names : List String) (name : String)
    (d : SyntaxTree) : Resolution :=
  match innermostAmong? (introduces source name d) d c.parts with
  | some s => .nested s
  | none => if name ∈ names then .component else .outside

variable {c : Component} {source name : String} {names : List String} {d : SyntaxTree}

/-- A scope inside the body takes a name if it is the innermost one that declares it. -/
theorem resolve_nested {s : SyntaxTree} (h : c.resolve source names name d = .nested s) :
    c.Encloses s ∧ Occurs s d ∧ introduces source name d s = true ∧
      ∀ u ∈ s.children, ∀ v, Occurs u v → Occurs v d → introduces source name d v = false := by
  rw [resolve] at h
  split at h
  · rename_i found
    cases h
    exact innermostAmong?_spec found
  · split at h <;> cases h

theorem innermost_eq_none_iff :
    innermostAmong? (introduces source name d) d c.parts = none ↔
      ∀ s, c.Encloses s → Occurs s d → introduces source name d s = false := by
  rw [innermostAmong?_eq_none_iff]
  constructor
  · rintro none s ⟨t, member, below⟩ around
    exact none t member s below around
  · intro none t member s below around
    exact none s ⟨t, member, below⟩ around

/-- A name stands for what the component declares if no scope inside the body declares it. -/
theorem resolve_eq_component_iff :
    c.resolve source names name d = .component ↔
      name ∈ names ∧ ∀ s, c.Encloses s → Occurs s d → introduces source name d s = false := by
  rw [resolve, ← innermost_eq_none_iff]
  cases innermostAmong? (introduces source name d) d c.parts with
  | some s => simp
  | none =>
    by_cases declared : name ∈ names
    · simp [declared]
    · simp [declared]

/-- What the component declares is not outside of it. -/
theorem not_mem_of_resolve_eq_outside (h : c.resolve source names name d = .outside) :
    name ∉ names := by
  rw [resolve] at h
  split at h
  · cases h
  · split at h
    · cases h
    · assumption

/-! ## One more name -/

/-- A name that the component declares besides takes over the uses of it that were declared
outside. -/
theorem resolve_cons (x : String) :
    c.resolve source (x :: names) name d =
      if name = x ∧ c.resolve source names name d = .outside then .component
      else c.resolve source names name d := by
  rw [resolve, resolve]
  cases innermostAmong? (introduces source name d) d c.parts with
  | some s => simp
  | none =>
    by_cases same : name = x
    · by_cases declared : x ∈ names <;> simp [same, declared]
    · simp [same]

/-- A use of a name keeps its declaration unless the new name takes it over. -/
theorem resolve_cons_eq_iff (x : String) :
    c.resolve source (x :: names) name d = c.resolve source names name d ↔
      ¬ (name = x ∧ c.resolve source names name d = .outside) := by
  rw [resolve_cons]
  split
  · rename_i taken
    rw [taken.2]
    simp [taken.1]
  · rename_i kept
    simp [kept]

/-! ## The accessor binding -/

theorem binds_iff : c.binds source name = true ↔ ∃ n ∈ c.scopeNames, n.text source = name := by
  simp [binds]

theorem mem_localNames_iff :
    name ∈ c.localNames source ↔
      c.binds source name = true ∨ ∃ n ∈ c.body.hoistedNames, n.text source = name := by
  rw [localNames, List.mem_map, binds_iff]
  constructor
  · rintro ⟨n, member, rfl⟩
    rcases List.mem_append.1 member with declared | hoisted
    · exact Or.inl ⟨n, declared, rfl⟩
    · exact Or.inr ⟨n, hoisted, rfl⟩
  · rintro (⟨n, member, rfl⟩ | ⟨n, member, rfl⟩)
    · exact ⟨n, List.mem_append_left _ member, rfl⟩
    · exact ⟨n, List.mem_append_right _ member, rfl⟩

/-- The names that a component declares once it has the binding: those that the statement adds, if
it goes in, and its own. -/
def namesWith (c : Component) (source : String) (b : BindingStatement) : List String :=
  if c.hasBinding then c.localNames source else b.declaredNames ++ c.localNames source

variable {b : BindingStatement}

theorem namesWith_of_fresh (fresh : c.hasBinding = false) :
    c.namesWith source b = b.binding :: c.localNames source := by
  rw [namesWith, fresh, if_neg Bool.false_ne_true, b.declaredNames_eq]
  rfl

/-- The accessor binding declares its name. -/
theorem declares_of_holds {t : SyntaxTree} (h : b.holds source t = true) :
    t.declares source b.binding = true := by
  rw [BindingStatement.holds, Bool.and_eq_true, List.any_eq_true] at h
  rcases h with ⟨kind, d, member, shape⟩
  rw [Bool.and_eq_true, BindingStatement.declaratorMatches, Bool.and_eq_true] at shape
  cases part : d.part? .name with
  | none => simp [part] at shape
  | some name =>
    have named : name.kind = .identifier ∧ name.text source = b.binding := by
      simpa [part, BindingStatement.isNamed] using shape.2.1
    have bound : name.boundNames = [name] := by
      cases name with
      | node k l s ts =>
        have identifier : k = .identifier := named.1
        rw [identifier]
        rfl
    have declared : name ∈ t.declaredNames := by
      have inDeclarators : name ∈ t.declarators.flatMap fun d =>
          ((d.part? .name).map boundNames).getD [] := by
        apply List.mem_flatMap.2
        refine ⟨d, List.mem_filter.2 ⟨member, shape.1⟩, ?_⟩
        simp [part, bound]
      rw [declaredNames]
      rw [Bool.or_eq_true, beq_iff_eq, beq_iff_eq] at kind
      rcases kind with kind | kind <;> rw [kind] <;> exact inDeclarators
    exact List.any_eq_true.2 ⟨name, declared, by simpa using named.2⟩

theorem binds_of_presentIn (h : b.presentIn source c.body = true) :
    c.binds source b.binding = true := by
  rw [BindingStatement.presentIn, Bool.and_eq_true, List.any_eq_true] at h
  rcases h with ⟨block, t, member, holds⟩
  rcases List.any_eq_true.1 (declares_of_holds holds) with ⟨n, declared, text⟩
  have notExpression : c.hasExpressionBody = false := by
    rw [hasExpressionBody, beq_iff_eq.1 block]
    rfl
  refine binds_iff.2 ⟨n, ?_, beq_iff_eq.1 text⟩
  rw [scopeNames, notExpression]
  exact List.mem_append_right _ (List.mem_flatMap.2 ⟨t, member, declared⟩)

/-- With the binding, the component declares the name of the binding. -/
theorem binding_mem_namesWith (h : c.hasBinding = b.presentIn source c.body) :
    b.binding ∈ c.namesWith source b := by
  rw [namesWith]
  split
  · rename_i present
    exact mem_localNames_iff.2 (Or.inl (binds_of_presentIn (h ▸ present)))
  · rw [b.declaredNames_eq]
    exact List.mem_cons_self

/-- A component that takes a binding declares neither of its two names. -/
theorem not_binds_of_free (free : c.isBlocked source b = false) (fresh : c.hasBinding = false) :
    c.binds source b.binding = false ∧ c.binds source b.callee = false := by
  rw [isBlocked, fresh, Bool.not_false, Bool.true_and, Bool.or_eq_false_iff] at free
  exact free

end Component

end ThemeMigration
