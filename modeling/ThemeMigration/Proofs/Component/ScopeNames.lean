import ThemeMigration.Component.Binding
import ThemeMigration.Proofs.Component.Detection
import ThemeMigration.Proofs.Migration.Inspection
import ThemeMigration.Proofs.Script.Patterns

/-!
# Names in the scope of a component

A name is bound in the scope of a component when its parameters bind it, or a declaration among the
statements of its block.  What a pattern binds are its targets, so a name that stands only in a
default value, a key or a type does not keep the accessor binding out.  One name is missed: a
parameter, or a target in a destructured one, that is named `undefined`.
-/

namespace ThemeMigration

open Script SyntaxTree

namespace Component

/-- A pattern binds a name: a word that is no constant. -/
def BindsName (source : String) (t n : SyntaxTree) : Prop :=
  Binds source t n ∧ n.kind ≠ .expression

/-- A statement declares a name in its scope: a declaration of variables what their patterns bind,
and a function, a generator, a class or an enumeration its own name. -/
inductive DeclaresName (source : String) (t n : SyntaxTree) : Prop
  | declarator {d p : SyntaxTree} :
      t.kind = .lexicalDeclaration ∨ t.kind = .variableDeclaration → d ∈ t.named →
      d.kind = .variableDeclarator → d.part? .name = some p → BindsName source p n →
      DeclaresName source t n
  | own : t.kind ∈ [.functionDeclaration, .generatorFunctionDeclaration, .classDeclaration,
        .abstractClassDeclaration, .enumDeclaration] →
      t.part? .name = some n → DeclaresName source t n

/-- A name is bound in the scope of the body of a component. -/
inductive InScope (source : String) (c : Component) (n : SyntaxTree) : Prop
  | parameter {ps : SyntaxTree} : c.parameters? = some ps → BindsName source ps n →
      InScope source c n
  | declaration {t : SyntaxTree} : c.body.kind = .statementBlock → t ∈ c.body.named →
      DeclaresName source t n → InScope source c n

variable {source name : String} {t n : SyntaxTree} {c : Component}

theorem any_text_iff {ns : List SyntaxTree} :
    (ns.any fun n => n.text source == name) = true ↔ ∃ n ∈ ns, n.text source = name := by
  simp only [List.any_eq_true, beq_iff_eq]

theorem mem_declaredNames_iff : n ∈ t.declaredNames ↔ DeclaresName source t n := by
  constructor
  · intro found
    rw [declaredNames] at found
    split at found
    case h_1 kind | h_2 kind =>
      rcases List.mem_flatMap.1 found with ⟨d, declarator, found⟩
      rcases List.mem_filter.1 declarator with ⟨inside, isDeclarator⟩
      rcases mem_boundNames_part_iff.1 found with ⟨p, part, found⟩
      exact .declarator (by simp [kind]) inside (eq_of_beq isDeclarator) part
        (mem_boundNames_iff.1 found)
    case h_3 kind | h_4 kind | h_5 kind | h_6 kind | h_7 kind =>
      exact .own (by simp [kind]) (Option.mem_toList.1 found)
    case h_8 => cases found
  · intro declares
    rw [declaredNames]
    cases declares with
    | @declarator d p kind inside isDeclarator part binds =>
      have declarator : d ∈ t.declarators := List.mem_filter.2 ⟨inside, by simp [isDeclarator]⟩
      have inPattern := mem_boundNames_part_iff.2 ⟨p, part, mem_boundNames_iff.2 binds⟩
      have found : n ∈ t.declarators.flatMap fun d =>
          ((d.part? .name).map boundNames).getD [] :=
        List.mem_flatMap.2 ⟨d, declarator, inPattern⟩
      rcases kind with kind | kind <;> rw [kind] <;> exact found
    | own kind part =>
      have found := Option.mem_toList.2 part
      simp only [List.mem_cons, List.not_mem_nil, or_false] at kind
      rcases kind with kind | kind | kind | kind | kind <;> rw [kind] <;> exact found

theorem mem_scopeNames_iff : n ∈ c.scopeNames ↔ InScope source c n := by
  have parameters : n ∈ (c.parameters?.map boundNames).getD [] ↔
      ∃ ps, c.parameters? = some ps ∧ BindsName source ps n := by
    simp only [BindsName, ← mem_boundNames_iff]
    cases c.parameters? <;> simp
  rw [scopeNames, List.mem_append, parameters]
  constructor
  · rintro (⟨ps, found, binds⟩ | found)
    · exact .parameter found binds
    · split at found
      · cases found
      · rename_i block
        rcases List.mem_flatMap.1 found with ⟨t, inBody, found⟩
        refine .declaration ?_ inBody (mem_declaredNames_iff.1 found)
        simpa [hasExpressionBody] using block
  · rintro (⟨found, binds⟩ | ⟨block, inBody, declares⟩)
    · exact Or.inl ⟨_, found, binds⟩
    · refine Or.inr ?_
      rw [if_neg (by simp [hasExpressionBody, block])]
      exact List.mem_flatMap.2 ⟨_, inBody, mem_declaredNames_iff.2 declares⟩

/-- The only constant among the targets is the word `undefined`. -/
theorem bindsName_iff_of_ne (other : n.text source ≠ "undefined") :
    BindsName source t n ↔ Binds source t n := by
  constructor
  · exact And.left
  · intro binds
    refine ⟨binds, fun kind => ?_⟩
    cases binds.isWord with
    | name isName =>
      rcases isName with isName | isName <;> rw [isName] at kind <;> cases kind
    | constant _ _ text => exact other text

/-- In every script, a pattern is found to bind exactly the names that are its targets, and none
that stands in a key, a default value, an annotation or anything else beside them.  In what the
grammar reads as a pattern or a parameter list the targets are all words that do not stand beside
one.  A component binds exactly the names that its parameters bind and those that the declarations
among the statements of its block declare.  All targets are names but for the word `undefined`,
which is a constant inside a pattern and is not found there. -/
theorem binds_exactly (s : Source) (name : String) :
    (∀ t, (t.boundNames.any fun n => n.text s.text == name) = true ↔
      ∃ n, BindsName s.text t n ∧ n.text s.text = name) ∧
    (∀ t n, n.text s.text ≠ "undefined" → (BindsName s.text t n ↔ Binds s.text t n)) ∧
    (∀ t, Occurs s.tree t → ∀ n, Binds s.text t n → n.start < n.stop →
      ∀ d a, Occurs t d → IsAside d a → ¬ Occurs a n) ∧
    (∀ t, Occurs s.tree t → IsReadPattern t → ∀ n, n.start < n.stop →
      (Binds s.text t n ↔ IsWord s.text n ∧ Occurs t n ∧
        ∀ d a, Occurs t d → IsAside d a → ¬ Occurs a n)) ∧
    (∀ c : Component, c.binds s.text name = true ↔
      ∃ n, InScope s.text c n ∧ n.text s.text = name) := by
  refine ⟨fun t => ?_, fun t n => bindsName_iff_of_ne, ?_, ?_, fun c => ?_⟩
  · rw [any_text_iff]
    exact exists_congr fun n => and_congr_left' mem_boundNames_iff
  · intro t inScript n binds room d a inside aside
    have wellFormed := (wellFormed_occurs s.wellFormed inScript).1
    exact binds.not_occurs_of_isAside wellFormed room inside aside
  · intro t inScript isRead n room
    exact isRead.isPattern.binds_iff (wellFormed_occurs s.wellFormed inScript).1 room
  · rw [Component.binds, any_text_iff]
    exact exists_congr fun n => and_congr_left' mem_scopeNames_iff

/-- A parameter is named `undefined`, and the name counts as free in the component. -/
theorem undefined_parameter_missed :
    ∃ s, Source.parse .tsx "function Card(undefined)\x7breturn <p/>\x7d" = .ok s ∧
      ∃ c ∈ detect s [] ⟨"theme", "useTheme"⟩, ∃ ps n, c.parameters? = some ps ∧
        Binds s.text ps n ∧ n.text s.text = "undefined" ∧ c.binds s.text "undefined" = false := by
  have facts : (Source.parse .tsx
      "function Card(undefined)\x7breturn <p/>\x7d").toOption.any (fun s =>
        (detect s [] ⟨"theme", "useTheme"⟩).any fun c =>
          !c.binds s.text "undefined" && c.parameters?.any fun ps =>
            ps.kind == .formalParameters && ps.children.any fun q =>
              q.kind == .requiredParameter && (q.part? .pattern).any fun n =>
                n.kind == .expression && n.children.isEmpty &&
                  n.text s.text == "undefined") = true := by
    decide +kernel
  rcases Migration.exists_ok_of_any facts with ⟨s, read, holds⟩
  simp only [Bool.and_eq_true, beq_iff_eq, List.any_eq_true, Option.any_eq_true,
    List.isEmpty_iff, Bool.not_eq_true'] at holds
  rcases holds with
    ⟨c, found, free, ps, parameters, list, q, member, parameter, n, pattern, ⟨kind, leaf⟩, text⟩
  have inParameter : Binds s.text q n :=
    .inside (.part (by rw [parameter]; rfl) pattern) (.word (.constant kind leaf text))
  have inList : Binds s.text ps n := .inside (.member (by rw [list]; rfl) member) inParameter
  exact ⟨s, read, c, found, ps, n, parameters, inList, text, free⟩

end Component

end ThemeMigration
