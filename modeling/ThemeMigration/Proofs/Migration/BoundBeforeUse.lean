import ThemeMigration.Proofs.Component.Precedence
import ThemeMigration.Proofs.Migration.Inspection

/-!
# The binding and the literals that use it

The expressions that replace the literals of a component use its binding, so the binding has to
come first unless a nested function puts the use off.  An inserted binding always does.  Of a
binding that the component has already the place is not asked, so what stands up to its declarator
uses the name too early unless all literals there are put off.
-/

namespace ThemeMigration

open Script SyntaxTree

namespace Component

variable {c : Component} {d : SyntaxTree}

theorem not_defers_iff : ¬ c.Defers d ↔ innermost? isFunction d c.body = none := by
  rw [innermost?_eq_none_iff, Defers]
  constructor
  · intro none f below around
    exact Bool.eq_false_iff.2 fun holds => none ⟨f, below, holds, around⟩
  · rintro none ⟨f, below, holds, around⟩
    rw [none f below around] at holds
    cases holds

end Component

namespace Migration

variable {m : Migration} {file : SourceFile} {r : Recoloring}

/-- Where the binding of a changed component ends: behind the declarator that the component has, or
at the place where the statement goes in. -/
inductive BoundAt (m : Migration) (file : SourceFile) (r : Recoloring) : Nat → Prop
  | existing {d : SyntaxTree} : r.component.hasBinding = true →
      (m.binding (m.imports file)).declarator? file.text r.component.body = some d →
      BoundAt m file r d.stop
  | inserted {offset : Nat} {front back : String} : r.component.hasBinding = false →
      (r.component.insertion file.text (m.binding (m.imports file))).head? =
        some (.insert offset (front ++ (m.binding (m.imports file)).text ++ back)) →
      .insert offset (front ++ (m.binding (m.imports file)).text ++ back) ∈ (m.plan file).edits →
      BoundAt m file r offset

/-- A literal of the component is replaced although it stands up to the declarator of its
binding. -/
def UsedEarly (m : Migration) (file : SourceFile) (r : Recoloring) (literal : SyntaxTree) : Prop :=
  r.component.hasBinding = true ∧
    ∃ t ∈ (m.binding (m.imports file)).upToDeclarator file.text r.component.body, Occurs t literal

theorem hasBinding_eq (member : r ∈ (m.plan file).recolorings) :
    r.component.hasBinding =
      (m.binding (m.imports file)).presentIn file.text r.component.body := by
  rcases Component.site_of_mem_detect (component_of_mem member) with ⟨_, q, _, component⟩
  exact (Component.isOf_of_ofSite? component).binding_eq

/-- A changed component is bound somewhere, and exactly the literals behind that place are not used
early. -/
theorem Changed.exists_boundAt (changed : Changed m file r) :
    ∃ offset, BoundAt m file r offset ∧
      ∀ pair literal expression,
        Eligible m.palette file.text r.component.body pair literal expression →
        (offset ≤ literal.start ↔ ¬ UsedEarly m file r literal) := by
  have wellFormed := changed.body_wellFormed
  cases bound : r.component.hasBinding with
  | true =>
    rcases BindingStatement.presentIn_iff.1 (hasBinding_eq changed.member ▸ bound) with
      ⟨block, d, found⟩
    refine ⟨d.stop, .existing bound found, ?_⟩
    intro pair literal expression eligible
    rw [Component.declarator_precedes_iff wellFormed found block eligible, UsedEarly]
    simp only [bound, true_and]
  | false =>
    rcases Component.insertion_precedes wellFormed (m.binding (m.imports file)) with
      ⟨offset, front, back, head, first⟩
    have planned := mem_plan_edits_iff.2
      (.binding r changed bound (List.mem_of_head? head))
    refine ⟨offset, .inserted bound head planned, ?_⟩
    intro pair literal expression eligible
    refine iff_of_true (first _ _ _ _ eligible) ?_
    rintro ⟨present, _⟩
    rw [bound] at present
    cases present

/-- A changed component without the binding gets its statement. -/
theorem Changed.exists_inserted (changed : Changed m file r)
    (fresh : r.component.hasBinding = false) :
    ∃ offset front back,
      .insert offset (front ++ (m.binding (m.imports file)).text ++ back) ∈
        (m.plan file).edits := by
  rcases changed.exists_boundAt with ⟨offset, bound, _⟩
  cases bound with
  | existing present =>
    rw [fresh] at present
    cases present
  | inserted _ _ planned => exact ⟨_, _, _, planned⟩

/-- The binding of a changed component comes before every use that is not put off if and only if
no such use stands up to the declarator of a binding that the component had already. -/
theorem bound_before_use_iff (m : Migration) (file : SourceFile) {r : Recoloring}
    (changed : Changed m file r) :
    ∃ offset, BoundAt m file r offset ∧
      ((∀ pair literal expression,
          Eligible m.palette file.text r.component.body pair literal expression →
          ¬ r.component.Defers literal → offset ≤ literal.start) ↔
        ∀ pair literal expression,
          Eligible m.palette file.text r.component.body pair literal expression →
          UsedEarly m file r literal → r.component.Defers literal) := by
  rcases changed.exists_boundAt with ⟨offset, bound, placed⟩
  refine ⟨offset, bound, ?_⟩
  constructor
  · intro first pair literal expression eligible early
    refine Classical.byContradiction fun atOnce => ?_
    have behind := first pair literal expression eligible atOnce
    exact (placed pair literal expression eligible).1 behind early
  · intro putOff pair literal expression eligible atOnce
    refine (placed pair literal expression eligible).2 fun early => ?_
    exact atOnce (putOff pair literal expression eligible early)

/-- A card that styles a box before it asks for its theme: the colour of the box comes to use the
binding before its declarator. -/
theorem literal_before_declarator :
    let text :=
      "function Card()\x7bconst box=\x7bcolor:'#fff'\x7d;const theme=useTheme();return box\x7d"
    ∃ file r pair literal expression offset,
      SourceFile.ofText ⟨"/project/src/Card.tsx"⟩ text = .ok file ∧ Changed standard file r ∧
        Eligible standard.palette file.text r.component.body pair literal expression ∧
        ¬ r.component.Defers literal ∧ BoundAt standard file r offset ∧ literal.stop ≤ offset := by
  intro text
  have facts : (SourceFile.ofText ⟨"/project/src/Card.tsx"⟩ text).toOption.any (fun file =>
      (standard.plan file).recolorings.any fun r => r.isEffective &&
        (r.component.hasBinding && r.component.literals.any fun l =>
          (l.edit? standard.palette file.text).isSome &&
            ((innermost? isFunction l.literal r.component.body).isNone &&
              ((standard.binding (standard.imports file)).declarator? file.text
                r.component.body).any fun d => decide (l.literal.stop ≤ d.stop)))) = true := by
    rw [standard_eq]
    decide +kernel
  rcases exists_ofText facts with ⟨file, read, inFile⟩
  rcases exists_changed_of_any inFile with ⟨r, changed, inComponent⟩
  rw [Bool.and_eq_true] at inComponent
  rcases changed.exists_eligible_of_any inComponent.2 with
    ⟨pair, literal, expression, eligible, early⟩
  rw [Bool.and_eq_true, Option.isNone_iff_eq_none, Option.any_eq_true] at early
  rcases early with ⟨atOnce, d, declarator, order⟩
  exact ⟨file, r, pair, literal, expression, d.stop, read, changed, eligible,
    Component.not_defers_iff.2 atOnce, .existing inComponent.1 declarator, of_decide_eq_true order⟩

/-- A callback in front of the binding may use it, since it runs later. -/
theorem bound_before_use_iff_callback :
    let text := "function Card()\x7bconst box=()=>(\x7bcolor:'#fff'\x7d);" ++
      "const theme=useTheme();return box\x7d"
    ∃ file r offset,
      SourceFile.ofText ⟨"/project/src/Card.tsx"⟩ text = .ok file ∧ Changed standard file r ∧
        r.component.hasBinding = true ∧ BoundAt standard file r offset ∧
        ∀ pair literal expression,
          Eligible standard.palette file.text r.component.body pair literal expression →
          ¬ r.component.Defers literal → offset ≤ literal.start := by
  intro text
  have facts : (SourceFile.ofText ⟨"/project/src/Card.tsx"⟩ text).toOption.any (fun file =>
      (standard.plan file).recolorings.any fun r => r.isEffective &&
        (r.component.hasBinding && r.component.literals.all fun l =>
          !((standard.binding (standard.imports file)).upToDeclarator file.text
            r.component.body).any (holds l.literal) ||
              (innermost? isFunction l.literal r.component.body).isSome)) = true := by
    rw [standard_eq]
    decide +kernel
  rcases exists_ofText facts with ⟨file, read, inFile⟩
  rcases exists_changed_of_any inFile with ⟨r, changed, inComponent⟩
  rw [Bool.and_eq_true, List.all_eq_true] at inComponent
  rcases bound_before_use_iff standard file changed with ⟨offset, bound, ordered⟩
  refine ⟨file, r, offset, read, changed, inComponent.1, bound, ordered.2 ?_⟩
  rintro pair literal expression eligible ⟨_, t, upTo, inside⟩
  have found := eligible.mem_inside changed.body_wellFormed
  have early : ((standard.binding (standard.imports file)).upToDeclarator file.text
      r.component.body).any (holds literal) = true :=
    List.any_eq_true.2 ⟨t, upTo, holds_iff.2 inside⟩
  refine Classical.byContradiction fun atOnce => ?_
  have putOff := inComponent.2 _ found
  rw [early, Component.not_defers_iff.1 atOnce] at putOff
  cases putOff

end Migration

end ThemeMigration
