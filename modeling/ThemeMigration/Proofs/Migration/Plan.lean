import ThemeMigration.Migration
import ThemeMigration.Proofs.Component.Counts
import ThemeMigration.Proofs.Component.Detection
import ThemeMigration.Proofs.Component.Insertion
import ThemeMigration.Proofs.Imports.Insertion

/-!
# What is planned for a file

A component of a file is changed or not.  If it is, all its replacements are planned, and it holds
a literal and is not blocked; if it is not, nothing is planned for it.  The edits of a file are the
replacements and the bindings of its changed components, and the one import.  Components have lists
of their own here; one list for the file that is cut back for each blocked component is the same.
-/

namespace ThemeMigration

open Script SyntaxTree

namespace Migration

namespace Recoloring

variable {p : Palette} {source : String} {b : BindingStatement} {c : Component}

theorem isEffective_ofComponent (p : Palette) (source : String) (c : Component) :
    (ofComponent p source c).isEffective = true ↔ c.replacements p source ≠ [] := by
  rw [isEffective, ofComponent, Component.literalCounts_replaced, decide_eq_true_iff,
    gt_iff_lt, List.length_pos_iff]

/-- The component is changed: its replacements are planned. -/
structure Changes (p : Palette) (source : String) (b : BindingStatement) (r : Recoloring) :
    Prop where
  eq : r = ofComponent p source r.component
  some : r.component.replacements p source ≠ []
  free : r.component.isBlocked source b = false

theorem settled_component (r : Recoloring) :
    (r.settled source b).component = r.component := by
  rw [settled]
  split <;> rfl

/-- A component is changed, or it is blocked, or it holds no literal that could be replaced. -/
theorem settled_cases (p : Palette) (source : String) (b : BindingStatement) (c : Component) :
    let r := (ofComponent p source c).settled source b
    (r.isEffective = true ∧ r.Changes p source b) ∨
      (r.isEffective = false ∧ r.edits = [] ∧
        (c.isBlocked source b = true ∨ c.replacements p source = [])) := by
  intro r
  have effective := isEffective_ofComponent p source c
  by_cases some : c.replacements p source = []
  · have still : (ofComponent p source c).isEffective = false := by
      rw [← Bool.not_eq_true, effective]
      exact not_not_intro some
    have same : r = ofComponent p source c := by simp [r, settled, still]
    rw [same]
    exact Or.inr ⟨still, some, Or.inr some⟩
  · have changed := effective.2 some
    cases blocked : c.isBlocked source b with
    | true =>
      have same : r = { ofComponent p source c with
          edits := [], counts := (c.literalCounts p source).withdraw } := by
        simp only [r, settled, changed, Bool.true_and]
        exact if_pos blocked
      rw [same]
      exact Or.inr ⟨rfl, rfl, Or.inl rfl⟩
    | false =>
      have same : r = ofComponent p source c := by
        simp only [r, settled, changed, Bool.true_and]
        exact if_neg (by simp [ofComponent, blocked])
      rw [same]
      exact Or.inl ⟨changed, rfl, some, blocked⟩

end Recoloring

variable {m : Migration} {file : SourceFile}

/-- A new text is the edited one without its stale imports. -/
theorem text_of_transform {new : String} (h : (m.transform file).text = some new) :
    new = (pruned file (m.edited file)).1 := by
  rw [transform] at h
  split at h
  · cases h
  · dsimp only at h
    split at h
    · exact (Option.some.inj h).symm
    · cases h

/-! ## Recolorings -/

theorem mem_plan_recolorings {r : Recoloring} :
    r ∈ (m.plan file).recolorings ↔
      ∃ c ∈ Component.detect file.source m.wrappers (m.binding (m.imports file)),
        (Recoloring.ofComponent m.palette file.text c).settled file.text
          (m.binding (m.imports file)) = r :=
  List.mem_map

/-- The recoloring of a component that is changed. -/
structure Changed (m : Migration) (file : SourceFile) (r : Recoloring) : Prop where
  member : r ∈ (m.plan file).recolorings
  isEffective : r.isEffective = true

theorem component_of_mem {r : Recoloring} (h : r ∈ (m.plan file).recolorings) :
    r.component ∈ Component.detect file.source m.wrappers (m.binding (m.imports file)) := by
  rcases mem_plan_recolorings.1 h with ⟨c, member, rfl⟩
  rw [Recoloring.settled_component]
  exact member

theorem Changed.changes {r : Recoloring} (h : Changed m file r) :
    r.Changes m.palette file.text (m.binding (m.imports file)) := by
  rcases mem_plan_recolorings.1 h.member with ⟨c, _, rfl⟩
  rcases Recoloring.settled_cases m.palette file.text (m.binding (m.imports file)) c with
    changed | still
  · exact changed.2
  · exact absurd h.isEffective (by rw [still.1]; exact Bool.false_ne_true)

theorem edits_eq_nil {r : Recoloring} (member : r ∈ (m.plan file).recolorings)
    (still : r.isEffective = false) : r.edits = [] := by
  rcases mem_plan_recolorings.1 member with ⟨c, _, rfl⟩
  rcases Recoloring.settled_cases m.palette file.text (m.binding (m.imports file)) c with
    changed | facts
  · exact absurd changed.1 (by rw [still]; exact Bool.false_ne_true)
  · exact facts.2.1

theorem changed_of_mem_edits {r : Recoloring} {e : Edit} (member : r ∈ (m.plan file).recolorings)
    (planned : e ∈ r.edits) : Changed m file r := by
  refine ⟨member, ?_⟩
  rw [← Bool.not_eq_false]
  intro still
  rw [edits_eq_nil member still] at planned
  cases planned

section Changed

variable {r : Recoloring} (h : Changed m file r)

include h

theorem Changed.edits_eq : r.edits = r.component.replacements m.palette file.text := by
  have eq := congrArg Recoloring.edits h.changes.eq
  exact eq

theorem Changed.literals_ne_nil : r.component.literals ≠ [] := by
  intro none
  apply h.changes.some
  rw [Component.replacements, none]
  rfl

theorem Changed.body_wellFormed : r.component.body.wellFormed file.text = true :=
  (Component.wellFormed_of_mem_detect (component_of_mem h.member)).2.1

theorem Changed.declaration_mem : r.component.declaration ∈ file.source.statements :=
  (Component.site_of_mem_detect (component_of_mem h.member)).1

theorem Changed.body_in_declaration :
    r.component.declaration.span.Contains r.component.body.span := by
  have facts := Component.wellFormed_of_mem_detect (component_of_mem h.member)
  exact facts.2.2.2.trans facts.2.2.1

end Changed

/-- The components of a file are disjoint. -/
theorem recolorings_pairwise :
    (m.plan file).recolorings.Pairwise fun r q => Component.Precedes r.component q.component := by
  change ((Component.detect file.source m.wrappers _).map _).Pairwise _
  rw [List.pairwise_map]
  refine (Component.detect_pairwise file.source m.wrappers _).imp ?_
  intro c d order
  rw [Recoloring.settled_component, Recoloring.settled_component]
  exact order

/-! ## One list of edits -/

/-- What a pass over components has recorded: one list of edits for all of them, the counts of all
literals, and how many literals of each component it replaces. -/
structure Recording where
  edits : List Edit := []
  counts : LiteralCounts := {}
  replaced : List (Component × Nat) := []

namespace Recording

/-- Record the literals of a component, one after the other.  If the component turns out to be
blocked, the list of edits is cut back to where it was. -/
def step (p : Palette) (source : String) (b : BindingStatement) (s : Recording) (c : Component) :
    Recording :=
  let edits := c.literals.foldl (fun edits l => edits ++ (l.edit? p source).toList) s.edits
  let counts := c.literalCounts p source
  if counts.replaced > 0 && c.isBlocked source b then
    { edits := edits.take s.edits.length
      counts := s.counts + counts.withdraw
      replaced := s.replaced ++ [(c, 0)] }
  else
    { edits
      counts := s.counts + counts
      replaced := s.replaced ++ [(c, counts.replaced)] }

/-- A recording with what became of one more component. -/
def add (s : Recording) (r : Recoloring) : Recording where
  edits := s.edits ++ r.edits
  counts := s.counts + r.counts
  replaced := s.replaced ++ [(r.component, r.counts.replaced)]

/-- Cutting the list back leaves what a list of the component's own would leave. -/
theorem step_eq_add (p : Palette) (source : String) (b : BindingStatement) (s : Recording)
    (c : Component) :
    s.step p source b c = s.add ((Recoloring.ofComponent p source c).settled source b) := by
  have recorded : c.literals.foldl (fun edits l => edits ++ (l.edit? p source).toList) s.edits =
      s.edits ++ c.replacements p source := by
    rw [List.foldl_append_eq_append, Component.replacements, List.filterMap_eq_flatMap_toList,
      List.flatMap_def]
  by_cases withdrawn : ((c.literalCounts p source).replaced > 0 && c.isBlocked source b) = true
  · have left : (Recoloring.ofComponent p source c).settled source b =
        ⟨c, [], (c.literalCounts p source).withdraw⟩ := if_pos withdrawn
    rw [left, step, recorded]
    simp only [if_pos withdrawn, List.take_left, add, List.append_nil]
    rfl
  · have kept : (Recoloring.ofComponent p source c).settled source b =
        ⟨c, c.replacements p source, c.literalCounts p source⟩ := if_neg withdrawn
    rw [kept, step, recorded]
    exact if_neg withdrawn

theorem foldl_add (rs : List Recoloring) (s : Recording) :
    rs.foldl add s =
      { edits := s.edits ++ rs.flatMap (·.edits)
        counts := rs.foldl (fun n r => n + r.counts) s.counts
        replaced := s.replaced ++ rs.map fun r => (r.component, r.counts.replaced) } := by
  induction rs generalizing s with
  | nil => simp
  | cons r rs ih => simp [ih, add]

end Recording

/-- The edits of a file, its counts, and how much each component replaces are those of one pass
over the components that cuts its list of edits back for each blocked one. -/
theorem plan_recorded (m : Migration) (file : SourceFile) :
    let b := m.binding (m.imports file)
    let s := (Component.detect file.source m.wrappers b).foldl
      (Recording.step m.palette file.text b) {}
    (m.plan file).edits = s.edits ++ (m.plan file).synthesis.edits ∧
      (m.plan file).literals = s.counts ∧
      (m.plan file).recolorings.map (fun r => (r.component, r.counts.replaced)) = s.replaced := by
  intro b s
  have pass : s = (m.plan file).recolorings.foldl Recording.add {} := by
    have steps : Recording.step m.palette file.text b = fun s c =>
        s.add ((Recoloring.ofComponent m.palette file.text c).settled file.text b) := by
      funext s c
      exact Recording.step_eq_add m.palette file.text b s c
    change _ = ((Component.detect file.source m.wrappers b).map _).foldl _ _
    rw [List.foldl_map]
    simp only [s, steps]
    rfl
  rw [pass, Recording.foldl_add]
  exact ⟨rfl, rfl, rfl⟩

/-! ## Edits -/

/-- Where an edit of a file comes from. -/
inductive EditOrigin (m : Migration) (file : SourceFile) (e : Edit) : Prop
  | replacement (r : Recoloring) : Changed m file r →
      e ∈ r.component.replacements m.palette file.text → EditOrigin m file e
  | imported : (∃ r, Changed m file r) →
      (m.imports file).insertion? m.accessor file.path = some e → EditOrigin m file e
  | binding (r : Recoloring) : Changed m file r → r.component.hasBinding = false →
      e ∈ r.component.insertion file.text (m.binding (m.imports file)) → EditOrigin m file e

/-- The edit that imports the accessor, if a component is changed. -/
def importEdit? (m : Migration) (file : SourceFile) : Option Edit :=
  if ((m.plan file).recolorings.filter Recoloring.isEffective).isEmpty then none
  else (m.imports file).insertion? m.accessor file.path

/-- The changed components that have no binding yet. -/
def unbound (m : Migration) (file : SourceFile) : List Recoloring :=
  ((m.plan file).recolorings.filter Recoloring.isEffective).filter fun r => !r.component.hasBinding

theorem mem_changed {r : Recoloring} :
    r ∈ (m.plan file).recolorings.filter Recoloring.isEffective ↔ Changed m file r :=
  List.mem_filter.trans ⟨fun h => ⟨h.1, h.2⟩, fun h => ⟨h.member, h.isEffective⟩⟩

theorem importEdit?_eq_some_iff {e : Edit} :
    m.importEdit? file = some e ↔
      (∃ r, Changed m file r) ∧ (m.imports file).insertion? m.accessor file.path = some e := by
  rw [importEdit?]
  cases changed : (m.plan file).recolorings.filter Recoloring.isEffective with
  | nil =>
    rw [List.isEmpty_nil, if_pos rfl]
    constructor
    · intro none
      cases none
    · rintro ⟨⟨r, member⟩, _⟩
      rw [← mem_changed, changed] at member
      cases member
  | cons r rs =>
    rw [List.isEmpty_cons, if_neg Bool.false_ne_true]
    have member : Changed m file r := mem_changed.1 (changed ▸ List.mem_cons_self)
    exact ⟨fun found => ⟨⟨r, member⟩, found⟩, fun h => h.2⟩

theorem mem_unbound {r : Recoloring} :
    r ∈ m.unbound file ↔ Changed m file r ∧ r.component.hasBinding = false := by
  rw [unbound, List.mem_filter, mem_changed, Bool.not_eq_true']

theorem plan_edits_eq (m : Migration) (file : SourceFile) :
    (m.plan file).edits =
      (m.plan file).recolorings.flatMap (·.edits) ++
        ((m.importEdit? file).toList ++
          (m.unbound file).flatMap fun r =>
            r.component.insertion file.text (m.binding (m.imports file))) :=
  rfl

theorem mem_plan_edits_iff {e : Edit} : e ∈ (m.plan file).edits ↔ EditOrigin m file e := by
  rw [plan_edits_eq, List.mem_append, List.mem_append]
  constructor
  · rintro (replaced | imported | bound)
    · rcases List.mem_flatMap.1 replaced with ⟨r, member, planned⟩
      have changed := changed_of_mem_edits member planned
      exact .replacement r changed (changed.edits_eq ▸ planned)
    · have facts := importEdit?_eq_some_iff.1 (Option.mem_toList.1 imported)
      exact .imported facts.1 facts.2
    · rcases List.mem_flatMap.1 bound with ⟨r, member, inserted⟩
      have facts := mem_unbound.1 member
      exact .binding r facts.1 facts.2 inserted
  · intro origin
    cases origin with
    | replacement r changed member =>
      refine Or.inl (List.mem_flatMap.2 ⟨r, changed.member, ?_⟩)
      rw [changed.edits_eq]
      exact member
    | imported change found =>
      have imported := importEdit?_eq_some_iff.2 ⟨change, found⟩
      exact Or.inr (Or.inl (Option.mem_toList.2 imported))
    | binding r changed fresh member =>
      exact Or.inr (Or.inr (List.mem_flatMap.2 ⟨r, mem_unbound.2 ⟨changed, fresh⟩, member⟩))

end Migration

end ThemeMigration
