import Mathlib.Algebra.GroupWithZero.Nat
import ThemeMigration.Proofs.Migration.Idempotence
import ThemeMigration.Proofs.Migration.Inspection

/-!
# Every literal is accounted for

A string that is the value of a pair in the body of a component is counted once: as replaced, as
without a token, as ineligible, or as left alone in a blocked component.  What is counted as
replaced is what the applied edits replace.  A blocked component records no edit, and where nothing
is replaced nothing else is done.
-/

namespace ThemeMigration

open Script SyntaxTree

/-! ## Sums of counts -/

namespace LiteralCounts

/-- All literals that were dealt with. -/
def total (n : LiteralCounts) : Nat := n.replaced + n.unmapped + n.ineligible + n.conflicting

/-- A measure that adds up over two counts adds up over many. -/
theorem foldl_measure (measure : LiteralCounts → Nat)
    (additive : ∀ a b : LiteralCounts, measure (a + b) = measure a + measure b) {α : Type}
    (f : α → LiteralCounts) (xs : List α) (start : LiteralCounts) :
    measure (xs.foldl (fun n x => n + f x) start) =
      measure start + (xs.map fun x => measure (f x)).sum := by
  induction xs generalizing start with
  | nil => rfl
  | cons x xs ih => rw [List.foldl_cons, ih, additive, List.map_cons, List.sum_cons, Nat.add_assoc]

theorem total_add (a b : LiteralCounts) : (a + b).total = a.total + b.total := by
  change (a.replaced + b.replaced) + (a.unmapped + b.unmapped) + (a.ineligible + b.ineligible) +
    (a.conflicting + b.conflicting) = _
  rw [total, total]
  omega

theorem total_withdraw (n : LiteralCounts) : n.withdraw.total = n.total := by
  simp only [total, withdraw]
  omega

end LiteralCounts

namespace Component

variable (c : Component) (p : Palette) (source : String)

/-- Each literal of a component is counted once. -/
theorem literalCounts_total : (c.literalCounts p source).total = c.literals.length := by
  have one : ∀ v : Verdict, v.counts.total = 1 := fun v => by cases v <;> rfl
  rw [literalCounts, LiteralCounts.foldl_measure _ LiteralCounts.total_add]
  simp only [one, List.map_const', List.sum_replicate_nat, Nat.mul_one]
  exact Nat.zero_add _

theorem literalCounts_conflicting : (c.literalCounts p source).conflicting = 0 := by
  have none : ∀ v : Verdict, v.counts.conflicting = 0 := fun v => by cases v <;> rfl
  rw [literalCounts,
    LiteralCounts.foldl_measure LiteralCounts.conflicting fun _ _ => rfl]
  simp only [none, List.map_const', List.sum_replicate_nat, Nat.mul_zero]

end Component

namespace Migration

variable {m : Migration} {file : SourceFile}

namespace Recoloring

variable (p : Palette) (source : String) (b : BindingStatement) (c : Component)

/-- Leaving a component alone moves its literals to another count. -/
theorem settled_total :
    ((ofComponent p source c).settled source b).counts.total = c.literals.length := by
  rw [settled_counts, ← Component.literalCounts_total c p source]
  split
  · exact LiteralCounts.total_withdraw _
  · rfl

/-- The literals that are counted as replaced are those with an edit. -/
theorem settled_replaced :
    ((ofComponent p source c).settled source b).counts.replaced =
      ((ofComponent p source c).settled source b).edits.length := by
  rcases settled_cases p source b c with ⟨_, changes⟩ | ⟨still, none, _⟩
  · rw [changes.eq]
    exact Component.literalCounts_replaced _ p source
  · rw [none]
    exact Nat.eq_zero_of_not_pos (of_decide_eq_false still)

/-- A blocked component counts what it would have replaced, and other components count no
conflict. -/
theorem settled_conflicting :
    ((ofComponent p source c).settled source b).counts.conflicting =
      if c.isBlocked source b then (c.replacements p source).length else 0 := by
  have counted := Component.literalCounts_replaced c p source
  have none := Component.literalCounts_conflicting c p source
  rw [settled_counts]
  cases c.isBlocked source b with
  | false => simpa using none
  | true =>
    by_cases some : 0 < (c.literalCounts p source).replaced
    · rw [if_pos ⟨some, rfl⟩, LiteralCounts.withdraw, none, counted, Nat.zero_add]
      rfl
    · rw [if_neg fun both => some both.1, none, if_pos rfl, ← counted]
      omega

/-- A component records its replacements, and a blocked one none. -/
theorem settled_edits :
    ((ofComponent p source c).settled source b).edits =
      if c.isBlocked source b then [] else c.replacements p source := by
  rcases settled_cases p source b c with ⟨_, changes⟩ | ⟨_, none, blocked | empty⟩
  · have same : ((ofComponent p source c).settled source b).component = c := settled_component _
    have free := changes.free
    have eq := changes.eq
    rw [same] at free eq
    rw [eq, free]
    rfl
  · rw [none, if_pos blocked]
  · rw [none, empty, ite_self]

end Recoloring

/-! ## The strings that are counted -/

/-- The node is a string that is the value of a pair in the body. -/
def IsPropertyString (body x : SyntaxTree) : Prop :=
  ∃ pair, Reaches body pair ∧ pair.kind = .pair ∧ pair.part? .value = some x ∧ x.kind = .string

/-- The components of a file. -/
def components (m : Migration) (file : SourceFile) : List Component :=
  Component.detect file.source m.wrappers (m.binding (m.imports file))

/-- The strings that are values of pairs in the bodies of a file's components. -/
def propertyStrings (m : Migration) (file : SourceFile) : List SyntaxTree :=
  (m.components file).flatMap fun c => c.literals.map (·.literal)

/-- The edits that are recorded for some components, one after the other. -/
def recorded (m : Migration) (file : SourceFile) (cs : List Component) : List Edit :=
  cs.flatMap fun c => ((Recoloring.ofComponent m.palette file.text c).settled file.text
    (m.binding (m.imports file))).edits

theorem isPropertyString_iff {body x : SyntaxTree} {source : String}
    (h : body.wellFormed source = true) :
    IsPropertyString body x ↔ ∃ l ∈ PropertyLiteral.inside body, l.literal = x := by
  constructor
  · rintro ⟨pair, reached, kind, value, string⟩
    have inner := (wellFormed_occurs h reached.occurs).1
    have part := (part?_eq_some_iff inner).1 value
    exact ⟨⟨pair, x⟩, (PropertyLiteral.mem_inside_iff h).2
      ⟨reached.occurs, kind, part.1, part.2, string⟩, rfl⟩
  · rintro ⟨l, member, rfl⟩
    rcases (PropertyLiteral.mem_inside_iff h).1 member with ⟨below, value⟩
    have inner := (wellFormed_occurs h below).1
    exact ⟨l.property, reaches_of_occurs h below (by rw [value.kind]; rfl), value.kind,
      (part?_eq_some_iff inner).2 ⟨value.member, value.label⟩, value.isString⟩

theorem mem_propertyStrings_iff {x : SyntaxTree} :
    x ∈ m.propertyStrings file ↔ ∃ c ∈ m.components file, IsPropertyString c.body x := by
  rw [propertyStrings, List.mem_flatMap]
  refine exists_congr fun c => and_congr_right fun member => ?_
  rw [isPropertyString_iff (Component.wellFormed_of_mem_detect member).2.1, List.mem_map]
  rfl

theorem propertyString_nonempty {x : SyntaxTree} (h : x ∈ m.propertyStrings file) :
    x.start < x.stop := by
  rcases List.mem_flatMap.1 h with ⟨c, member, found⟩
  rcases List.mem_map.1 found with ⟨l, inBody, rfl⟩
  exact PropertyLiteral.literal_nonempty (Component.wellFormed_of_mem_detect member).2.1 inBody

/-- No string is counted for two components or twice for one, since the strings follow one another
in the text. -/
theorem propertyStrings_nodup (m : Migration) (file : SourceFile) :
    (m.propertyStrings file).Nodup := by
  have order : (m.propertyStrings file).Pairwise fun x y => x.stop ≤ y.start := by
    rw [propertyStrings, List.pairwise_flatMap]
    constructor
    · intro c member
      rw [List.pairwise_map]
      exact PropertyLiteral.inside_pairwise c.body (Component.wellFormed_of_mem_detect member).2.1
    · refine (Component.detect_pairwise file.source m.wrappers _).imp_of_mem ?_
      intro c d first second between x inFirst y inSecond
      rcases List.mem_map.1 inFirst with ⟨l, inC, rfl⟩
      rcases List.mem_map.1 inSecond with ⟨k, inD, rfl⟩
      have left := Component.wellFormed_of_mem_detect first
      have right := Component.wellFormed_of_mem_detect second
      have before := (left.2.2.1.trans (PropertyLiteral.span_contains_literal left.2.1 inC)).2
      have behind := (right.2.2.1.trans (PropertyLiteral.span_contains_literal right.2.1 inD)).1
      exact Nat.le_trans before (Nat.le_trans between behind)
  refine order.imp_of_mem ?_
  rintro x y member _ between rfl
  exact Nat.not_le_of_lt (propertyString_nonempty member) between

/-! ## The edits that replace them -/

/-- Whether an edit covers one of the counted strings. -/
def replacesString (m : Migration) (file : SourceFile) (e : Edit) : Bool :=
  (m.propertyStrings file).any fun x => x.span == e.span

theorem recorded_components (m : Migration) (file : SourceFile) :
    m.recorded file (m.components file) = (m.plan file).recolorings.flatMap (·.edits) :=
  (List.flatMap_map _ _ _).symm

theorem replacesString_of_recorded {e : Edit}
    (member : e ∈ (m.plan file).recolorings.flatMap (·.edits)) :
    m.replacesString file e = true := by
  rcases List.mem_flatMap.1 member with ⟨r, planned, inEdits⟩
  have changed := changed_of_mem_edits planned inEdits
  rw [changed.edits_eq] at inEdits
  rcases Component.exists_literal_of_mem_replacements inEdits with ⟨l, found, _, span⟩
  refine List.any_eq_true.2 ⟨l.literal, ?_, beq_iff_eq.2 span.symm⟩
  exact List.mem_flatMap.2 ⟨r.component, component_of_mem planned, List.mem_map.2 ⟨l, found, rfl⟩⟩

/-- What the import and the bindings need only inserts. -/
theorem span_of_synthesis {e : Edit} (member : e ∈ (m.plan file).synthesis.edits) :
    e.span.start = e.span.stop := by
  rcases List.mem_append.1 member with imported | bound
  · have facts := importEdit?_eq_some_iff.1 (Option.mem_toList.1 imported)
    rcases import_place facts.1 facts.2 with ⟨offset, replacement, rfl, _⟩
    rfl
  · rcases List.mem_flatMap.1 bound with ⟨r, taking, inserted⟩
    have changed := (mem_unbound.1 taking).1
    rcases Component.insertion_at_node changed.body_wellFormed changed.literals_ne_nil inserted with
      ⟨_, offset, replacement, rfl, _⟩
    rfl

theorem not_replacesString_of_synthesis {e : Edit}
    (member : e ∈ (m.plan file).synthesis.edits) : ¬ m.replacesString file e = true := by
  intro replaces
  rcases List.any_eq_true.1 replaces with ⟨x, counted, same⟩
  have room := propertyString_nonempty counted
  rw [SyntaxTree.start, SyntaxTree.stop, beq_iff_eq.1 same, span_of_synthesis member] at room
  exact Nat.lt_irrefl _ room

/-- The applied edits that cover a counted string are the recorded ones. -/
theorem filter_applied_perm (m : Migration) (file : SourceFile) :
    ((m.applied file).filter (m.replacesString file)).Perm
      (m.recorded file (m.components file)) := by
  rw [applied_eq_sorted]
  refine ((Edit.sorted_perm (m.plan file).edits).filter (m.replacesString file)).trans
    (List.Perm.of_eq ?_)
  rw [Plan.edits, List.filter_append,
    List.filter_eq_self.2 fun _ member => replacesString_of_recorded member,
    List.filter_eq_nil_iff.2 fun _ member => not_replacesString_of_synthesis member,
    List.append_nil, recorded_components]

/-! ## The counts of a file -/

theorem literals_measure (measure : LiteralCounts → Nat)
    (additive : ∀ a b : LiteralCounts, measure (a + b) = measure a + measure b)
    (zero : measure {} = 0) (m : Migration) (file : SourceFile) :
    measure (m.plan file).literals =
      ((m.plan file).recolorings.map fun r => measure r.counts).sum := by
  rw [Plan.literals, LiteralCounts.foldl_measure measure additive, zero, Nat.zero_add]

theorem recolorings_eq (m : Migration) (file : SourceFile) :
    (m.plan file).recolorings = (m.components file).map fun c =>
      (Recoloring.ofComponent m.palette file.text c).settled file.text
        (m.binding (m.imports file)) :=
  rfl

theorem literals_total (m : Migration) (file : SourceFile) :
    (m.plan file).literals.total = (m.propertyStrings file).length := by
  rw [literals_measure _ LiteralCounts.total_add rfl, recolorings_eq, List.map_map, propertyStrings,
    List.length_flatMap]
  refine congrArg List.sum (List.map_congr_left fun c _ => ?_)
  rw [List.length_map]
  exact Recoloring.settled_total m.palette file.text _ c

theorem literals_replaced (m : Migration) (file : SourceFile) :
    (m.plan file).literals.replaced = (m.recorded file (m.components file)).length := by
  rw [literals_measure LiteralCounts.replaced (fun _ _ => rfl) rfl, recolorings_eq,
    List.map_map, recorded, List.length_flatMap]
  exact congrArg List.sum (List.map_congr_left fun c _ =>
    Recoloring.settled_replaced m.palette file.text _ c)

theorem literals_conflicting (m : Migration) (file : SourceFile) :
    (m.plan file).literals.conflicting =
      (((m.components file).filter (·.isBlocked file.text (m.binding (m.imports file)))).map
        fun c => (c.replacements m.palette file.text).length).sum := by
  rw [literals_measure LiteralCounts.conflicting (fun _ _ => rfl) rfl, recolorings_eq,
    List.map_map]
  have each := Recoloring.settled_conflicting m.palette file.text (m.binding (m.imports file))
  simp only [Function.comp_def, each]
  induction m.components file with
  | nil => rfl
  | cons c cs ih =>
    rw [List.map_cons, List.sum_cons, ih, List.filter_cons]
    split
    · rw [List.map_cons, List.sum_cons]
    · rw [Nat.zero_add]

/-- The counts of a file are exact.  All of them together are the strings that are values of pairs
in the bodies of its components, each string once.  As many are counted as replaced as the
components keep for themselves in the end, and as many of the applied edits cover one of those
strings.  The conflicts are what the blocked components would have replaced.  A component puts its
replacements behind the edits that were recorded before it, and a blocked one puts nothing there.
Where nothing is replaced there is no new text and nothing is imported, bound or pruned. -/
theorem literals_accounted (m : Migration) (file : SourceFile) :
    let b := m.binding (m.imports file)
    let outcome := m.transform file
    let n := outcome.counts.literals
    (∃ strings : List SyntaxTree, strings.Nodup ∧
        (∀ x, x ∈ strings ↔ ∃ c ∈ m.components file, IsPropertyString c.body x) ∧
        n.replaced + n.unmapped + n.ineligible + n.conflicting = strings.length ∧
        n.replaced =
          ((m.applied file).filter fun e => strings.any fun x => x.span == e.span).length) ∧
      n.replaced = ((m.plan file).recolorings.map fun r => r.counts.replaced).sum ∧
      n.conflicting = (((m.components file).filter (·.isBlocked file.text b)).map fun c =>
        (c.replacements m.palette file.text).length).sum ∧
      (m.plan file).edits =
        m.recorded file (m.components file) ++ (m.plan file).synthesis.edits ∧
      (∀ front c, m.recorded file (front ++ [c]) =
        m.recorded file front ++
          if c.isBlocked file.text b then [] else c.replacements m.palette file.text) ∧
      (n.replaced = 0 → outcome.text = none ∧ outcome.counts.importAdded = false ∧
        outcome.counts.bindingsInserted = 0 ∧ outcome.counts.importsRemoved = 0) := by
  intro b outcome n
  have counts : n = (m.plan file).literals := literals_of_transform m file
  refine ⟨⟨m.propertyStrings file, propertyStrings_nodup m file, fun _ => mem_propertyStrings_iff,
    ?_, ?_⟩, ?_, ?_, ?_, ?_, ?_⟩
  · rw [counts]
    exact literals_total m file
  · rw [counts, literals_replaced]
    exact (filter_applied_perm m file).length_eq.symm
  · rw [counts, literals_measure LiteralCounts.replaced (fun _ _ => rfl) rfl]
  · rw [counts]
    exact literals_conflicting m file
  · rw [recorded_components]
    rfl
  · intro front c
    rw [recorded, List.flatMap_append, List.flatMap_singleton, Recoloring.settled_edits]
    rfl
  · intro zero
    rw [counts] at zero
    have nothing : outcome = _ := transform_of_zero zero
    rw [nothing]
    exact ⟨rfl, rfl, rfl, rfl⟩

/-- A component whose parameter takes the name of the binding keeps its literal, although the
literal has a token. -/
theorem literals_accounted_blocked :
    let text := "function Card(theme)\x7breturn\x7bcolor:'#fff'\x7d\x7d"
    ∃ file, SourceFile.ofText ⟨"/project/src/Card.tsx"⟩ text = .ok file ∧
      (standard.transform file).counts.literals.replaced = 0 ∧
      (standard.transform file).counts.literals.conflicting = 1 ∧
      (standard.transform file).text = none ∧
      (standard.transform file).counts.importAdded = false := by
  intro text
  have facts : (SourceFile.ofText ⟨"/project/src/Card.tsx"⟩ text).toOption.any (fun file =>
      (standard.transform file).counts.literals == { conflicting := 1 }) = true := by
    rw [standard_eq]
    decide +kernel
  rcases exists_ofText facts with ⟨file, read, counted⟩
  have counts := beq_iff_eq.1 counted
  have zero : (standard.transform file).counts.literals.replaced = 0 := by rw [counts]
  have nothing := (literals_accounted standard file).2.2.2.2.2 zero
  exact ⟨file, read, zero, by rw [counts], nothing.1, nothing.2.1⟩

end Migration

end ThemeMigration
