import Mathlib.Algebra.GroupWithZero.Nat
import ThemeMigration.Proofs.Component.Detection
import ThemeMigration.Proofs.Edits.Order
import ThemeMigration.Proofs.Migration.Inspection
import ThemeMigration.Proofs.Pruning.Narrowing
import ThemeMigration.Proofs.Script.Equality

/-!
# Exactly the stale names go

Every import statement is dealt with on its own: it stays, it goes with its line break, or it is
written anew without its stale names.  The edits follow one another, since a statement begins with
its keyword and no line break does, so none of them is dropped and the text between them stays.
-/

namespace ThemeMigration

namespace Text

/-- A piece stands behind a beginning of the text exactly if the rest begins with it. -/
theorem standsAt_size_iff {before after piece : String} :
    StandsAt (before ++ after) before.utf8ByteSize piece ↔ ∃ rest, after = piece ++ rest := by
  constructor
  · rintro ⟨first, rest, split, size⟩
    rw [String.append_assoc] at split
    rcases exists_append_of_append_eq split (Nat.le_of_eq size.symm) with ⟨m, longer, same⟩
    have empty : m = "" := by
      rw [← String.utf8ByteSize_eq_zero_iff]
      have sizes := congrArg String.utf8ByteSize longer
      rw [String.utf8ByteSize_append] at sizes
      omega
    subst empty
    exact ⟨rest, by simpa using same⟩
  · rintro ⟨rest, rfl⟩
    exact ⟨before, rest, (String.append_assoc).symm, rfl⟩

end Text

open Script SyntaxTree

namespace Pruning

/-! ## Line breaks -/

/-- What stands right behind an offset as a line break, if anything does. -/
inductive LineBreak (text : String) (offset : Nat) : String → Prop
  | returned : Text.StandsAt text offset "\r\n" → LineBreak text offset "\r\n"
  | plain : Text.StandsAt text offset "\n" → LineBreak text offset "\n"
  | none : ¬ Text.StandsAt text offset "\r\n" → ¬ Text.StandsAt text offset "\n" →
      LineBreak text offset ""

variable {text lineBreak : String} {offset : Nat}

theorem LineBreak.standsAt (h : LineBreak text offset lineBreak)
    (boundary : Text.isBoundary text offset = true) : Text.StandsAt text offset lineBreak := by
  cases h with
  | returned stands => exact stands
  | plain stands => exact stands
  | none =>
    rcases Text.isBoundary_iff.1 boundary with ⟨before, after, split, size⟩
    exact ⟨before, after, by rw [split]; simp, size⟩

/-- No keyword begins in a line break. -/
theorem LineBreak.le_of_keyword (h : LineBreak text offset lineBreak)
    (boundary : Text.isBoundary text offset = true) {start : Nat} (le : offset ≤ start)
    (keyword : Text.StandsAt text start "import") : offset + lineBreak.utf8ByteSize ≤ start := by
  have noLetter : 'i' ∉ lineBreak.toList := by cases h <;> decide
  rw [← Nat.not_lt]
  intro within
  rcases h.standsAt boundary with ⟨x, y, split, rfl⟩
  rcases keyword with ⟨x', z, split', rfl⟩
  rw [String.append_assoc] at split split'
  rcases Text.exists_append_of_append_eq (split.symm.trans split') le with ⟨m, rfl, rest⟩
  rw [String.utf8ByteSize_append, Nat.add_lt_add_iff_left] at within
  rcases Text.exists_append_of_append_eq rest.symm (Nat.le_of_lt within) with ⟨k, rfl, same⟩
  -- What is left of the line break begins with the first letter of the keyword.
  refine noLetter ?_
  rw [String.toList_append]
  refine List.mem_append_right _ ?_
  have lists := congrArg String.toList same
  rw [String.toList_append, String.toList_append] at lists
  cases inside : k.toList with
  | nil =>
    have empty : k = "" := String.toList_inj.1 (by simpa using inside)
    rw [empty] at within
    simp at within
  | cons c cs =>
    rw [inside] at lists
    have letters : 'i' :: ("mport".toList ++ z.toList) = c :: (cs ++ y.toList) := lists
    rw [(List.cons.inj letters).1]
    exact List.mem_cons_self

/-- A statement is removed with the line break behind it. -/
theorem statementWithBreak_eq {source : String} {t : SyntaxTree}
    (boundary : Text.isBoundary source t.stop = true) :
    ∃ lineBreak, LineBreak source t.stop lineBreak ∧
      statementWithBreak source t = ⟨t.start, t.stop + lineBreak.utf8ByteSize⟩ := by
  rcases Text.isBoundary_iff.1 boundary with ⟨before, after, rfl, size⟩
  have behind : Text.sliceFrom (before ++ after) t.stop = after := by
    rw [← size]
    exact Text.sliceFrom_append before after
  have stands : ∀ piece, Text.StandsAt (before ++ after) t.stop piece ↔
      ∃ rest, after.toList = piece.toList ++ rest := by
    intro piece
    rw [← size, Text.standsAt_size_iff]
    constructor
    · rintro ⟨rest, rfl⟩
      exact ⟨rest.toList, String.toList_append⟩
    · rintro ⟨rest, same⟩
      exact ⟨String.ofList rest, String.toList_inj.1 (by simpa using same)⟩
  unfold statementWithBreak
  rw [behind]
  split
  · rename_i rest both
    exact ⟨"\r\n", .returned ((stands _).2 ⟨rest, both⟩), rfl⟩
  · rename_i rest both
    exact ⟨"\n", .plain ((stands _).2 ⟨rest, both⟩), rfl⟩
  · rename_i returned plain
    refine ⟨"", .none ?_ ?_, rfl⟩
    · intro found
      rcases (stands _).1 found with ⟨rest, same⟩
      exact returned rest same
    · intro found
      rcases (stands _).1 found with ⟨rest, same⟩
      exact plain rest same

/-! ## Stale names -/

/-- The name of the binding was referred to before, and is not referred to any more. -/
def Stale (before : List String) (s : Source) (b : SyntaxTree × SyntaxTree) : Prop :=
  0 < before.count (s.textOf b.1) ∧ (References.names s).count (s.textOf b.1) = 0

instance (before : List String) (s : Source) (b : SyntaxTree × SyntaxTree) :
    Decidable (Stale before s b) := inferInstanceAs (Decidable (_ ∧ _))

def staleBindings (before : List String) (s : Source) (t : SyntaxTree) :
    List (SyntaxTree × SyntaxTree) :=
  (Imports.bindings t).filter fun b => Stale before s b

def keptBindings (before : List String) (s : Source) (t : SyntaxTree) :
    List (SyntaxTree × SyntaxTree) :=
  (Imports.bindings t).filter fun b => !decide (Stale before s b)

/-- The bindings whose names are stale as they are looked at. -/
def outdated (before : List String) (s : Source) (t : SyntaxTree) :
    List (SyntaxTree × SyntaxTree) :=
  (Imports.bindings t).filter fun b => isStale before (References.names s) (lookedAt s b)

/-- The bindings whose names are not stale as they are looked at. -/
def spared (before : List String) (s : Source) (t : SyntaxTree) :
    List (SyntaxTree × SyntaxTree) :=
  (Imports.bindings t).filter fun b => !isStale before (References.names s) (lookedAt s b)

variable {before : List String} {s : Source} {t : SyntaxTree}

theorem isStale_importedName (b : SyntaxTree × SyntaxTree) :
    isStale before (References.names s) (importedName s b) = decide (Stale before s b) := by
  rw [Bool.eq_iff_iff, decide_eq_true_eq, isStale, Bool.and_eq_true, Stale, List.count_pos_iff,
    List.count_eq_zero]
  simp [importedName]

theorem length_outdated_add_spared (before : List String) (s : Source) (t : SyntaxTree) :
    (outdated before s t).length + (spared before s t).length = (Imports.bindings t).length := by
  rw [outdated, spared, ← List.countP_eq_length_filter, ← List.countP_eq_length_filter,
    List.length_eq_countP_add_countP fun b =>
      isStale before (References.names s) (lookedAt s b)]
  simp

/-! ## Statement by statement -/

/-- What becomes of an import statement: without stale names it stays, with nothing else it goes
together with the line break behind it, and otherwise it gives way to a statement that binds the
names that are kept. -/
inductive Repaired (before : List String) (s : Source) (t : SyntaxTree) : Option Edit → Prop
  | left : staleBindings before s t = [] → Repaired before s t none
  | removed {lineBreak : String} : staleBindings before s t ≠ [] →
      keptBindings before s t = [] → LineBreak s.text t.stop lineBreak →
        Repaired before s t (some (.replace ⟨t.start, t.stop + lineBreak.utf8ByteSize⟩ ""))
  | narrowed {replacement : String} : staleBindings before s t ≠ [] →
      keptBindings before s t ≠ [] →
      (∀ new start, Text.StandsAt new start replacement →
        (narrowed s t (keptBindings before s t) start).text new = replacement ∧
          Rebinds s t (keptBindings before s t) new
            (narrowed s t (keptBindings before s t) start)) →
        Repaired before s t (some (.replace t.span replacement))

/-- The new statement is made of texts, which do not depend on how a name is looked at. -/
theorem rebuilt_lookedAt (kept : List (SyntaxTree × SyntaxTree)) :
    rebuilt s t (kept.map (lookedAt s)) = rebuilt s t (kept.map (importedName s)) := by
  have texts : ∀ form : ImportForm,
      ((kept.map (lookedAt s)).filter fun n => n.form == form).map (·.text) =
        ((kept.map (importedName s)).filter fun n => n.form == form).map (·.text) := by
    intro form
    rw [List.filter_map, List.filter_map, List.map_map, List.map_map]
    rfl
  simp only [rebuilt, texts]

theorem pruneStatement?_eq_of_form (form : isInForm s t = true)
    (unrequired : Imports.requiredNames t = []) :
    pruneStatement? before (References.names s) s t =
      if outdated before s t = [] then none
      else if spared before s t = [] then
        some (.replace (statementWithBreak s.text t) "", (outdated before s t).length)
      else
        some (.replace t.span (rebuilt s t ((spared before s t).map (importedName s))),
          (outdated before s t).length) := by
  have names := importedNames_eq_map_lookedAt form unrequired
  have number : (importedNames s t).countP (isStale before (References.names s)) =
      (outdated before s t).length := by
    rw [names, List.countP_map, outdated, ← List.countP_eq_length_filter]
    rfl
  have kept : ((importedNames s t).filter fun n => !isStale before (References.names s) n) =
      (spared before s t).map (lookedAt s) := by
    rw [names, List.filter_map]
    rfl
  have none : (outdated before s t).length = (importedNames s t).length ↔
      spared before s t = [] := by
    rw [names, List.length_map, ← length_outdated_add_spared before s t,
      ← List.length_eq_zero_iff]
    omega
  unfold pruneStatement?
  dsimp only
  rw [number, kept, rebuilt_lookedAt]
  simp only [beq_iff_eq, List.length_eq_zero_iff, none]

section Statement

variable (form : isInForm s t = true) (legible : isLegible t = true)

include form legible

theorem isStale_lookedAt {b : SyntaxTree × SyntaxTree} (h : b ∈ Imports.bindings t) :
    isStale before (References.names s) (lookedAt s b) = decide (Stale before s b) := by
  rw [lookedAt_of_legible form legible h, isStale_importedName]

theorem outdated_eq : outdated before s t = staleBindings before s t :=
  List.filter_congr fun _ member => isStale_lookedAt form legible member

theorem spared_eq : spared before s t = keptBindings before s t :=
  List.filter_congr fun _ member => congrArg not (isStale_lookedAt form legible member)

theorem pruneStatement?_eq :
    pruneStatement? before (References.names s) s t =
      if staleBindings before s t = [] then none
      else if keptBindings before s t = [] then
        some (.replace (statementWithBreak s.text t) "", (staleBindings before s t).length)
      else
        some (.replace t.span (rebuilt s t ((keptBindings before s t).map (importedName s))),
          (staleBindings before s t).length) := by
  rw [pruneStatement?_eq_of_form form (unrequired_of_legible legible), outdated_eq form legible,
    spared_eq form legible]

/-- The number of names removed from a statement counts the stale ones. -/
theorem removed_of_pruneStatement? :
    ((pruneStatement? before (References.names s) s t).map (·.2)).getD 0 =
      (staleBindings before s t).length := by
  rw [pruneStatement?_eq form legible]
  split
  · rename_i none
    rw [none]
    rfl
  · split <;> rfl

theorem pruneStatement?_eq_none_iff :
    pruneStatement? before (References.names s) s t = none ↔ staleBindings before s t = [] := by
  rw [pruneStatement?_eq form legible]
  split
  · rename_i none
    exact iff_of_true rfl none
  · rename_i some
    refine iff_of_false ?_ some
    split <;> exact Option.some_ne_none _

theorem repaired_pruneStatement? (wellFormed : t.wellFormed s.text = true)
    (isImport : t.kind = .importStatement) :
    Repaired before s t ((pruneStatement? before (References.names s) s t).map (·.1)) := by
  rw [pruneStatement?_eq form legible]
  split
  · rename_i none
    exact .left none
  · rename_i some
    split
    · rename_i all
      rcases statementWithBreak_eq (stop_boundary wellFormed) with ⟨lineBreak, stands, span⟩
      rw [Option.map_some, span]
      exact .removed some all stands
    · rename_i rest
      rcases List.exists_mem_of_ne_nil _ rest with ⟨b, member⟩
      exact .narrowed some rest fun new start written => ⟨written.slice_eq,
        rebinds_filtered form (unrequired_of_legible legible) wellFormed isImport
          (List.mem_filter.1 member).1 _ written⟩

end Statement

/-! ## All edits -/

theorem start_lt_stop_of_inForm (wellFormed : t.wellFormed s.text = true)
    (form : isInForm s t = true) : t.start < t.stop := by
  have begins := List.isPrefixOf_iff_prefix.1 (Bool.and_eq_true_iff.1 form).1
  have size : (s.textOf t).utf8ByteSize = t.stop - t.start := size_text wellFormed
  rw [← Nat.sub_pos_iff_lt, ← size, Nat.pos_iff_ne_zero, ne_eq, String.utf8ByteSize_eq_zero_iff]
  intro empty
  rw [empty] at begins
  exact absurd begins (by decide)

theorem keyword_of_inForm (wellFormed : t.wellFormed s.text = true)
    (form : isInForm s t = true) : Text.StandsAt s.text t.start "import" := by
  rcases Text.exists_pieces (start_boundary wellFormed) (stop_boundary wellFormed)
    (start_le_stop wellFormed) with ⟨before, middle, after, split, size, ends⟩
  have text : s.textOf t = middle := by
    change Text.slice s.text t.start t.stop = middle
    rw [split, ← ends, ← size]
    exact Text.slice_append before middle after
  have begins := List.isPrefixOf_iff_prefix.1 (Bool.and_eq_true_iff.1 form).1
  rcases begins with ⟨rest, same⟩
  rw [text] at same
  have whole : middle = "import" ++ String.ofList rest := by
    apply String.toList_inj.1
    rw [String.toList_append, ← same]
    simp
  have stands : Text.StandsAt s.text t.start ("import" ++ String.ofList rest) :=
    ⟨before, after, by rw [← whole, split], size⟩
  exact stands.left

theorem span_of_pruneStatement? {after : List String} {e : Edit}
    (found : (pruneStatement? before after s t).map (·.1) = some e) :
    e.span = t.span ∨ e.span = statementWithBreak s.text t := by
  unfold pruneStatement? at found
  dsimp only at found
  split_ifs at found <;> cases found
  · exact Or.inr rfl
  · exact Or.inl rfl

/-- The edit of a statement begins where the statement does and ends before the next one. -/
theorem placed_of_pruneStatement? {after : List String} {e : Edit}
    (found : (pruneStatement? before after s t).map (·.1) = some e)
    (wellFormed : t.wellFormed s.text = true) :
    e.span.start = t.start ∧ e.Sound s.text ∧
      ∀ start, t.stop ≤ start → Text.StandsAt s.text start "import" → e.span.stop ≤ start := by
  have boundary := stop_boundary wellFormed
  rcases span_of_pruneStatement? found with span | span
  · rw [span]
    refine ⟨rfl, ⟨?_, ?_, ?_⟩, fun start le _ => le⟩ <;> rw [span]
    · exact start_le_stop wellFormed
    · exact start_boundary wellFormed
    · exact boundary
  · rcases statementWithBreak_eq boundary with ⟨lineBreak, stands, place⟩
    rw [place] at span
    rw [span]
    refine ⟨rfl, ⟨?_, ?_, ?_⟩, fun start le keyword => stands.le_of_keyword boundary le keyword⟩ <;>
      rw [span]
    · exact Nat.le_trans (start_le_stop wellFormed) (Nat.le_add_right _ _)
    · exact start_boundary wellFormed
    · rcases stands.standsAt boundary with ⟨x, y, split, size⟩
      rw [split]
      refine Text.isBoundary_iff.2 ⟨_, y, rfl, ?_⟩
      rw [String.utf8ByteSize_append, size]

/-- What becomes of the import statements of a script. -/
def repairs (before : List String) (s : Source) : List (Option Edit) :=
  (s.statements.filter Imports.isImport).map fun t =>
    (pruneStatement? before (References.names s) s t).map (·.1)

theorem edits_eq_repairs (before : List String) (s : Source) :
    ((s.statements.filter Imports.isImport).filterMap
      (pruneStatement? before (References.names s) s)).map (·.1) =
        (repairs before s).reduceOption := by
  change _ = (repairs before s).filterMap id
  rw [List.map_filterMap, repairs, List.filterMap_map]
  rfl

/-- Nothing is done without an edit; otherwise all edits are made. -/
theorem prune?_eq (before : List String) (s : Source) :
    prune? before s =
      if (repairs before s).reduceOption = [] then none
      else some (Edit.applyAll s.text (repairs before s).reduceOption,
        ((s.statements.filter Imports.isImport).filterMap
          (pruneStatement? before (References.names s) s)).foldr (fun p n => p.2 + n) 0) := by
  rw [← edits_eq_repairs, prune?]
  simp only [List.map_eq_nil_iff]
  split
  · rename_i none
    rw [if_pos none]
  · rename_i some
    rw [if_neg some]

theorem placed_of_mem (member : t ∈ s.statements.filter Imports.isImport) {e : Edit}
    (found : (pruneStatement? before (References.names s) s t).map (·.1) = some e) :
    e.span.start = t.start ∧ e.Sound s.text ∧
      ∀ start, t.stop ≤ start → Text.StandsAt s.text start "import" → e.span.stop ≤ start :=
  placed_of_pruneStatement? found (Component.wellFormed_statement (List.mem_filter.1 member).1)

theorem repairs_sound : ∀ e ∈ (repairs before s).reduceOption, e.Sound s.text := by
  intro e member
  rcases List.mem_filterMap.1 member with ⟨repair, inRepairs, same⟩
  rcases List.mem_map.1 inRepairs with ⟨t, inImports, found⟩
  rw [id, ← found] at same
  exact (placed_of_mem inImports same).2.1

section Script

variable (form : ∀ t ∈ s.statements, Imports.isImport t = true → isInForm s t = true)

include form

/-- The edits follow one another. -/
theorem repairs_pairwise :
    (repairs before s).reduceOption.Pairwise fun e f => e.span.stop ≤ f.span.start := by
  change ((repairs before s).filterMap id).Pairwise _
  rw [repairs, List.filterMap_map, List.pairwise_filterMap]
  refine ((Component.statements_pairwise s).filter Imports.isImport).imp_of_mem ?_
  intro t u first second order e found f found'
  rcases List.mem_filter.1 second with ⟨inScript, isImport⟩
  have begins := placed_of_mem second found'
  rw [begins.1]
  exact (placed_of_mem first found).2.2 u.start order
    (keyword_of_inForm (Component.wellFormed_statement inScript) (form u inScript isImport))

theorem repairs_precede :
    (repairs before s).reduceOption.Pairwise fun e f => e.precedes f = true := by
  refine (repairs_pairwise form).imp_of_mem ?_
  intro e f first second order
  have sound := repairs_sound e first
  have sound' := repairs_sound f second
  have := sound.start_le_stop
  have := sound'.start_le_stop
  exact Edit.precedes_iff.2 (by omega)

theorem repairs_ordered :
    Edit.Ordered s.text 0 s.text.utf8ByteSize (repairs before s).reduceOption :=
  Edit.ordered_of_pairwise (Nat.zero_le _) (fun _ _ => Nat.zero_le _) repairs_sound
    ((repairs_pairwise form).imp Or.inl) (repairs_precede form)

variable (legible : ∀ t ∈ s.statements, Imports.isImport t = true → isLegible t = true)

include legible

theorem repaired_of_mem (member : t ∈ s.statements.filter Imports.isImport) :
    Repaired before s t ((pruneStatement? before (References.names s) s t).map (·.1)) := by
  rcases List.mem_filter.1 member with ⟨inScript, isImport⟩
  exact repaired_pruneStatement? (form t inScript isImport) (legible t inScript isImport)
    (Component.wellFormed_statement inScript) (beq_iff_eq.1 isImport)

theorem removed_eq_sum :
    (((s.statements.filter Imports.isImport).filterMap
        (pruneStatement? before (References.names s) s)).foldr (fun p n => p.2 + n) 0) =
      ((s.statements.filter Imports.isImport).map fun t =>
        (staleBindings before s t).length).sum := by
  have number : ∀ t ∈ s.statements.filter Imports.isImport,
      ((pruneStatement? before (References.names s) s t).map (·.2)).getD 0 =
        (staleBindings before s t).length := by
    intro t member
    rcases List.mem_filter.1 member with ⟨inScript, isImport⟩
    exact removed_of_pruneStatement? (form t inScript isImport) (legible t inScript isImport)
  generalize s.statements.filter Imports.isImport = ts at number
  induction ts with
  | nil => rfl
  | cons t ts ih =>
    have rest := ih fun u member => number u (List.mem_cons_of_mem t member)
    rw [List.map_cons, List.sum_cons, ← number t List.mem_cons_self, ← rest, List.filterMap_cons]
    cases pruneStatement? before (References.names s) s t with
    | none => exact (Nat.zero_add _).symm
    | some found => rfl

theorem prune?_eq_none_iff :
    prune? before s = none ↔
      ∀ t ∈ s.statements, Imports.isImport t = true → staleBindings before s t = [] := by
  have nothing : prune? before s = none ↔ (s.statements.filter Imports.isImport).filterMap
      (pruneStatement? before (References.names s) s) = [] := by
    rw [prune?_eq, ← edits_eq_repairs]
    simp
  rw [nothing, List.filterMap_eq_nil_iff]
  simp only [List.mem_filter, and_imp]
  exact forall_congr' fun t => forall_congr' fun inScript => forall_congr' fun isImport =>
    pruneStatement?_eq_none_iff (form t inScript isImport) (legible t inScript isImport)

end Script

end Pruning

end ThemeMigration
