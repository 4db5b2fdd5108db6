import ThemeMigration.Proofs.Edits.Landing
import ThemeMigration.Proofs.Pruning.Exactness

/-!
# What a rebuilt statement keeps

A statement of which some names go and some stay is written anew in its place.  It keeps its module
and, in their order, the names that stay, with their aliases and marks for types.  Its own mark is
kept unless it is `typeof`, which becomes `type`; import attributes are lost; and whether it ends
with a semicolon is read off the end of its text, where a comment may stand.
-/

namespace ThemeMigration

open Script SyntaxTree

namespace Pruning

/-! ## What stands around the names -/

/-- The keyword that makes a statement one for types, or for the types of values. -/
def mark? (t : SyntaxTree) : Option Kind :=
  (t.children.find? fun c => c.kind == .typeKeyword || c.kind == .typeofKeyword).map kind

def attributes (t : SyntaxTree) : List SyntaxTree :=
  t.children.filter fun c => c.kind == .importAttribute

/-- Whether a statement has a semicolon, which is no node: it stands behind the last one. -/
def hasSemicolon (source : String) (t : SyntaxTree) : Bool :=
  t.children.getLast?.any fun c => Imports.endsWithSemicolon (Text.slice source c.stop t.stop)

variable {s : Source} {t : SyntaxTree}

theorem endsWithSemicolon_append {a b : String} (h : Imports.endsWithSemicolon b = true) :
    Imports.endsWithSemicolon (a ++ b) = true := by
  rw [Imports.endsWithSemicolon, beq_iff_eq] at h ⊢
  rw [String.toList_append, List.reverse_append, List.dropWhile_append]
  cases rest : b.toList.reverse.dropWhile Text.isBlank with
  | nil =>
    rw [rest] at h
    cases h
  | cons c cs =>
    rw [rest] at h
    exact h

/-- The text of a statement with a semicolon ends with it. -/
theorem endsWithSemicolon_of_hasSemicolon (wellFormed : t.wellFormed s.text = true)
    (h : hasSemicolon s.text t = true) : Imports.endsWithSemicolon (s.textOf t) = true := by
  rw [hasSemicolon, Option.any_eq_true] at h
  rcases h with ⟨c, last, closed⟩
  have inner := wellFormed_child wellFormed (List.mem_of_getLast? last)
  have text : s.textOf t = Text.slice s.text t.start c.stop ++ Text.slice s.text c.stop t.stop :=
    (Text.slice_append_slice (start_boundary wellFormed) (stop_boundary inner.1)
      (stop_boundary wellFormed) (Nat.le_trans inner.2.1 (start_le_stop inner.1)) inner.2.2).symm
  rw [text]
  exact endsWithSemicolon_append closed

theorem mark?_cases (t : SyntaxTree) :
    mark? t = none ∨ mark? t = some .typeKeyword ∨ mark? t = some .typeofKeyword := by
  rw [mark?]
  cases found : t.children.find? fun c => c.kind == .typeKeyword || c.kind == .typeofKeyword with
  | none => exact Or.inl rfl
  | some c =>
    have kinds := List.find?_some found
    simp only [Bool.or_eq_true, beq_iff_eq] at kinds
    right
    rcases kinds with kind | kind
    · exact Or.inl (congrArg some kind)
    · exact Or.inr (congrArg some kind)

theorem isTypeOnly_eq (t : SyntaxTree) : Imports.isTypeOnly t = (mark? t).isSome := by
  rw [Imports.isTypeOnly, mark?, Option.isSome_map, List.isSome_find?]

/-! ## The statement that is written -/

section Assembled

variable {typeOnly : Bool} {whole mark clause : Span} {parts : List SyntaxTree} {c : SyntaxTree}

theorem mark?_assembled (string : c.kind = .string) :
    mark? (assembled typeOnly whole mark clause parts c) =
      if typeOnly then some .typeKeyword else none := by
  cases c with
  | node k l place cs =>
    cases string
    cases typeOnly <;> rfl

theorem attributes_assembled (string : c.kind = .string) :
    attributes (assembled typeOnly whole mark clause parts c) = [] := by
  cases c with
  | node k l place cs =>
    cases string
    cases typeOnly <;> rfl

theorem hasSemicolon_assembled (source : String) :
    hasSemicolon source (assembled typeOnly whole mark clause parts c) =
      Imports.endsWithSemicolon (Text.slice source c.stop whole.stop) := by
  cases typeOnly <;> rfl

end Assembled

section Narrowed

variable {kept : List (SyntaxTree × SyntaxTree)} {c : SyntaxTree} (start : Nat)

/-- The statement is written with its mark, if it has one, as that of types. -/
theorem mark?_narrowed (source : t.part? .source = some c) (string : c.kind = .string) :
    mark? (narrowed s t kept start) = (mark? t).map fun _ => .typeKeyword := by
  rw [narrowed, mark?_assembled (by rw [source, Option.map_some]; exact shifted_kind.trans string),
    isTypeOnly_eq]
  cases mark? t <;> rfl

theorem attributes_narrowed (source : t.part? .source = some c) (string : c.kind = .string) :
    attributes (narrowed s t kept start) = [] :=
  attributes_assembled (by rw [source, Option.map_some]; exact shifted_kind.trans string)

/-- The statement is written with a semicolon if the text of the old one ends with one. -/
theorem hasSemicolon_narrowed {new : String} {start : Nat} (wellFormed : c.wellFormed s.text = true)
    (source : t.part? .source = some c) (shaped : Shaped kept)
    (stands : Text.StandsAt new start (rebuilt s t (kept.map (importedName s)))) :
    hasSemicolon new (narrowed s t kept start) = Imports.endsWithSemicolon (s.textOf t) := by
  have ends : ∀ offset, (movedTo offset c).stop = offset + (s.textOf c).utf8ByteSize := by
    intro offset
    have size : (s.textOf c).utf8ByteSize = c.stop - c.start := size_text wellFormed
    rw [stop, movedTo, shifted_span, size, Nat.add_comm offset]
  rw [narrowed, hasSemicolon_assembled, source, Option.map_some, Option.getD_some]
  rw [rebuilt_eq shaped, source, Option.map_some, Option.getD_some] at stands ⊢
  have closing := stands.right.slice_eq
  simp only [ends, String.utf8ByteSize_append, ← Nat.add_assoc] at closing ⊢
  rw [closing]
  cases Imports.endsWithSemicolon (s.textOf t) <;> rfl

end Narrowed

/-! ## Where it is written -/

/-- Whether an import statement is what the grammar says, which gives a `require` import no
clause. -/
def isWhole (s : Source) (t : SyntaxTree) : Bool :=
  isInForm s t && ((Imports.clause? t).isNone || (Imports.requiredNames t).isEmpty)

variable {before : List String}

theorem unrequired_of_whole (whole : isWhole s t = true) {n : ImportedName}
    (h : n ∈ importedNames s t) : Imports.requiredNames t = [] := by
  have parts := (Bool.and_eq_true_iff.1 whole).2
  rw [Bool.or_eq_true, Option.isNone_iff_eq_none, List.isEmpty_iff] at parts
  rcases parts with none | unrequired
  · rw [importedNames, none] at h
    cases h
  · exact unrequired

/-- A statement of which some names go and some stay gives way to one that binds those that
stay. -/
theorem pruneStatement?_of_partly (whole : isWhole s t = true)
    (goes : ∃ n ∈ importedNames s t, isStale before (References.names s) n = true)
    (stays : ∃ n ∈ importedNames s t, isStale before (References.names s) n = false) :
    (pruneStatement? before (References.names s) s t).map (·.1) =
      some (.replace t.span (rebuilt s t ((spared before s t).map (importedName s)))) := by
  rcases goes with ⟨n, looked, stale⟩
  rcases stays with ⟨m, looked', fresh⟩
  have form := (Bool.and_eq_true_iff.1 whole).1
  have unrequired := unrequired_of_whole whole looked
  rw [importedNames_eq_map_lookedAt form unrequired] at looked looked'
  rcases List.mem_map.1 looked with ⟨b, bound, rfl⟩
  rcases List.mem_map.1 looked' with ⟨c, bound', rfl⟩
  have some : outdated before s t ≠ [] :=
    List.ne_nil_of_mem (List.mem_filter.2 ⟨bound, stale⟩)
  have rest : spared before s t ≠ [] :=
    List.ne_nil_of_mem (List.mem_filter.2 ⟨bound', by rw [fresh]; rfl⟩)
  rw [pruneStatement?_eq_of_form form unrequired, if_neg some, if_neg rest]
  rfl

/-- What a statement is replaced by stands where the statement lands. -/
theorem landed_of_pruneStatement?
    (form : ∀ t ∈ s.statements, Imports.isImport t = true → isInForm s t = true)
    (member : t ∈ s.statements.filter Imports.isImport) {replacement : String}
    (found : (pruneStatement? before (References.names s) s t).map (·.1) =
      some (.replace t.span replacement)) :
    let edits := (repairs before s).reduceOption
    Text.StandsAt (Edit.applyAll s.text edits) (Edit.landed s.text edits t.span).start
        replacement ∧
      (Edit.landed s.text edits t.span).stop =
        (Edit.landed s.text edits t.span).start + replacement.utf8ByteSize := by
  intro edits
  have order : edits.Pairwise fun e f => e.span.stop ≤ f.span.start := repairs_pairwise form
  have inEdits : Edit.replace t.span replacement ∈ edits :=
    List.mem_filterMap.2 ⟨_, List.mem_map.2 ⟨t, member, found⟩, rfl⟩
  rcases List.mem_filter.1 member with ⟨inScript, isImport⟩
  have nonempty := start_lt_stop_of_inForm (Component.wellFormed_statement inScript)
    (form t inScript isImport)
  refine Edit.landed_of_replace repairs_sound (order.imp Or.inl) nonempty inEdits ?_ ?_
  · intro e other
    rcases Span.eq_or_apart Edit.span order other inEdits with same | apart
    · exact Or.inr same
    · exact Or.inl apart
  · refine Nat.le_antisymm (Nat.not_lt.1 fun twice => ?_) (List.count_pos_iff.2 inEdits)
    have both := order.sublist (List.replicate_sublist_iff.2 twice)
    have behind := List.rel_of_pairwise_cons both List.mem_cons_self
    exact Nat.not_le_of_lt nonempty behind

/-! ## What is kept -/

/-- What a statement of a new text has of the one that it stands for: its module, the given names,
and the rest where the rest is what a rebuilt statement can have, which is a mark that is not
`typeof`, no import attributes, and a semicolon of its own if its text ends with one. -/
structure Keeps (s : Source) (t : SyntaxTree) (kept : List (SyntaxTree × SyntaxTree))
    (new : String) (u : SyntaxTree) : Prop where
  rebinds : Rebinds s t kept new u
  mark : mark? u = mark? t ↔ mark? t ≠ some .typeofKeyword
  attributes : List.Forall₂ (Reads s.text new) (attributes t) (attributes u) ↔ attributes t = []
  semicolon : hasSemicolon new u = hasSemicolon s.text t ↔
    (Imports.endsWithSemicolon (s.textOf t) = true → hasSemicolon s.text t = true)

theorem keeps_narrowed {new : String} {start : Nat} {b : SyntaxTree × SyntaxTree}
    (form : isInForm s t = true) (unrequired : Imports.requiredNames t = [])
    (wellFormed : t.wellFormed s.text = true) (isImport : t.kind = .importStatement)
    (h : b ∈ Imports.bindings t) (p : SyntaxTree × SyntaxTree → Bool)
    (stands : Text.StandsAt new start
      (rebuilt s t (((Imports.bindings t).filter p).map (importedName s)))) :
    Keeps s t ((Imports.bindings t).filter p) new
      (narrowed s t ((Imports.bindings t).filter p) start) := by
  rcases exists_source form unrequired h with ⟨c, source⟩
  have string := source_is_string wellFormed isImport source
  have inner := (wellFormed_child wellFormed (mem_children_of_part? source)).1
  have shaped := (shaped_bindings form unrequired).filter p
  constructor
  · exact rebinds_filtered form unrequired wellFormed isImport h p stands
  · rw [mark?_narrowed start source string]
    rcases mark?_cases t with none | types | values
    · simp [none]
    · simp [types]
    · simp [values]
  · rw [attributes_narrowed start source string, List.forall₂_nil_right_iff]
  · rw [hasSemicolon_narrowed inner source shaped stands]
    constructor
    · intro same ends
      rw [← same, ends]
    · intro own
      exact Bool.eq_iff_iff.2 ⟨own, endsWithSemicolon_of_hasSemicolon wellFormed⟩

end Pruning

end ThemeMigration
