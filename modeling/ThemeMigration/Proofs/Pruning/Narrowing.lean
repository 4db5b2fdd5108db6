import ThemeMigration.Proofs.Pruning.Form
import ThemeMigration.Proofs.Script.Moving

/-!
# The statement that is written anew

An import statement that keeps some of its names is written anew from the texts of the nodes that
bind them.  Read as a tree, it binds these names and no others, each in the words of the old
statement, and imports them from the same module.
-/

namespace ThemeMigration

open Script SyntaxTree

namespace Pruning

/-! ## Pieces of a text -/

/-- A piece of a text, with the node that it spells at an offset. -/
structure Piece where
  text : String
  node : Nat → SyntaxTree

namespace Piece

/-- The text of a node of the source. -/
def copy (s : Source) (t : SyntaxTree) : Piece := ⟨s.textOf t, fun offset => t.movedTo offset⟩

/-- Pieces with commas between them. -/
def joined (ps : List Piece) : String := ", ".intercalate (ps.map (·.text))

/-- The nodes of joined pieces, from an offset on. -/
def laidOut (offset : Nat) : List Piece → List SyntaxTree
  | [] => []
  | p :: ps => p.node offset :: laidOut (offset + p.text.utf8ByteSize + ", ".utf8ByteSize) ps

/-- A piece stands where its node is laid out. -/
def LaidAt (new : String) (p : Piece) (t : SyntaxTree) : Prop :=
  ∃ offset, Text.StandsAt new offset p.text ∧ t = p.node offset

theorem forall₂_laidOut {new : String} {offset : Nat} {ps : List Piece}
    (h : Text.StandsAt new offset (joined ps)) :
    List.Forall₂ (LaidAt new) ps (laidOut offset ps) := by
  induction ps generalizing offset with
  | nil => exact .nil
  | cons p ps ih =>
    cases ps with
    | nil =>
      rw [joined, List.map_singleton, String.intercalate_singleton] at h
      exact .cons ⟨offset, h, rfl⟩ .nil
    | cons q qs =>
      rw [joined, List.map_cons, List.map_cons, String.intercalate_cons_cons] at h
      refine .cons ⟨offset, h.left.left, rfl⟩ (ih ?_)
      have rest := h.right
      rwa [String.utf8ByteSize_append, ← Nat.add_assoc] at rest

/-- Names in braces. -/
def list (s : Source) (specifiers : List SyntaxTree) : Piece :=
  let pieces := specifiers.map (copy s)
  let text := "\x7b " ++ joined pieces ++ " \x7d"
  ⟨text, fun offset =>
    .node .namedImports none ⟨offset, offset + text.utf8ByteSize⟩
      (laidOut (offset + "\x7b ".utf8ByteSize) pieces)⟩

end Piece

/-! ## The new statement -/

/-- The nodes that bind names in one form. -/
def binders (kept : List (SyntaxTree × SyntaxTree)) (form : ImportForm) : List SyntaxTree :=
  (kept.filter fun b => formOf b.2 == form).map (·.2)

/-- The parts of a clause that binds the given names. -/
def pieces (s : Source) (kept : List (SyntaxTree × SyntaxTree)) : List Piece :=
  (binders kept .default ++ binders kept .namespaced).map (Piece.copy s) ++
    match binders kept .listed with
    | [] => []
    | specifiers => [Piece.list s specifiers]

/-- An import statement with a clause and a module, for types only if it has the mark. -/
def assembled (typeOnly : Bool) (whole mark clause : Span) (parts : List SyntaxTree)
    (source : SyntaxTree) : SyntaxTree :=
  .node .importStatement none whole
    ((if typeOnly then [.node .typeKeyword none mark []] else []) ++
      [.node .importClause none clause parts, source])

/-- The statement with a clause that binds the given names, from an offset on. -/
def narrowed (s : Source) (t : SyntaxTree) (kept : List (SyntaxTree × SyntaxTree))
    (start : Nat) : SyntaxTree :=
  let keyword := if Imports.isTypeOnly t then "import type" else "import"
  let clauseStart := start + keyword.utf8ByteSize + " ".utf8ByteSize
  let clauseStop := clauseStart + (Piece.joined (pieces s kept)).utf8ByteSize
  let sourceStart := clauseStop + " from ".utf8ByteSize
  let source := ((t.part? .source).map (movedTo sourceStart)).getD
    (.node .string (some .source) ⟨sourceStart, sourceStart + "''".utf8ByteSize⟩ [])
  assembled (Imports.isTypeOnly t)
    ⟨start, start + (rebuilt s t (kept.map (importedName s))).utf8ByteSize⟩
    ⟨start + "import ".utf8ByteSize, start + "import type".utf8ByteSize⟩ ⟨clauseStart, clauseStop⟩
    (Piece.laidOut clauseStart (pieces s kept)) source

variable {s : Source} {t : SyntaxTree} {kept : List (SyntaxTree × SyntaxTree)}

theorem texts_of_form (form : ImportForm) :
    (((kept.map (importedName s)).filter fun n => n.form == form).map (·.text)) =
      (binders kept form).map s.textOf := by
  rw [binders, List.filter_map, List.map_map, List.map_map]
  rfl

/-- The pieces are the parts of the clause that is written. -/
theorem texts_of_pieces (shaped : Shaped kept) :
    (pieces s kept).map (·.text) =
      ((binders kept .default).map s.textOf).take 1 ++
        ((binders kept .namespaced).map s.textOf).take 1 ++
          match (binders kept .listed).map s.textOf with
          | [] => []
          | names => ["\x7b " ++ ", ".intercalate names ++ " \x7d"] := by
  have copied : ∀ ts : List SyntaxTree,
      (ts.map (Piece.copy s)).map (·.text) = ts.map s.textOf := by
    intro ts
    rw [List.map_map]
    rfl
  have few : ∀ form, (kept.filter fun b => formOf b.2 == form).length ≤ 1 →
      ((binders kept form).map s.textOf).length ≤ 1 := by
    intro form le
    rwa [binders, List.length_map, List.length_map]
  rw [List.take_of_length_le (few _ shaped.default_le),
    List.take_of_length_le (few _ shaped.namespaced_le), pieces, List.map_append, copied,
    List.map_append]
  congr 1
  cases binders kept .listed with
  | nil => rfl
  | cons c cs =>
    rw [List.map_singleton, Piece.list, Piece.joined, copied]
    rfl

theorem rebuilt_eq (shaped : Shaped kept) :
    rebuilt s t (kept.map (importedName s)) =
      (if Imports.isTypeOnly t then "import type" else "import") ++ " " ++
        Piece.joined (pieces s kept) ++ " from " ++ ((t.part? .source).map s.textOf).getD "''" ++
          (if Imports.endsWithSemicolon (s.textOf t) then ";" else "") := by
  rw [Piece.joined, texts_of_pieces shaped, ← texts_of_form, ← texts_of_form, ← texts_of_form]
  rfl

/-! ## What the pieces bind -/

section Pieces

variable {new : String}

/-- Wherever the piece stands, its node binds the given names. -/
def Spells (s : Source) (new : String) (p : Piece) (bs : List (SyntaxTree × SyntaxTree)) : Prop :=
  ∀ u, p.LaidAt new u → u.kind.isNamed = true ∧
    List.Forall₂ (Imports.BindsAlike s.text new) bs (Imports.partBindings u)

theorem reads_of_laidAt {c u : SyntaxTree} (wellFormed : c.wellFormed s.text = true)
    (h : (Piece.copy s c).LaidAt new u) : Reads s.text new c u := by
  rcases h with ⟨offset, stands, rfl⟩
  exact reads_movedTo wellFormed stands

/-- The copy of a part binds its name. -/
theorem spells_copy {b : SyntaxTree × SyntaxTree} (wellFormed : b.2.wellFormed s.text = true)
    (bound : Bound b) (part : formOf b.2 ≠ .listed) : Spells s new (Piece.copy s b.2) [b] := by
  intro u laid
  have reads := reads_of_laidAt wellFormed laid
  cases bound with
  | part _ all =>
    refine ⟨?_, all ▸ Imports.partBindings_alike reads⟩
    rw [reads.kind]
    rw [formOf] at part
    cases kind : b.2.kind
    all_goals
      rw [kind] at part
      first | rfl | exact absurd rfl part
  | specifier kind _ =>
    rw [formOf, kind] at part
    exact absurd rfl part

/-- The list of copied specifiers binds their names. -/
theorem spells_list {bs : List (SyntaxTree × SyntaxTree)}
    (wellFormed : ∀ b ∈ bs, b.2.wellFormed s.text = true)
    (specifiers : ∀ b ∈ bs, b.2.kind = .importSpecifier ∧ Imports.specifierBindings b.2 = [b]) :
    Spells s new (Piece.list s (bs.map (·.2))) bs := by
  rintro u ⟨offset, stands, rfl⟩
  refine ⟨rfl, ?_⟩
  have laid := Piece.forall₂_laidOut stands.part
  rw [List.forall₂_map_left_iff, List.forall₂_map_left_iff] at laid
  have reads := (forall₂_with_mem laid).imp fun b v both =>
    (⟨both.1, reads_of_laidAt (wellFormed b both.1) both.2⟩ : b ∈ bs ∧ Reads s.text new b.2 v)
  have inList : ∀ v ∈ ((Piece.list s (bs.map (·.2))).node offset).children,
      v.kind = .importSpecifier := by
    intro v member
    rcases exists_of_mem_forall₂ reads member with ⟨b, found, both⟩
    rw [both.2.kind, (specifiers b found).1]
  have whole : Imports.specifiers ((Piece.list s (bs.map (·.2))).node offset) =
      ((Piece.list s (bs.map (·.2))).node offset).children := by
    rw [Imports.specifiers, named, List.filter_filter]
    refine List.filter_eq_self.2 fun v member => ?_
    rw [inList v member]
    rfl
  have alike : List.Forall₂ (Imports.BindsAlike s.text new) (bs.flatMap fun b => [b])
      (((Piece.list s (bs.map (·.2))).node offset).children.flatMap Imports.specifierBindings) :=
    List.rel_flatMap reads fun b v both => by
      rw [← (specifiers b both.1).2]
      exact Imports.specifierBindings_alike both.2
  rw [List.flatMap_singleton', ← whole] at alike
  exact alike

variable (bound : ∀ b ∈ kept, Bound b ∧ b.2.wellFormed s.text = true)

include bound

theorem spells_copies (new : String) {form : ImportForm} (part : form ≠ .listed) :
    List.Forall₂ (Spells s new) ((binders kept form).map (Piece.copy s))
      ((kept.filter fun b => formOf b.2 == form).map fun b => [b]) := by
  rw [binders, List.forall₂_map_left_iff, List.forall₂_map_left_iff, List.forall₂_map_right_iff]
  refine List.forall₂_same.2 fun b member => ?_
  rcases List.mem_filter.1 member with ⟨inKept, isForm⟩
  have facts := bound b inKept
  exact spells_copy facts.2 facts.1 (beq_iff_eq.1 isForm ▸ part)

theorem spells_listed (new : String) :
    Spells s new (Piece.list s (binders kept .listed))
      (kept.filter fun b => formOf b.2 == .listed) := by
  refine spells_list (fun b member => (bound b (List.mem_filter.1 member).1).2) ?_
  intro b member
  rcases List.mem_filter.1 member with ⟨inKept, isListed⟩
  cases (bound b inKept).1 with
  | part other _ => exact absurd (beq_iff_eq.1 isListed) other
  | specifier kind all => exact ⟨kind, all⟩

/-- The pieces of a clause, each with the names that it binds. -/
theorem exists_spelled (new : String) (shaped : Shaped kept) :
    ∃ groups, groups.flatten = kept ∧ List.Forall₂ (Spells s new) (pieces s kept) groups := by
  have copies := List.rel_append
    (spells_copies bound new (show ImportForm.default ≠ .listed by decide))
    (spells_copies bound new (show ImportForm.namespaced ≠ .listed by decide))
  beta_reduce at copies
  rw [← List.map_append, ← List.map_append] at copies
  have listed := spells_listed bound new
  have whole := shaped.split
  rw [pieces]
  cases found : kept.filter fun b => formOf b.2 == .listed with
  | nil =>
    have none : binders kept .listed = [] := by rw [binders, found, List.map_nil]
    refine ⟨_, ?_, by rw [none, List.append_nil]; exact copies⟩
    rw [found, List.append_nil] at whole
    rw [← List.flatMap_def, List.flatMap_singleton']
    exact whole.symm
  | cons b bs =>
    have some : binders kept .listed = b.2 :: bs.map (·.2) := by rw [binders, found, List.map_cons]
    rw [some]
    rw [found, some] at listed
    refine ⟨_ ++ [b :: bs], ?_, List.rel_append copies (.cons listed .nil)⟩
    rw [found] at whole
    rw [List.flatten_append, ← List.flatMap_def, List.flatMap_singleton', List.flatten_singleton]
    exact whole.symm

omit bound in
/-- What the nodes of the pieces bind is what the pieces spell. -/
theorem alike_of_laid {ps : List Piece} {groups : List (List (SyntaxTree × SyntaxTree))}
    {us : List SyntaxTree} (spelled : List.Forall₂ (Spells s new) ps groups)
    (laid : List.Forall₂ (Piece.LaidAt new) ps us) :
    List.Forall₂ (Imports.BindsAlike s.text new) groups.flatten
      ((us.filter fun u => u.kind.isNamed).flatMap Imports.partBindings) := by
  induction spelled generalizing us with
  | nil =>
    cases laid
    exact .nil
  | cons head _ ih =>
    cases laid with
    | cons first rest =>
      have facts := head _ first
      rw [List.filter_cons, if_pos facts.1, List.flatMap_cons, List.flatten_cons]
      exact List.rel_append facts.2 (ih rest)

end Pieces

/-! ## The new statement in the new text -/

/-- A statement of a new text imports some names of an old one, and nothing else, from the same
module: the names are bound by nodes of the same kinds and in the same words. -/
structure Rebinds (s : Source) (t : SyntaxTree) (kept : List (SyntaxTree × SyntaxTree))
    (new : String) (u : SyntaxTree) : Prop where
  isImport : Imports.isImport u = true
  typeOnly : Imports.isTypeOnly u = Imports.isTypeOnly t
  source : Option.Rel (Reads s.text new) (t.part? .source) (u.part? .source)
  bindings : List.Forall₂ (Imports.BindsAlike s.text new) kept (Imports.bindings u)

theorem rebinds_assembled {new : String} {whole mark clause : Span} {parts : List SyntaxTree}
    {c c' : SyntaxTree} (source : t.part? .source = some c) (string : c.kind = .string)
    (reads : Reads s.text new c c')
    (bindings : List.Forall₂ (Imports.BindsAlike s.text new) kept
      ((parts.filter fun u => u.kind.isNamed).flatMap Imports.partBindings)) :
    Rebinds s t kept new (assembled (Imports.isTypeOnly t) whole mark clause parts c') := by
  have kind : c'.kind = .string := reads.kind.trans string
  have label : c'.label = some .source := reads.label.trans (label_of_part? source)
  cases c' with
  | node k l place cs =>
    cases kind
    cases label
    cases typeOnly : Imports.isTypeOnly t
    all_goals
      refine ⟨rfl, typeOnly.symm, ?_, ?_⟩
      · rw [source]
        exact .some reads
      · rw [Imports.bindings]
        change List.Forall₂ _ kept (((parts.filter _).flatMap Imports.partBindings) ++ [])
        rwa [List.append_nil]

/-- The statement that is written anew binds the names that are kept. -/
theorem rebinds_narrowed {new : String} {start : Nat} {c : SyntaxTree}
    (wellFormed : t.wellFormed s.text = true) (isImport : t.kind = .importStatement)
    (source : t.part? .source = some c) (shaped : Shaped kept)
    (bound : ∀ b ∈ kept, Bound b ∧ b.2.wellFormed s.text = true)
    (stands : Text.StandsAt new start (rebuilt s t (kept.map (importedName s)))) :
    Rebinds s t kept new (narrowed s t kept start) := by
  have string := source_is_string wellFormed isImport source
  have inner := wellFormed_child wellFormed (mem_children_of_part? source)
  rw [rebuilt_eq shaped, source, Option.map_some, Option.getD_some] at stands
  have clauseStands := stands.left.left.left.right
  have sourceStands := stands.left.right
  simp only [String.utf8ByteSize_append, ← Nat.add_assoc] at clauseStands sourceStands
  rcases exists_spelled bound new shaped with ⟨groups, all, spelled⟩
  have names := alike_of_laid spelled (Piece.forall₂_laidOut clauseStands)
  rw [all] at names
  rw [narrowed, source, Option.map_some, Option.getD_some]
  exact rebinds_assembled source string (reads_movedTo inner.1 sourceStands) names

/-- A statement of the form of the grammar can keep any of its names. -/
theorem rebinds_filtered {new : String} {start : Nat} {b : SyntaxTree × SyntaxTree}
    (form : isInForm s t = true) (unrequired : Imports.requiredNames t = [])
    (wellFormed : t.wellFormed s.text = true) (isImport : t.kind = .importStatement)
    (h : b ∈ Imports.bindings t) (p : SyntaxTree × SyntaxTree → Bool)
    (stands : Text.StandsAt new start
      (rebuilt s t (((Imports.bindings t).filter p).map (importedName s)))) :
    Rebinds s t ((Imports.bindings t).filter p) new
      (narrowed s t ((Imports.bindings t).filter p) start) := by
  have bound : ∀ b ∈ (Imports.bindings t).filter p, Bound b ∧ b.2.wellFormed s.text = true := by
    intro b member
    have facts := bound_of_mem form unrequired (List.mem_filter.1 member).1
    exact ⟨facts.1, (wellFormed_occurs wellFormed facts.2).1⟩
  rcases exists_source form unrequired h with ⟨c, source⟩
  exact rebinds_narrowed wellFormed isImport source ((shaped_bindings form unrequired).filter p)
    bound stands

end Pruning

end ThemeMigration
