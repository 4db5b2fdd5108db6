import ThemeMigration.Proofs.Migration.Reimport

/-!
# No import goes stale

What the old script refers to, the new one refers to in the same order and at least as often: a
literal is no reference, and all other nodes are still there.  So nothing is pruned, and the new
text is the edited one.
-/

namespace ThemeMigration

open Script SyntaxTree

namespace References

theorem inTree_eq (t : SyntaxTree) :
    inTree t = if isReference t then [t] else t.children.flatMap inTree := by
  cases t with
  | node k l s ts => rw [inTree, inTrees_eq]; rfl

theorem isReference_congr {t t' : SyntaxTree} (kind : t'.kind = t.kind) :
    isReference t' = isReference t := by
  rw [isReference, isReference, kind]

theorem isAtomic_of_isReference {t : SyntaxTree} (h : isReference t = true) :
    t.kind.isAtomic = true := by
  rw [isReference] at h
  split at h
  case h_4 => cases h
  all_goals
    rename_i kind
    rw [kind]
    rfl

/-- The names that a node refers to, once for each reference. -/
def texts (source : String) (t : SyntaxTree) : List String := (inTree t).map (·.text source)

/-- The names that the statements refer to that are no imports. -/
def namesAmong (source : String) (statements : List SyntaxTree) : List String :=
  (statements.filter fun t => t.kind != .importStatement).flatMap (texts source)

theorem names_eq (s : Source) : names s = namesAmong s.text s.statements := by
  rw [names, List.map_flatMap]
  rfl

theorem texts_eq (source : String) (t : SyntaxTree) :
    texts source t =
      if isReference t then [t.text source] else t.children.flatMap (texts source) := by
  rw [texts, inTree_eq]
  split
  · rfl
  · exact List.map_flatMap

/-- What a node refers to that is no reference itself are the names of its children. -/
theorem texts_of_not {source : String} {t : SyntaxTree} (other : isReference t = false) :
    texts source t = t.children.flatMap (texts source) := by
  rw [texts_eq, other]
  rfl

theorem texts_sublist_of_child (source : String) {t c : SyntaxTree}
    (other : isReference t = false) (member : c ∈ t.children) :
    (texts source c).Sublist (texts source t) := by
  rw [texts_of_not other, List.flatMap_def]
  exact List.sublist_flatten_of_mem (List.mem_map_of_mem member)

/-- A block refers to what it returns: neither the block nor the return is a reference. -/
theorem texts_sublist_of_returned (source : String) {t e : SyntaxTree} {l : Option Label}
    {o : Span} (block : isReference t = false)
    (returned : SyntaxTree.node .returnStatement l o [e] ∈ t.children) :
    (texts source e).Sublist (texts source t) :=
  (texts_sublist_of_child source (t := .node .returnStatement l o [e]) rfl
    List.mem_cons_self).trans (texts_sublist_of_child source block returned)

end References

namespace Pruning

/-- A name goes stale only if it is not referred to any more. -/
theorem isStale_eq_false {before after : List String} (h : ∀ name ∈ before, name ∈ after)
    (n : ImportedName) : isStale before after n = false := by
  rw [isStale, Bool.and_eq_false_iff]
  by_cases known : n.localName ∈ before
  · right
    simpa using h _ known
  · left
    simpa using known

/-- Nothing is removed where every name is still referred to. -/
theorem prune?_eq_none {before : List String} {s : Source}
    (h : ∀ name ∈ before, name ∈ References.names s) : prune? before s = none := by
  have none : ∀ t ∈ s.statements.filter Imports.isImport,
      pruneStatement? before (References.names s) s t = none := by
    intro t _
    have zero : (importedNames s t).countP (isStale before (References.names s)) = 0 := by
      rw [List.countP_eq_zero]
      intro n _
      rw [isStale_eq_false h n]
      exact Bool.false_ne_true
    rw [pruneStatement?, zero]
    rfl
  rw [prune?, List.filterMap_eq_nil_iff.2 none]

end Pruning

namespace Migration

variable {m : Migration} {file : SourceFile} {s : Source}

/-- A reference is never replaced. -/
theorem Regrows.texts_of_reference {u t t' : SyntaxTree} (inScript : u ∈ file.source.statements)
    (other : u.kind ≠ .importStatement) (below : Occurs u t) (r : Regrows m file t t')
    (reference : References.isReference t = true) :
    References.texts file.text t = References.texts (m.edited file) t' := by
  have kept : t ∉ m.replacedLiterals file := by
    intro literal
    rcases literal_facts literal with ⟨_, _, _, _, string⟩
    rw [References.isReference, string] at reference
    cases reference
  have atom := References.isAtomic_of_isReference reference
  have reads := (untouched_of_atom inScript below atom other kept).reads r
  rw [References.texts_eq, if_pos reference, References.texts_eq,
    References.isReference_congr reads.kind, if_pos reference, reads.text]

/-- What a node refers to is referred to by what has become of it. -/
theorem Regrows.references {u : SyntaxTree} (inScript : u ∈ file.source.statements)
    (other : u.kind ≠ .importStatement) {t t' : SyntaxTree} (below : Occurs u t)
    (r : Regrows m file t t') :
    (References.texts file.text t).Sublist (References.texts (m.edited file) t') := by
  induction t using childInduction generalizing t' with
  | step t ih =>
    have inner : ∀ c c', c ∈ t.children → Regrows m file c c' →
        (References.texts file.text c).Sublist (References.texts (m.edited file) c') :=
      fun c c' member related => ih c member (below.trans (.child member)) related
    cases reference : References.isReference t with
    | true => rw [r.texts_of_reference inScript other below reference]
    | false =>
      -- A node of the same kind refers to what the children referred to if it has them all.
      have ofKind : ∀ d : SyntaxTree, d.kind = t.kind →
          List.Forall₂ (Regrows m file) t.children d.children →
          (References.texts file.text t).Sublist (References.texts (m.edited file) d) := by
        intro d kind children
        rw [References.texts_of_not reference,
          References.texts_of_not ((References.isReference_congr kind).trans reference)]
        exact sublist_flatMap_of_forall₂ children inner
      by_cases special : Special m file t
      · cases special with
        | literal literal =>
          rcases literal_facts literal with ⟨_, _, _, _, string⟩
          have wellFormed := wellFormed_occurs (Component.wellFormed_statement inScript) below
          rw [References.texts_of_not reference,
            children_eq_nil wellFormed.1 (by rw [string]; rfl)]
          exact List.nil_sublist _
        | body bound =>
          rcases r.of_body bound with
            ⟨kind, _, ⟨_, spliced⟩ | ⟨_, b, e, l, o, children, _, kind', rest⟩⟩
          · rw [References.texts_of_not reference,
              References.texts_of_not (by rw [References.isReference, kind])]
            exact spliced.sublist_flatMap inner
          · have returned : SyntaxTree.node .returnStatement l o [e] ∈ t'.children := by
              rw [children]
              exact List.mem_cons_of_mem _ List.mem_cons_self
            have block : References.isReference t' = false := by
              rw [References.isReference, kind]
            exact (ofKind e kind' rest).trans
              (References.texts_sublist_of_returned (m.edited file) block returned)
        | list joined =>
          have facts := r.of_list joined
          rw [References.texts_of_not reference,
            References.texts_of_not ((References.isReference_congr facts.1).trans reference)]
          exact facts.2.2.sublist_flatMap inner
      · have facts := r.of_plain special
        exact ofKind t' facts.1 facts.2.2.2

/-- What the old script refers to is referred to in the new one, in the same order. -/
theorem references_of_regrown {tree : SyntaxTree} (regrown : m.regrownAs file tree = true) :
    (References.names file.source).Sublist
      (References.namesAmong (m.edited file) tree.named) := by
  -- The statement that is put in is an import, so it does not count.
  have kept : List.Forall₂ (fun u u' => u ∈ file.source.statements ∧ Regrows m file u u')
      (file.source.statements.filter fun t => t.kind != .importStatement)
      (tree.named.filter fun t => t.kind != .importStatement) := by
    have keeps : ∀ u u', u ∈ file.source.statements ∧ Regrows m file u u' →
        (u'.kind != .importStatement) = (u.kind != .importStatement) := by
      rintro u u' ⟨inScript, related⟩
      rw [kind_of_statement inScript related]
    rcases statements_of_regrown regrown with ⟨_, statements⟩ | ⟨_, spliced⟩
    · exact forall₂_filter keeps (forall₂_with_mem statements)
    · refine spliced.with_mem.filter_away keeps fun new fits => ?_
      rw [kind_of_isImport fits]
      rfl
  rw [References.names_eq]
  refine sublist_flatMap_of_forall₂ kept ?_
  rintro u u' member ⟨inScript, related⟩
  have other : u.kind ≠ .importStatement := by simpa using (List.mem_filter.1 member).2
  exact related.references inScript other (.here u)

theorem Again.references (h : Again m file s) :
    (References.names file.source).Sublist (References.names s) := by
  rw [References.names_eq s, h.text_eq]
  exact references_of_regrown h.regrown

/-- Where every name is still referred to, the new text is the edited one. -/
theorem pruned_of_references
    (parsed : SourceFile.parse file.path file.source.language (m.edited file) = .ok s)
    (kept : (References.names file.source).Sublist (References.names s)) :
    pruned file (m.edited file) = (m.edited file, 0) := by
  unfold pruned
  simp only [parsed, Pruning.prune?_eq_none fun _ found => kept.subset found, Option.getD_none]

/-- The new text is the edited one. -/
theorem pruned_eq_self (parsed : SourceFile.parse file.path file.source.language (m.edited file) =
    .ok s) (h : Again m file s) : pruned file (m.edited file) = (m.edited file, 0) :=
  pruned_of_references parsed h.references

end Migration

end ThemeMigration
