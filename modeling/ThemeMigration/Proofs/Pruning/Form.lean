import ThemeMigration.Proofs.Imports.Bindings

/-!
# The form of import statements

The grammar gives an import statement its keyword, and a clause one default import, one name space
or one list of names, or the default import with one of the others.  In this form the names that
are looked at when imports are pruned are those that the statement binds, unless a comment hides
the name of a name space or the name is that of a `require` import.
-/

namespace ThemeMigration

open Script SyntaxTree

namespace Pruning

/-- The children of a node that are no comments. -/
def proper (t : SyntaxTree) : List SyntaxTree := t.named.filter fun c => !c.isComment

/-- Whether a part of a clause is a name space or a list of names. -/
def isGroup (part : SyntaxTree) : Bool :=
  part.kind == .namespaceImport || part.kind == .namedImports

/-- Whether the parts of a clause are those that the grammar gives it. -/
def areParts : List SyntaxTree → Bool
  | [p] => p.kind == .identifier || isGroup p
  | [p, q] => p.kind == .identifier && isGroup q
  | _ => false

def isClause (clause : SyntaxTree) : Bool :=
  areParts (proper clause) &&
    clause.named.all fun part =>
      part.kind != .namespaceImport || (proper part).map kind == [.identifier]

/-- Whether an import statement is what the grammar says: it begins with its keyword, and a clause
of its form comes with the module. -/
def isInForm (s : Source) (t : SyntaxTree) : Bool :=
  "import".toList.isPrefixOf (s.textOf t).toList &&
    (Imports.clause? t).all fun c => isClause c && (t.part? .source).isSome

/-- Whether all names that a statement binds are looked at: none is that of a `require` import,
and no comment stands in front of that of a name space. -/
def isLegible (t : SyntaxTree) : Bool :=
  (Imports.requiredNames t).isEmpty &&
    (Imports.clause? t).all fun c => c.named.all fun part =>
      part.kind != .namespaceImport || part.firstNamed?.any fun n => !n.isComment

/-! ## Forms of bindings -/

def formOf (binder : SyntaxTree) : ImportForm :=
  match binder.kind with
  | .identifier => .default
  | .namespaceImport => .namespaced
  | _ => .listed

theorem formOf_of_mem_partBindings {part : SyntaxTree} {b : SyntaxTree × SyntaxTree}
    (h : b ∈ Imports.partBindings part) : formOf b.2 = formOf part := by
  unfold Imports.partBindings at h
  split at h
  · rw [List.mem_singleton.1 h]
  · rcases List.mem_map.1 h with ⟨n, _, rfl⟩
    rfl
  · rename_i list
    rcases List.mem_flatMap.1 h with ⟨c, member, found⟩
    rcases List.mem_map.1 found with ⟨n, _, rfl⟩
    have specifier : c.kind = .importSpecifier := by simpa using (List.mem_filter.1 member).2
    rw [formOf, formOf, specifier, list]
  · cases h

/-- A default import, a name space and the names of a list, in this order. -/
structure Shaped (bs : List (SyntaxTree × SyntaxTree)) : Prop where
  split : bs = bs.filter (fun b => formOf b.2 == .default) ++
    bs.filter (fun b => formOf b.2 == .namespaced) ++ bs.filter fun b => formOf b.2 == .listed
  default_le : (bs.filter fun b => formOf b.2 == .default).length ≤ 1
  namespaced_le : (bs.filter fun b => formOf b.2 == .namespaced).length ≤ 1

theorem Shaped.filter {bs : List (SyntaxTree × SyntaxTree)} (h : Shaped bs)
    (p : SyntaxTree × SyntaxTree → Bool) : Shaped (bs.filter p) where
  split := by
    have parts := congrArg (List.filter p) h.split
    simpa only [List.filter_append, List.filter_comm p] using parts
  default_le := by
    rw [List.filter_comm]
    exact Nat.le_trans (List.length_filter_le _ _) h.default_le
  namespaced_le := by
    rw [List.filter_comm]
    exact Nat.le_trans (List.length_filter_le _ _) h.namespaced_le

theorem filter_form {form : ImportForm} {bs : List (SyntaxTree × SyntaxTree)}
    (all : ∀ b ∈ bs, formOf b.2 = form) (other : ImportForm) :
    bs.filter (fun b => formOf b.2 == other) = if form = other then bs else [] := by
  split
  · rename_i same
    exact List.filter_eq_self.2 fun b member => beq_iff_eq.2 ((all b member).trans same)
  · rename_i different
    refine List.filter_eq_nil_iff.2 fun b member => ?_
    rw [all b member, beq_iff_eq]
    exact different

/-- What comes behind a default import are a name space or names of a list. -/
theorem shaped_append {form : ImportForm} {bs cs : List (SyntaxTree × SyntaxTree)}
    (first : ∀ b ∈ bs, formOf b.2 = .default) (le : bs.length ≤ 1)
    (second : ∀ b ∈ cs, formOf b.2 = form) (other : form ≠ .default)
    (le' : form = .namespaced → cs.length ≤ 1) : Shaped (bs ++ cs) := by
  cases form with
  | default => exact absurd rfl other
  | namespaced =>
    refine ⟨?_, ?_, ?_⟩ <;> simp [List.filter_append, filter_form first, filter_form second, le]
    exact le' rfl
  | listed =>
    refine ⟨?_, ?_, ?_⟩ <;> simp [List.filter_append, filter_form first, filter_form second, le]

/-! ## Parts of a clause -/

variable {s : Source} {clause part t : SyntaxTree} {b : SyntaxTree × SyntaxTree}

theorem partBindings_of_comment (comment : part.isComment = true) :
    Imports.partBindings part = [] := by
  have kind : part.kind = .comment := by simpa [isComment] using comment
  rw [Imports.partBindings, kind]

theorem flatMap_proper :
    clause.named.flatMap Imports.partBindings = (proper clause).flatMap Imports.partBindings := by
  rw [proper]
  induction clause.named with
  | nil => rfl
  | cons c cs ih =>
    rw [List.flatMap_cons, List.filter_cons, ih]
    split
    · rw [List.flatMap_cons]
    · rename_i comment
      rw [partBindings_of_comment (by simpa using comment), List.nil_append]

/-- A name space binds one name. -/
theorem exists_name (form : isClause clause = true) (member : part ∈ clause.named)
    (space : part.kind = .namespaceImport) :
    ∃ n, proper part = [n] ∧ part.named.filter (fun c => c.kind == .identifier) = [n] := by
  have all := List.all_eq_true.1 (Bool.and_eq_true_iff.1 form).2 part member
  rw [space] at all
  have kinds : (proper part).map kind = [.identifier] := by simpa using all
  rcases List.map_eq_singleton_iff.1 kinds with ⟨n, single, identifier⟩
  refine ⟨n, single, ?_⟩
  have inner : part.named.filter (fun c => c.kind == .identifier) =
      (proper part).filter fun c => c.kind == .identifier := by
    rw [proper, List.filter_filter]
    refine List.filter_congr fun c _ => ?_
    cases c with
    | node k l s ts => cases k <;> rfl
  rw [inner, single, List.filter_cons_of_pos (by rw [identifier]; rfl), List.filter_nil]

theorem length_partBindings_le (form : isClause clause = true) (member : part ∈ clause.named)
    (single : part.kind ≠ .namedImports) : (Imports.partBindings part).length ≤ 1 := by
  unfold Imports.partBindings
  split
  · exact Nat.le_refl 1
  · rename_i space
    rcases exists_name form member space with ⟨n, _, names⟩
    rw [names]
    exact Nat.le_refl 1
  · rename_i list
    exact absurd list single
  · exact Nat.zero_le 1

/-- The part that comes last in a clause may be a name space or a list. -/
theorem shaped_group {bs : List (SyntaxTree × SyntaxTree)} (form : isClause clause = true)
    (first : ∀ b ∈ bs, formOf b.2 = .default) (few : bs.length ≤ 1)
    (member : part ∈ clause.named) (group : isGroup part = true) :
    Shaped (bs ++ Imports.partBindings part) := by
  rw [isGroup, Bool.or_eq_true, beq_iff_eq, beq_iff_eq] at group
  refine shaped_append first few (fun b => formOf_of_mem_partBindings) ?_ ?_
  · rcases group with space | list
    · rw [formOf, space]
      decide
    · rw [formOf, list]
      decide
  · intro namespaced
    refine length_partBindings_le form member fun list => ?_
    rw [formOf, list] at namespaced
    cases namespaced

theorem shaped_clause (form : isClause clause = true) :
    Shaped (clause.named.flatMap Imports.partBindings) := by
  have inClause : ∀ p ∈ proper clause, p ∈ clause.named :=
    fun p member => (List.mem_filter.1 member).1
  have default : ∀ p, p.kind = .identifier →
      ∀ b ∈ Imports.partBindings p, formOf b.2 = .default := by
    intro p identifier b found
    rw [formOf_of_mem_partBindings found, formOf, identifier]
  have few : ∀ p ∈ proper clause, p.kind = .identifier → (Imports.partBindings p).length ≤ 1 :=
    fun p member identifier =>
      length_partBindings_le form (inClause p member) (by rw [identifier]; decide)
  have parts := (Bool.and_eq_true_iff.1 form).1
  rw [flatMap_proper]
  unfold areParts at parts
  split at parts
  · rename_i p single
    have member : p ∈ proper clause := single ▸ List.mem_cons_self
    rw [single, List.flatMap_singleton]
    rw [Bool.or_eq_true, beq_iff_eq] at parts
    rcases parts with identifier | group
    · have alone := shaped_append (default p identifier) (few p member identifier)
        (fun b (found : b ∈ []) => absurd found List.not_mem_nil)
        (show ImportForm.listed ≠ .default by decide) (fun _ => Nat.zero_le 1)
      rwa [List.append_nil] at alone
    · have none : ∀ b ∈ ([] : List (SyntaxTree × SyntaxTree)), formOf b.2 = .default :=
        fun b found => absurd found List.not_mem_nil
      exact shaped_group form none (Nat.zero_le 1) (inClause p member) group
  · rename_i p q both
    have first : p ∈ proper clause := both ▸ List.mem_cons_self
    have second : q ∈ proper clause := both ▸ List.mem_cons_of_mem p List.mem_cons_self
    rw [both, List.flatMap_cons, List.flatMap_singleton]
    rw [Bool.and_eq_true, beq_iff_eq] at parts
    exact shaped_group form (default p parts.1) (few p first parts.1) (inClause q second) parts.2
  · cases parts

/-- The name of a name space is looked at if no comment stands in front of it. -/
theorem firstNamed?_of_proper {n : SyntaxTree} (single : proper part = [n])
    (visible : part.firstNamed?.any (fun c => !c.isComment) = true) :
    part.firstNamed? = some n := by
  rw [proper] at single
  rw [firstNamed?] at visible ⊢
  cases inside : part.named with
  | nil =>
    rw [inside] at single
    cases single
  | cons x xs =>
    rw [inside] at single visible
    rw [List.filter_cons_of_pos (by simpa using visible)] at single
    exact congrArg List.head? single

/-! ## Statements -/

theorem clause_of_inForm (form : isInForm s t = true) (first : Imports.clause? t = some clause) :
    isClause clause = true ∧ (t.part? .source).isSome = true := by
  have all := (Bool.and_eq_true_iff.1 form).2
  rw [first, Option.all_some, Bool.and_eq_true] at all
  exact all

theorem unrequired_of_legible (legible : isLegible t = true) : Imports.requiredNames t = [] :=
  List.isEmpty_iff.1 (Bool.and_eq_true_iff.1 legible).1

theorem bindings_of_unrequired (unrequired : Imports.requiredNames t = []) :
    Imports.bindings t =
      ((Imports.clause? t).map fun c => c.named.flatMap Imports.partBindings).getD [] := by
  rw [Imports.bindings, Imports.requiredBindings, unrequired, List.map_nil, List.append_nil]

theorem shaped_bindings (form : isInForm s t = true) (unrequired : Imports.requiredNames t = []) :
    Shaped (Imports.bindings t) := by
  rw [bindings_of_unrequired unrequired]
  cases first : Imports.clause? t with
  | none => exact ⟨rfl, Nat.zero_le 1, Nat.zero_le 1⟩
  | some c => exact shaped_clause (clause_of_inForm form first).1

/-- A binding is one of a part of the clause. -/
theorem exists_part_of_mem (unrequired : Imports.requiredNames t = [])
    (h : b ∈ Imports.bindings t) : ∃ c, Imports.clause? t = some c ∧
      ∃ part ∈ c.named, b ∈ Imports.partBindings part := by
  rw [bindings_of_unrequired unrequired] at h
  cases first : Imports.clause? t with
  | none =>
    rw [first] at h
    cases h
  | some c =>
    rw [first] at h
    exact ⟨c, rfl, List.mem_flatMap.1 h⟩

/-- A statement that binds a name comes with a module. -/
theorem exists_source (form : isInForm s t = true) (unrequired : Imports.requiredNames t = [])
    (h : b ∈ Imports.bindings t) : ∃ c, t.part? .source = some c := by
  rcases exists_part_of_mem unrequired h with ⟨c, first, _⟩
  exact Option.isSome_iff_exists.1 (clause_of_inForm form first).2

/-- A binding under its own name. -/
def importedName (s : Source) (b : SyntaxTree × SyntaxTree) : ImportedName :=
  ⟨s.textOf b.1, s.textOf b.2, formOf b.2⟩

/-- A binding as it is looked at: a name space goes by the first node inside it. -/
def lookedAt (s : Source) (b : SyntaxTree × SyntaxTree) : ImportedName :=
  { importedName s b with
    localName :=
      s.textOf (if formOf b.2 = .namespaced then b.2.firstNamed?.getD b.1 else b.1) }

/-- The names that are looked at come from the bindings of the statement. -/
theorem importedNames_eq_map_lookedAt (form : isInForm s t = true)
    (unrequired : Imports.requiredNames t = []) :
    importedNames s t = (Imports.bindings t).map (lookedAt s) := by
  rw [bindings_of_unrequired unrequired, importedNames]
  cases first : Imports.clause? t with
  | none => rfl
  | some c =>
    have isForm := (clause_of_inForm form first).1
    rw [Option.map_some, Option.getD_some, List.map_flatMap]
    refine List.flatMap_congr fun part member => ?_
    unfold Imports.partBindings
    cases kind : part.kind
    case identifier =>
      change [_] = [lookedAt s (part, part)]
      simp [lookedAt, importedName, formOf, kind]
    case namespaceImport =>
      rcases exists_name isForm member kind with ⟨n, single, names⟩
      have inside : n ∈ part.named := (List.mem_filter.1 (single ▸ List.mem_singleton.2 rfl)).1
      change part.firstNamed?.toList.map _ = _
      rw [names, firstNamed?]
      cases found : part.named with
      | nil =>
        rw [found] at inside
        cases inside
      | cons c cs =>
        change [_] = [lookedAt s (n, part)]
        simp [lookedAt, importedName, formOf, kind, firstNamed?, found]
    case namedImports =>
      change (Imports.specifiers part).filterMap _ =
        ((Imports.specifiers part).flatMap Imports.specifierBindings).map _
      rw [List.map_flatMap, List.filterMap_eq_flatMap_toList]
      refine List.flatMap_congr fun c inList => ?_
      have specifier : c.kind = .importSpecifier := by
        simpa using (List.mem_filter.1 inList).2
      rw [Imports.specifierBindings, List.map_map]
      cases Imports.specifierLocal? c with
      | none => rfl
      | some n =>
        change [_] = [lookedAt s (n, c)]
        simp [lookedAt, importedName, formOf, specifier]
    all_goals rfl

/-- Where no comment hides a name space, bindings are looked at under their own names. -/
theorem lookedAt_of_legible (form : isInForm s t = true) (legible : isLegible t = true)
    (h : b ∈ Imports.bindings t) : lookedAt s b = importedName s b := by
  rcases exists_part_of_mem (unrequired_of_legible legible) h with ⟨c, first, part, member, found⟩
  have same := formOf_of_mem_partBindings found
  rw [lookedAt, same]
  split
  · rename_i namespaced
    have space : part.kind = .namespaceImport := by
      unfold formOf at namespaced
      split at namespaced
      · cases namespaced
      · assumption
      · cases namespaced
    rcases exists_name (clause_of_inForm form first).1 member space with ⟨n, single, names⟩
    have seen := (Bool.and_eq_true_iff.1 legible).2
    rw [first, Option.all_some, List.all_eq_true] at seen
    have visible := seen part member
    rw [space] at visible
    unfold Imports.partBindings at found
    rw [space] at found
    change b ∈ (part.named.filter _).map _ at found
    rw [names] at found
    cases List.mem_singleton.1 found
    rw [firstNamed?_of_proper single (by simpa using visible)]
    rfl
  · rfl

/-- A binding is all that its node binds, which is a part of a clause or a specifier in a list. -/
inductive Bound (b : SyntaxTree × SyntaxTree) : Prop
  | part : formOf b.2 ≠ .listed → Imports.partBindings b.2 = [b] → Bound b
  | specifier : b.2.kind = .importSpecifier → Imports.specifierBindings b.2 = [b] → Bound b

theorem bound_of_mem (form : isInForm s t = true) (unrequired : Imports.requiredNames t = [])
    (h : b ∈ Imports.bindings t) : Bound b ∧ Occurs t b.2 := by
  rcases exists_part_of_mem unrequired h with ⟨c, first, part, member, found⟩
  have inPart : Occurs t part := .deeper
    (mem_children_of_mem_named (List.mem_of_find?_eq_some first))
    (.child (mem_children_of_mem_named member))
  unfold Imports.partBindings at found
  split at found
  · rename_i identifier
    cases List.mem_singleton.1 found
    refine ⟨.part ?_ ?_, inPart⟩
    · rw [formOf, identifier]
      decide
    · rw [Imports.partBindings, identifier]
  · rename_i space
    rcases exists_name (clause_of_inForm form first).1 member space with ⟨n, _, names⟩
    rw [names] at found
    cases List.mem_singleton.1 found
    refine ⟨.part ?_ ?_, inPart⟩
    · rw [formOf, space]
      decide
    · rw [Imports.partBindings, space]
      exact congrArg (List.map _) names
  · rcases List.mem_flatMap.1 found with ⟨specifier, inList, named⟩
    have kind : specifier.kind = .importSpecifier := by
      simpa using (List.mem_filter.1 inList).2
    have inside := mem_children_of_mem_named (List.mem_filter.1 inList).1
    rcases List.mem_map.1 named with ⟨n, isLocal, rfl⟩
    refine ⟨.specifier kind ?_, inPart.trans (.child inside)⟩
    rw [Imports.specifierBindings, Option.mem_toList.1 isLocal]
    rfl
  · cases found

end Pruning

end ThemeMigration
