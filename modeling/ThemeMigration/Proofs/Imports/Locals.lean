import ThemeMigration.Proofs.Imports.Insertion
import ThemeMigration.Proofs.Script.Correspondence

/-!
# The local names of the accessor

The accessor goes by the last name that an import statement of its module gives it.  Statements
that read alike give it the same names, and the statement or specifier that a migration puts in
gives it the one name that the components call.
-/

namespace ThemeMigration

open Script SyntaxTree

namespace Imports

/-- The list of values that a statement imports from the accessor module. -/
def accessorList? (s : Source) (file : Path) (a : Accessor) (t : TsConfig) (u : SyntaxTree) :
    Option SyntaxTree :=
  if isImport u then
    (u.part? .source).bind fun specifier =>
      if isTypeOnly u then none
      else
        (namedList? u).bind fun names =>
          if a.namesModule t (unquote (s.textOf specifier)) file then some names else none
  else none

/-- The names that a list gives the accessor. -/
def listLocals (s : Source) (a : Accessor) (names : SyntaxTree) : List String :=
  (specifiers names).filterMap (accessorLocal? s a)

/-- The names that a statement gives the accessor. -/
def locals (s : Source) (file : Path) (a : Accessor) (t : TsConfig) (u : SyntaxTree) :
    List String :=
  match accessorList? s file a t u with
  | some names => listLocals s a names
  | none => []

variable {s s₀ : Source} {file : Path} {a : Accessor} {t : TsConfig}

theorem accessorLists_eq :
    accessorLists s file a t = s.statements.filterMap (accessorList? s file a t) := by
  rw [accessorLists, sourced, List.filterMap_filterMap]
  congr 1
  funext u
  rw [accessorList?]
  split
  · cases u.part? .source <;> rfl
  · rfl

theorem accessorLocal_eq (s : Source) (file : Path) (a : Accessor) (t : TsConfig) :
    (ofSource s file a t).accessorLocal =
      (s.statements.flatMap (locals s file a t)).getLast? := by
  change (((accessorLists s file a t).flatMap specifiers).filterMap
    (accessorLocal? s a)).getLast? = _
  congr 1
  rw [accessorLists_eq, List.filterMap_flatMap]
  induction s.statements with
  | nil => rfl
  | cons u us ih =>
    rw [List.filterMap_cons, List.flatMap_cons, locals, ← ih]
    cases accessorList? s file a t u <;> rfl

theorem IsAccessorList.accessorList?_eq {u names : SyntaxTree}
    (h : IsAccessorList s file a t u names) : accessorList? s file a t u = some names := by
  rcases h.fromModule with ⟨specifier, source, module⟩
  simp [accessorList?, Imports.isImport, h.isImport, source, h.ofValues, h.list, module]

theorem isAccessorList_iff {u names : SyntaxTree} (member : u ∈ s.statements) :
    IsAccessorList s file a t u names ↔ accessorList? s file a t u = some names := by
  constructor
  · exact IsAccessorList.accessorList?_eq
  · intro found
    rw [accessorList?] at found
    split at found
    · rename_i kind
      rcases Option.bind_eq_some_iff.1 found with ⟨specifier, source, list⟩
      split at list
      · cases list
      · rename_i values
        rcases Option.bind_eq_some_iff.1 list with ⟨found', named, module⟩
        split at module
        · rename_i names_module
          cases module
          exact ⟨member, beq_iff_eq.1 kind, Bool.eq_false_iff.2 values, named, specifier, source,
            names_module⟩
        · cases module
    · cases found

theorem locals_of_not_import {u : SyntaxTree} (other : u.kind ≠ .importStatement) :
    locals s file a t u = [] := by
  rw [locals, accessorList?, if_neg (by simpa [isImport] using other)]

/-- A module specifier names the accessor module if it is the one for new imports. -/
theorem namesModule_specifierFor (a : Accessor) (t : TsConfig) (file : Path) :
    a.namesModule t (a.specifierFor file) file = true := by
  rw [Accessor.namesModule, Bool.or_eq_true]
  exact Or.inl (List.contains_iff_mem.2 (List.mem_cons_of_mem _ List.mem_cons_self))

/-! ## Quotes -/

theorem quoteOf_eq_or (text : String) : quoteOf text = '\'' ∨ quoteOf text = '"' := by
  rw [quoteOf]
  split
  · split
    · rename_i quoted
      rw [Bool.or_eq_true, beq_iff_eq, beq_iff_eq] at quoted
      exact quoted.symm
    · exact Or.inl rfl
  · exact Or.inl rfl

theorem quote_eq_or (s : Source) (file : Path) (a : Accessor) (t : TsConfig) :
    (ofSource s file a t).quote = '\'' ∨ (ofSource s file a t).quote = '"' := by
  change ((sourced s).getLast?.map _).getD _ = _ ∨ ((sourced s).getLast?.map _).getD _ = _
  cases (sourced s).getLast? with
  | none => exact Or.inl rfl
  | some last => exact quoteOf_eq_or _

theorem isQuote_quote (s : Source) (file : Path) (a : Accessor) (t : TsConfig) :
    isQuote (ofSource s file a t).quote = true := by
  rcases quote_eq_or s file a t with h | h <;> rw [h] <;> rfl

theorem unquote_quoted {q : Char} (h : isQuote q = true) (text : String) :
    unquote (q.toString ++ text ++ q.toString) = text := by
  have characters : (q.toString ++ text ++ q.toString).toList = q :: (text.toList ++ [q]) := by
    simp [String.toList_append, Char.toString]
  rw [unquote, characters]
  simp [h]

/-! ## What is put in -/

/-- The list of a statement of the form that is written is one of the accessor module. -/
theorem accessorList?_of_node {l l₂ : Option Label} {s₁ s₂ s₃ source : Span}
    {specifier : SyntaxTree}
    (module : Text.sliceSpan s.text source = (ofSource s₀ file a t).quote.toString ++
      a.specifierFor file ++ (ofSource s₀ file a t).quote.toString) :
    accessorList? s file a t
        (.node .importStatement l s₁ [.node .importClause none s₂ [.node .namedImports l₂ s₃
          [specifier]], .node .string (some .source) source []]) =
      some (.node .namedImports l₂ s₃ [specifier]) := by
  have named : unquote (s.textOf (.node .string (some .source) source [])) =
      a.specifierFor file := by
    rw [Source.textOf, SyntaxTree.text]
    exact (congrArg unquote module).trans (unquote_quoted (isQuote_quote s₀ file a t) _)
  simp [accessorList?, isImport, kind, part?, children, label, isTypeOnly, namedList?, clause?,
    SyntaxTree.named, Kind.isNamed, named, namesModule_specifierFor]

/-! ## One name -/

theorem getLast?_of_all_eq {α : Type} {x : α} {xs : List α} (member : x ∈ xs)
    (all : ∀ y ∈ xs, y = x) : xs.getLast? = some x := by
  cases last : xs.getLast? with
  | none =>
    rw [List.getLast?_eq_none_iff.1 last] at member
    cases member
  | some y => rw [all y (List.mem_of_getLast? last)]

/-! ## Statements that read alike -/

variable {new : Source} {u u' : SyntaxTree}

theorem accessorLocal?_of_reads (h : Reads s.text new.text u u') :
    accessorLocal? new a u' = accessorLocal? s a u := by
  have types : isTypeOnly u' = isTypeOnly u :=
    any_eq_of_forall₂ h.children fun c c' _ related => by rw [related.kind]
  rw [accessorLocal?, accessorLocal?, types]
  split
  · rfl
  · rcases rel_cases (h.part? .name) with ⟨none, none'⟩ | ⟨n, n', part, part', name⟩
    · rw [none, none']
    · have localName : new.textOf ((u'.part? .localName).getD n') =
          s.textOf ((u.part? .localName).getD n) := by
        rcases rel_cases (h.part? .localName) with ⟨none, none'⟩ | ⟨l, l', part, part', related⟩
        · rw [none, none']
          exact name.text
        · rw [part, part']
          exact related.text
      have text : new.textOf n' = s.textOf n := name.text
      rw [part, part']
      dsimp only
      rw [text, localName]

theorem listLocals_of_reads (h : Reads s.text new.text u u') :
    listLocals new a u' = listLocals s a u := by
  have related : List.Forall₂ (Reads s.text new.text) (specifiers u) (specifiers u') :=
    forall₂_filter (fun c c' alike => by rw [alike.kind]) h.named
  exact filterMap_eq_of_forall₂ related fun c c' alike => accessorLocal?_of_reads alike

theorem rel_namedList? {r : SyntaxTree → SyntaxTree → Prop} (keeps : Keeps r)
    (kind : ∀ c c', r c c' → c'.kind = c.kind)
    (children : ∀ c c', c.kind = .importClause → r c c' → List.Forall₂ r c.children c'.children)
    (h : List.Forall₂ r u.children u'.children) :
    Option.Rel r (namedList? u) (namedList? u') := by
  have clauses : Option.Rel r (clause? u) (clause? u') :=
    rel_find? (fun c c' related => by rw [kind c c' related]) (keeps.named h)
  rw [namedList?, namedList?]
  rcases rel_cases clauses with ⟨none, none'⟩ | ⟨c, c', part, part', related⟩
  · rw [none, none']
    exact .none
  · have isClause : c.kind = .importClause := by simpa using List.find?_some part
    rw [part, part']
    exact rel_find? (fun d d' related => by rw [kind d d' related])
      (keeps.named (children c c' isClause related))

/-- Corresponding statements that import from one module have corresponding lists. -/
theorem rel_accessorList? (file : Path) (a : Accessor) (t : TsConfig)
    {r : SyntaxTree → SyntaxTree → Prop} (kind : u'.kind = u.kind)
    (types : isTypeOnly u' = isTypeOnly u)
    (source : (u'.part? .source).map new.textOf = (u.part? .source).map s.textOf)
    (lists : Option.Rel r (namedList? u) (namedList? u')) :
    Option.Rel r (accessorList? s file a t u) (accessorList? new file a t u') := by
  rw [accessorList?, accessorList?, isImport, isImport, kind, types]
  split
  · cases part : u.part? .source with
    | none =>
      rw [part, Option.map_none, Option.map_eq_none_iff] at source
      rw [source]
      exact .none
    | some m =>
      rw [part, Option.map_some] at source
      rcases Option.map_eq_some_iff.1 source with ⟨m', part', text⟩
      rw [part', Option.bind_some, Option.bind_some, text]
      split
      · exact .none
      · rcases rel_cases lists with ⟨none, none'⟩ | ⟨l, l', list, list', names⟩
        · rw [none, none']
          exact .none
        · rw [list, list', Option.bind_some, Option.bind_some]
          split
          · exact .some names
          · exact .none
  · exact .none

theorem locals_of_reads (h : Reads s.text new.text u u') :
    locals new file a t u' = locals s file a t u := by
  have types : isTypeOnly u' = isTypeOnly u :=
    any_eq_of_forall₂ h.children fun c c' _ related => by rw [related.kind]
  have source : (u'.part? .source).map new.textOf = (u.part? .source).map s.textOf := by
    rcases rel_cases (h.part? .source) with ⟨none, none'⟩ | ⟨m, m', part, part', alike⟩
    · rw [none, none']
      rfl
    · rw [part, part']
      exact congrArg some alike.text
  have lists := rel_accessorList? file a t h.kind types source
    (rel_namedList? keeps_reads (fun _ _ => Reads.kind) (fun _ _ _ => Reads.children) h.children)
  rw [locals, locals]
  rcases rel_cases lists with ⟨none, none'⟩ | ⟨l, l', list, list', names⟩
  · rw [none, none']
  · rw [list, list']
    exact listLocals_of_reads names

end Imports

end ThemeMigration
