import ThemeMigration.Proofs.Migration.Reimport

/-!
# The same functions are found again

All edits of a statement other than an import are inside the bodies of the functions that it
declares.  What leads to such a function, the names, wrappers and parentheses around it, is
untouched, so the new statement declares the same functions under the same names.
-/

namespace ThemeMigration

open Script SyntaxTree

namespace Migration

open Component

variable {m : Migration} {file : SourceFile} {u t t' : SyntaxTree}

/-! ## Where the edits of a node are -/

/-- A node with an edit of its own is apart from the given one or stands in the body of a
function. -/
def Confined (m : Migration) (file : SourceFile) (fs : List SyntaxTree) (t : SyntaxTree) : Prop :=
  ∀ x, Special m file x → ¬ x.span.Apart t.span →
    ∃ f ∈ fs, ∃ body, f.part? .body = some body ∧ Occurs body x

section Confined

variable {fs : List SyntaxTree} (h : Confined m file fs t)

include h

theorem Confined.mono {c : SyntaxTree} (within : t.span.Contains c.span) :
    Confined m file fs c := by
  intro x special near
  exact h x special fun apart => near (apart.mono (.refl _) within)

theorem Confined.plain (below : ∀ f ∈ fs, Occurs t f) : ¬ Special m file t := by
  intro special
  have near : ¬ t.span.Apart t.span := by
    intro apart
    exact Nat.not_le_of_lt special.nonempty (apart.stop_le_start (.refl _) (.refl _))
  rcases h t special near with ⟨f, member, body, part, inside⟩
  exact not_occurs_of_mem_children (mem_children_of_part? part) (inside.trans (below f member))

/-- Where the functions stand in one child, the other children are apart from all edits. -/
theorem Confined.apart_of_sibling (wellFormed : t.wellFormed file.text = true) {a c : SyntaxTree}
    (first : a ∈ t.children) (second : c ∈ t.children) (different : c ≠ a)
    (inside : ∀ f ∈ fs, ∀ body, f.part? .body = some body → Occurs a body) {x : SyntaxTree}
    (special : Special m file x) : x.span.Apart c.span := by
  refine Decidable.byContradiction fun near => ?_
  rcases h.mono (wellFormed_child wellFormed second).2 x special near with
    ⟨f, member, body, part, below⟩
  have inFirst := (inside f member body part).trans below
  have within := (wellFormed_occurs (wellFormed_child wellFormed first).1 inFirst).2
  rcases Span.eq_or_apart span (children_pairwise wellFormed) second first with same | apart
  · exact different same
  · exact near (apart.symm.mono within (.refl _))

end Confined

theorem ne_of_labels {a c : SyntaxTree} {l k : Label} (first : t.part? l = some a)
    (second : t.part? k = some c) (different : k ≠ l) : c ≠ a := by
  rintro rfl
  have labels := (label_of_part? second).symm.trans (label_of_part? first)
  exact different (Option.some.inj labels)

/-- A child is confined to its own functions where its parent is confined to those of all. -/
theorem Confined.at_child {g : SyntaxTree → List Site}
    (h : Confined m file ((t.named.flatMap g).map Site.function) t)
    (wellFormed : t.wellFormed file.text = true)
    (within : ∀ d, ∀ q ∈ g d, Occurs d q.function) {c : SyntaxTree} (member : c ∈ t.children) :
    Confined m file ((g c).map Site.function) c := by
  intro x special near
  rcases h.mono (wellFormed_child wellFormed member).2 x special near with
    ⟨f, inAll, body, part, below⟩
  rcases List.mem_map.1 inAll with ⟨q, inSites, rfl⟩
  rcases List.mem_flatMap.1 inSites with ⟨d, inNamed, site⟩
  have isChild := mem_children_of_mem_named inNamed
  have inChild := (within d q site).trans (.deeper (mem_children_of_part? part) below)
  have inSpan := (wellFormed_occurs (wellFormed_child wellFormed isChild).1 inChild).2
  rcases Span.eq_or_apart span (children_pairwise wellFormed) isChild member with rfl | apart
  · exact ⟨_, List.mem_map_of_mem site, body, part, below⟩
  · exact absurd (apart.mono inSpan (.refl _)) near

/-- The edits of a statement that is no import are in the bodies of its functions. -/
theorem confined_statement (inScript : u ∈ file.source.statements)
    (other : u.kind ≠ .importStatement) :
    Confined m file ((sites file.text m.wrappers u).map Site.function) u := by
  intro x special near
  have order := statements_pairwise file.source
  rcases special.cases with ⟨r, changed, below⟩ | ⟨v, list⟩
  · rcases site_of_mem_detect (component_of_mem changed.member) with ⟨member, q, site, component⟩
    have facts := isOf_of_ofSite? component
    rcases Span.eq_or_apart span order member inScript with same | apart
    · rw [same] at site
      exact ⟨_, List.mem_map_of_mem site, _, facts.body_eq, below⟩
    · have within := (wellFormed_occurs changed.body_wellFormed below).2
      exact absurd (apart.mono (changed.body_in_declaration.trans within) (.refl _)) near
  · have inImport := Imports.namedList?_facts list.list
    have within := (wellFormed_occurs (wellFormed_statement list.member) inImport.2).2
    rcases Span.eq_or_apart span order list.member inScript with same | apart
    · exact absurd list.isImport (same ▸ other)
    · exact absurd (apart.mono within (.refl _)) near

/-! ## The function behind a value -/

/-- The function behind a value of the statement is found behind what the value has become. -/
def FindsAgain (m : Migration) (file : SourceFile) (u v : SyntaxTree) : Prop :=
  ∀ v', Occurs u v → Confined m file (functionIn? file.text m.wrappers v).toList v →
    Regrows m file v v' →
    Option.Rel (Regrows m file) (functionIn? file.text m.wrappers v)
      (functionIn? (m.edited file) m.wrappers v')

section InStatement

variable (inScript : u ∈ file.source.statements)

include inScript

/-- The function behind the first part of a node is found again. -/
theorem findsAgain_first (below : Occurs u t)
    (children : List.Forall₂ (Regrows m file) t.children t'.children)
    (confined : Confined m file
      (t.firstNamed?.bind (functionIn? file.text m.wrappers)).toList t)
    (parts : ∀ c ∈ t.children, FindsAgain m file u c) :
    Option.Rel (Regrows m file) (t.firstNamed?.bind (functionIn? file.text m.wrappers))
      (t'.firstNamed?.bind (functionIn? (m.edited file) m.wrappers)) := by
  have wellFormed := (wellFormed_occurs (wellFormed_statement inScript) below).1
  refine rel_bind (keeps_regrows.firstNamed? children) fun c c' first _ related => ?_
  rw [first, Option.bind_some] at confined
  have member := mem_children_of_mem_named (List.mem_of_mem_head? first)
  exact parts c member c' (below.trans (.child member))
    (confined.mono (wellFormed_child wellFormed member).2) related

/-- The function that a call wraps is in its arguments, so its callee is untouched. -/
theorem findsAgain_call {v : SyntaxTree} (call : v.kind = .callExpression)
    (parts : ∀ a ∈ v.children, ∀ c ∈ a.children, FindsAgain m file u c) :
    FindsAgain m file u v := by
  intro v' below confined r
  have wellFormed := (wellFormed_occurs (wellFormed_statement inScript) below).1
  have plain := r.of_plain <| confined.plain fun f found =>
    functionIn?_occurs v f (Option.mem_toList.1 found)
  have call' : v'.kind = .callExpression := plain.1.trans call
  rcases rel_cases (keeps_regrows.part? plain.2.2.2 .callee) with
    ⟨none, none'⟩ | ⟨callee, callee', called, called', related⟩
  · rw [functionIn?_of_bare_call call (Or.inl none), functionIn?_of_bare_call call' (Or.inl none')]
    exact .none
  rcases rel_cases (keeps_regrows.part? plain.2.2.2 .arguments) with
    ⟨none, none'⟩ | ⟨a, a', argument, argument', given⟩
  · rw [functionIn?_of_bare_call call (Or.inr none), functionIn?_of_bare_call call' (Or.inr none')]
    exact .none
  have inArguments : ∀ f ∈ (functionIn? file.text m.wrappers v).toList, Occurs a f := by
    intro f found
    exact functionIn?_in_arguments call argument (Option.mem_toList.1 found)
  have isCallee := mem_children_of_part? called
  have isArguments := mem_children_of_part? argument
  have text : callee'.text (m.edited file) = callee.text file.text := by
    have untouched := untouched_of_apart inScript (below.trans (.child isCallee)) fun x special =>
      confined.apart_of_sibling wellFormed isArguments isCallee
        (ne_of_labels argument called (by decide))
        (fun f found body part =>
          (inArguments f found).trans (.child (mem_children_of_part? part)))
        special
    exact (untouched.reads related).text
  have inner := confined.mono (wellFormed_child wellFormed isArguments).2
  have plainArguments := given.of_plain (inner.plain inArguments)
  rw [functionIn?_of_call call called argument] at inner ⊢
  rw [functionIn?_of_call call' called' argument', text]
  split
  · rename_i wrapper
    rw [if_pos wrapper] at inner
    exact findsAgain_first inScript (below.trans (.child isArguments)) plainArguments.2.2.2 inner
      (parts a isArguments)
  · exact .none

/-- The function behind a value is found again. -/
theorem findsAgain (v : SyntaxTree) : FindsAgain m file u v := by
  induction v using occursInduction with
  | step v ih =>
    by_cases call : v.kind = .callExpression
    · exact findsAgain_call inScript call fun a isChild c member => ih a isChild c (.child member)
    intro v' below confined r
    have plain := r.of_plain <| confined.plain fun f found =>
      functionIn?_occurs v f (Option.mem_toList.1 found)
    by_cases parenthesized : v.kind = .parenthesizedExpression
    · rw [functionIn?_of_parenthesized parenthesized] at confined ⊢
      rw [functionIn?_of_parenthesized (plain.1.trans parenthesized)]
      exact findsAgain_first inScript below plain.2.2.2 confined
        fun c member => ih c member c (.here c)
    · rw [functionIn?_eq _ _ v, functionIn?_eq _ _ v', plain.1]
      split
      · exact .some r
      · exact .some r
      · contradiction
      · contradiction
      · exact .none

/-! ## The functions of a statement -/

/-- The name of a function stands beside its body. -/
theorem functionName_regrows {f f' : SyntaxTree} (below : Occurs u f)
    (confined : Confined m file [f] f) (r : Regrows m file f f') :
    (f'.part? .name).map (·.text (m.edited file)) = (f.part? .name).map (·.text file.text) := by
  have wellFormed := (wellFormed_occurs (wellFormed_statement inScript) below).1
  have plain := r.of_plain <| confined.plain fun g member => by
    rw [List.mem_singleton.1 member]
    exact .here f
  have parts := forall₂_regrowsIn below plain.2.2.2
  refine map_eq_of_rel ((keeps_regrowsIn u).part? parts .name) fun name name' part related => ?_
  have isChild := mem_children_of_part? part
  have apart : ∀ x, Special m file x → x.span.Apart name.span := by
    intro x special
    cases bodyPart : f.part? .body with
    | none =>
      refine Decidable.byContradiction fun near => ?_
      have inName := confined.mono (wellFormed_child wellFormed isChild).2
      rcases inName x special near with ⟨g, member, body, found, _⟩
      rw [List.mem_singleton.1 member, bodyPart] at found
      cases found
    | some body =>
      refine confined.apart_of_sibling wellFormed (mem_children_of_part? bodyPart) isChild
        (ne_of_labels bodyPart part (by decide)) ?_ special
      intro g member body' found
      rw [List.mem_singleton.1 member, bodyPart] at found
      cases found
      exact .here _
  exact ((untouched_of_apart inScript related.1 apart).reads related.2).text

omit inScript in
/-- A site and what it has become. -/
structure SiteRegrows (m : Migration) (file : SourceFile) (q q' : Site) : Prop where
  name : q'.name = q.name
  function : Regrows m file q.function q'.function

/-- The name of a declarator stands beside its value, so it is untouched. -/
theorem declaratorName_reads {d name name' v : SyntaxTree} (below : Occurs u d)
    (confined : Confined m file
      ((declaratorSite? file.text m.wrappers d).toList.map Site.function) d)
    (part : d.part? .name = some name) (value : d.part? .value = some v)
    (r : Regrows m file name name') : Reads file.text (m.edited file) name name' := by
  have wellFormed := (wellFormed_occurs (wellFormed_statement inScript) below).1
  have isChild := mem_children_of_part? part
  have inValue : ∀ f ∈ (declaratorSite? file.text m.wrappers d).toList.map Site.function,
      ∀ body, f.part? .body = some body → Occurs v body := by
    intro f member body bodyPart
    rcases List.mem_map.1 member with ⟨q, found, rfl⟩
    rcases declaratorSite?_eq_some_iff.1 (Option.mem_toList.1 found) with
      ⟨_, _, w, _, _, same, behind, _⟩
    rw [value] at same
    cases same
    exact (functionIn?_occurs v _ behind).trans (.child (mem_children_of_part? bodyPart))
  have untouched := untouched_of_apart inScript (below.trans (.child isChild)) fun x special =>
    confined.apart_of_sibling wellFormed (mem_children_of_part? value) isChild
      (ne_of_labels value part (by decide)) inValue special
  exact untouched.reads r

/-- A declarator gives its function the same name. -/
theorem declaratorSite?_regrows {d d' : SyntaxTree} (below : Occurs u d)
    (confined : Confined m file
      ((declaratorSite? file.text m.wrappers d).toList.map Site.function) d)
    (r : Regrows m file d d') :
    Option.Rel (SiteRegrows m file) (declaratorSite? file.text m.wrappers d)
      (declaratorSite? (m.edited file) m.wrappers d') := by
  have wellFormed := (wellFormed_occurs (wellFormed_statement inScript) below).1
  have plain := r.of_plain <| confined.plain fun f member => by
    rcases List.mem_map.1 member with ⟨q, found, rfl⟩
    exact declaratorSite?_occurs (Option.mem_toList.1 found)
  rw [declaratorSite?_eq, declaratorSite?_eq, plain.1]
  split
  · rename_i kind
    refine rel_bind (keeps_regrows.part? plain.2.2.2 .name) fun name name' part _ named =>
      rel_bind (keeps_regrows.part? plain.2.2.2 .value) fun v v' value _ related => ?_
    have reads := declaratorName_reads inScript below confined part value named
    rw [reads.kind, reads.text]
    split
    · rename_i identifier
      have functions : (declaratorSite? file.text m.wrappers d).toList.map Site.function =
          (functionIn? file.text m.wrappers v).toList := by
        rw [declaratorSite?_of_parts kind part identifier value]
        cases functionIn? file.text m.wrappers v <;> rfl
      have isChild := mem_children_of_part? value
      rw [functions] at confined
      exact rel_map (findsAgain inScript v v' (below.trans (.child isChild))
        (confined.mono (wellFormed_child wellFormed isChild).2) related)
        fun f f' _ regrown => ⟨rfl, regrown⟩
    · exact .none
  · exact .none

/-- A declaration declares the same functions. -/
theorem declared_regrows {t t' : SyntaxTree} (below : Occurs u t)
    (confined : Confined m file ((declared file.text m.wrappers t).map Site.function) t)
    (r : Regrows m file t t') :
    List.Forall₂ (SiteRegrows m file) (declared file.text m.wrappers t)
      (declared (m.edited file) m.wrappers t') := by
  have wellFormed := (wellFormed_occurs (wellFormed_statement inScript) below).1
  have plain := r.of_plain <| confined.plain fun f member => by
    rcases List.mem_map.1 member with ⟨q, site, rfl⟩
    exact declared_occurs site
  have named := (keeps_regrowsIn u).named (forall₂_regrowsIn below plain.2.2.2)
  have ofFunction : Confined m file [t] t →
      List.Forall₂ (SiteRegrows m file) [⟨(t.part? .name).map (·.text file.text), t⟩]
        [⟨(t'.part? .name).map (·.text (m.edited file)), t'⟩] := by
    intro own
    exact .cons ⟨functionName_regrows inScript below own r, r⟩ .nil
  have ofDeclarators : Confined m file
        ((t.named.filterMap (declaratorSite? file.text m.wrappers)).map Site.function) t →
      List.Forall₂ (SiteRegrows m file)
        (t.named.filterMap (declaratorSite? file.text m.wrappers))
        (t'.named.filterMap (declaratorSite? (m.edited file) m.wrappers)) := by
    intro own
    refine List.rel_filterMap ?_ (forall₂_with_mem named)
    rintro d d' ⟨member, inStatement, related⟩
    rw [List.filterMap_eq_flatMap_toList] at own
    refine declaratorSite?_regrows inScript inStatement ?_ related
    exact own.at_child (g := fun d => (declaratorSite? file.text m.wrappers d).toList) wellFormed
      (fun d q site => declaratorSite?_occurs (Option.mem_toList.1 site))
      (mem_children_of_mem_named member)
  rw [declared] at confined
  rw [declared, declared, plain.1]
  split at confined
  · exact ofFunction confined
  · exact ofFunction confined
  · exact ofDeclarators confined
  · exact ofDeclarators confined
  · exact .nil

/-! ## Exports -/

section Export

variable {u' : SyntaxTree} (r : Regrows m file u u') (isExport : u.kind = .exportStatement)

include r isExport

/-- The function behind an exported value is found again; if there is none, none appears. -/
theorem exportedFunction_regrows :
    Option.Rel (Regrows m file) ((u.part? .value).bind (functionIn? file.text m.wrappers))
      ((u'.part? .value).bind (functionIn? (m.edited file) m.wrappers)) := by
  have wellFormed := wellFormed_statement inScript
  have plain := r.of_plain (statement_not_special inScript)
  have confined := confined_statement (m := m) inScript (by rw [isExport]; decide)
  rw [sites_of_export file.text m.wrappers isExport] at confined
  refine rel_bind (keeps_regrows.part? plain.2.2.2 .value) fun v v' value _ related => ?_
  have isChild := mem_children_of_part? value
  have exported : exported? file.text m.wrappers u =
      (functionIn? file.text m.wrappers v).map fun f =>
        ⟨(f.part? .name).map (·.text file.text), f⟩ := by
    rw [exported?, value, Option.bind_some]
  cases found : functionIn? file.text m.wrappers v with
  | some f =>
    rw [exported, found] at confined
    have inValue := confined.mono (wellFormed_child wellFormed isChild).2
    have again := findsAgain (m := m) inScript v v' (.child isChild)
    rw [found] at again
    exact again inValue related
  | none =>
    rw [exported, found] at confined
    have inValue := confined.at_child wellFormed (fun _ _ site => declared_occurs site) isChild
    have plainValue := related.of_plain <| inValue.plain fun f member => by
      rcases List.mem_map.1 member with ⟨q, site, rfl⟩
      exact declared_occurs site
    -- What is no function may be a declaration, and a declaration it stays.
    by_cases declares : declared file.text m.wrappers v = []
    · rw [declares] at inValue
      have again := findsAgain (m := m) inScript v v' (.child isChild)
      rw [found] at again
      exact again inValue related
    · rw [functionIn?_of_declared declares plainValue.1]
      exact .none

/-- A function that is exported as a value is exported again. -/
theorem exported?_regrows :
    Option.Rel (SiteRegrows m file) (exported? file.text m.wrappers u)
      (exported? (m.edited file) m.wrappers u') := by
  refine rel_map (exportedFunction_regrows inScript r isExport) fun f f' found regrown => ?_
  have exported : exported? file.text m.wrappers u =
      some ⟨(f.part? .name).map (·.text file.text), f⟩ := by
    rw [exported?, found, Option.map_some]
  have confined := confined_statement (m := m) inScript (by rw [isExport]; decide)
  rw [sites_of_export file.text m.wrappers isExport, exported] at confined
  have inFunction := exported?_occurs exported
  have within := (wellFormed_occurs (wellFormed_statement inScript) inFunction).2
  exact ⟨functionName_regrows inScript inFunction (confined.mono within) regrown, regrown⟩

theorem sites_of_export_regrow :
    List.Forall₂ (SiteRegrows m file) (sites file.text m.wrappers u)
      (sites (m.edited file) m.wrappers u') := by
  have plain := r.of_plain (statement_not_special inScript)
  have confined := confined_statement (m := m) inScript (by rw [isExport]; decide)
  rw [sites_of_export file.text m.wrappers isExport] at confined ⊢
  rw [sites_of_export (m.edited file) m.wrappers (plain.1.trans isExport)]
  rcases rel_cases (exported?_regrows inScript r isExport) with
    ⟨none, none'⟩ | ⟨q, q', exported, exported', related⟩
  · rw [none] at confined
    rw [none, none']
    have named := (keeps_regrowsIn u).named (forall₂_regrowsIn (.here u) plain.2.2.2)
    refine List.rel_flatMap (forall₂_with_mem named) ?_
    rintro d d' ⟨member, inStatement, regrown⟩
    have inDeclaration := confined.at_child (wellFormed_statement inScript)
      (fun _ _ site => declared_occurs site) (mem_children_of_mem_named member)
    exact declared_regrows inScript inStatement inDeclaration regrown
  · rw [exported, exported']
    exact .cons related .nil

end Export

/-- A statement declares the same functions again, in the same order. -/
theorem sites_regrows {u' : SyntaxTree} (r : Regrows m file u u') :
    List.Forall₂ (SiteRegrows m file) (sites file.text m.wrappers u)
      (sites (m.edited file) m.wrappers u') := by
  have kind := kind_of_statement inScript r
  by_cases isImport : u.kind = .importStatement
  · rw [sites_of_import isImport, sites_of_import (kind.trans isImport)]
    exact .nil
  by_cases isExport : u.kind = .exportStatement
  · exact sites_of_export_regrow inScript r isExport
  have other : u'.kind ≠ .exportStatement := by
    rw [kind]
    exact isExport
  have confined := confined_statement (m := m) inScript isImport
  rw [sites_of_other isExport] at confined
  rw [sites_of_other isExport, sites_of_other other]
  exact declared_regrows inScript (.here u) confined r

end InStatement

end Migration

end ThemeMigration
