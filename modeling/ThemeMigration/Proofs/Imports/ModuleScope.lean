import ThemeMigration.Proofs.Imports.Alias
import ThemeMigration.Proofs.Imports.Insertion
import ThemeMigration.Proofs.Migration.Inspection

/-!
# Names of the module and a new import

A new import brings a name into the scope of the module.  It is none of the names that are looked
at: what import clauses bind and what declarations declare, exported or not.  A module has more
names than these: those of ambient declarations, of functions without a body and of `require`
imports, and the name of a name space behind a comment.  The new name is a name of the module
exactly if it is one of those.
-/

namespace ThemeMigration

open Script SyntaxTree

namespace Imports

/-! ## All names of a module -/

/-- The names that a part of an import clause binds. -/
def clauseNames (part : SyntaxTree) : List SyntaxTree :=
  match part.kind with
  | .identifier => [part]
  | .namespaceImport => part.named.filter fun n => n.kind == .identifier
  | .namedImports => part.named.filterMap specifierLocal?
  | _ => []

/-- The name in front of a `require` call in an import statement. -/
def requiredNames (statement : SyntaxTree) : List SyntaxTree :=
  (statement.named.filter fun c => c.kind == .clause).flatMap fun c =>
    c.named.filter fun n => n.kind == .identifier

/-- The names that an import statement binds, a `require` import included. -/
def importedNames (statement : SyntaxTree) : List SyntaxTree :=
  ((clause? statement).map fun c => c.named.flatMap clauseNames).getD [] ++
    requiredNames statement

/-- The names of a declaration or of a function without a body. -/
def signedNames (t : SyntaxTree) : List SyntaxTree :=
  if t.kind == .functionSignature then (t.part? .name).toList else t.declaredNames

/-- The names of a declaration, an ambient one included. -/
def ambientNames (t : SyntaxTree) : List SyntaxTree :=
  if t.kind == .ambientDeclaration then t.named.flatMap signedNames else signedNames t

/-- What a statement declares, which may stand behind `export`. -/
def declaration? (statement : SyntaxTree) : Option SyntaxTree :=
  match statement.kind with
  | .exportStatement => statement.part? .declaration
  | _ => some statement

def moduleNamesOf (statement : SyntaxTree) : List SyntaxTree :=
  ((declaration? statement).map fun d =>
    if isImport d then importedNames d else ambientNames d).getD []

/-- The names that the statements of a script bind in its module. -/
def moduleNames (s : Source) : List String := (s.statements.flatMap moduleNamesOf).map s.textOf

/-- A name of a module that is not looked at. -/
inductive Overlooked (d n : SyntaxTree) : Prop
  | required : isImport d = true → n ∈ requiredNames d → Overlooked d n
  | behindComment {clause part : SyntaxTree} : isImport d = true → clause? d = some clause →
      part ∈ clause.named → part.kind = .namespaceImport → n ∈ part.named →
      n.kind = .identifier → part.firstNamed? ≠ some n → Overlooked d n
  | signature : d.kind = .functionSignature → d.part? .name = some n → Overlooked d n
  | ambient {inner : SyntaxTree} : d.kind = .ambientDeclaration → inner ∈ d.named →
      n ∈ signedNames inner → Overlooked d n

/-! ## The names that are looked at, and the others -/

variable {statement d n : SyntaxTree}

theorem namesOfStatement_eq (statement : SyntaxTree) :
    namesOfStatement statement =
      ((declaration? statement).map fun d =>
        if isImport d then boundNames d else d.declaredNames).getD [] := by
  unfold namesOfStatement declaration?
  cases statement.kind <;> rfl

theorem importedNames_cases (h : isImport d = true) (member : n ∈ importedNames d) :
    n ∈ boundNames d ∨ Overlooked d n := by
  rcases List.mem_append.1 member with bound | required
  · rw [boundNames]
    cases clause : clause? d with
    | none =>
      rw [clause] at bound
      cases bound
    | some c =>
      rw [clause] at bound
      rcases List.mem_flatMap.1 bound with ⟨part, inClause, named⟩
      unfold clauseNames at named
      split at named
      · rename_i kind
        exact Or.inl (List.mem_flatMap.2 ⟨part, inClause, by rwa [kind]⟩)
      · rename_i kind
        rcases List.mem_filter.1 named with ⟨inPart, identifier⟩
        by_cases first : part.firstNamed? = some n
        · refine Or.inl (List.mem_flatMap.2 ⟨part, inClause, ?_⟩)
          rw [kind, first]
          exact List.mem_singleton.2 rfl
        · exact Or.inr (.behindComment h clause inClause kind inPart (beq_iff_eq.1 identifier)
            first)
      · rename_i kind
        exact Or.inl (List.mem_flatMap.2 ⟨part, inClause, by rwa [kind]⟩)
      · cases named
  · exact Or.inr (.required h required)

theorem signedNames_cases (member : n ∈ signedNames d) :
    n ∈ d.declaredNames ∨ Overlooked d n := by
  rw [signedNames] at member
  split at member
  · rename_i kind
    exact Or.inr (.signature (beq_iff_eq.1 kind) (Option.mem_toList.1 member))
  · exact Or.inl member

theorem ambientNames_cases (member : n ∈ ambientNames d) :
    n ∈ d.declaredNames ∨ Overlooked d n := by
  rw [ambientNames] at member
  split at member
  · rename_i kind
    rcases List.mem_flatMap.1 member with ⟨inner, inside, named⟩
    exact Or.inr (.ambient (beq_iff_eq.1 kind) inside named)
  · exact signedNames_cases member

/-- A name of a statement is looked at or not. -/
theorem moduleNamesOf_cases (member : n ∈ moduleNamesOf statement) :
    n ∈ namesOfStatement statement ∨ ∃ d, declaration? statement = some d ∧ Overlooked d n := by
  rw [moduleNamesOf] at member
  rw [namesOfStatement_eq]
  cases declared : declaration? statement with
  | none =>
    rw [declared] at member
    cases member
  | some d =>
    rw [declared, Option.map_some, Option.getD_some] at member
    rw [Option.map_some, Option.getD_some]
    have cases : n ∈ (if isImport d then boundNames d else d.declaredNames) ∨ Overlooked d n := by
      split at member
      · rename_i kind
        rw [if_pos kind]
        exact importedNames_cases kind member
      · rename_i kind
        rw [if_neg kind]
        exact ambientNames_cases member
    exact cases.imp_right fun overlooked => ⟨d, rfl, overlooked⟩

/-- What is not looked at is a name of the module all the same. -/
theorem mem_moduleNamesOf_of_overlooked (declared : declaration? statement = some d)
    (overlooked : Overlooked d n) : n ∈ moduleNamesOf statement := by
  rw [moduleNamesOf, declared, Option.map_some, Option.getD_some]
  cases overlooked with
  | required kind member =>
    rw [if_pos kind, importedNames]
    exact List.mem_append_right _ member
  | @behindComment c part kind clause inClause space inPart identifier _ =>
    rw [if_pos kind, importedNames, clause, Option.map_some, Option.getD_some]
    refine List.mem_append_left _ (List.mem_flatMap.2 ⟨part, inClause, ?_⟩)
    rw [clauseNames, space]
    exact List.mem_filter.2 ⟨inPart, beq_iff_eq.2 identifier⟩
  | signature kind name =>
    rw [if_neg (by simp [isImport, kind]), ambientNames, if_neg (by simp [kind]), signedNames,
      if_pos (beq_iff_eq.2 kind)]
    exact Option.mem_toList.2 name
  | ambient kind inside named =>
    rw [if_neg (by simp [isImport, kind]), ambientNames, if_pos (beq_iff_eq.2 kind)]
    exact List.mem_flatMap.2 ⟨_, inside, named⟩

theorem mem_moduleNames_iff {s : Source} {name : String} (unseen : name ∉ topLevelNames s) :
    name ∈ moduleNames s ↔
      ∃ statement ∈ s.statements, ∃ d n, declaration? statement = some d ∧ Overlooked d n ∧
        s.textOf n = name := by
  rw [moduleNames, List.mem_map]
  constructor
  · rintro ⟨n, member, text⟩
    rcases List.mem_flatMap.1 member with ⟨statement, inScript, named⟩
    rcases moduleNamesOf_cases named with seen | ⟨d, declared, overlooked⟩
    · refine absurd ?_ unseen
      exact List.mem_map.2 ⟨n, List.mem_flatMap.2 ⟨statement, inScript, seen⟩, text⟩
    · exact ⟨statement, inScript, d, n, declared, overlooked, text⟩
  · rintro ⟨statement, inScript, d, n, declared, overlooked, text⟩
    have named := mem_moduleNamesOf_of_overlooked declared overlooked
    exact ⟨n, List.mem_flatMap.2 ⟨statement, inScript, named⟩, text⟩

/-! ## The new name -/

variable {s : Source} {file : Path} {a : Accessor} {t : TsConfig} {e : Edit}

theorem exists_newStatement_eq (i : Imports) (a : Accessor) (file : Path) :
    ∃ back, i.newStatement a file = "import \x7b " ++ i.newSpecifier a ++ back := by
  unfold newStatement
  simp only [String.append_assoc]
  exact ⟨_, rfl⟩

/-- Whatever is inserted, the new specifier is written. -/
theorem exists_around_newSpecifier {i : Imports} (added : i.insertion? a file = some e) :
    ∃ front back, e.replacement = front ++ i.newSpecifier a ++ back := by
  rcases exists_newStatement_eq i a file with ⟨rest, statement⟩
  rw [(insertion?_eq_some_iff.1 added).2, Edit.insert, written, statement]
  split
  · exact ⟨_, _, rfl⟩
  · exact ⟨i.lead ++ "import \x7b ", rest ++ i.trail, by simp only [String.append_assoc]⟩

/-- A new specifier is written with the name that components call. -/
theorem newSpecifier_eq {i : Imports} (absent : i.accessorLocal = none) :
    (i.newSpecifier a = a.exportName ∧ i.callee a = a.exportName) ∨
      i.newSpecifier a = a.exportName ++ " as " ++ i.callee a := by
  rw [newSpecifier, callee, absent]
  cases i.newName with
  | none => exact Or.inl ⟨rfl, rfl⟩
  | some l => exact Or.inr rfl

/-- The name of a new import is none of those that are looked at. -/
theorem callee_not_mem_topLevelNames (absent : (ofSource s file a t).accessorLocal = none) :
    (ofSource s file a t).callee a ∉ topLevelNames s := by
  have new : (ofSource s file a t).newName =
      if (ofSource s file a t).accessorLocal.isNone && (topLevelNames s).contains a.exportName then
        some (freeAlias (topLevelNames s) a.exportName)
      else none := rfl
  rw [absent, Option.isNone_none, Bool.true_and] at new
  rw [callee, absent, new]
  split
  · cases ‹none = some _›
  · rename_i l aliased
    split at aliased
    · cases aliased
      exact freeAlias_not_mem _ _
    · cases aliased
  · rename_i plain
    split at plain
    · cases plain
    · rename_i free
      rwa [List.contains_iff_mem] at free

/-- A new import is written with a name that no import clause and no declaration, exported or not,
binds in the module.  So the module has the name already if and only if it is the name of a
`require` import, of an ambient declaration, of a function without a body, or of a name space behind
a comment. -/
theorem callee_mem_moduleNames_iff (added : (ofSource s file a t).insertion? a file = some e) :
    let i := ofSource s file a t
    (∃ front back, e.replacement = front ++ i.newSpecifier a ++ back) ∧
      ((i.newSpecifier a = a.exportName ∧ i.callee a = a.exportName) ∨
        i.newSpecifier a = a.exportName ++ " as " ++ i.callee a) ∧
      i.callee a ∉ topLevelNames s ∧
      (i.callee a ∈ moduleNames s ↔
        ∃ statement ∈ s.statements, ∃ d n, declaration? statement = some d ∧ Overlooked d n ∧
          s.textOf n = i.callee a) := by
  intro i
  have absent : i.accessorLocal = none := insertion?_isSome_iff.1 (Option.isSome_of_eq_some added)
  have unseen : i.callee a ∉ topLevelNames s := callee_not_mem_topLevelNames absent
  exact ⟨exists_around_newSpecifier added, newSpecifier_eq absent, unseen,
    mem_moduleNames_iff unseen⟩

/-- Beside an ambient constant of its name the accessor is imported without an alias, so the module
has the name twice. -/
theorem ambient_name_imported_again :
    let text := "declare const useTheme: () => any\n" ++
      "function Card()\x7breturn\x7bcolor:'#fff'\x7d\x7d"
    ∃ file e,
      SourceFile.ofText ⟨"/project/src/Card.tsx"⟩ text = .ok file ∧
        Migration.standard.importEdit? file = some e ∧
        e.replacement = "import \x7b useTheme \x7d from '@/theme';\n\n" ∧
        (Migration.standard.imports file).callee Migration.standard.accessor = "useTheme" ∧
        "useTheme" ∈ moduleNames file.source := by
  intro text
  have facts : (SourceFile.ofText ⟨"/project/src/Card.tsx"⟩ text).toOption.any (fun file =>
      (Migration.standard.importEdit? file).any fun e =>
        e.replacement == "import \x7b useTheme \x7d from '@/theme';\n\n" &&
          ((Migration.standard.imports file).callee Migration.standard.accessor == "useTheme" &&
            (moduleNames file.source).contains "useTheme")) = true := by
    rw [Migration.standard_eq]
    decide +kernel
  rcases Migration.exists_ofText facts with ⟨file, read, inFile⟩
  rcases (Option.any_eq_true _ _).1 inFile with ⟨e, planned, holds⟩
  simp only [Bool.and_eq_true, beq_iff_eq, List.contains_iff_mem] at holds
  exact ⟨file, e, read, planned, holds.1, holds.2.1, holds.2.2⟩

/-- Beside a constant of its name the accessor takes an alias, with a number where a function has
the first one. -/
theorem callee_mem_moduleNames_iff_numbered :
    let text := "const useTheme = 1\nexport function useThemeAccessor()\x7b\x7d\n" ++
      "function Card()\x7breturn\x7bcolor:'#fff'\x7d\x7d"
    ∃ file e,
      SourceFile.ofText ⟨"/project/src/Card.tsx"⟩ text = .ok file ∧
        (Migration.standard.imports file).insertion? Migration.standard.accessor file.path =
          some e ∧
        (Migration.standard.imports file).callee Migration.standard.accessor =
          "useThemeAccessor2" ∧
        "useThemeAccessor2" ∉ topLevelNames file.source := by
  intro text
  have facts : (SourceFile.ofText ⟨"/project/src/Card.tsx"⟩ text).toOption.any (fun file =>
      ((Migration.standard.imports file).insertion? Migration.standard.accessor file.path).isSome &&
        (Migration.standard.imports file).callee Migration.standard.accessor ==
          "useThemeAccessor2") = true := by
    decide +kernel
  rcases Migration.exists_ofText facts with ⟨file, read, inFile⟩
  rw [Bool.and_eq_true, beq_iff_eq] at inFile
  rcases Option.isSome_iff_exists.1 inFile.1 with ⟨e, added⟩
  have unseen := (callee_mem_moduleNames_iff added).2.2.1
  exact ⟨file, e, read, added, inFile.2, inFile.2 ▸ unseen⟩

end Imports

end ThemeMigration
