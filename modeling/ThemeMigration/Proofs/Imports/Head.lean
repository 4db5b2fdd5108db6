import ThemeMigration.Proofs.Edits.Stepwise
import ThemeMigration.Proofs.Imports.Insertion
import ThemeMigration.Proofs.Migration.Inspection
import ThemeMigration.Proofs.Script.Comments

/-!
# The head of a script

A script begins with the line that names its interpreter, if it has one, and with its directives;
comments may stand anywhere among them.  A new import statement follows the last import, or else
the directives, or else it is put in front of the first statement and its comments.  The search for
directives ends at any other node, and the line of the interpreter is such a node: in a script with
this line but without imports, the new statement is put in front of the line.
-/

namespace ThemeMigration

open Script SyntaxTree

namespace Imports

/-! ## Hash-bang line, directives and the first other statement -/

def isHashBang (t : SyntaxTree) : Bool := t.kind == .hashBangLine

/-- The line that names the interpreter: only comments may precede it. -/
def hashBang? (s : Source) : Option SyntaxTree := (solid s.statements).head?.filter isHashBang

/-- What follows the hash-bang line, without comments. -/
def belowHashBang (s : Source) : List SyntaxTree :=
  (solid s.statements).drop (hashBang? s).toList.length

/-- The directives that open the script. -/
def prologue (s : Source) : List SyntaxTree := (belowHashBang s).takeWhile isDirective

def belowPrologue (s : Source) : List SyntaxTree := (belowHashBang s).dropWhile isDirective

/-- The last import statement, of any form. -/
def lastImport? (s : Source) : Option SyntaxTree := (s.statements.filter isImport).getLast?

/-- An offset behind the hash-bang line and the directives. -/
structure BehindHead (s : Source) (offset : Nat) : Prop where
  hashBang : ∀ h ∈ hashBang? s, h.stop ≤ offset
  directives : ∀ d ∈ prologue s, d.stop ≤ offset

/-- An offset behind the hash-bang line and the directives, and not behind the beginning of the
first other statement. -/
structure RespectsHead (s : Source) (offset : Nat) : Prop extends BehindHead s offset where
  first : ∀ u ∈ (belowPrologue s).head?, offset ≤ u.start

variable {s : Source} {file : Path} {a : Accessor} {t : TsConfig}

theorem solid_statements_eq (s : Source) :
    solid s.statements = (hashBang? s).toList ++ prologue s ++ belowPrologue s := by
  rw [prologue, belowPrologue, List.append_assoc, List.takeWhile_append_dropWhile, belowHashBang,
    hashBang?]
  cases solid s.statements with
  | nil => rfl
  | cons u us => cases h : isHashBang u <;> simp [Option.filter, h]

theorem solid_statements_pairwise (s : Source) :
    (solid s.statements).Pairwise fun a b => a.stop ≤ b.start :=
  (Component.statements_pairwise s).filter _

/-- Hash-bang line and directives end before what follows them begins. -/
theorem behindHead_of_mem {u : SyntaxTree} (h : u ∈ belowPrologue s) : BehindHead s u.start := by
  have order := solid_statements_pairwise s
  rw [solid_statements_eq] at order
  have ends := (List.pairwise_append.1 order).2.2
  exact ⟨fun v line => ends v (List.mem_append_left _ (Option.mem_toList.2 line)) u h,
    fun d directive => ends d (List.mem_append_right _ directive) u h⟩

/-- A statement that is neither the hash-bang line nor a directive follows the prologue. -/
theorem mem_belowPrologue {u : SyntaxTree} (member : u ∈ s.statements) (code : u.isComment = false)
    (noLine : isHashBang u = false) (noDirective : u.isDirective = false) :
    u ∈ belowPrologue s := by
  have inCode := mem_solid.2 ⟨member, code⟩
  rw [solid_statements_eq, List.append_assoc] at inCode
  rcases List.mem_append.1 inCode with line | inRest
  · have isLine := (Option.filter_eq_some_iff.1 (Option.mem_toList.1 line)).2
    rw [noLine] at isLine
    cases isLine
  · rcases List.mem_append.1 inRest with directive | below
    · have isDirective := List.mem_takeWhile_imp directive
      rw [noDirective] at isDirective
      cases isDirective
    · exact below

/-! ## Where the first import goes -/

theorem stop_le_top {d : SyntaxTree} (h : d ∈ directives s) :
    d.stop ≤ (ofSource s file a t).top := by
  have order : (directives s).Pairwise fun a b => a.stop ≤ b.start :=
    (solid_statements_pairwise s).sublist (List.takeWhile_sublist isDirective)
  change d.stop ≤ ((directives s).getLast?.map (·.stop)).getD (firstStatementStart s)
  cases last : (directives s).getLast? with
  | none =>
    rw [List.getLast?_eq_none_iff.1 last] at h
    cases h
  | some e =>
    have inScript : ∀ u ∈ directives s, u.wellFormed s.text = true :=
      fun u member => Component.wellFormed_statement (mem_directives member).1
    exact stop_le_of_getLast? order inScript last h

/-- The comments that belong to the first statement begin before every statement. -/
theorem firstStatementStart_le {u : SyntaxTree} (member : u ∈ s.statements)
    (code : u.isComment = false) : firstStatementStart s ≤ u.start := by
  have order := Component.statements_pairwise s
  have split := List.takeWhile_append_dropWhile (p := isComment) (l := s.statements)
  rw [firstStatementStart, drop_length_takeWhile]
  cases rest : s.statements.dropWhile isComment with
  | nil => exact Nat.zero_le _
  | cons first others =>
    dsimp only
    rw [rest] at split
    rw [← split] at order member
    have apart := List.pairwise_append.1 order
    have inScript : ∀ v ∈ first :: others, v ∈ s.statements :=
      fun v inRest => split ▸ List.mem_append_right _ inRest
    -- The statement is no comment, so it is not among the comments in front of the first one.
    have below : first.start ≤ u.start := by
      rcases List.mem_append.1 member with comment | inRest
      · rw [List.mem_takeWhile_imp comment] at code
        cases code
      · exact start_le_of_head? apart.2.1
          (fun v inRest => Component.wellFormed_statement (inScript v inRest)) rfl inRest
    refine Nat.le_trans ?_ below
    rcases attachedStart_cases s.text first.start
      (s.statements.takeWhile isComment).reverse with same | ⟨v, inFront, same⟩
    · exact Nat.le_of_eq same
    · have comment := List.mem_reverse.1 inFront
      have inScript := (List.takeWhile_sublist _).subset comment
      have room := start_le_stop (Component.wellFormed_statement inScript)
      rw [same]
      exact Nat.le_trans room (apart.2.2 v comment first List.mem_cons_self)

/-- The place of a first import is not behind the beginning of a statement that is no directive. -/
theorem top_le {u : SyntaxTree} (member : u ∈ s.statements) (code : u.isComment = false)
    (other : u.isDirective = false) : (ofSource s file a t).top ≤ u.start := by
  have order := solid_statements_pairwise s
  have inCode := mem_solid.2 ⟨member, code⟩
  rw [← List.takeWhile_append_dropWhile (p := isDirective) (l := solid s.statements)]
    at order inCode
  change ((directives s).getLast?.map (·.stop)).getD (firstStatementStart s) ≤ u.start
  cases last : (directives s).getLast? with
  | none => exact firstStatementStart_le member code
  | some d =>
    rcases List.mem_append.1 inCode with directive | below
    · rw [List.mem_takeWhile_imp directive] at other
      cases other
    · exact (List.pairwise_append.1 order).2.2 d (List.mem_of_getLast? last) u below

theorem not_directive_of_hashBang {h : SyntaxTree} (line : isHashBang h = true) :
    h.isDirective = false ∧ h.isComment = false := by
  have kind : h.kind = .hashBangLine := eq_of_beq line
  rw [isDirective, isComment, kind]
  exact ⟨rfl, rfl⟩

theorem not_directive_of_import {u : SyntaxTree} (h : isImport u = true) :
    u.isDirective = false ∧ u.isComment = false ∧ isHashBang u = false := by
  have kind : u.kind = .importStatement := eq_of_beq h
  rw [isDirective, isComment, isHashBang, kind]
  exact ⟨rfl, rfl, rfl⟩

theorem belowHashBang_of_plain (plain : hashBang? s = none) :
    belowHashBang s = solid s.statements := by
  rw [belowHashBang, plain]
  rfl

/-- Without a hash-bang line the directives are those that are looked for. -/
theorem prologue_of_plain (plain : hashBang? s = none) : prologue s = directives s := by
  rw [prologue, belowHashBang_of_plain plain]
  rfl

/-- Without a hash-bang line a first import respects the head of the script. -/
theorem respectsHead_top (plain : hashBang? s = none) :
    RespectsHead s (ofSource s file a t).top := by
  refine ⟨⟨?_, ?_⟩, ?_⟩
  · rw [plain]
    intro h none
    cases none
  · intro d directive
    exact stop_le_top (prologue_of_plain plain ▸ directive)
  · intro u first
    rw [belowPrologue, belowHashBang_of_plain plain] at first
    have other := List.head?_dropWhile_not isDirective (solid s.statements)
    have inCode := mem_solid.1
      ((List.dropWhile_sublist _).subset (List.mem_of_mem_head? first))
    rw [Option.mem_def.1 first] at other
    exact top_le inCode.1 inCode.2 (by simpa using other)

/-! ## The last import -/

theorem sourced_eq (s : Source) :
    sourced s = (s.statements.filter isImport).filterMap fun u =>
      (u.part? .source).map fun m => (u, m) := by
  rw [sourced, List.filterMap_filter]

/-- The imports in front of the last one end before it begins. -/
theorem exists_imports_of_last {u : SyntaxTree} (last : lastImport? s = some u) :
    u ∈ s.statements ∧ isImport u = true ∧
      ∃ front, s.statements.filter isImport = front ++ [u] ∧ ∀ v ∈ front, v.stop ≤ u.start := by
  have order := (Component.statements_pairwise s).filter isImport
  rcases List.getLast?_eq_some_iff.1 last with ⟨front, split⟩
  have member := List.mem_filter.1 (List.mem_of_getLast? last)
  rw [split] at order
  exact ⟨member.1, member.2, front, split, fun v inFront =>
    (List.pairwise_append.1 order).2.2 v inFront u List.mem_cons_self⟩

theorem lastEnd_of_source {u m : SyntaxTree} (last : lastImport? s = some u)
    (named : u.part? .source = some m) : (ofSource s file a t).lastEnd = some u.stop := by
  rcases exists_imports_of_last last with ⟨_, _, front, split, _⟩
  change ((sourced s).getLast?.map fun p => p.1.stop) = some u.stop
  rw [sourced_eq, split, List.filterMap_append]
  simp [named]

theorem lastEnd_le {u : SyntaxTree} (last : lastImport? s = some u)
    (bare : u.part? .source = none) {offset : Nat}
    (found : (ofSource s file a t).lastEnd = some offset) : offset ≤ u.start := by
  rcases exists_imports_of_last last with ⟨_, _, front, split, before⟩
  rcases Option.map_eq_some_iff.1 found with ⟨⟨v, m⟩, final, rfl⟩
  have member := List.mem_of_getLast? final
  rw [sourced_eq, split, List.filterMap_append] at member
  simp only [List.filterMap_cons, bare, Option.map_none, List.filterMap_nil, List.append_nil,
    List.mem_filterMap] at member
  rcases member with ⟨w, inFront, same⟩
  rcases Option.map_eq_some_iff.1 same with ⟨_, _, equal⟩
  cases equal
  exact before v inFront

/-- No import statement of the script has a module specifier of its own. -/
def NoSource (s : Source) : Prop :=
  ∀ u ∈ s.statements, isImport u = true → u.part? .source = none

instance (s : Source) : Decidable (NoSource s) :=
  inferInstanceAs (Decidable (∀ u ∈ s.statements, _ → _))

theorem lastEnd_of_noSource (bare : NoSource s) : (ofSource s file a t).lastEnd = none := by
  have noSource : sourced s = [] := by
    rw [sourced_eq]
    refine List.filterMap_eq_nil_iff.2 fun u member => ?_
    have facts := List.mem_filter.1 member
    rw [bare u facts.1 facts.2, Option.map_none]
  change ((sourced s).getLast?.map fun p => p.1.stop) = none
  rw [noSource]
  rfl

theorem place_of_statement_eq (whole : (ofSource s file a t).joinAt = none) :
    (ofSource s file a t).place = (ofSource s file a t).lastEnd.getD (ofSource s file a t).top := by
  rw [place, whole]
  cases (ofSource s file a t).lastEnd <;> rfl

/-- A statement that is neither a directive nor the hash-bang line begins behind the place, unless
an import in front of it names its module. -/
theorem place_le_of_noSource (whole : (ofSource s file a t).joinAt = none) (bare : NoSource s)
    {u : SyntaxTree} (member : u ∈ s.statements) (code : u.isComment = false)
    (other : u.isDirective = false) : (ofSource s file a t).place ≤ u.start := by
  rw [place_of_statement_eq whole, lastEnd_of_noSource bare]
  exact top_le member code other

/-- A new import statement is put into the text behind the last import, if that names its module
directly, and then the hash-bang line and all directives are in front of it.  In a script without
such imports it respects the head if there is no hash-bang line, and otherwise stands in front of
this line.  An import of the form `import x = require(...)` at the end of the imports is not passed.
-/
theorem newStatement_placed {file' : Path} {e : Edit}
    (added : (ofSource s file a t).insertion? a file' = some e)
    (whole : (ofSource s file a t).joinAt = none) :
    let i := ofSource s file a t
    ∃ front back, s.text = front ++ back ∧
      e = .insert front.utf8ByteSize (i.lead ++ i.newStatement a file' ++ i.trail) ∧
      Edit.applyAll s.text [e] =
        front ++ (i.lead ++ i.newStatement a file' ++ i.trail) ++ back ∧
      (∀ u ∈ lastImport? s, (u.part? .source).isSome = true →
        front.utf8ByteSize = u.stop ∧ BehindHead s front.utf8ByteSize ∧ i.lead = "\n") ∧
      (∀ u ∈ lastImport? s, u.part? .source = none → front.utf8ByteSize ≤ u.start) ∧
      (NoSource s → hashBang? s = none →
        RespectsHead s front.utf8ByteSize ∧ (prologue s ≠ [] → i.lead = "\n\n")) ∧
      (NoSource s → ∀ h ∈ hashBang? s, front.utf8ByteSize ≤ h.start) := by
  intro i
  rcases Text.isBoundary_iff.1 (place_boundary s file a t) with ⟨front, back, split, size⟩
  have edit := (insertion?_eq_some_iff.1 added).2
  rw [written, whole, ← size] at edit
  refine ⟨front, back, split, edit, ?_, ?_, ?_, ?_, ?_⟩
  · rw [edit, split]
    exact Edit.applyAll_insert front back _
  · intro u last named
    rcases Option.isSome_iff_exists.1 named with ⟨m, source⟩
    rcases exists_imports_of_last last with ⟨member, isImport, _⟩
    have kinds := not_directive_of_import isImport
    have lastEnd : i.lastEnd = some u.stop := lastEnd_of_source last source
    have behind := behindHead_of_mem (mem_belowPrologue member kinds.2.1 kinds.2.2 kinds.1)
    have room := start_le_stop (Component.wellFormed_statement member)
    have place : front.utf8ByteSize = u.stop := by
      rw [size, place_of_statement_eq whole, lastEnd, Option.getD_some]
    refine ⟨place, ⟨?_, ?_⟩, ?_⟩
    · exact fun h line => place ▸ Nat.le_trans (behind.hashBang h line) room
    · exact fun d directive => place ▸ Nat.le_trans (behind.directives d directive) room
    · rw [lead, whole, lastEnd]
  · intro u last bare
    rcases exists_imports_of_last last with ⟨member, isImport, _⟩
    have kinds := not_directive_of_import isImport
    rw [size, place_of_statement_eq whole]
    cases found : (ofSource s file a t).lastEnd with
    | some offset => exact lastEnd_le last bare found
    | none => exact top_le member kinds.2.1 kinds.1
  · intro bare plain
    have lastEnd : i.lastEnd = none := lastEnd_of_noSource bare
    rw [size, place_of_statement_eq whole, lastEnd, Option.getD_none]
    refine ⟨respectsHead_top plain, fun some => ?_⟩
    have afterDirective : i.afterDirective = true := by
      rw [prologue_of_plain plain] at some
      simpa [i, ofSource] using some
    rw [lead, whole, lastEnd, afterDirective]
    rfl
  · intro bare h line
    have facts := Option.filter_eq_some_iff.1 line
    have member := mem_solid.1 (List.mem_of_mem_head? facts.1)
    rw [size]
    exact place_le_of_noSource whole bare member.1 member.2 (not_directive_of_hashBang facts.2).1

/-- In front of a hash-bang line the statement takes the place of the first line, and the directive
behind the hash-bang line is not counted. -/
theorem statement_above_hashBang :
    let text :=
      "#!/usr/bin/env node\n'use client'\nfunction Card()\x7breturn\x7bcolor:'#fff'\x7d\x7d"
    ∃ file e h,
      SourceFile.ofText ⟨"/project/src/Card.tsx"⟩ text = .ok file ∧
        Migration.standard.importEdit? file = some e ∧
        (Migration.standard.imports file).joinAt = none ∧ NoSource file.source ∧
        hashBang? file.source = some h ∧ e.span.start < h.stop ∧
        (∃ d ∈ prologue file.source, e.span.start < d.stop) ∧
        Edit.applyAll text [e] = "import \x7b useTheme \x7d from '@/theme';\n\n" ++ text := by
  intro text
  have facts : (SourceFile.ofText ⟨"/project/src/Card.tsx"⟩ text).toOption.any (fun file =>
      (Migration.standard.importEdit? file).any fun e =>
        (hashBang? file.source).any fun h =>
          (Migration.standard.imports file).joinAt.isNone && decide (NoSource file.source) &&
            decide (e.span.start < h.stop) &&
            (prologue file.source).any (fun d => decide (e.span.start < d.stop)) &&
            e == .insert 0 "import \x7b useTheme \x7d from '@/theme';\n\n") = true := by
    rw [Migration.standard_eq]
    decide +kernel
  rcases Migration.exists_ofText facts with ⟨file, read, inFile⟩
  rcases (Option.any_eq_true _ _).1 inFile with ⟨e, planned, ofEdit⟩
  rcases (Option.any_eq_true _ _).1 ofEdit with ⟨h, line, holds⟩
  simp only [Bool.and_eq_true, decide_eq_true_eq, beq_iff_eq, List.any_eq_true,
    Option.isNone_iff_eq_none] at holds
  rcases holds with ⟨⟨⟨⟨whole, bare⟩, above⟩, directive⟩, same⟩
  have result := Edit.applyAll_insert "" text "import \x7b useTheme \x7d from '@/theme';\n\n"
  rw [String.utf8ByteSize_empty, String.empty_append, String.empty_append, ← same] at result
  exact ⟨file, e, h, read, planned, whole, bare, line, above, directive, result⟩

/-- Behind two directives, with comments in front of them, between them and behind them. -/
theorem newStatement_placed_directives :
    let text := "// 1\n'use client' // 2\n/* 3 */ 'use strict'; // 4\n\n/* 5 */\n" ++
      "function Card()\x7breturn\x7bcolor:'#fff'\x7d\x7d"
    ∃ file e,
      SourceFile.ofText ⟨"/project/src/Card.tsx"⟩ text = .ok file ∧
        (Migration.standard.imports file).insertion? Migration.standard.accessor file.path =
          some e ∧
        (Migration.standard.imports file).joinAt = none ∧ NoSource file.source ∧
        hashBang? file.source = none ∧
        (prologue file.source).map (·.start) = [5, 31] ∧
        RespectsHead file.source e.span.start := by
  intro text
  have facts : (SourceFile.ofText ⟨"/project/src/Card.tsx"⟩ text).toOption.any (fun file =>
      ((Migration.standard.imports file).insertion? Migration.standard.accessor file.path).isSome &&
        (Migration.standard.imports file).joinAt.isNone && decide (NoSource file.source) &&
        (hashBang? file.source).isNone &&
        (prologue file.source).map (·.start) == [5, 31]) = true := by
    decide +kernel
  rcases Migration.exists_ofText facts with ⟨file, read, holds⟩
  simp only [Bool.and_eq_true, decide_eq_true_eq, beq_iff_eq, Option.isNone_iff_eq_none,
    Option.isSome_iff_exists] at holds
  rcases holds with ⟨⟨⟨⟨⟨e, added⟩, whole⟩, bare⟩, plain⟩, directives⟩
  rcases newStatement_placed added whole with ⟨front, _, _, rfl, _, _, _, placed, _⟩
  exact ⟨file, _, read, added, whole, bare, plain, directives, (placed bare plain).1⟩

end Imports

end ThemeMigration
