import ThemeMigration.Proofs.Imports.Alias
import ThemeMigration.Proofs.Imports.Growth
import ThemeMigration.Proofs.Script.Reading

/-!
# The text of a new import

What is written for an import of the accessor reads as such an import.  The specifier reads as one
name in every list of imported names, and the statement is a script of its own that imports this
one name, as a value.  The exported name may be any word here, a reserved one too.  The alias must
not be the word `as`, which none of the candidates for it is.
-/

namespace ThemeMigration

open Script SyntaxTree

namespace Imports

/-! ## Aliases -/

section Alias

variable {exportName : String}

theorem isName_append {a b : String} (isName : Config.isName a = true)
    (plain : b.toList.all isPlain = true) : Config.isName (a ++ b) = true := by
  obtain ⟨c, cs, chars, start, plainStart⟩ := exists_chars_of_isName isName
  rw [Config.isName, String.toList_append, chars, List.cons_append]
  simp only [start, Bool.true_and, List.all_append, Bool.and_eq_true]
  exact ⟨List.all_eq_true.2 fun d member => plainStart d (List.mem_cons_of_mem _ member), plain⟩

theorem isName_aliasCandidate (isName : Config.isName exportName = true) (n : Nat) :
    Config.isName (aliasCandidate exportName n) = true := by
  have first : Config.isName (exportName ++ "Accessor") = true :=
    isName_append isName (by decide)
  rcases Nat.lt_or_ge n 2 with small | large
  · rwa [aliasCandidate, if_pos (Nat.le_of_lt_succ small)]
  · rw [aliasCandidate_of_two_le exportName large]
    refine isName_append first (List.all_eq_true.2 fun c member => ?_)
    rw [Nat.toList_repr] at member
    rw [isPlain, Nat.isDigit_of_mem_toDigits (by decide) (by decide) member, Bool.or_true]

theorem mem_aliasCandidate (exportName : String) (n : Nat) :
    'A' ∈ (aliasCandidate exportName n).toList := by
  rw [aliasCandidate]
  split <;> simp [String.toList_append, toString]

/-- Words without capital letters are no aliases. -/
theorem aliasCandidate_not_mem (exportName : String) (n : Nat) :
    aliasCandidate exportName n ∉
      "as" :: "undefined" :: (Grammar.reservedWords ++ Grammar.strictWords) := by
  have lower : ∀ w ∈ "as" :: "undefined" :: (Grammar.reservedWords ++ Grammar.strictWords),
      'A' ∉ w.toList := by decide
  exact fun member => lower _ member (mem_aliasCandidate exportName n)

theorem exists_freeAliasFrom_eq (taken : List String) (exportName : String) (n more : Nat) :
    ∃ k, freeAliasFrom taken exportName n more = aliasCandidate exportName k := by
  induction more generalizing n with
  | zero => exact ⟨n, rfl⟩
  | succ more ih =>
    rw [freeAliasFrom]
    split
    · exact ih (n + 1)
    · exact ⟨n, rfl⟩

end Alias

variable {i : Imports} {a : Accessor} {file : Path}

/-- A new import goes by the exported name or by an alias for it. -/
def AliasOnly (i : Imports) (a : Accessor) : Prop :=
  ∀ l ∈ i.newName, ∃ n, l = aliasCandidate a.exportName n

theorem aliasOnly_ofSource (s : Source) (file : Path) (a : Accessor) (t : TsConfig) :
    (ofSource s file a t).AliasOnly a := by
  intro l named
  change (if _ then some (freeAlias (topLevelNames s) a.exportName) else none) = some l at named
  split at named
  · cases named
    exact exists_freeAliasFrom_eq _ _ _ _
  · cases named

theorem callee_eq_or (aliasOnly : i.AliasOnly a) (absent : i.accessorLocal = none) :
    i.callee a = a.exportName ∨ ∃ n, i.callee a = aliasCandidate a.exportName n := by
  rw [callee, absent]
  cases named : i.newName with
  | none => exact Or.inl rfl
  | some l => exact Or.inr (aliasOnly l named)

/-! ## The specifier -/

section Specifier

variable {language : Language} {bound : Nat} {passed : List Span} {offset : Nat}
  {rest : List Char} {d : Cursor}

theorem size_newSpecifier (i : Imports) (a : Accessor) :
    a.exportName.utf8ByteSize ≤ (i.newSpecifier a).utf8ByteSize := by
  rw [newSpecifier]
  split
  · simp only [String.utf8ByteSize_append]
    omega
  · exact Nat.le_refl _

/-- The first word of a specifier is the exported name. -/
theorem meets_newSpecifier (isExport : Config.isName a.exportName = true) (spaces : Nat)
    (ends : EndsWord rest) (enough : (i.newSpecifier a).utf8ByteSize ≤ bound) :
    ∃ e, (Cursor.resume language bound passed
      (List.replicate spaces ' ' ++ ((i.newSpecifier a).toList ++ rest)) offset).Meets
        (.word a.exportName) (offset + spaces) (offset + spaces + a.exportName.utf8ByteSize) e := by
  have fits : a.exportName.toList.length ≤ bound :=
    (length_le_size _).trans ((size_newSpecifier i a).trans enough)
  rw [newSpecifier]
  cases i.newName with
  | none => exact ⟨_, meets_name spaces a.exportName isExport ends fits⟩
  | some l =>
    have goesOn : EndsWord (' ' :: 'a' :: 's' :: ' ' :: (l.toList ++ rest)) :=
      endsWord_cons (by decide) _
    simp only [String.toList_append, List.append_assoc]
    exact ⟨_, meets_name spaces a.exportName isExport goesOn fits⟩

/-- In a list of names, which goes on or ends behind it, the specifier reads as one import of the
accessor. -/
theorem importSpecifier_newSpecifier (aliasOnly : i.AliasOnly a)
    (isExport : Config.isName a.exportName = true) (g : Rules) (spaces : Nat)
    (ends : EndsWord rest) (enough : (i.newSpecifier a).utf8ByteSize ≤ bound)
    (behind : Cursor.resume language bound passed rest
      (offset + spaces + (i.newSpecifier a).utf8ByteSize) = d)
    (stops : d.token = .punct .comma ∨ d.token = .punct .braceClose) :
    Grammar.importSpecifier g (.resume language bound passed
        (List.replicate spaces ' ' ++ ((i.newSpecifier a).toList ++ rest)) offset) =
      some (i.specifierNode a (offset + spaces), d) := by
  have fits : a.exportName.toList.length ≤ bound :=
    (length_le_size _).trans ((size_newSpecifier i a).trans enough)
  rw [specifierNode]
  rw [newSpecifier] at enough behind ⊢
  cases named : i.newName with
  | none =>
    simp only [named] at behind
    have name : (Cursor.resume language bound passed (List.replicate spaces ' ' ++
        (a.exportName.toList ++ rest)) offset).Meets (.word a.exportName) _ _ d :=
      behind ▸ meets_name spaces a.exportName isExport ends fits
    rw [Grammar.importSpecifier_name stops name.one, name.start, name.tailStart_eq, name.tokenSpan]
  | some l =>
    obtain ⟨n, isAlias⟩ := aliasOnly l named
    have isName : Config.isName l = true := isAlias ▸ isName_aliasCandidate isExport n
    have noAs : l ≠ "as" := by
      rintro rfl
      exact aliasCandidate_not_mem a.exportName n (isAlias ▸ List.mem_cons_self)
    let from_ (cs : List Char) (offset : Nat) : Cursor := .resume language bound passed cs offset
    let nameEnd := offset + spaces + a.exportName.utf8ByteSize
    let afterAs := ' ' :: (l.toList ++ rest)
    let afterName := ' ' :: 'a' :: 's' :: afterAs
    have space : " as ".utf8ByteSize = 4 := rfl
    simp only [named, String.utf8ByteSize_append, space, ← Nat.add_assoc] at enough behind
    have size := length_le_size l
    have name : (from_ (List.replicate spaces ' ' ++ (a.exportName.toList ++ afterName))
        offset).Meets (.word a.exportName) (offset + spaces) nameEnd (from_ afterName nameEnd) :=
      meets_name spaces a.exportName isExport (endsWord_cons (by decide) _) fits
    have asWord : (from_ afterName nameEnd).Meets (.word "as") (nameEnd + 1) (nameEnd + 3)
        (from_ afterAs (nameEnd + 3)) :=
      meets_name 1 "as" (by decide) (endsWord_cons (by decide) _) (by simp; omega)
    have second : (from_ afterAs (nameEnd + 3)).Meets (.word l) (nameEnd + 4)
        (nameEnd + 4 + l.utf8ByteSize) d :=
      behind ▸ meets_name 1 l isName ends (by omega)
    have read := Grammar.importSpecifier_alias (g := g) stops noAs
      (name.row (asWord.row second.one))
    rw [name.start, name.tokenSpan, name.advance, asWord.advance, second.tokenSpan,
      second.tailStart_eq] at read
    simp only [String.toList_append, List.append_assoc, String.utf8ByteSize_append, space,
      ← Nat.add_assoc]
    exact read

/-- In every list of names the specifier reads as one node, which imports the accessor as a value,
under the name that components call. -/
structure ReadsInLists (i : Imports) (a : Accessor) : Prop where
  read : ∀ (g : Rules) (language : Language) (bound : Nat) (passed : List Span)
    (spaces offset : Nat) (rest : List Char),
    let d := Cursor.resume language bound passed rest
      (offset + spaces + (i.newSpecifier a).utf8ByteSize)
    EndsWord rest → (i.newSpecifier a).utf8ByteSize ≤ bound →
    (d.token = .punct .comma ∨ d.token = .punct .braceClose) →
      Grammar.importSpecifier g (.resume language bound passed
          (List.replicate spaces ' ' ++ ((i.newSpecifier a).toList ++ rest)) offset) =
        some (i.specifierNode a (offset + spaces), d)
  isAccessor : ∀ (s : Source) (start : Nat), Text.StandsAt s.text start (i.newSpecifier a) →
    accessorLocal? s a (i.specifierNode a start) = some (i.callee a)

theorem readsInLists (aliasOnly : i.AliasOnly a) (isExport : Config.isName a.exportName = true)
    (absent : i.accessorLocal = none) : i.ReadsInLists a where
  read g _ _ _ spaces _ _ ends enough stops :=
    importSpecifier_newSpecifier aliasOnly isExport g spaces ends enough rfl stops
  isAccessor _ _ := accessorLocal?_specifierNode absent

theorem wellFormed_specifierNode {text : String} {start : Nat}
    (stands : Text.StandsAt text start (i.newSpecifier a)) :
    (i.specifierNode a start).wellFormed text = true := by
  obtain ⟨first, last⟩ := stands.isBoundary
  rw [specifierNode]
  rw [newSpecifier] at stands last ⊢
  cases named : i.newName with
  | none =>
    rw [named] at last
    simp [wellFormed, wellFormedFrom, hasForm, SyntaxTree.span, SyntaxTree.label, Kind.isAtomic,
      first, last]
  | some l =>
    rw [named] at stands last
    obtain ⟨-, nameStop⟩ := stands.left.left.isBoundary
    obtain ⟨localStart, -⟩ := stands.right.isBoundary
    simp only [String.utf8ByteSize_append, ← Nat.add_assoc] at localStart last
    simp [wellFormed, wellFormedFrom, hasForm, SyntaxTree.span, SyntaxTree.label, Kind.isAtomic,
      first, last, nameStop, localStart, String.utf8ByteSize_append, ← Nat.add_assoc]
    omega

/-- The name that a new specifier binds. -/
theorem specifierLocal?_specifierNode {s : Source} {start : Nat} (absent : i.accessorLocal = none)
    (written : Text.StandsAt s.text start (i.newSpecifier a)) :
    (specifierLocal? (i.specifierNode a start)).map s.textOf = some (i.callee a) := by
  rw [newSpecifier] at written
  rw [specifierNode, newSpecifier, callee, absent]
  cases named : i.newName with
  | none =>
    rw [named] at written
    have name := written.slice_eq
    simp [specifierLocal?, part?, children, label, Source.textOf, SyntaxTree.text, span,
      Text.sliceSpan, name]
  | some l =>
    rw [named] at written
    have localName := written.right.slice_eq
    simp only [String.utf8ByteSize_append, ← Nat.add_assoc] at localName
    simp [specifierLocal?, part?, children, label, Source.textOf, SyntaxTree.text, span,
      Text.sliceSpan, localName, ← Nat.add_assoc]

end Specifier

/-! ## The statement -/

section Statement

/-- What ends the statement. -/
def ending (i : Imports) : String := if i.semicolon then ";" else ""

/-- The characters behind its specifier. -/
def charsBehind (i : Imports) (a : Accessor) (file : Path) : List Char :=
  ' ' :: '\x7d' :: ' ' :: ("from".toList ++ ' ' :: i.quote ::
    ((a.specifierFor file).toList ++ i.quote :: i.ending.toList))

theorem toList_newStatement (i : Imports) (a : Accessor) (file : Path) :
    (i.newStatement a file).toList = "import".toList ++ ' ' :: '\x7b' :: ' ' ::
      ((i.newSpecifier a).toList ++ i.charsBehind a file) := by
  have quote : i.quote.toString.toList = [i.quote] := by simp [Char.toString]
  rw [newStatement]
  simp only [String.toList_append, List.append_assoc, quote]
  rfl

/-- Where the list of names ends. -/
def listEnd (i : Imports) (a : Accessor) : Nat := 9 + (i.newSpecifier a).utf8ByteSize + 2

/-- Where the module specifier ends. -/
def sourceEnd (i : Imports) (a : Accessor) (file : Path) : Nat :=
  i.listEnd a + 6 + ((a.specifierFor file).utf8ByteSize + 2)

/-- The statement, cut where its parts begin. -/
theorem newStatement_eq (i : Imports) (a : Accessor) (file : Path) :
    i.newStatement a file = "import " ++ ("\x7b " ++ i.newSpecifier a ++ " \x7d") ++ " from " ++
      (i.quote.toString ++ a.specifierFor file ++ i.quote.toString) ++ i.ending := by
  apply String.toList_inj.1
  simp [newStatement, ending, String.toList_append]

theorem list_stands (i : Imports) (a : Accessor) (file : Path) :
    Text.StandsAt (i.newStatement a file) 7 ("\x7b " ++ i.newSpecifier a ++ " \x7d") := by
  have whole := Text.standsAt_zero (i.newStatement a file)
  conv at whole => arg 3; rw [newStatement_eq]
  exact whole.left.left.left.right

theorem size_list (i : Imports) (a : Accessor) :
    7 + ("\x7b " ++ i.newSpecifier a ++ " \x7d").utf8ByteSize = i.listEnd a := by
  have literals : "\x7b ".utf8ByteSize = 2 ∧ " \x7d".utf8ByteSize = 2 := ⟨rfl, rfl⟩
  simp only [String.utf8ByteSize_append, literals, listEnd]
  omega

theorem source_stands (i : Imports) (a : Accessor) (file : Path) :
    Text.StandsAt (i.newStatement a file) (i.listEnd a + 6)
      (i.quote.toString ++ a.specifierFor file ++ i.quote.toString) := by
  have whole := Text.standsAt_zero (i.newStatement a file)
  conv at whole => arg 3; rw [newStatement_eq]
  have start : 0 + ("import " ++ ("\x7b " ++ i.newSpecifier a ++ " \x7d") ++
      " from ").utf8ByteSize = i.listEnd a + 6 := by
    have literals : "import ".utf8ByteSize = 7 ∧ "\x7b ".utf8ByteSize = 2 ∧
      " \x7d".utf8ByteSize = 2 ∧ " from ".utf8ByteSize = 6 := ⟨rfl, rfl, rfl, rfl⟩
    simp only [String.utf8ByteSize_append, literals, listEnd]
    omega
  exact start ▸ whole.left.right

theorem wellFormed_list (i : Imports) (a : Accessor) (file : Path) :
    wellFormed (i.newStatement a file)
      (.node .namedImports none ⟨7, i.listEnd a⟩ [i.specifierNode a 9]) = true := by
  have stands := list_stands i a file
  have brace : String.Pos.Raw.get (i.newStatement a file) ⟨7⟩ = '\x7b' :=
    stands.left.left.get_eq rfl
  have specifier : (i.specifierNode a 9).wellFormed (i.newStatement a file) = true :=
    wellFormed_specifierNode stands.left.right
  have span : (i.specifierNode a 9).span = ⟨9, 9 + (i.newSpecifier a).utf8ByteSize⟩ := rfl
  have unlabelled : (i.specifierNode a 9).label = none := rfl
  have inside : 9 + (i.newSpecifier a).utf8ByteSize ≤ i.listEnd a := Nat.le_add_right _ 2
  have long : 7 < i.listEnd a := by omega
  obtain ⟨first, last⟩ := stands.isBoundary
  rw [size_list] at last
  simp only [wellFormed, wellFormedFrom, hasForm, first, last, brace, specifier, span, inside,
    List.filterMap_cons, unlabelled, long, long.le]
  rfl

variable (isQuote : i.quote = '\'' ∨ i.quote = '"')

include isQuote

theorem size_quote : i.quote.toString.utf8ByteSize = 1 := by
  rcases isQuote with h | h <;> rw [h] <;> rfl

theorem size_newStatement (a : Accessor) (file : Path) :
    (i.newStatement a file).utf8ByteSize = i.sourceEnd a file + i.ending.utf8ByteSize := by
  have front : "import \x7b ".utf8ByteSize = 9 := rfl
  have back : " \x7d from ".utf8ByteSize = 8 := rfl
  rw [newStatement]
  simp only [String.utf8ByteSize_append, front, back, size_quote isQuote, sourceEnd, listEnd]
  rw [ending]
  omega

theorem statementNode_zero : i.statementNode a file 0 =
    .node .importStatement none ⟨0, i.sourceEnd a file + i.ending.utf8ByteSize⟩
      [.node .importClause none ⟨7, i.listEnd a⟩
        [.node .namedImports none ⟨7, i.listEnd a⟩ [i.specifierNode a 9]],
      .node .string (some .source) ⟨i.listEnd a + 6, i.sourceEnd a file⟩ []] := by
  have keyword : "import ".utf8ByteSize = 7 := rfl
  have opening : "\x7b ".utf8ByteSize = 2 := rfl
  have closing : " \x7d".utf8ByteSize = 2 := rfl
  have fromWord : " from ".utf8ByteSize = 6 := rfl
  have stop : (i.specifierNode a 9).stop = 9 + (i.newSpecifier a).utf8ByteSize := rfl
  have source : 1 + (a.specifierFor file).utf8ByteSize + 1 =
    (a.specifierFor file).utf8ByteSize + 2 := by omega
  simp only [statementNode, keyword, opening, closing, fromWord, Nat.zero_add, stop,
    size_newStatement isQuote, String.utf8ByteSize_append, size_quote isQuote, source]
  rfl

theorem size_source : i.listEnd a + 6 +
    (i.quote.toString ++ a.specifierFor file ++ i.quote.toString).utf8ByteSize =
      i.sourceEnd a file := by
  simp only [String.utf8ByteSize_append, size_quote isQuote, sourceEnd]
  omega

theorem isQuoted_source :
    isQuoted (i.quote.toString ++ a.specifierFor file ++ i.quote.toString) = true := by
  have chars : (i.quote.toString ++ a.specifierFor file ++ i.quote.toString).toList =
      i.quote :: ((a.specifierFor file).toList ++ [i.quote]) := by
    simp [String.toList_append, Char.toString]
  rw [isQuoted, chars]
  rcases isQuote with quote | quote <;> rw [quote] <;> simp

theorem wellFormed_newStatement :
    SyntaxTree.wellFormed (i.newStatement a file)
      (.node .program none ⟨0, (i.newStatement a file).utf8ByteSize⟩ [i.statementNode a file 0]) =
        true := by
  have size := size_newStatement isQuote a file
  have list := wellFormed_list i a file
  have stands := source_stands i a file
  have string := stands.slice_eq
  rw [size_source isQuote] at string
  have source : wellFormed (i.newStatement a file)
      (.node .string (some .source) ⟨i.listEnd a + 6, i.sourceEnd a file⟩ []) = true := by
    obtain ⟨first, last⟩ := stands.isBoundary
    rw [size_source isQuote] at last
    have long : i.listEnd a + 6 ≤ i.sourceEnd a file := Nat.le_add_right ..
    simp only [wellFormed, wellFormedFrom, hasForm, first, last, Text.sliceSpan, string,
      isQuoted_source isQuote, long]
    rfl
  have clause : wellFormed (i.newStatement a file) (.node .importClause none ⟨7, i.listEnd a⟩
      [.node .namedImports none ⟨7, i.listEnd a⟩ [i.specifierNode a 9]]) = true :=
    wellFormed_around list (by simp [hasForm, Kind.isAtomic, SyntaxTree.label, List.filterMap_cons])
      none
  have statement : wellFormed (i.newStatement a file) (i.statementNode a file 0) = true := by
    have first := Text.isBoundary_zero (i.newStatement a file)
    have last := Text.isBoundary_size (i.newStatement a file)
    have inside : i.sourceEnd a file ≤ (i.newStatement a file).utf8ByteSize := by omega
    rw [statementNode_zero isQuote, ← size, wellFormed, wellFormedFrom, clause, wellFormedFrom,
      source]
    simp [wellFormedFrom, hasForm, Kind.isAtomic, SyntaxTree.span, SyntaxTree.label,
      SyntaxTree.kind, List.filterMap_cons, first, last, inside]
  rw [size]
  rw [statementNode_zero isQuote] at statement ⊢
  exact wellFormed_around statement (by simp [hasForm, Kind.isAtomic, SyntaxTree.label,
    List.filterMap_cons]) none

end Statement

/-! ## Reading the statement -/

section Reading

variable {language : Language} {bound : Nat} {passed : List Span}

/-- The statement ends in front of the end of the text, with a semicolon or without. -/
theorem semicolon_ending (i : Imports) (language : Language) (passed : List Span)
    (some : bound ≠ 0) (offset : Nat) :
    let c := Cursor.resume language bound passed i.ending.toList offset
    (∀ w, c.token ≠ .word w) ∧ Reader.semicolon false c =
      Option.some ((), .resume language bound passed [] (offset + i.ending.utf8ByteSize)) := by
  rw [ending]
  cases i.semicolon with
  | true =>
    have meets : (Cursor.resume language bound passed [';'] offset).Meets (.punct .semicolon)
        offset (offset + 1) (.resume language bound passed [] (offset + 1)) :=
      meets_lexeme 0 (startsToken_cons (by decide) _) some rfl
    have accepted := Grammar.semicolon_of_token meets.token false
    rw [meets.advance] at accepted
    have noWord (w : String) : (Cursor.resume language bound passed [';'] offset).token ≠
        .word w := by
      rw [meets.token]
      nofun
    exact ⟨noWord, accepted⟩
  | false =>
    have meets : (Cursor.resume language bound passed [] offset).Meets .finish
        offset offset (.resume language bound passed [] offset) :=
      meets_lexeme 0 startsToken_nil some rfl
    have noWord (w : String) : (Cursor.resume language bound passed [] offset).token ≠ .word w := by
      rw [meets.token]
      nofun
    exact ⟨noWord, Grammar.semicolon_of_finish meets.token rfl some false⟩

/-- What stands behind the list of names: its brace, the module and the end of the statement. -/
structure Ends (c : Cursor) (listEnd sourceEnd : Nat) (d : Cursor) : Prop where
  rest : ∃ c₁ c₂ c₃, c.Meets (.punct .braceClose) (listEnd - 1) listEnd c₁ ∧
    c₁.Meets (.word "from") (listEnd + 1) (listEnd + 5) c₂ ∧
    c₂.Meets .string (listEnd + 6) sourceEnd c₃ ∧
    (∀ w, c₃.token ≠ .word w) ∧ Reader.semicolon false c₃ = some ((), d)
  finish : d.token = .finish

theorem ends_charsBehind (isQuote : i.quote = '\'' ∨ i.quote = '"')
    (quotable : IsQuotable i.quote (a.specifierFor file))
    (enough : (i.newStatement a file).utf8ByteSize < bound) :
    Ends (.resume language bound passed (i.charsBehind a file)
      (9 + (i.newSpecifier a).utf8ByteSize)) (i.listEnd a) (i.sourceEnd a file)
      (.resume language bound passed [] (i.newStatement a file).utf8ByteSize) := by
  have size := size_newStatement isQuote a file
  have moduleSize := length_le_size (a.specifierFor file)
  have sourceEnd_eq : i.sourceEnd a file =
    i.listEnd a + 6 + ((a.specifierFor file).utf8ByteSize + 2) := rfl
  let from_ (cs : List Char) (offset : Nat) : Cursor := .resume language bound passed cs offset
  let afterFrom := ' ' :: i.quote :: ((a.specifierFor file).toList ++ i.quote :: i.ending.toList)
  let afterList := ' ' :: ("from".toList ++ afterFrom)
  have closes : (from_ (i.charsBehind a file) (9 + (i.newSpecifier a).utf8ByteSize)).Meets
      (.punct .braceClose) (i.listEnd a - 1) (i.listEnd a) (from_ afterList (i.listEnd a)) :=
    meets_lexeme 1 (startsToken_cons (by decide) _) (by omega) rfl
  have fromWord : (from_ afterList (i.listEnd a)).Meets (.word "from") (i.listEnd a + 1)
      (i.listEnd a + 5) (from_ afterFrom (i.listEnd a + 5)) :=
    meets_name 1 "from" (by decide) (endsWord_cons (by decide) _) (by simp; omega)
  have starts : StartsToken (i.quote :: ((a.specifierFor file).toList ++
      i.quote :: i.ending.toList)) :=
    startsToken_cons (by rcases isQuote with h | h <;> rw [h] <;> decide) _
  have source : (from_ afterFrom (i.listEnd a + 5)).Meets .string (i.listEnd a + 6)
      (i.sourceEnd a file) (from_ i.ending.toList (i.sourceEnd a file)) :=
    meets_lexeme 1 starts (by omega) (lexeme_string isQuote quotable _ (by omega) _)
  have some : bound ≠ 0 := by omega
  obtain ⟨noWord, ends⟩ := semicolon_ending i language passed some (i.sourceEnd a file)
  rw [← size] at ends
  have finish : (from_ [] (i.newStatement a file).utf8ByteSize).Meets .finish
      (i.newStatement a file).utf8ByteSize (i.newStatement a file).utf8ByteSize
      (from_ [] (i.newStatement a file).utf8ByteSize) :=
    meets_lexeme 0 startsToken_nil (by omega) rfl
  exact ⟨⟨_, _, _, closes, fromWord, source, noWord, ends⟩, finish.token⟩

theorem Ends.token {c d : Cursor} {listEnd sourceEnd : Nat} (h : Ends c listEnd sourceEnd d) :
    c.token = .punct .braceClose := by
  obtain ⟨_, _, _, closes, -⟩ := h.rest
  exact closes.token

/-- The tokens of the statement are read as its tree. -/
theorem script_statementNode {depth listEnd sourceEnd : Nat} {c₀ c₁ c₂ c₃ d : Cursor}
    {specifier : SyntaxTree} {name : String}
    (keyword : c₀.Meets (.word "import") 0 6 c₁) (opens : c₁.Meets (.punct .braceOpen) 7 8 c₂)
    (word : c₂.token = .word name)
    (read : Grammar.importSpecifier ⟨language, Grammar.parse language depth⟩ c₂ =
      some (specifier, c₃))
    (moves : c₂.tailStart < c₃.tailStart) (ends : Ends c₃ listEnd sourceEnd d)
    (begins : c₀.tailStart = 0) (later : 0 < d.tailStart) (bound : c₀.bound ≠ 0) :
    Grammar.script ⟨language, Grammar.parse language (depth + 1)⟩ c₀ =
      some ([.node .importStatement none ⟨0, d.tailStart⟩
        [.node .importClause none ⟨7, listEnd⟩
          [.node .namedImports none ⟨7, listEnd⟩ [specifier]],
        .node .string (some .source) ⟨listEnd + 6, sourceEnd⟩ []]], d) := by
  obtain ⟨⟨c₄, c₅, c₆, closes, fromWord, source, noWord, semicolon⟩, finish⟩ := ends
  have head := keyword.row opens.one
  have row := closes.row (fromWord.row source.one)
  have bound₂ : c₂.bound ≠ 0 := by rwa [opens.bound_eq, keyword.bound_eq]
  have noAttribute := And.intro (noWord "with") (noWord "assert")
  have goal := Grammar.statementGoal_import head word read moves bound₂ row semicolon noAttribute
  have statement :=
    Grammar.importStatement_once head word read moves bound₂ row semicolon noAttribute
  rw [← goal, keyword.start, keyword.advance, opens.start, closes.stop, closes.advance,
    fromWord.advance, source.tokenSpan] at statement
  have last := Grammar.parse_finish finish language (depth + 1)
  refine Grammar.script_once statement last ?_ bound ?_
  · rwa [begins]
  · rw [keyword.token]
    nofun

theorem read_newStatement (isQuote : i.quote = '\'' ∨ i.quote = '"') (aliasOnly : i.AliasOnly a)
    (isExport : Config.isName a.exportName = true)
    (quotable : IsQuotable i.quote (a.specifierFor file)) (language : Language) :
    Grammar.read language (i.newStatement a file) =
      .ok (.node .program none ⟨0, (i.newStatement a file).utf8ByteSize⟩
        [i.statementNode a file 0], []) := by
  have size := size_newStatement isQuote a file
  have fits : 9 + (i.newSpecifier a).utf8ByteSize < (i.newStatement a file).utf8ByteSize := by
    rw [size, sourceEnd, listEnd]
    omega
  let from_ (cs : List Char) (offset : Nat) : Cursor :=
    .resume language ((i.newStatement a file).utf8ByteSize + 1) [] cs offset
  let afterOpening := ' ' :: ((i.newSpecifier a).toList ++ i.charsBehind a file)
  have start : Cursor.ofText language (i.newStatement a file) =
      from_ ("import".toList ++ ' ' :: '\x7b' :: afterOpening) 0 := by
    rw [Cursor.ofText, toList_newStatement]
  have keyword : (Cursor.ofText language (i.newStatement a file)).Meets (.word "import") 0 6
      (from_ (' ' :: '\x7b' :: afterOpening) 6) := by
    rw [start]
    exact meets_name 0 "import" (by decide) (endsWord_cons (by decide) _) (by simp; omega)
  have opens : (from_ (' ' :: '\x7b' :: afterOpening) 6).Meets (.punct .braceOpen) 7 8
      (from_ afterOpening 8) :=
    meets_lexeme 1 (startsToken_cons (by decide) _) (by omega) rfl
  have ends : Ends (from_ (i.charsBehind a file) (9 + (i.newSpecifier a).utf8ByteSize))
      (i.listEnd a) (i.sourceEnd a file) _ :=
    ends_charsBehind isQuote quotable (Nat.lt_succ_self _)
  have goesOn : EndsWord (i.charsBehind a file) := endsWord_cons (by decide) _
  have enough : (i.newSpecifier a).utf8ByteSize ≤ (i.newStatement a file).utf8ByteSize + 1 := by
    omega
  have word : (from_ afterOpening 8).token = .word a.exportName := by
    obtain ⟨_, first⟩ := meets_newSpecifier isExport 1 goesOn enough
    exact first.token
  obtain ⟨depth, deep⟩ : ∃ depth, 8 * ((i.newStatement a file).utf8ByteSize + 8) = depth + 1 :=
    ⟨8 * ((i.newStatement a file).utf8ByteSize + 8) - 1, by omega⟩
  have read : Grammar.importSpecifier ⟨language, Grammar.parse language depth⟩
      (from_ afterOpening 8) = _ :=
    importSpecifier_newSpecifier aliasOnly isExport _ 1 goesOn enough rfl (Or.inr ends.token)
  have moves : (from_ afterOpening 8).tailStart <
      (from_ (i.charsBehind a file) (9 + (i.newSpecifier a).utf8ByteSize)).tailStart := by
    simp only [from_, Cursor.resume_tailStart]
    omega
  have later : 0 < (from_ [] (i.newStatement a file).utf8ByteSize).tailStart := by
    rw [Cursor.resume_tailStart]
    omega
  have script := script_statementNode keyword opens word read moves ends
    (Cursor.ofText_tailStart _ _) later (Cursor.ofText_bound _ _)
  rw [Grammar.read, deep]
  simp only [script, ends.finish, statementNode_zero isQuote, ← size]
  rfl

end Reading

/-! ## What the import is -/

section Import

variable {s₀ s : Source} {t : TsConfig}

/-- A new statement binds one name. -/
theorem boundNames_statementNode (isQuote : i.quote = '\'' ∨ i.quote = '"')
    (absent : i.accessorLocal = none) (written : s.text = i.newStatement a file) :
    (boundNames (i.statementNode a file 0)).map s.textOf = [i.callee a] := by
  have stands : Text.StandsAt s.text 9 (i.newSpecifier a) :=
    written ▸ (list_stands i a file).left.right
  have bound : boundNames (i.statementNode a file 0) =
      [i.specifierNode a 9].filterMap specifierLocal? := by
    rw [statementNode_zero isQuote]
    exact List.append_nil _
  have name := specifierLocal?_specifierNode absent stands
  rcases Option.map_eq_some_iff.1 name with ⟨n, found, text⟩
  rw [bound, List.filterMap_cons, found, List.filterMap_nil, List.map_singleton, text]

/-- In a script of its own, the statement imports the accessor as a value, under the name that
components call, and binds nothing else. -/
def IsOneImport (i : Imports) (a : Accessor) (file : Path) (t : TsConfig) (language : Language) :
    Prop :=
  ∃ s u, Source.parse language (i.newStatement a file) = .ok s ∧ s.statements = [u] ∧
    isImport u = true ∧ isTypeOnly u = false ∧
    (boundNames u).map s.textOf = [i.callee a] ∧
    (ofSource s file a t).accessorLocal = some (i.callee a)

theorem isOneImport_ofSource (s₀ : Source) (file : Path) (a : Accessor) (t : TsConfig)
    (absent : (ofSource s₀ file a t).accessorLocal = none)
    (isExport : Config.isName a.exportName = true)
    (quotable : IsQuotable (ofSource s₀ file a t).quote (a.specifierFor file))
    (language : Language) : (ofSource s₀ file a t).IsOneImport a file t language := by
  have isQuote := quote_eq_or s₀ file a t
  have read := read_newStatement isQuote (aliasOnly_ofSource s₀ file a t) isExport quotable language
  have tree := Source.parse_of_read read (wellFormed_newStatement isQuote)
  let s : Source := ⟨language, (ofSource s₀ file a t).newStatement a file, _,
    wellFormed_newStatement isQuote⟩
  have written : Text.StandsAt s.text 0 ((ofSource s₀ file a t).newStatement a file) :=
    Text.standsAt_zero _
  obtain ⟨names, list, single, stands⟩ := accessorList?_statementNode s₀ written
  have found : locals s file a t ((ofSource s₀ file a t).statementNode a file 0) =
      [(ofSource s₀ file a t).callee a] := by
    rw [locals, list]
    change listLocals s a names = _
    rw [listLocals, single, List.filterMap_cons, accessorLocal?_specifierNode absent stands]
    rfl
  have statements : s.statements = [(ofSource s₀ file a t).statementNode a file 0] := rfl
  refine ⟨s, _, tree, statements, rfl, rfl, boundNames_statementNode isQuote absent rfl, ?_⟩
  rw [accessorLocal_eq, statements, List.flatMap_singleton, found]
  rfl

end Import

end Imports

end ThemeMigration
