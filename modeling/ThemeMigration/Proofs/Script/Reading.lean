import ThemeMigration.Proofs.Script.Words
import ThemeMigration.Script.Source

/-!
# Reading single statements

What the readers of the grammar do in front of known tokens.  Every reader gets a lemma for the
tokens that occur, stated by the lemmas of the readers it asks: a call of a name without arguments,
a constant that such a call gives its value, and an import of one name.
-/

namespace ThemeMigration.Script

/-! ## The laws of the readers -/

namespace Reader

section

variable {α β : Type} (c : Cursor)

@[simp] theorem bind_apply (r : Reader α) (f : α → Reader β) :
    (r >>= f) c = (r c).bind fun p => f p.1 p.2 := by
  cases h : r c <;> simp only [bind, h, Option.bind]

@[simp] theorem pure_apply (a : α) : (pure a : Reader α) c = some (a, c) := rfl

@[simp] theorem orElse_apply (r s : Reader α) : (r <|> s) c = (r c).or (s c) := by
  change orElse r s c = _
  rw [orElse]
  cases r c <;> rfl

@[simp] theorem fail_apply : (fail : Reader α) c = none := rfl

@[simp] theorem cursor_apply : cursor c = some (c, c) := rfl

@[simp] theorem peek_apply : peek c = some (c.token, c) := rfl

@[simp] theorem peekSecond_apply : peekSecond c = some (c.advance.token, c) := rfl

@[simp] theorem advance_apply : advance c = some ((), c.advance) := rfl

@[simp] theorem guard_apply (test : Bool) :
    guard test c = if test then some ((), c) else none := rfl

@[simp] theorem sees_apply (p : Punct) : sees p c = some (c.token == .punct p, c) := rfl

@[simp] theorem seesWord_apply (w : String) : seesWord w c = some (c.token == .word w, c) := rfl

@[simp] theorem expect_apply (p : Punct) :
    expect p c = if c.token == .punct p then some ((), c.advance) else none := rfl

@[simp] theorem expectWord_apply (w : String) :
    expectWord w c = if c.token == .word w then some ((), c.advance) else none := rfl

@[simp] theorem accept_apply (p : Punct) :
    accept p c = if c.token == .punct p then some (true, c.advance) else some (false, c) := rfl

@[simp] theorem acceptWord_apply (w : String) :
    acceptWord w c = if c.token == .word w then some (true, c.advance) else some (false, c) := rfl

@[simp] theorem leaf_apply (kind : Kind) :
    leaf kind c = some (.node kind none c.tokenSpan [], c.advance) := rfl

@[simp] theorem close_apply (kind : Kind) (start : Nat) (ts : List SyntaxTree) :
    close kind start ts c = some (.node kind none ⟨start, c.tailStart⟩ ts, c) := rfl

@[simp] theorem within_apply (kind : Kind) (r : Reader (List SyntaxTree)) :
    within kind r c =
      (r c).map fun p => (.node kind none ⟨c.start, p.2.tailStart⟩ p.1, p.2) := by
  simp only [within, bind_apply, cursor_apply, Option.bind_some]
  cases r c <;> rfl

@[simp] theorem optional_apply (r : Reader α) :
    optional r c = some (match r c with
      | some (a, d) => (some a, d)
      | none => (none, c)) := by
  rw [optional]
  split <;> simp_all

end

variable {α : Type} {r : Reader α} {c d : Cursor}

theorem many_of_none (h : r c = none) : many r c = some ([], c) := by
  rw [many]
  cases c.bound with
  | zero => rfl
  | succ n => simp only [many.go, h, List.reverse_nil]

theorem many_of_once {a : α} (h : r c = some (a, d)) (moves : c.tailStart < d.tailStart)
    (last : r d = none) (bound : c.bound ≠ 0) : many r c = some ([a], d) := by
  obtain ⟨n, length⟩ := Nat.exists_eq_succ_of_ne_zero bound
  rw [many, length]
  cases n with
  | zero => simp [many.go, h, moves]
  | succ n => simp [many.go, h, moves, last]

end Reader

namespace Grammar

open Reader

variable {g : Rules} {mode : Mode} {c d : Cursor}

/-! ## Repetitions -/

theorem extend_of_once {step : SyntaxTree → Reader SyntaxTree} {t u : SyntaxTree}
    (h : step t c = some (u, d)) (last : step u d = none) (bound : c.bound ≠ 0) :
    extend step t c = some (u, d) := by
  obtain ⟨n, length⟩ := Nat.exists_eq_succ_of_ne_zero bound
  rw [extend, length]
  cases n with
  | zero => simp only [extend.go, h]
  | succ n => simp only [extend.go, h, last]

theorem maybe_of_none {r : Reader SyntaxTree} (h : r c = none) : maybe r c = some ([], c) := by
  simp [maybe, h]

theorem listUntil_empty {closing : Punct} {item : Reader (List SyntaxTree)}
    (closes : c.token = .punct closing) : listUntil closing item c = some ([], c.advance) := by
  simp only [listUntil, bind_apply]
  rw [many_of_none] <;> simp [closes]

/-! ## Signatures -/

theorem typeParameters_none (other : c.token ≠ .punct .less) : typeParameters g c = none := by
  simp [typeParameters, other]

theorem returnType_none (other : c.token ≠ .punct .colon) : returnType g c = none := by
  simp [returnType, other]

theorem ascription_none (other : c.token ≠ .punct .colon) : ascription g c = none := by
  simp [ascription, other]

theorem formalParameters_empty (row : c.Row [.punct .parenOpen, .punct .parenClose] d) :
    formalParameters g c =
      some (.node .formalParameters none ⟨c.start, d.tailStart⟩ [], d) := by
  obtain ⟨opens, closes, rfl⟩ := row
  simp [formalParameters, opens, listUntil_empty closes]

theorem signature_empty (row : c.Row [.punct .parenOpen, .punct .parenClose] d)
    (stops : d.token = .punct .semicolon) (withReturn : Bool) :
    ∃ ts, signature g withReturn c = some (ts, d) := by
  have parameters := formalParameters_empty (g := g) row
  obtain ⟨opens, closes, rfl⟩ := row
  have noGenerics : typeParameters g c = none := typeParameters_none (by simp [opens])
  have noReturn : returnType g c.advance.advance = none := returnType_none (by simp [stops])
  cases hasTypes : g.language.hasTypes <;> cases withReturn <;>
    simp [signature, hasTypes, maybe_of_none noGenerics, parameters, maybe_of_none noReturn]

/-! ## A call of a name -/

/-- The words that are reserved in the code of every module, none of which can name a variable. -/
def reservedWords : List String :=
  ["await", "break", "case", "catch", "class", "const", "continue", "debugger", "default", "delete",
    "do", "else", "enum", "export", "extends", "false", "finally", "for", "function", "if",
    "import", "in", "instanceof", "new", "null", "return", "super", "switch", "this", "throw",
    "true", "try", "typeof", "var", "void", "while", "with", "yield"]

/-- The words that no declaration in strict code can introduce, as all code of a module is, though
they are names elsewhere.  The grammar reads them as names everywhere. -/
def strictWords : List String :=
  ["arguments", "eval", "implements", "interface", "let", "package", "private", "protected",
    "public", "static"]

/-- The tree of a call of the next token, without arguments. -/
def callNode (kind : Kind) (c d : Cursor) : SyntaxTree :=
  .node .callExpression none ⟨c.start, d.tailStart⟩
    [.node kind (some .callee) c.tokenSpan [],
      .node .arguments (some .arguments) ⟨c.advance.start, d.tailStart⟩ []]

section Call

variable {name : String} (row : c.Row [.word name, .punct .parenOpen, .punct .parenClose] d)
  (stops : d.token = .punct .semicolon)

include row

theorem startsFunction_false (free : name ∉ reservedWords) :
    startsFunction c = some (false, c) := by
  obtain ⟨word, opens, -⟩ := row
  have other : name ≠ "function" := fun same => free (same ▸ by decide)
  by_cases async : name = "async"
  · subst async
    simp [startsFunction, word, opens]
  · simp [startsFunction, word, other, async]

theorem primary_name (free : name ∉ reservedWords) :
    primary g c = some (.node (if name == "undefined" then .expression else .identifier) none
      c.tokenSpan [], c.advance) := by
  have starts := startsFunction_false row free
  obtain ⟨word, -⟩ := row
  simp only [reservedWords, List.mem_cons, List.not_mem_nil, or_false, not_or] at free
  simp [primary, word, starts, free, isConstantWord, identifier]

theorem operandStep_call (t : SyntaxTree) :
    operandStep g mode t c.advance = some (.node .callExpression none ⟨t.start, d.tailStart⟩
      [t.labelled .callee,
        .node .arguments (some .arguments) ⟨c.advance.start, d.tailStart⟩ []], d) := by
  obtain ⟨-, opens, closes, rfl⟩ := row
  simp [operandStep, opens, arguments, listUntil_empty closes, SyntaxTree.labelled]

include stops

theorem postfixOperand_call (free : name ∉ reservedWords) (bound : c.bound ≠ 0) :
    postfixOperand g mode c =
      some (callNode (if name == "undefined" then .expression else .identifier) c d, d) := by
  have last (t : SyntaxTree) : operandStep g mode t d = none := by simp [operandStep, stops]
  simp only [postfixOperand, bind_apply, primary_name row free, Option.bind_some,
    extend_of_once (operandStep_call row _) (last _) (show c.advance.bound ≠ 0 from bound)]
  simp [stops]
  rfl

/-- A word in front of empty parentheses is no arrow function without an arrow behind them. -/
theorem arrowFunction_none : arrowFunction g mode c = none := by
  obtain ⟨word, row⟩ := row
  obtain ⟨ts, signature⟩ := signature_empty (g := g) row stops (!mode.beforeColon)
  obtain ⟨opens, -⟩ := row
  have head : arrowHead g mode c.advance = none := by simp [arrowHead, opens, signature, stops]
  have bare : arrowHead g mode c = none := by simp [arrowHead, nameLeaf, word, opens]
  cases broken : c.advance.lineBroken <;> by_cases async : name = "async" <;>
    simp [arrowFunction, word, async, broken, head, bare]

theorem operandGoal_call (free : name ∉ reservedWords) (bound : c.bound ≠ 0) :
    operandGoal g mode c =
      some (callNode (if name == "undefined" then .expression else .identifier) c d, d) := by
  have operand : postfixOperand g mode c = _ := postfixOperand_call row stops free bound
  have arrow : arrowFunction g mode c = none := arrowFunction_none row stops
  have starts := startsFunction_false row free
  obtain ⟨word, opens, -⟩ := row
  simp only [reservedWords, List.mem_cons, List.not_mem_nil, or_false, not_or] at free
  by_cases async : name = "async"
  · subst async
    simp [operandGoal, word, opens, starts, arrow, operand]
  · simp [operandGoal, word, opens, async, free, operand]

end Call

/-- An operand in front of a semicolon is an expression. -/
theorem expressionGoal_of_operand {t : SyntaxTree}
    (operand : g.read (.operand mode) c = some (t, d))
    (stops : d.token = .punct .semicolon) : expressionGoal g mode c = some (t, d) := by
  have none : many (binaryStep g mode) d = some ([], d) :=
    many_of_none (by simp [binaryStep, stops, isBinaryPunct])
  simp [expressionGoal, binary, operand, none, stops]

/-! ## A constant -/

section Constant

variable {v : Cursor} {name : String} {value : SyntaxTree}
  (row : c.Row [.word "const", .word name, .punct .equals] v)

include row

theorem declarator_constant (read : g.read (.expression mode) v = some (value, d)) :
    declarator g mode c.advance = some ((.node .variableDeclarator none
      ⟨c.advance.start, d.tailStart⟩
      [.node .identifier (some .name) c.advance.tokenSpan [], value.labelled .value], true),
      d) := by
  obtain ⟨-, word, equals, rfl⟩ := row
  have noType : ascription g c.advance.advance = none := ascription_none (by simp [equals])
  cases hasTypes : g.language.hasTypes <;>
    simp [declarator, bindingPattern, nameLeaf, word, hasTypes, equals, maybe_of_none noType, read,
      SyntaxTree.labelled]

theorem variableStatement_constant (read : g.read (.expression .closing) v = some (value, d))
    (stops : d.token = .punct .semicolon) :
    variableStatement g c = some (.node .lexicalDeclaration none ⟨c.start, d.stop⟩
      [.node .variableDeclarator none ⟨c.advance.start, d.tailStart⟩
        [.node .identifier (some .name) c.advance.tokenSpan [], value.labelled .value]],
      d.advance) := by
  have first := declarator_constant row read
  have none : many (do expect .comma; declarator g .closing) d = some ([], d) :=
    many_of_none (by simp [stops])
  obtain ⟨const, -⟩ := row
  simp [variableStatement, variableKind, const, declarators, first, none, semicolon, stops]
  rfl

/-- The word `const` in front of a name begins a declaration of variables, not an enumeration. -/
theorem statementGoal_constant (noEnum : name ≠ "enum") :
    statementGoal g c = variableStatement g c := by
  obtain ⟨const, word, -⟩ := row
  have noType : typedDeclaration g c = none := by
    cases hasTypes : g.language.hasTypes <;>
      simp [typedDeclaration, hasTypes, const, enumDeclaration, word, noEnum]
  simp [statementGoal, const, word, wordStatement, noType, startsVariables, noEnum]

end Constant

/-! ## An import of one name -/

theorem typeOnlyMark_cases (c : Cursor) :
    typeOnlyMark c = none ∨ ∃ mark, typeOnlyMark c = some (mark, c.advance) := by
  by_cases isType : c.token = .word "type" <;> by_cases isTypeof : c.token = .word "typeof" <;>
    simp [typeOnlyMark, isType, isTypeof]

theorem exportedName_word {name : String} (word : c.token = .word name) :
    exportedName c = some (.node .identifier none c.tokenSpan [], c.advance) := by
  simp [exportedName, word]

section Specifier

variable {name : String} (stops : d.token = .punct .comma ∨ d.token = .punct .braceClose)

include stops

/-- Also where the name is `type`, which marks no type if nothing is named behind it. -/
theorem importSpecifier_name (row : c.Row [.word name] d) :
    importSpecifier g c = some (.node .importSpecifier none ⟨c.start, d.tailStart⟩
      [.node .identifier (some .name) c.tokenSpan []], d) := by
  obtain ⟨word, rfl⟩ := row
  have noAs : c.advance.token ≠ .word "as" := by rcases stops with h | h <;> simp [h]
  have noName : exportedName c.advance = none := by
    rcases stops with h | h <;> simp [exportedName, h]
  have read := exportedName_word word
  rcases typeOnlyMark_cases c with noMark | ⟨mark, found⟩ <;>
    cases hasTypes : g.language.hasTypes <;>
    simp [importSpecifier, SyntaxTree.labelled, SyntaxTree.kind, *]

/-- Also where the name is `type`: behind a mark, `as` would be the name, with another one behind
it that nothing separates. -/
theorem importSpecifier_alias {localName : String} (noAs : localName ≠ "as")
    (row : c.Row [.word name, .word "as", .word localName] d) :
    importSpecifier g c = some (.node .importSpecifier none ⟨c.start, d.tailStart⟩
      [.node .identifier (some .name) c.tokenSpan [],
        .node .identifier (some .localName) c.advance.advance.tokenSpan []], d) := by
  obtain ⟨word, asWord, second, rfl⟩ := row
  have read := exportedName_word word
  have readAs := exportedName_word asWord
  rcases typeOnlyMark_cases c with noMark | ⟨mark, found⟩ <;>
    cases hasTypes : g.language.hasTypes <;>
    simp [importSpecifier, nameLeaf, SyntaxTree.labelled, SyntaxTree.kind, *]

end Specifier

section Import

variable {name : String} {specifier : SyntaxTree} {e m : Cursor}
  (opens : c.Row [.word "import", .punct .braceOpen] e) (word : e.token = .word name)
  (read : importSpecifier g e = some (specifier, d)) (moves : e.tailStart < d.tailStart)
  (bound : e.bound ≠ 0)

theorem listUntil_once {closing : Punct} {item : Reader (List SyntaxTree)} {ts : List SyntaxTree}
    (read : item e = some (ts, d)) (other : e.token ≠ .punct closing)
    (closes : d.token = .punct closing) (noComma : closing ≠ .comma)
    (moves : e.tailStart < d.tailStart) (bound : e.bound ≠ 0) :
    listUntil closing item e = some (ts, d.advance) := by
  simp only [listUntil, bind_apply]
  rw [many_of_once (d := d) (a := ts) _ moves _ bound]
  · simp [closes]
  · simp [other, read, closes, noComma]
  · simp [closes]

include opens word read moves bound

theorem importClause_once (closes : d.token = .punct .braceClose) :
    importClause g c.advance = some (.node .importClause none ⟨c.advance.start, d.stop⟩
      [.node .namedImports none ⟨c.advance.start, d.stop⟩ [specifier]], d.advance) := by
  obtain ⟨-, brace, rfl⟩ := opens
  have list : listUntil .braceClose (do pure [← importSpecifier g]) c.advance.advance =
      some ([specifier], d.advance) :=
    listUntil_once (by simp [read]) (by simp [word]) closes nofun moves bound
  simp [importClause, namespaceImport, namedImports, brace, list]
  rfl

theorem importStatement_once (source : d.Row [.punct .braceClose, .word "from", .string] m)
    {n : Cursor} (ends : semicolon false m = some ((), n))
    (noAttribute : m.token ≠ .word "with" ∧ m.token ≠ .word "assert") :
    importStatement g c = some (.node .importStatement none ⟨c.start, n.tailStart⟩
      [.node .importClause none ⟨c.advance.start, d.stop⟩
        [.node .namedImports none ⟨c.advance.start, d.stop⟩ [specifier]],
        .node .string (some .source) d.advance.advance.tokenSpan []], n) := by
  obtain ⟨closes, fromWord, string, rfl⟩ := source
  have clause := importClause_once opens word read moves bound closes
  obtain ⟨keyword, brace, -⟩ := opens
  have noAttributes : maybe (importAttribute g) d.advance.advance.advance =
      some ([], d.advance.advance.advance) :=
    maybe_of_none (by simp [importAttribute, noAttribute])
  cases hasTypes : g.language.hasTypes <;>
    simp [importStatement, keyword, moduleSource, brace, hasTypes, typeOnlyMark, clause, fromWord,
      string, noAttributes, ends, SyntaxTree.labelled]

/-- An import statement begins with the word `import` and no parenthesis or point behind it. -/
theorem statementGoal_import (source : d.Row [.punct .braceClose, .word "from", .string] m)
    {n : Cursor} (ends : semicolon false m = some ((), n))
    (noAttribute : m.token ≠ .word "with" ∧ m.token ≠ .word "assert") :
    statementGoal g c = importStatement g c := by
  have statement := importStatement_once opens word read moves bound source ends noAttribute
  obtain ⟨keyword, brace, -⟩ := opens
  simp [statementGoal, keyword, brace, wordStatement, statement]

end Import

theorem semicolon_of_token (ends : c.token = .punct .semicolon) (operatorAllowed : Bool) :
    semicolon operatorAllowed c = some ((), c.advance) := by
  simp [semicolon, ends]

/-- A statement that ends the text needs no semicolon. -/
theorem semicolon_of_finish (finish : c.token = .finish) (tail : c.tail = [])
    (bound : c.bound ≠ 0) (operatorAllowed : Bool) :
    semicolon operatorAllowed c = some ((), c) := by
  obtain ⟨n, length⟩ := Nat.exists_eq_succ_of_ne_zero bound
  have ends : Semicolon.endsHere c.language operatorAllowed c.bound c.tail = true := by
    rw [Semicolon.endsHere, tail, length]
    split <;> rfl
  simp [semicolon, finish, Cursor.endStatement?, ends]

/-! ## A script of one statement -/

/-- Nothing is read at the end of the text. -/
theorem parse_finish (finish : c.token = .finish) (language : Language) (depth : Nat) :
    parse language depth .statement c = none := by
  have operand (n : Nat) : parse language n (.operand .closing) c = none := by
    cases n with
    | zero => rfl
    | succ n => simp [parse, step, operandGoal, postfixOperand, primary, finish]
  have expression (n : Nat) : parse language n (.expression .closing) c = none := by
    cases n with
    | zero => rfl
    | succ n => simp [parse, step, expressionGoal, binary, operand]
  have sequence (n : Nat) : parse language n (.sequence .closing) c = none := by
    cases n with
    | zero => rfl
    | succ n => simp [parse, step, sequenceGoal, expression]
  cases depth with
  | zero => rfl
  | succ n => simp [parse, step, statementGoal, expressionStatement, finish, sequence]

/-- A script of one statement, which is read up to the end of the text. -/
theorem script_once {statement : SyntaxTree} (read : g.read .statement c = some (statement, d))
    (last : g.read .statement d = none) (moves : c.tailStart < d.tailStart) (bound : c.bound ≠ 0)
    (noHead : c.token ≠ .hashBang) : script g c = some ([statement], d) := by
  simp [script, noHead, many_of_once read moves last bound]

end Grammar

/-! ## Sources without comments -/

namespace SyntaxTree

mutual

theorem weave_nil (t : SyntaxTree) : weave [] t = t := by
  cases t with
  | node k l s ts => rw [weave, weaveAll_nil]

theorem weaveAll_nil (ts : List SyntaxTree) : weaveAll [] ts = ts := by
  cases ts with
  | nil => rfl
  | cons t ts => simp [weaveAll, weave_nil t, weaveAll_nil ts]

end

end SyntaxTree

theorem Source.parse_of_read {language : Language} {text : String} {tree : SyntaxTree}
    (read : Grammar.read language text = .ok (tree, [])) (h : tree.wellFormed text = true) :
    Source.parse language text = .ok ⟨language, text, tree, h⟩ := by
  simp only [parse, read, SyntaxTree.weave_nil]
  exact dif_pos h

end ThemeMigration.Script
