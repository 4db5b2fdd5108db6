import ThemeMigration.BindingStatement
import ThemeMigration.Proofs.Script.Nesting
import ThemeMigration.Proofs.Script.Reading
import ThemeMigration.Proofs.Script.Scopes
import ThemeMigration.Script.Binding

/-!
# The text of a binding

A binding whose names are valid, and whose callee is no reserved word, is a script of one statement
in every language: a constant that a call without arguments gives its value.  The statement is
recognised as the binding that was written, except where the callee is `undefined`, which the
grammar reads as a constant.  What the statement declares is read off its tree.
-/

namespace ThemeMigration.BindingStatement

open Script

variable {b : BindingStatement}

/-! ## The statement and its tree -/

theorem text_eq (b : BindingStatement) :
    b.text = "const " ++ b.binding ++ " = " ++ b.callee ++ "();" := rfl

theorem size_text (b : BindingStatement) :
    b.text.utf8ByteSize = 6 + b.binding.utf8ByteSize + 3 + b.callee.utf8ByteSize + 3 := by
  simp only [text_eq, String.utf8ByteSize_append]
  rfl

/-- Where the name of the constant ends. -/
def nameEnd (b : BindingStatement) : Nat := 6 + b.binding.utf8ByteSize

/-- Where the name of the callee ends. -/
def calleeEnd (b : BindingStatement) : Nat := b.nameEnd + 3 + b.callee.utf8ByteSize

/-- How the callee is read. -/
def calleeKind (b : BindingStatement) : Kind :=
  if b.callee == "undefined" then .expression else .identifier

def call (b : BindingStatement) : SyntaxTree :=
  .node .callExpression (some .value) ⟨b.nameEnd + 3, b.calleeEnd + 2⟩
    [.node b.calleeKind (some .callee) ⟨b.nameEnd + 3, b.calleeEnd⟩ [],
      .node .arguments (some .arguments) ⟨b.calleeEnd, b.calleeEnd + 2⟩ []]

/-- The tree of the statement. -/
def declaration (b : BindingStatement) : SyntaxTree :=
  .node .lexicalDeclaration none ⟨0, b.calleeEnd + 3⟩
    [.node .variableDeclarator none ⟨6, b.calleeEnd + 2⟩
      [.node .identifier (some .name) ⟨6, b.nameEnd⟩ [], b.call]]

theorem binding_stands (b : BindingStatement) : Text.StandsAt b.text 6 b.binding :=
  ⟨"const ", " = " ++ b.callee ++ "();", by simp only [text_eq, String.append_assoc], rfl⟩

theorem callee_stands (b : BindingStatement) : Text.StandsAt b.text (b.nameEnd + 3) b.callee :=
  ⟨"const " ++ b.binding ++ " = ", "();", text_eq b, by
    simp only [String.utf8ByteSize_append]
    rfl⟩

theorem arguments_stand (b : BindingStatement) : Text.StandsAt b.text b.calleeEnd "()" :=
  ⟨"const " ++ b.binding ++ " = " ++ b.callee, ";", by
    have ends : "();" = "()" ++ ";" := rfl
    rw [text_eq, ends, ← String.append_assoc], by
    simp only [String.utf8ByteSize_append]
    rfl⟩

theorem wellFormed_declaration (b : BindingStatement) :
    b.declaration.wellFormed b.text = true := by
  have start := Text.isBoundary_zero b.text
  have stop : Text.isBoundary b.text (b.calleeEnd + 3) = true :=
    size_text b ▸ Text.isBoundary_size b.text
  obtain ⟨nameStart, nameStop⟩ := b.binding_stands.isBoundary
  obtain ⟨calleeStart, calleeStop⟩ := b.callee_stands.isBoundary
  obtain ⟨-, argumentsStop⟩ := b.arguments_stand.isBoundary
  change Text.isBoundary b.text b.nameEnd = true at nameStop
  change Text.isBoundary b.text b.calleeEnd = true at calleeStop
  change Text.isBoundary b.text (b.calleeEnd + 2) = true at argumentsStop
  have name : 6 ≤ b.nameEnd := Nat.le_add_right ..
  have callee : b.nameEnd + 3 ≤ b.calleeEnd := Nat.le_add_right ..
  have leaf : b.calleeKind = .expression ∨ b.calleeKind = .identifier := by
    rw [calleeKind]
    split
    · exact Or.inl rfl
    · exact Or.inr rfl
  rcases leaf with leaf | leaf <;>
    simp [declaration, call, leaf, SyntaxTree.wellFormed, SyntaxTree.wellFormedFrom,
      SyntaxTree.hasForm, SyntaxTree.span, start, stop, nameStart, nameStop, calleeStart,
      calleeStop, argumentsStop, SyntaxTree.label, List.filterMap_cons, Kind.isAtomic] <;>
    omega

theorem wellFormed_script (b : BindingStatement) :
    SyntaxTree.wellFormed b.text (.node .program none ⟨0, b.calleeEnd + 3⟩ [b.declaration]) =
      true :=
  SyntaxTree.wellFormed_around (wellFormed_declaration b)
    (by simp [SyntaxTree.hasForm, declaration, SyntaxTree.label, List.filterMap_cons,
      Kind.isAtomic]) none

/-! ## Reading the statement -/

/-- A row of tokens with the places of the statement's own is read as its tree. -/
theorem script_declaration {language : Language} {depth : Nat} {c₀ c₁ c₂ c₃ c₄ c₅ c₆ c₇ : Cursor}
    (const : c₀.Meets (.word "const") 0 5 c₁) (name : c₁.Meets (.word b.binding) 6 b.nameEnd c₂)
    (equals : c₂.Meets (.punct .equals) (b.nameEnd + 1) (b.nameEnd + 2) c₃)
    (callee : c₃.Meets (.word b.callee) (b.nameEnd + 3) b.calleeEnd c₄)
    (opens : c₄.Meets (.punct .parenOpen) b.calleeEnd (b.calleeEnd + 1) c₅)
    (closes : c₅.Meets (.punct .parenClose) (b.calleeEnd + 1) (b.calleeEnd + 2) c₆)
    (ends : c₆.Meets (.punct .semicolon) (b.calleeEnd + 2) (b.calleeEnd + 3) c₇)
    (finish : c₇.token = .finish) (begins : c₀.tailStart = 0) (bound : c₀.bound ≠ 0)
    (noEnum : b.binding ≠ "enum") (free : b.callee ∉ Grammar.reservedWords) :
    Grammar.script ⟨language, Grammar.parse language (depth + 3)⟩ c₀ =
      some ([b.declaration], c₇) := by
  have head := const.row (name.row equals.one)
  have called := callee.row (opens.row closes.one)
  have bound₃ : c₃.bound ≠ 0 := by rwa [equals.bound_eq, name.bound_eq, const.bound_eq]
  have operand : Grammar.operandGoal ⟨language, Grammar.parse language depth⟩ .closing c₃ = _ :=
    Grammar.operandGoal_call called ends.token free bound₃
  have value := Grammar.expressionGoal_of_operand
    (g := ⟨language, Grammar.parse language (depth + 1)⟩) operand ends.token
  have statement := Grammar.variableStatement_constant
    (g := ⟨language, Grammar.parse language (depth + 2)⟩) head value ends.token
  rw [← Grammar.statementGoal_constant head noEnum, ends.advance, const.advance, const.start,
    name.start, name.tokenSpan, ends.stop, Grammar.callNode, callee.start, callee.tokenSpan,
    callee.advance, opens.start, closes.tailStart_eq] at statement
  have last := Grammar.parse_finish finish language (depth + 3)
  refine Grammar.script_once statement last ?_ bound ?_
  · rw [begins, ends.tailStart_eq]
    exact Nat.succ_pos _
  · rw [const.token]
    nofun

theorem read_text (isBinding : Config.isName b.binding = true)
    (isCallee : Config.isName b.callee = true) (noEnum : b.binding ≠ "enum")
    (free : b.callee ∉ Grammar.reservedWords) (language : Language) :
    Grammar.read language b.text =
      .ok (.node .program none ⟨0, b.calleeEnd + 3⟩ [b.declaration], []) := by
  have size := size_text b
  have bindingSize := length_le_size b.binding
  have calleeSize := length_le_size b.callee
  let from_ (cs : List Char) (offset : Nat) : Cursor :=
    .resume language (b.text.utf8ByteSize + 1) [] cs offset
  let afterCallee : List Char := ['(', ')', ';']
  let afterName : List Char := ' ' :: '=' :: ' ' :: (b.callee.toList ++ afterCallee)
  have start : Cursor.ofText language b.text =
      from_ ("const".toList ++ ' ' :: (b.binding.toList ++ afterName)) 0 := by
    rw [Cursor.ofText, text_eq]
    simp only [String.toList_append, List.append_assoc]
    rfl
  have const : (Cursor.ofText language b.text).Meets (.word "const") 0 5
      (from_ (' ' :: (b.binding.toList ++ afterName)) 5) := by
    rw [start]
    exact meets_name 0 "const" (by decide) (endsWord_cons (by decide) _) (by simp; omega)
  have name : (from_ (' ' :: (b.binding.toList ++ afterName)) 5).Meets (.word b.binding) 6
      b.nameEnd (from_ afterName b.nameEnd) :=
    meets_name 1 b.binding isBinding (endsWord_cons (by decide) _) (by omega)
  have equals : (from_ afterName b.nameEnd).Meets (.punct .equals) (b.nameEnd + 1)
      (b.nameEnd + 2) (from_ (' ' :: (b.callee.toList ++ afterCallee)) (b.nameEnd + 2)) :=
    meets_lexeme 1 (startsToken_cons (by decide) _) (by omega) rfl
  have callee : (from_ (' ' :: (b.callee.toList ++ afterCallee)) (b.nameEnd + 2)).Meets
      (.word b.callee) (b.nameEnd + 3) b.calleeEnd (from_ afterCallee b.calleeEnd) :=
    meets_name 1 b.callee isCallee (endsWord_cons (by decide) _) (by omega)
  have opens : (from_ afterCallee b.calleeEnd).Meets (.punct .parenOpen) b.calleeEnd
      (b.calleeEnd + 1) (from_ [')', ';'] (b.calleeEnd + 1)) :=
    meets_lexeme 0 (startsToken_cons (by decide) _) (by omega) rfl
  have closes : (from_ [')', ';'] (b.calleeEnd + 1)).Meets (.punct .parenClose) (b.calleeEnd + 1)
      (b.calleeEnd + 2) (from_ [';'] (b.calleeEnd + 2)) :=
    meets_lexeme 0 (startsToken_cons (by decide) _) (by omega) rfl
  have ends : (from_ [';'] (b.calleeEnd + 2)).Meets (.punct .semicolon) (b.calleeEnd + 2)
      (b.calleeEnd + 3) (from_ [] (b.calleeEnd + 3)) :=
    meets_lexeme 0 (startsToken_cons (by decide) _) (by omega) rfl
  have finish : (from_ [] (b.calleeEnd + 3)).Meets .finish (b.calleeEnd + 3) (b.calleeEnd + 3)
      (from_ [] (b.calleeEnd + 3)) :=
    meets_lexeme 0 startsToken_nil (by omega) rfl
  obtain ⟨depth, deep⟩ : ∃ depth, 8 * (b.text.utf8ByteSize + 8) = depth + 3 :=
    ⟨8 * (b.text.utf8ByteSize + 8) - 3, by omega⟩
  have script : Grammar.script ⟨language, Grammar.parse language (depth + 3)⟩ _ = _ :=
    script_declaration const name equals callee opens closes ends finish.token
      (Cursor.ofText_tailStart _ _) (Cursor.ofText_bound _ _) noEnum free
  rw [Grammar.read, deep]
  simp only [script, finish.token, finish.stop]
  rfl

/-! ## What the statement is -/

theorem declaredNames_declaration (b : BindingStatement) :
    b.declaration.declaredNames.map (SyntaxTree.text · b.text) = [b.binding] := by
  have name : Text.slice b.text 6 b.nameEnd = b.binding := b.binding_stands.slice_eq
  simp [declaration, SyntaxTree.declaredNames, SyntaxTree.declarators, SyntaxTree.named,
    SyntaxTree.part?, SyntaxTree.kind, SyntaxTree.children, SyntaxTree.label, SyntaxTree.boundNames,
    SyntaxTree.text, SyntaxTree.span, Text.sliceSpan, name, Kind.isNamed]

theorem holds_declaration (b : BindingStatement) :
    b.holds b.text b.declaration = true ↔ b.callee ≠ "undefined" := by
  have name : Text.slice b.text 6 b.nameEnd = b.binding := b.binding_stands.slice_eq
  have callee : Text.slice b.text (b.nameEnd + 3) b.calleeEnd = b.callee :=
    b.callee_stands.slice_eq
  by_cases undefined : b.callee = "undefined" <;>
    simp [holds, declaratorMatches, isNamed, isCall, call, calleeKind, declaration,
      SyntaxTree.named, SyntaxTree.part?, SyntaxTree.kind, SyntaxTree.children, SyntaxTree.label,
      SyntaxTree.text, SyntaxTree.span, Text.sliceSpan, name, callee, Kind.isNamed, undefined]

/-- The names that the statement declares in the scope it is put into, by itself and by `var`. -/
def declaredNames (b : BindingStatement) : List String :=
  (b.declaration.declaredNames ++ b.declaration.hoistedNames).map (SyntaxTree.text · b.text)

theorem hoistedNames_declaration (b : BindingStatement) : b.declaration.hoistedNames = [] := by
  rw [declaration, call, calleeKind]
  split <;> rfl

theorem declaredNames_eq (b : BindingStatement) : b.declaredNames = [b.binding] := by
  rw [declaredNames, hoistedNames_declaration, List.append_nil, declaredNames_declaration]

/-- In a script of its own, the statement is one constant, of the given name and no other, and it
is recognised exactly if its callee is not the constant `undefined`. -/
def IsOneConstant (language : Language) (b : BindingStatement) : Prop :=
  ∃ s t, Source.parse language b.text = .ok s ∧ s.statements = [t] ∧
    t.kind = .lexicalDeclaration ∧ s.textOf t = b.text ∧
    t.declaredNames.map s.textOf = [b.binding] ∧
    (b.holds s.text t = true ↔ b.callee ≠ "undefined")

/-- The text of the statement is read as its tree. -/
def ReadsAsDeclaration (language : Language) (b : BindingStatement) : Prop :=
  ∃ s, Source.parse language b.text = .ok s ∧ s.text = b.text ∧ s.statements = [b.declaration]

theorem readsAsDeclaration (isBinding : Config.isName b.binding = true)
    (isCallee : Config.isName b.callee = true) (noEnum : b.binding ≠ "enum")
    (free : b.callee ∉ Grammar.reservedWords) (language : Language) :
    b.ReadsAsDeclaration language :=
  ⟨_, Source.parse_of_read (read_text isBinding isCallee noEnum free language)
    (wellFormed_script b), rfl, rfl⟩

theorem isOneConstant (isBinding : Config.isName b.binding = true)
    (isCallee : Config.isName b.callee = true) (noEnum : b.binding ≠ "enum")
    (free : b.callee ∉ Grammar.reservedWords) (language : Language) :
    b.IsOneConstant language := by
  rcases readsAsDeclaration isBinding isCallee noEnum free language with ⟨s, tree, text, statements⟩
  have whole : Text.slice b.text 0 (b.calleeEnd + 3) = b.text := by
    have size : b.text.utf8ByteSize = b.calleeEnd + 3 := size_text b
    have piece := (Text.standsAt_zero b.text).slice_eq
    rwa [Nat.zero_add, size] at piece
  have textOf : s.textOf = (SyntaxTree.text · b.text) := by
    funext t
    rw [← text]
    rfl
  refine ⟨s, b.declaration, tree, statements, rfl, ?_, ?_, ?_⟩
  · rw [textOf]
    exact whole
  · rw [textOf]
    exact declaredNames_declaration b
  · rw [text]
    exact holds_declaration b

end ThemeMigration.BindingStatement
