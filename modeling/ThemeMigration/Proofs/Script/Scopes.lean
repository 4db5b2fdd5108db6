import ThemeMigration.Proofs.Script.Equality
import ThemeMigration.Script.Binding

/-!
# Scopes

The names that a node declares for what stands in it.  A function declares its parameters, for its
body what `var` declares anywhere in the body outside other functions, and as an expression its own
name.  A block, the head of a loop and the cases of a switch declare what their statements declare
otherwise, a catch clause its parameter, and a class that is an expression its own name.  A name
that is used at some place is that of the innermost node around the place that declares it.
-/

namespace ThemeMigration.Script.SyntaxTree

/-! ## Declared names -/

/-- Functions in any form: declarations, expressions, arrow functions and methods. -/
def isFunction (t : SyntaxTree) : Bool :=
  match t.kind with
  | .functionDeclaration | .generatorFunctionDeclaration | .functionExpression
  | .generatorFunction | .arrowFunction => true
  | .clause => (t.part? .parameters).isSome
  | _ => false

/-- Nodes that keep to themselves what `var` declares in their bodies. -/
def ownsVariables (t : SyntaxTree) : Bool := t.isFunction || t.kind == .classStaticBlock

/-- The names that the part of a node in the given place binds. -/
def namesOfPart (t : SyntaxTree) (l : Label) : List SyntaxTree :=
  ((t.part? l).map boundNames).getD []

/-- The parameters of a function, in parentheses or bare, or that of a catch clause. -/
def parameterNames (t : SyntaxTree) : List SyntaxTree :=
  match t.part? .parameters with
  | some ps => ps.boundNames
  | none => t.namesOfPart .parameter

/-- The names that `var` declares in a statement or in the head of a loop. -/
def varNames (t : SyntaxTree) : List SyntaxTree :=
  match t.kind with
  | .variableDeclaration => t.declaredNames
  | .forInStatement => t.namesOfPart .name
  | _ => []

mutual

/-- The names that `var` declares in a node for the function around it. -/
def hoistedNames : SyntaxTree → List SyntaxTree
  | node kind label span parts =>
    if (node kind label span parts).ownsVariables then []
    else (node kind label span parts).varNames ++ hoistedNamesOfAll parts

def hoistedNamesOfAll : List SyntaxTree → List SyntaxTree
  | [] => []
  | t :: ts => hoistedNames t ++ hoistedNamesOfAll ts

end

/-- The names that a statement declares for the block it stands in, and no further. -/
def lexicalNames (t : SyntaxTree) : List SyntaxTree :=
  if t.kind == .variableDeclaration then [] else t.declaredNames

/-- The names that a node declares by what it is, besides parameters and those of `var`.  A clause
with clauses in it may be the block of a switch with its cases. -/
def ownNames (t : SyntaxTree) : List SyntaxTree :=
  match t.kind with
  | .statementBlock | .forStatement => t.named.flatMap lexicalNames
  | .forInStatement => t.namesOfPart .pattern
  | .clause =>
    (t.named.filter fun c => c.kind == .clause).flatMap fun c => c.named.flatMap lexicalNames
  | .functionExpression | .generatorFunction | .expression => (t.part? .name).toList
  | _ => []

/-- The names that `var` declares for a node in the body of a function. -/
def variablesFor (d t : SyntaxTree) : List SyntaxTree :=
  match t.part? .body with
  | some body => if t.ownsVariables && holds d body then body.hoistedNames else []
  | none => []

/-- Whether a node declares a name for a node that stands in it. -/
def introduces (source name : String) (d t : SyntaxTree) : Bool :=
  (t.parameterNames ++ t.ownNames ++ t.variablesFor d).any fun n => n.text source == name

/-! ## The innermost node with a property -/

mutual

/-- The innermost node with a property around a node that stands in the given one. -/
def innermost? (p : SyntaxTree → Bool) (d : SyntaxTree) : SyntaxTree → Option SyntaxTree
  | node k l s ts =>
    match innermostAmong? p d ts with
    | some found => some found
    | none =>
      if p (node k l s ts) && holds d (node k l s ts) then some (node k l s ts) else none

def innermostAmong? (p : SyntaxTree → Bool) (d : SyntaxTree) :
    List SyntaxTree → Option SyntaxTree
  | [] => none
  | t :: ts =>
    match innermost? p d t with
    | some found => some found
    | none => innermostAmong? p d ts

end

variable {p : SyntaxTree → Bool} {d : SyntaxTree}

theorem innermostAmong?_eq (p : SyntaxTree → Bool) (d : SyntaxTree) (ts : List SyntaxTree) :
    innermostAmong? p d ts = ts.findSome? (innermost? p d) := by
  induction ts with
  | nil => rfl
  | cons t ts ih =>
    rw [innermostAmong?, List.findSome?_cons, ih]
    cases innermost? p d t <;> rfl

theorem innermost?_eq (p : SyntaxTree → Bool) (d t : SyntaxTree) :
    innermost? p d t =
      match t.children.findSome? (innermost? p d) with
      | some found => some found
      | none => if p t && holds d t then some t else none := by
  cases t with
  | node k l s ts =>
    rw [innermost?, innermostAmong?_eq]
    rfl

/-- There is no innermost node when no node around has the property. -/
theorem innermost?_eq_none_iff {t : SyntaxTree} :
    innermost? p d t = none ↔ ∀ s, Occurs t s → Occurs s d → p s = false := by
  induction t using childInduction with
  | step t ih =>
    rw [innermost?_eq]
    cases found : t.children.findSome? (innermost? p d) with
    | some s =>
      rcases List.exists_of_findSome?_eq_some found with ⟨c, member, inChild⟩
      simp only [reduceCtorEq, false_iff]
      intro none
      have absent := (ih c member).2 fun s below around => none s (.deeper member below) around
      rw [absent] at inChild
      cases inChild
    | none =>
      have inChildren : ∀ c ∈ t.children, ∀ s, Occurs c s → Occurs s d → p s = false :=
        fun c member => (ih c member).1 (List.findSome?_eq_none_iff.1 found c member)
      simp only [ite_eq_right_iff, reduceCtorEq, imp_false, Bool.and_eq_true, holds_iff,
        not_and]
      constructor
      · intro here s below around
        cases below with
        | here => exact Bool.eq_false_iff.2 fun holds => here holds around
        | deeper member inChild => exact inChildren _ member s inChild around
      · intro none holds around
        rw [none t (.here t) around] at holds
        cases holds

/-- The innermost node has the property, and nothing further inside that is around the same node
has it. -/
theorem innermost?_spec {t s : SyntaxTree} (h : innermost? p d t = some s) :
    Occurs t s ∧ Occurs s d ∧ p s = true ∧
      ∀ c ∈ s.children, ∀ u, Occurs c u → Occurs u d → p u = false := by
  induction t using childInduction with
  | step t ih =>
    rw [innermost?_eq] at h
    split at h
    · rename_i found inChild
      cases h
      rcases List.exists_of_findSome?_eq_some inChild with ⟨c, member, inner⟩
      have facts := ih c member inner
      exact ⟨.deeper member facts.1, facts.2⟩
    · rename_i noChild
      split at h
      · rename_i here
        cases h
        simp only [Bool.and_eq_true, holds_iff] at here
        refine ⟨.here _, here.2, here.1, ?_⟩
        intro c member
        exact innermost?_eq_none_iff.1 (List.findSome?_eq_none_iff.1 noChild c member)
      · cases h

theorem innermostAmong?_eq_none_iff {ts : List SyntaxTree} :
    innermostAmong? p d ts = none ↔
      ∀ t ∈ ts, ∀ s, Occurs t s → Occurs s d → p s = false := by
  rw [innermostAmong?_eq, List.findSome?_eq_none_iff]
  exact forall₂_congr fun _ _ => innermost?_eq_none_iff

theorem innermostAmong?_spec {ts : List SyntaxTree} {s : SyntaxTree}
    (h : innermostAmong? p d ts = some s) :
    (∃ t ∈ ts, Occurs t s) ∧ Occurs s d ∧ p s = true ∧
      ∀ c ∈ s.children, ∀ u, Occurs c u → Occurs u d → p u = false := by
  rw [innermostAmong?_eq] at h
  rcases List.exists_of_findSome?_eq_some h with ⟨t, member, found⟩
  have facts := innermost?_spec found
  exact ⟨⟨t, member, facts.1⟩, facts.2⟩

end ThemeMigration.Script.SyntaxTree
