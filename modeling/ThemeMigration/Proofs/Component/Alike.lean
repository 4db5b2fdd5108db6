import ThemeMigration.Component.Binding
import ThemeMigration.Proofs.Component.Detection
import ThemeMigration.Proofs.Component.Literals
import ThemeMigration.Proofs.Script.Correspondence

/-!
# Components that read alike

What is decided about a component depends on how its nodes read, not on where they stand: whether
it makes markup, holds the binding or is blocked, and what becomes of its literals.
-/

namespace ThemeMigration

open Script SyntaxTree

variable {old new : String} {t t' : SyntaxTree}

/-! ## Markup -/

theorem Component.containsMarkup_eq (source : String) (t : SyntaxTree) :
    containsMarkup source t = (isMarkup source t || t.children.any (containsMarkup source)) := by
  cases t with
  | node k l s ts => rw [containsMarkup, anyContainsMarkup_eq]; rfl

namespace Script.SyntaxTree

theorem Reads.isMarkup (h : Reads old new t t') :
    Component.isMarkup new t' = Component.isMarkup old t := by
  have callee := map_getD_eq_of_rel (h.part? .callee) (f := fun f =>
    Component.isElementFactory (f.text old)) (g := fun f => Component.isElementFactory (f.text new))
    (fun f f' _ related => by rw [related.text]) false
  rw [Component.isMarkup, Component.isMarkup, h.kind, callee]

theorem Reads.containsMarkup (h : Reads old new t t') :
    Component.containsMarkup new t' = Component.containsMarkup old t := by
  induction t using childInduction generalizing t' with
  | step t ih =>
    rw [Component.containsMarkup_eq new t', Component.containsMarkup_eq old t, h.isMarkup,
      any_eq_of_forall₂ h.children fun c c' member related => ih c member related]

/-! ## The binding -/

theorem Reads.isNamed (h : Reads old new t t') (name : String) :
    BindingStatement.isNamed new name t' = BindingStatement.isNamed old name t := by
  rw [BindingStatement.isNamed, BindingStatement.isNamed, h.kind, h.text]

theorem Reads.isCall (h : Reads old new t t') (b : BindingStatement) :
    b.isCall new t' = b.isCall old t := by
  rw [BindingStatement.isCall, BindingStatement.isCall, h.kind]
  congr 1
  · congr 1
    exact map_getD_eq_of_rel (h.part? .callee) (fun _ _ _ callee => callee.isNamed _) false
  · refine map_getD_eq_of_rel (h.part? .arguments) (fun a a' _ related => ?_) false
    have empty : a'.named.isEmpty = a.named.isEmpty := by
      rw [Bool.eq_iff_iff, List.isEmpty_iff_length_eq_zero, List.isEmpty_iff_length_eq_zero,
        related.named.length_eq]
    rw [related.kind, empty]

theorem Reads.declaratorMatches (h : Reads old new t t') (b : BindingStatement) :
    b.declaratorMatches new t' = b.declaratorMatches old t := by
  rw [BindingStatement.declaratorMatches, BindingStatement.declaratorMatches]
  congr 1
  · exact map_getD_eq_of_rel (h.part? .name) (fun _ _ _ name => name.isNamed _) false
  · exact map_getD_eq_of_rel (h.part? .value) (fun _ _ _ value => value.isCall b) false

theorem Reads.presentIn (h : Reads old new t t') (b : BindingStatement) :
    b.presentIn new t' = b.presentIn old t := by
  rw [BindingStatement.presentIn, BindingStatement.presentIn, h.kind]
  congr 1
  refine any_eq_of_forall₂ h.named fun d d' _ statement => ?_
  rw [BindingStatement.holds, BindingStatement.holds, statement.kind]
  congr 1
  refine any_eq_of_forall₂ statement.named fun e e' _ declarator => ?_
  rw [declarator.kind, declarator.declaratorMatches]

end Script.SyntaxTree

/-! ## Literals -/

namespace PropertyLiteral

/-- The verdict on a literal depends on the texts of the literal and of a key that is an atom. -/
theorem verdict_congr {p : Palette} {l l' : PropertyLiteral}
    (key : (l'.property.part? .key).bind (keyName? new) =
      (l.property.part? .key).bind (keyName? old))
    (text : l'.literal.text new = l.literal.text old) : l'.verdict p new = l.verdict p old := by
  rw [verdict, verdict, key, text]

theorem keyName?_congr {key key' : SyntaxTree} (kind : key'.kind = key.kind)
    (text : key'.text new = key.text old) : keyName? new key' = keyName? old key := by
  rw [keyName?, keyName?, kind, text]

/-- The literals are of one property and one value. -/
structure ReadsAlike (old new : String) (l l' : PropertyLiteral) : Prop where
  property : Reads old new l.property l'.property
  literal : Reads old new l.literal l'.literal

theorem ReadsAlike.verdict {p : Palette} {l l' : PropertyLiteral} (h : ReadsAlike old new l l') :
    l'.verdict p new = l.verdict p old := by
  refine verdict_congr ?_ h.literal.text
  rcases rel_cases (h.property.part? .key) with ⟨none, none'⟩ | ⟨k, k', part, part', key⟩
  · rw [none, none']
    rfl
  · rw [part, part', Option.bind_some, Option.bind_some, keyName?_congr key.kind key.text]

theorem forall₂_inside (h : Reads old new t t') :
    List.Forall₂ (ReadsAlike old new) (inside t) (inside t') := by
  induction t using childInduction generalizing t' with
  | step t ih =>
    rw [inside_eq t, inside_eq t', h.kind]
    split
    · exact .nil
    · rw [List.flatMap_def, List.flatMap_def]
      refine List.rel_flatten ?_
      refine List.rel_map ?_ (forall₂_with_mem h.children)
      rintro c c' ⟨member, related⟩
      rw [ofChild, ofChild, h.kind, related.kind, related.label]
      split
      · exact .cons ⟨h, related⟩ .nil
      · exact ih c member related

end PropertyLiteral

/-! ## Components -/

namespace Component

theorem literalCounts_eq_of_reads {c c' : Component} (h : Reads old new c.body c'.body)
    (p : Palette) : c'.literalCounts p new = c.literalCounts p old := by
  have verdicts := map_eq_of_forall₂ (PropertyLiteral.forall₂_inside h)
    (f := fun l => (l.verdict p old).counts) (g := fun l => (l.verdict p new).counts)
    fun l l' _ alike => by rw [alike.verdict]
  have totals := congrArg (List.foldl (· + ·) ({} : LiteralCounts)) verdicts
  rwa [List.foldl_map, List.foldl_map] at totals

theorem binds_eq_any (c : Component) (source name : String) :
    c.binds source name = (c.scopeNames.map (·.text source)).any (· == name) := by
  rw [binds, List.any_map]
  rfl

/-- The parameters bind the same names if the parts of the functions correspond and corresponding
parts bind the same names. -/
theorem parameterNames_eq {c c' : Component} {r : SyntaxTree → SyntaxTree → Prop}
    (part : ∀ l, Option.Rel r (c.function.part? l) (c'.function.part? l))
    (names : ∀ q q', r q q' → q'.boundNames.map (·.text new) = q.boundNames.map (·.text old)) :
    ((c'.parameters?.map SyntaxTree.boundNames).getD []).map (·.text new) =
      ((c.parameters?.map SyntaxTree.boundNames).getD []).map (·.text old) := by
  rw [parameters?, parameters?]
  rcases rel_cases (part .parameters) with ⟨none, none'⟩ | ⟨q, q', found, found', related⟩
  · rw [none, none']
    rcases rel_cases (part .parameter) with ⟨none, none'⟩ | ⟨q, q', found, found', related⟩
    · rw [none, none']
      rfl
    · rw [found, found']
      exact names q q' related
  · rw [found, found']
    exact names q q' related

/-- Whether a component is blocked depends on the names in the scope of its body. -/
theorem isBlocked_congr {c c' : Component} (binding : c'.hasBinding = c.hasBinding)
    (kind : c'.body.kind = c.body.kind)
    (parameters : ((c'.parameters?.map SyntaxTree.boundNames).getD []).map (·.text new) =
      ((c.parameters?.map SyntaxTree.boundNames).getD []).map (·.text old))
    (statements : (c'.body.named.flatMap declaredNames).map (·.text new) =
      (c.body.named.flatMap declaredNames).map (·.text old))
    (b : BindingStatement) : c'.isBlocked new b = c.isBlocked old b := by
  have names : c'.scopeNames.map (·.text new) = c.scopeNames.map (·.text old) := by
    rw [scopeNames, scopeNames, List.map_append, List.map_append, parameters, hasExpressionBody,
      hasExpressionBody, kind]
    congr 1
    split
    · rfl
    · exact statements
  rw [isBlocked, isBlocked, binding, binds_eq_any, binds_eq_any, binds_eq_any, binds_eq_any, names]

theorem isBlocked_eq_of_reads {c c' : Component} (function : Reads old new c.function c'.function)
    (body : Reads old new c.body c'.body) (binding : c'.hasBinding = c.hasBinding)
    (b : BindingStatement) : c'.isBlocked new b = c.isBlocked old b := by
  refine isBlocked_congr binding body.kind ?_ ?_ b
  · exact parameterNames_eq function.part? fun _ _ related => related.boundNames
  · rw [List.map_flatMap, List.map_flatMap]
    exact flatMap_eq_of_forall₂ body.named fun _ _ _ related => related.declaredNames

end Component

end ThemeMigration
