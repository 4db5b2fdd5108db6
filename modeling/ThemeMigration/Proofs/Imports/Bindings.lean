import ThemeMigration.Proofs.Imports.ModuleScope
import ThemeMigration.Proofs.Script.Correspondence

/-!
# What an import statement binds

A binding is a name together with the node that binds it: the name itself for a default import and
a `require` import, the name space, or the specifier.  Parts that read alike bind alike.
-/

namespace ThemeMigration

open Script SyntaxTree

namespace Imports

/-- The name that a specifier binds, with the specifier. -/
def specifierBindings (specifier : SyntaxTree) : List (SyntaxTree × SyntaxTree) :=
  (specifierLocal? specifier).toList.map fun n => (n, specifier)

/-- The names that a part of an import clause binds, each with the node that binds it. -/
def partBindings (part : SyntaxTree) : List (SyntaxTree × SyntaxTree) :=
  match part.kind with
  | .identifier => [(part, part)]
  | .namespaceImport => (part.named.filter fun n => n.kind == .identifier).map fun n => (n, part)
  | .namedImports => (specifiers part).flatMap specifierBindings
  | _ => []

def requiredBindings (statement : SyntaxTree) : List (SyntaxTree × SyntaxTree) :=
  (requiredNames statement).map fun n => (n, n)

/-- The names that an import statement binds, a `require` import included. -/
def bindings (statement : SyntaxTree) : List (SyntaxTree × SyntaxTree) :=
  ((clause? statement).map fun c => c.named.flatMap partBindings).getD [] ++
    requiredBindings statement

/-! ## Bindings that read alike -/

/-- The names read alike, and so do the nodes that bind them. -/
structure BindsAlike (old new : String) (b b' : SyntaxTree × SyntaxTree) : Prop where
  name : Reads old new b.1 b'.1
  binder : Reads old new b.2 b'.2

variable {old new : String} {t t' : SyntaxTree}

theorem alike_of_names {names names' : List SyntaxTree} (binder : Reads old new t t')
    (h : List.Forall₂ (Reads old new) names names') :
    List.Forall₂ (BindsAlike old new) (names.map fun n => (n, t))
      (names'.map fun n => (n, t')) := by
  rw [List.forall₂_map_left_iff, List.forall₂_map_right_iff]
  exact h.imp fun _ _ name => ⟨name, binder⟩

theorem specifierBindings_alike (h : Reads old new t t') :
    List.Forall₂ (BindsAlike old new) (specifierBindings t) (specifierBindings t') := by
  have names : Option.Rel (Reads old new) (specifierLocal? t) (specifierLocal? t') := by
    rw [specifierLocal?, specifierLocal?]
    rcases rel_cases (h.part? .localName) with ⟨none, none'⟩ | ⟨n, n', part, part', alike⟩
    · rw [none, none']
      exact h.part? .name
    · rw [part, part']
      exact .some alike
  rcases rel_cases names with ⟨none, none'⟩ | ⟨n, n', found, found', alike⟩
  · rw [specifierBindings, specifierBindings, none, none']
    exact .nil
  · rw [specifierBindings, specifierBindings, found, found']
    exact alike_of_names h (.cons alike .nil)

theorem identifiers_of_reads (h : Reads old new t t') :
    List.Forall₂ (Reads old new) (t.named.filter fun n => n.kind == .identifier)
      (t'.named.filter fun n => n.kind == .identifier) :=
  forall₂_filter (fun c c' alike => by rw [alike.kind]) h.named

theorem specifiers_of_reads (h : Reads old new t t') :
    List.Forall₂ (Reads old new) (specifiers t) (specifiers t') :=
  forall₂_filter (fun c c' alike => by rw [alike.kind]) h.named

/-- Parts that read alike bind the same names. -/
theorem partBindings_alike (h : Reads old new t t') :
    List.Forall₂ (BindsAlike old new) (partBindings t) (partBindings t') := by
  rw [partBindings, partBindings, h.kind]
  split
  · exact .cons ⟨h, h⟩ .nil
  · exact alike_of_names h (identifiers_of_reads h)
  · exact List.rel_flatMap (specifiers_of_reads h) fun _ _ alike => specifierBindings_alike alike
  · exact .nil

/-! ## Texts -/

/-- The texts of names and of the nodes that bind them. -/
def bindingTexts (source : String) (found : List (SyntaxTree × SyntaxTree)) :
    List (String × String) :=
  found.map fun b => (b.1.text source, b.2.text source)

theorem bindingTexts_append (source : String) (xs ys : List (SyntaxTree × SyntaxTree)) :
    bindingTexts source (xs ++ ys) = bindingTexts source xs ++ bindingTexts source ys :=
  List.map_append

theorem bindingTexts_flatMap (source : String) (ts : List SyntaxTree)
    (f : SyntaxTree → List (SyntaxTree × SyntaxTree)) :
    bindingTexts source (ts.flatMap f) = ts.flatMap fun t => bindingTexts source (f t) :=
  List.map_flatMap

theorem bindingTexts_of_alike {xs ys : List (SyntaxTree × SyntaxTree)}
    (h : List.Forall₂ (BindsAlike old new) xs ys) : bindingTexts new ys = bindingTexts old xs :=
  map_eq_of_forall₂ h fun _ _ _ alike => Prod.ext alike.name.text alike.binder.text

end Imports

end ThemeMigration
