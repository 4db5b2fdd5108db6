import Mathlib.Data.List.Forall2
import ThemeMigration.Proofs.Script.Nesting
import ThemeMigration.Script.Binding

/-!
# Trees that correspond node by node

A relation between the nodes of two trees that keeps the part each plays leads from the parts of a
node to those of the other.  Two trees read alike when they differ in their spans only and
corresponding nodes have the same text in their two sources; whatever is asked about names,
bindings and literals has one answer for both.
-/

namespace ThemeMigration.Script.SyntaxTree

/-! ## Related lists -/

section Lists

variable {α β : Type} {r : α → β → Prop}

theorem rel_cases {x : Option α} {y : Option β} (h : Option.Rel r x y) :
    (x = none ∧ y = none) ∨ ∃ a b, x = some a ∧ y = some b ∧ r a b := by
  cases h with
  | none => exact Or.inl ⟨rfl, rfl⟩
  | some related => exact Or.inr ⟨_, _, rfl, rfl, related⟩

theorem rel_bind {γ δ : Type} {q : γ → δ → Prop} {x : Option α} {y : Option β}
    {f : α → Option γ} {g : β → Option δ} (h : Option.Rel r x y)
    (next : ∀ a b, x = some a → y = some b → r a b → Option.Rel q (f a) (g b)) :
    Option.Rel q (x.bind f) (y.bind g) := by
  cases h with
  | none => exact .none
  | some related => exact next _ _ rfl rfl related

theorem rel_map {γ δ : Type} {q : γ → δ → Prop} {x : Option α} {y : Option β} {f : α → γ}
    {g : β → δ} (h : Option.Rel r x y) (next : ∀ a b, x = some a → r a b → q (f a) (g b)) :
    Option.Rel q (x.map f) (y.map g) := by
  cases h with
  | none => exact .none
  | some related => exact .some (next _ _ rfl related)

theorem map_eq_of_rel {γ : Type} {f : α → γ} {g : β → γ} {x : Option α} {y : Option β}
    (h : Option.Rel r x y) (same : ∀ a b, x = some a → r a b → g b = f a) : y.map g = x.map f := by
  cases h with
  | none => rfl
  | some related => exact congrArg some (same _ _ rfl related)

theorem map_getD_eq_of_rel {γ : Type} {f : α → γ} {g : β → γ} {x : Option α} {y : Option β}
    (h : Option.Rel r x y) (same : ∀ a b, x = some a → r a b → g b = f a) (default : γ) :
    (y.map g).getD default = (x.map f).getD default := by
  rw [map_eq_of_rel h same]

theorem rel_find? {p : α → Bool} {q : β → Bool} (keeps : ∀ a b, r a b → q b = p a) {xs : List α}
    {ys : List β} (h : List.Forall₂ r xs ys) : Option.Rel r (xs.find? p) (ys.find? q) := by
  induction h with
  | nil => exact .none
  | @cons a b _ _ head _ ih =>
    rw [List.find?_cons, List.find?_cons, keeps a b head]
    cases p a with
    | true => exact .some head
    | false => exact ih

theorem forall₂_filter {p : α → Bool} {q : β → Bool} (keeps : ∀ a b, r a b → q b = p a)
    {xs : List α} {ys : List β} (h : List.Forall₂ r xs ys) :
    List.Forall₂ r (xs.filter p) (ys.filter q) :=
  List.rel_filter (fun a b related => Bool.eq_iff_iff.1 (keeps a b related).symm) h

theorem rel_head? {xs : List α} {ys : List β} (h : List.Forall₂ r xs ys) :
    Option.Rel r xs.head? ys.head? := by
  cases h with
  | nil => exact .none
  | cons head _ => exact .some head

theorem exists_of_mem_forall₂ {xs : List α} {ys : List β} (h : List.Forall₂ r xs ys) {b : β}
    (member : b ∈ ys) : ∃ a ∈ xs, r a b := by
  induction h with
  | nil => cases member
  | cons head _ ih =>
    rcases List.mem_cons.1 member with rfl | inTail
    · exact ⟨_, List.mem_cons_self, head⟩
    · rcases ih inTail with ⟨a, found, related⟩
      exact ⟨a, List.mem_cons_of_mem _ found, related⟩

theorem exists_of_forall₂_mem {xs : List α} {ys : List β} (h : List.Forall₂ r xs ys) {a : α}
    (member : a ∈ xs) : ∃ b ∈ ys, r a b :=
  exists_of_mem_forall₂ h.flip member

/-- Related lists with members of the first one at hand. -/
theorem forall₂_with_mem {xs : List α} {ys : List β} (h : List.Forall₂ r xs ys) :
    List.Forall₂ (fun a b => a ∈ xs ∧ r a b) xs ys :=
  (List.forall₂_and_left xs ys).2 ⟨fun _ member => member, h⟩

theorem forall₂_with_members {xs : List α} {ys : List β} (h : List.Forall₂ r xs ys) :
    List.Forall₂ (fun a b => a ∈ xs ∧ b ∈ ys ∧ r a b) xs ys :=
  forall₂_with_mem (forall₂_with_mem h.flip).flip

theorem map_eq_of_forall₂ {γ : Type} {f : α → γ} {g : β → γ} {xs : List α} {ys : List β}
    (h : List.Forall₂ r xs ys) (same : ∀ a b, a ∈ xs → r a b → g b = f a) :
    ys.map g = xs.map f := by
  induction h with
  | nil => rfl
  | cons head _ ih =>
    rw [List.map_cons, List.map_cons, same _ _ List.mem_cons_self head,
      ih fun a b member => same a b (List.mem_cons_of_mem _ member)]

theorem flatMap_eq_of_forall₂ {γ : Type} {f : α → List γ} {g : β → List γ} {xs : List α}
    {ys : List β} (h : List.Forall₂ r xs ys) (same : ∀ a b, a ∈ xs → r a b → g b = f a) :
    ys.flatMap g = xs.flatMap f := by
  rw [List.flatMap_def, List.flatMap_def, map_eq_of_forall₂ h same]

/-- What related elements give in a list, in order, is given again with more between it. -/
theorem sublist_flatMap_of_forall₂ {γ : Type} {f : α → List γ} {g : β → List γ} {xs : List α}
    {ys : List β} (h : List.Forall₂ r xs ys)
    (le : ∀ a b, a ∈ xs → r a b → (f a).Sublist (g b)) :
    (xs.flatMap f).Sublist (ys.flatMap g) := by
  induction h with
  | nil => exact .slnil
  | cons head _ ih =>
    rw [List.flatMap_cons, List.flatMap_cons]
    exact (le _ _ List.mem_cons_self head).append
      (ih fun a b member => le a b (List.mem_cons_of_mem _ member))

theorem filterMap_eq_of_forall₂ {γ : Type} {f : α → Option γ} {g : β → Option γ} {xs : List α}
    {ys : List β} (h : List.Forall₂ r xs ys) (same : ∀ a b, r a b → g b = f a) :
    ys.filterMap g = xs.filterMap f := by
  induction h with
  | nil => rfl
  | cons head _ ih => rw [List.filterMap_cons, List.filterMap_cons, same _ _ head, ih]

theorem any_eq_of_forall₂ {p : α → Bool} {q : β → Bool} {xs : List α} {ys : List β}
    (h : List.Forall₂ r xs ys) (same : ∀ a b, a ∈ xs → r a b → q b = p a) :
    ys.any q = xs.any p := by
  have maps := congrArg (List.any · id) (map_eq_of_forall₂ h same)
  simpa only [List.any_map, Function.id_comp] using maps

end Lists

/-! ## Parts of related nodes -/

/-- The relation keeps the part that a node plays, and whether it is a node in its own right. -/
structure Keeps (r : SyntaxTree → SyntaxTree → Prop) : Prop where
  label : ∀ {t t'}, r t t' → t'.label = t.label
  isNamed : ∀ {t t'}, r t t' → t'.kind.isNamed = t.kind.isNamed

section Keeps

variable {r : SyntaxTree → SyntaxTree → Prop} (keeps : Keeps r) {t t' : SyntaxTree}
  (h : List.Forall₂ r t.children t'.children)

include keeps h

theorem Keeps.part? (l : Label) : Option.Rel r (t.part? l) (t'.part? l) :=
  rel_find? (fun _ _ related => by rw [keeps.label related]) h

theorem Keeps.named : List.Forall₂ r t.named t'.named :=
  forall₂_filter (fun _ _ related => keeps.isNamed related) h

theorem Keeps.firstNamed? : Option.Rel r t.firstNamed? t'.firstNamed? :=
  rel_head? (keeps.named h)

end Keeps

/-! ## Trees that read alike -/

/-- The trees differ in their spans only, and their nodes have the same texts. -/
inductive Reads (old new : String) : SyntaxTree → SyntaxTree → Prop
  | node {k : Kind} {l : Option Label} {s s' : Span} {ts ts' : List SyntaxTree} :
      Text.sliceSpan new s' = Text.sliceSpan old s → List.Forall₂ (Reads old new) ts ts' →
      Reads old new (.node k l s ts) (.node k l s' ts')

variable {old new : String} {t t' : SyntaxTree}

theorem Reads.kind (h : Reads old new t t') : t'.kind = t.kind := by
  cases h
  rfl

theorem Reads.label (h : Reads old new t t') : t'.label = t.label := by
  cases h
  rfl

theorem Reads.text (h : Reads old new t t') : t'.text new = t.text old := by
  cases h with
  | node text _ => exact text

theorem Reads.children (h : Reads old new t t') :
    List.Forall₂ (Reads old new) t.children t'.children := by
  cases h with
  | node _ children => exact children

theorem reads_of_children (kind : t'.kind = t.kind) (label : t'.label = t.label)
    (text : t'.text new = t.text old)
    (children : List.Forall₂ (Reads old new) t.children t'.children) : Reads old new t t' := by
  cases t with
  | node k l s ts =>
    cases t' with
    | node k' l' s' ts' =>
      cases kind
      cases label
      exact .node text children

theorem keeps_reads : Keeps (Reads old new) where
  label := Reads.label
  isNamed h := by rw [h.kind]

theorem Reads.part? (h : Reads old new t t') (l : Label) :
    Option.Rel (Reads old new) (t.part? l) (t'.part? l) :=
  keeps_reads.part? h.children l

theorem Reads.named (h : Reads old new t t') : List.Forall₂ (Reads old new) t.named t'.named :=
  keeps_reads.named h.children

/-! ## Names -/

theorem boundNames_eq (t : SyntaxTree) :
    t.boundNames =
      match t.kind with
      | .identifier | .shorthandPattern => [t]
      | .formalParameters | .objectPattern | .arrayPattern | .restPattern =>
        t.children.flatMap boundNames
      | .pairPattern => ((t.part? .value).map boundNames).getD []
      | .assignmentPattern | .objectAssignmentPattern => ((t.part? .left).map boundNames).getD []
      | .requiredParameter | .optionalParameter => ((t.part? .pattern).map boundNames).getD []
      | _ => [] := by
  cases t with
  | node k l s ts =>
    cases k
    case formalParameters => exact boundNamesOfAll_eq ts
    case objectPattern => exact boundNamesOfAll_eq ts
    case arrayPattern => exact boundNamesOfAll_eq ts
    case restPattern => exact boundNamesOfAll_eq ts
    case pairPattern => exact boundNamesOfPart_eq .value ts
    case assignmentPattern => exact boundNamesOfPart_eq .left ts
    case objectAssignmentPattern => exact boundNamesOfPart_eq .left ts
    case requiredParameter => exact boundNamesOfPart_eq .pattern ts
    case optionalParameter => exact boundNamesOfPart_eq .pattern ts
    all_goals rfl

/-! ### Names of related nodes -/

section Related

variable {r : SyntaxTree → SyntaxTree → Prop}

/-- A part of a node binds names under the same texts. -/
theorem boundNames_part_eq {x y : Option SyntaxTree} (h : Option.Rel r x y)
    (same : ∀ c c', x = some c → r c c' →
      c'.boundNames.map (·.text new) = c.boundNames.map (·.text old)) :
    ((y.map boundNames).getD []).map (·.text new) =
      ((x.map boundNames).getD []).map (·.text old) := by
  cases h with
  | none => rfl
  | some related => exact same _ _ rfl related

/-- A node binds names under the same texts, if its children do and its own text is the same where
it is a name itself. -/
theorem boundNames_texts_eq (kind : t'.kind = t.kind)
    (text : t.kind.isAtomic = true → t'.text new = t.text old)
    (parts : ∀ l, Option.Rel r (t.part? l) (t'.part? l))
    (all : (t'.children.flatMap boundNames).map (·.text new) =
      (t.children.flatMap boundNames).map (·.text old))
    (same : ∀ c ∈ t.children, ∀ c', r c c' →
      c'.boundNames.map (·.text new) = c.boundNames.map (·.text old)) :
    t'.boundNames.map (·.text new) = t.boundNames.map (·.text old) := by
  have ofPart l := boundNames_part_eq (parts l) fun c c' part =>
    same c (mem_children_of_part? part) c'
  rw [boundNames_eq t, boundNames_eq t', kind]
  split
  case h_1 isName | h_2 isName =>
    have atom : t.kind.isAtomic = true := by rw [isName]; rfl
    simp only [List.map, text atom]
  all_goals first | exact all | exact ofPart _ | rfl

/-- The declarators of a statement declare names under the same texts. -/
theorem declaratorNames_eq (h : List.Forall₂ r t.declarators t'.declarators)
    (names : ∀ d d', r d d' → Option.Rel r (d.part? .name) (d'.part? .name))
    (same : ∀ n n', r n n' → n'.boundNames.map (·.text new) = n.boundNames.map (·.text old)) :
    (t'.declarators.flatMap fun d =>
        ((d.part? .name).map boundNames).getD []).map (·.text new) =
      (t.declarators.flatMap fun d =>
        ((d.part? .name).map boundNames).getD []).map (·.text old) := by
  rw [List.map_flatMap, List.map_flatMap]
  exact flatMap_eq_of_forall₂ h fun d d' _ related =>
    boundNames_part_eq (names d d' related) fun n n' _ => same n n'

end Related

/-! ### Names of trees that read alike -/

/-- Names are bound under the same texts. -/
theorem Reads.boundNames (h : Reads old new t t') :
    t'.boundNames.map (·.text new) = t.boundNames.map (·.text old) := by
  induction t using childInduction generalizing t' with
  | step t ih =>
    have all : (t'.children.flatMap SyntaxTree.boundNames).map (·.text new) =
        (t.children.flatMap SyntaxTree.boundNames).map (·.text old) := by
      rw [List.map_flatMap, List.map_flatMap]
      exact flatMap_eq_of_forall₂ h.children fun c c' member related => ih c member related
    exact boundNames_texts_eq h.kind (fun _ => h.text) h.part? all
      fun c member c' related => ih c member related

theorem Reads.declaredNames (h : Reads old new t t') :
    t'.declaredNames.map (·.text new) = t.declaredNames.map (·.text old) := by
  have related : List.Forall₂ (Reads old new) t.declarators t'.declarators :=
    forall₂_filter (fun d d' alike => by rw [alike.kind]) h.named
  have ofDeclarators := declaratorNames_eq related (fun d d' alike => alike.part? .name)
    fun n n' alike => alike.boundNames
  have ofName : (t'.part? .name).toList.map (·.text new) =
      (t.part? .name).toList.map (·.text old) := by
    rw [← Option.toList_map, ← Option.toList_map,
      map_eq_of_rel (h.part? .name) fun n n' _ name => name.text]
  rw [SyntaxTree.declaredNames, SyntaxTree.declaredNames, h.kind]
  split <;> first | exact ofDeclarators | exact ofName | rfl

end ThemeMigration.Script.SyntaxTree
