import ThemeMigration.Proofs.Script.Correspondence

/-!
# Trees up to comments

Comments are nodes of the tree and can stand between any others.  Two trees have the same code when
one is got from the other by putting comments in and taking comments out: the other nodes
correspond in their order, with the same names and literals.  What is asked about parts of a node,
and the names that patterns and declarations bind, is the same for both.
-/

namespace ThemeMigration.Script.SyntaxTree

/-! ## Lists up to comments -/

/-- The members of the lists are related in their order, apart from comments that stand in one of
the lists only. -/
inductive UpToComments (r : SyntaxTree → SyntaxTree → Prop) :
    List SyntaxTree → List SyntaxTree → Prop
  | nil : UpToComments r [] []
  | cons {t t' : SyntaxTree} {ts ts' : List SyntaxTree} :
      r t t' → UpToComments r ts ts' → UpToComments r (t :: ts) (t' :: ts')
  | added {ts ts' : List SyntaxTree} (s : Span) :
      UpToComments r ts ts' → UpToComments r ts (ofComment s :: ts')
  | removed {ts ts' : List SyntaxTree} (s : Span) :
      UpToComments r ts ts' → UpToComments r (ofComment s :: ts) ts'

/-- The members that are no comments. -/
def solid (ts : List SyntaxTree) : List SyntaxTree := ts.filter fun t => !t.isComment

theorem mem_solid {t : SyntaxTree} {ts : List SyntaxTree} :
    t ∈ solid ts ↔ t ∈ ts ∧ t.isComment = false := by
  rw [solid, List.mem_filter, Bool.not_eq_true']

theorem head?_solid {ts : List SyntaxTree} (first : ∀ t ∈ ts.head?, t.isComment = false) :
    (solid ts).head? = ts.head? := by
  cases ts with
  | nil => rfl
  | cons t ts => simp [solid, first t rfl]

/-- What is left of a row without its first members of a kind. -/
theorem drop_length_takeWhile {α : Type} (p : α → Bool) (xs : List α) :
    xs.drop (xs.takeWhile p).length = xs.dropWhile p := by
  conv_lhs => enter [2]; rw [← List.takeWhile_append_dropWhile (p := p) (l := xs)]
  rw [List.drop_left]

namespace UpToComments

variable {r : SyntaxTree → SyntaxTree → Prop} {ts ts' : List SyntaxTree}

theorem forall₂_solid (kind : ∀ {a b}, r a b → b.kind = a.kind) (h : UpToComments r ts ts') :
    List.Forall₂ r (solid ts) (solid ts') := by
  induction h with
  | nil => exact .nil
  | @cons t t' _ _ head _ ih =>
    have same : t'.isComment = t.isComment := by rw [isComment, isComment, kind head]
    rw [solid, solid, List.filter_cons, List.filter_cons, same]
    cases t.isComment with
    | true => exact ih
    | false => exact .cons head ih
  | added _ _ ih => exact ih
  | removed _ _ ih => exact ih

theorem filter {p : SyntaxTree → Bool} (keeps : ∀ {a b}, r a b → p b = p a)
    (h : UpToComments r ts ts') : UpToComments r (ts.filter p) (ts'.filter p) := by
  induction h with
  | nil => exact .nil
  | @cons t t' _ _ head _ ih =>
    rw [List.filter_cons, List.filter_cons, keeps head]
    cases p t with
    | true => exact .cons head ih
    | false => exact ih
  | added s _ ih =>
    rw [List.filter_cons]
    cases p (ofComment s) with
    | true => exact .added s ih
    | false => exact ih
  | removed s _ ih =>
    rw [List.filter_cons]
    cases p (ofComment s) with
    | true => exact .removed s ih
    | false => exact ih

theorem any_eq {p q : SyntaxTree → Bool} (noComment : ∀ s, p (ofComment s) = false)
    (noComment' : ∀ s, q (ofComment s) = false) (h : UpToComments r ts ts')
    (same : ∀ a ∈ ts, ∀ b ∈ ts', r a b → q b = p a) : ts'.any q = ts.any p := by
  induction h with
  | nil => rfl
  | cons head _ ih =>
    rw [List.any_cons, List.any_cons, same _ List.mem_cons_self _ List.mem_cons_self head,
      ih fun a member b member' =>
        same a (List.mem_cons_of_mem _ member) b (List.mem_cons_of_mem _ member')]
  | added s _ ih =>
    rw [List.any_cons, noComment', Bool.false_or,
      ih fun a member b member' => same a member b (List.mem_cons_of_mem _ member')]
  | removed s _ ih =>
    rw [List.any_cons, noComment, Bool.false_or,
      ih fun a member b member' => same a (List.mem_cons_of_mem _ member) b member']

/-- What comes from the members is related if nothing comes from a comment. -/
theorem forall₂_flatMap {α β : Type} {q : α → β → Prop} {f : SyntaxTree → List α}
    {g : SyntaxTree → List β} (none : ∀ t, t.isComment = true → f t = [])
    (none' : ∀ t, t.isComment = true → g t = []) (h : UpToComments r ts ts')
    (each : ∀ a ∈ ts, ∀ b ∈ ts', r a b → List.Forall₂ q (f a) (g b)) :
    List.Forall₂ q (ts.flatMap f) (ts'.flatMap g) := by
  induction h with
  | nil => exact .nil
  | cons head _ ih =>
    exact List.rel_append (each _ List.mem_cons_self _ List.mem_cons_self head)
      (ih fun a member b member' =>
        each a (List.mem_cons_of_mem _ member) b (List.mem_cons_of_mem _ member'))
  | added s _ ih =>
    rw [List.flatMap_cons, none' (ofComment s) rfl]
    exact ih fun a member b member' => each a member b (List.mem_cons_of_mem _ member')
  | removed s _ ih =>
    rw [List.flatMap_cons, none (ofComment s) rfl]
    exact ih fun a member b member' => each a (List.mem_cons_of_mem _ member) b member'

theorem map_flatMap_eq {α β : Type} {f g : SyntaxTree → List α} {p q : α → β}
    (none : ∀ t, t.isComment = true → f t = []) (none' : ∀ t, t.isComment = true → g t = [])
    (h : UpToComments r ts ts')
    (each : ∀ a ∈ ts, ∀ b ∈ ts', r a b → (g b).map q = (f a).map p) :
    (ts'.flatMap g).map q = (ts.flatMap f).map p := by
  have related : List.Forall₂ (fun x y => p x = q y) (ts.flatMap f) (ts'.flatMap g) := by
    refine h.forall₂_flatMap none none' fun a member b member' alike => ?_
    have same := (each a member b member' alike).symm
    rwa [← List.forall₂_eq_eq_eq, List.forall₂_map_left_iff, List.forall₂_map_right_iff] at same
  exact map_eq_of_forall₂ related fun _ _ _ same => same.symm

/-- A comment plays no part. -/
theorem find?_label (label : ∀ {a b}, r a b → b.label = a.label) (h : UpToComments r ts ts')
    (l : Label) :
    Option.Rel r (ts.find? fun t => t.label == some l) (ts'.find? fun t => t.label == some l) := by
  induction h with
  | nil => exact .none
  | @cons t t' _ _ head _ ih =>
    rw [List.find?_cons, List.find?_cons, label head]
    cases t.label == some l with
    | true => exact .some head
    | false => exact ih
  | added _ _ ih => exact ih
  | removed _ _ ih => exact ih

end UpToComments

/-! ## Trees with the same code -/

mutual

/-- The nodes of a tree, each before those that stand in it. -/
def nodes : SyntaxTree → List SyntaxTree
  | node k l s ts => node k l s ts :: nodesOfAll ts

def nodesOfAll : List SyntaxTree → List SyntaxTree
  | [] => []
  | t :: ts => nodes t ++ nodesOfAll ts

end

theorem nodesOfAll_eq (ts : List SyntaxTree) : nodesOfAll ts = ts.flatMap nodes := by
  induction ts with
  | nil => rfl
  | cons t ts ih => rw [nodesOfAll, ih, List.flatMap_cons]

theorem mem_nodes_iff {t d : SyntaxTree} : d ∈ t.nodes ↔ Occurs t d := by
  induction t using childInduction with
  | step t ih =>
    have unfolded : t.nodes = t :: t.children.flatMap nodes := by
      cases t with
      | node k l s ts => rw [nodes, nodesOfAll_eq]; rfl
    rw [unfolded, List.mem_cons, List.mem_flatMap]
    constructor
    · rintro (rfl | ⟨c, member, inside⟩)
      · exact .here _
      · exact .deeper member ((ih c member).1 inside)
    · intro occurs
      cases occurs with
      | here => exact Or.inl rfl
      | deeper member inside => exact Or.inr ⟨_, member, (ih _ member).2 inside⟩

theorem mem_nodes_of_child {t c d : SyntaxTree} (member : c ∈ t.children) (inside : d ∈ c.nodes) :
    d ∈ t.nodes :=
  mem_nodes_iff.2 (.deeper member (mem_nodes_iff.1 inside))

/-- The text from one offset to another without the spans in between. -/
def textBetween (source : String) (start stop : Nat) : List Span → String
  | [] => Text.slice source start stop
  | s :: ss => Text.slice source start s.start ++ textBetween source s.stop stop ss

/-- The text of a node without its comments. -/
def bareText (t : SyntaxTree) (source : String) : String :=
  textBetween source t.start t.stop ((t.nodes.filter isComment).map span)

/-- The trees differ in spans and in comments only.  Names and literals have the same text, callees
the same text but for comments. -/
inductive SameCode (old new : String) : SyntaxTree → SyntaxTree → Prop
  | node {k : Kind} {l : Option Label} {s s' : Span} {ts ts' : List SyntaxTree} :
      (k.isAtomic = true → Text.sliceSpan new s' = Text.sliceSpan old s) →
      (l = some .callee →
        (SyntaxTree.node k l s' ts').bareText new = (SyntaxTree.node k l s ts).bareText old) →
      UpToComments (SameCode old new) ts ts' →
      SameCode old new (.node k l s ts) (.node k l s' ts')

variable {old new : String} {t t' : SyntaxTree}

namespace SameCode

theorem kind (h : SameCode old new t t') : t'.kind = t.kind := by
  cases h
  rfl

theorem label (h : SameCode old new t t') : t'.label = t.label := by
  cases h
  rfl

theorem text (h : SameCode old new t t') (atom : t.kind.isAtomic = true) :
    t'.text new = t.text old := by
  cases h with
  | node texts _ _ => exact texts atom

theorem bareText (h : SameCode old new t t') (callee : t.label = some .callee) :
    t'.bareText new = t.bareText old := by
  cases h with
  | node _ texts _ => exact texts callee

theorem children (h : SameCode old new t t') :
    UpToComments (SameCode old new) t.children t'.children := by
  cases h with
  | node _ _ children => exact children

theorem named (h : SameCode old new t t') :
    UpToComments (SameCode old new) t.named t'.named :=
  h.children.filter fun related => by rw [related.kind]

theorem forall₂_named (h : SameCode old new t t') :
    List.Forall₂ (SameCode old new) (solid t.named) (solid t'.named) :=
  h.named.forall₂_solid kind

theorem part? (h : SameCode old new t t') (l : Label) :
    Option.Rel (SameCode old new) (t.part? l) (t'.part? l) :=
  h.children.find?_label label l

/-- The first nodes correspond if neither is a comment. -/
theorem firstNamed? (h : SameCode old new t t')
    (first : ∀ c ∈ t.firstNamed?, c.isComment = false)
    (first' : ∀ c ∈ t'.firstNamed?, c.isComment = false) :
    Option.Rel (SameCode old new) t.firstNamed? t'.firstNamed? := by
  have related := rel_head? h.forall₂_named
  rwa [head?_solid first, head?_solid first'] at related

end SameCode

/-! ## Comparing trees -/

/-- A comment as the grammar has it, with no part to play and no children. -/
def isBareComment (t : SyntaxTree) : Bool := t.isComment && t.label.isNone && t.children.isEmpty

mutual

/-- Whether trees have the same code. -/
def hasSameCode (old new : String) : SyntaxTree → SyntaxTree → Bool
  | node k l s ts, t' =>
    t'.kind == k && t'.label == l && (!k.isAtomic || t'.text new == Text.sliceSpan old s) &&
      (l != some .callee || t'.bareText new == (node k l s ts).bareText old) &&
      haveSameCode old new ts t'.children

def haveSameCode (old new : String) : List SyntaxTree → List SyntaxTree → Bool
  | [], ts' => ts'.all isBareComment
  | t :: ts, ts' =>
    if t.isBareComment then haveSameCode old new ts ts'
    else
      match ts'.dropWhile isBareComment with
      | [] => false
      | t' :: rest => hasSameCode old new t t' && haveSameCode old new ts rest

end

theorem eq_ofComment (h : t.isBareComment = true) : t = ofComment t.span := by
  rw [isBareComment, Bool.and_eq_true, Bool.and_eq_true, isComment, beq_iff_eq,
    Option.isNone_iff_eq_none, List.isEmpty_iff] at h
  cases t with
  | node k l s ts =>
    rcases h with ⟨⟨kind, label⟩, children⟩
    cases kind
    cases label
    cases children
    rfl

theorem UpToComments.of_dropWhile {r : SyntaxTree → SyntaxTree → Prop} {ts ts' : List SyntaxTree}
    (h : UpToComments r ts (ts'.dropWhile isBareComment)) : UpToComments r ts ts' := by
  induction ts' with
  | nil => exact h
  | cons t' ts' ih =>
    rw [List.dropWhile_cons] at h
    split at h
    · rename_i comment
      rw [eq_ofComment comment]
      exact .added _ (ih h)
    · exact h

theorem upToComments_of_haveSameCode {ts ts' : List SyntaxTree}
    (sound : ∀ t ∈ ts, ∀ t', hasSameCode old new t t' = true → SameCode old new t t')
    (h : haveSameCode old new ts ts' = true) : UpToComments (SameCode old new) ts ts' := by
  induction ts generalizing ts' with
  | nil =>
    induction ts' with
    | nil => exact .nil
    | cons t' ts' ih =>
      rw [haveSameCode, List.all_cons, Bool.and_eq_true] at h
      rw [eq_ofComment h.1]
      exact .added _ (ih h.2)
  | cons t ts ih =>
    have rest : ∀ {us : List SyntaxTree}, haveSameCode old new ts us = true →
        UpToComments (SameCode old new) ts us :=
      ih fun u member => sound u (List.mem_cons_of_mem _ member)
    rw [haveSameCode] at h
    split at h
    · rename_i comment
      rw [eq_ofComment comment]
      exact .removed _ (rest h)
    · refine UpToComments.of_dropWhile ?_
      split at h
      · cases h
      · rename_i t' rest' dropped
        rw [Bool.and_eq_true] at h
        rw [dropped]
        exact .cons (sound t List.mem_cons_self t' h.1) (rest h.2)

theorem sameCode_of_hasSameCode (h : hasSameCode old new t t' = true) : SameCode old new t t' := by
  induction t using childInduction generalizing t' with
  | step t ih =>
    cases t with
    | node k l s ts =>
      cases t' with
      | node k' l' s' ts' =>
        simp only [hasSameCode, Bool.and_eq_true, Bool.or_eq_true, beq_iff_eq, Bool.not_eq_true',
          bne_iff_ne] at h
        rcases h with ⟨⟨⟨⟨kind, label⟩, atom⟩, callee⟩, children⟩
        cases kind
        cases label
        refine .node (fun atomic => atom.resolve_left ?_) (fun isCallee => callee.resolve_left ?_)
          (upToComments_of_haveSameCode (fun c member c' => ih c member) children)
        · exact fun notAtomic => Bool.false_ne_true (notAtomic.symm.trans atomic)
        · exact fun notCallee => notCallee isCallee

/-! ## Names -/

theorem boundNames_of_comment (h : t.isComment = true) : t.boundNames = [] := by
  rw [boundNames_eq, eq_of_beq (show (t.kind == .comment) = true from h)]

theorem SameCode.boundNames (h : SameCode old new t t') :
    t'.boundNames.map (·.text new) = t.boundNames.map (·.text old) := by
  induction t using childInduction generalizing t' with
  | step t ih =>
    have all : (t'.children.flatMap SyntaxTree.boundNames).map (·.text new) =
        (t.children.flatMap SyntaxTree.boundNames).map (·.text old) :=
      h.children.map_flatMap_eq (fun _ => boundNames_of_comment) (fun _ => boundNames_of_comment)
        fun c member _ _ related => ih c member related
    exact boundNames_texts_eq h.kind h.text h.part? all
      fun c member c' related => ih c member related

/-- Functions, classes and enumerations have a name of their own, which is a single token. -/
def hasOwnName (t : SyntaxTree) : Bool :=
  match t.kind with
  | .functionDeclaration | .generatorFunctionDeclaration | .arrowFunction | .functionExpression
  | .classDeclaration | .abstractClassDeclaration | .enumDeclaration => true
  | _ => false

/-- The own names in a tree are atoms, as the grammar has them. -/
def HasAtomicNames (t : SyntaxTree) : Prop :=
  ∀ d ∈ t.nodes, d.hasOwnName = true → ∀ n ∈ d.part? .name, n.kind.isAtomic = true

instance (t : SyntaxTree) : Decidable t.HasAtomicNames :=
  inferInstanceAs (Decidable (∀ d ∈ t.nodes, _))

theorem HasAtomicNames.of_occurs {d : SyntaxTree} (h : t.HasAtomicNames) (inside : Occurs t d) :
    d.HasAtomicNames :=
  fun e member => h e (mem_nodes_iff.2 (inside.trans (mem_nodes_iff.1 member)))

theorem HasAtomicNames.name (h : t.HasAtomicNames) :
    t.hasOwnName = true → ∀ n ∈ t.part? .name, n.kind.isAtomic = true :=
  h t (mem_nodes_iff.2 (.here t))

theorem SameCode.ownName (h : SameCode old new t t')
    (atomic : ∀ n ∈ t.part? .name, n.kind.isAtomic = true) :
    (t'.part? .name).map (·.text new) = (t.part? .name).map (·.text old) :=
  map_eq_of_rel (h.part? .name) fun n _ part name => name.text (atomic n part)

theorem SameCode.declarators (h : SameCode old new t t') :
    List.Forall₂ (SameCode old new) t.declarators t'.declarators := by
  have noComment (u : SyntaxTree) : u.declarators =
      (solid u.named).filter fun d => d.kind == .variableDeclarator := by
    rw [SyntaxTree.declarators, solid, List.filter_filter]
    refine List.filter_congr fun d _ => ?_
    rw [isComment]
    cases kind : d.kind == Kind.variableDeclarator with
    | true => rw [eq_of_beq kind]; rfl
    | false => rfl
  rw [noComment, noComment]
  exact forall₂_filter (fun d d' related => by rw [related.kind]) h.forall₂_named

theorem SameCode.declaredNames (h : SameCode old new t t')
    (atomic : t.hasOwnName = true → ∀ n ∈ t.part? .name, n.kind.isAtomic = true) :
    t'.declaredNames.map (·.text new) = t.declaredNames.map (·.text old) := by
  have ofDeclarators := declaratorNames_eq h.declarators (fun d d' alike => alike.part? .name)
    fun n n' alike => alike.boundNames
  have ofName (own : t.hasOwnName = true) : (t'.part? .name).toList.map (·.text new) =
      (t.part? .name).toList.map (·.text old) := by
    have same := congrArg Option.toList (h.ownName (atomic own))
    rwa [Option.toList_map, Option.toList_map] at same
  rw [SyntaxTree.declaredNames, SyntaxTree.declaredNames, h.kind]
  split
  · exact ofDeclarators
  · exact ofDeclarators
  case h_8 => rfl
  all_goals
    rename_i kind
    exact ofName (by rw [hasOwnName, kind])

theorem declaredNames_of_comment (h : t.isComment = true) : t.declaredNames = [] := by
  rw [declaredNames, eq_of_beq (show (t.kind == .comment) = true from h)]

end ThemeMigration.Script.SyntaxTree
