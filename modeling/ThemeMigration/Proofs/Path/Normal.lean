import Mathlib.Logic.Relation
import ThemeMigration.Proofs.Path.Names
import ThemeMigration.TsConfig.Basic

/-!
# Normal paths

The segments of a text are the components of its pieces, wherever it stands behind a directory.  A
path is normalised by folding its segments onto a stack, so a path behind a directory is the fold
of its segments onto the stack of the directory.  The stack always holds parent segments, of which
an absolute path has none, and names above them; written as a path it has these components again.
A path is shortened by leaving out a single dot, a name with the parent segment behind it, or a
parent segment at the root.  Shortenings lead from a path to its normal path, and two paths have
the same one exactly if shortenings connect them.
-/

namespace ThemeMigration.Path

/-! ## Segments -/

/-- The components of the pieces of a text, none of which opens a relative path. -/
def segments (cs : List Char) : List Component := (pieces cs).filterMap innerComponent?

/-- The component in front of the segments of a path: the root, or the dot that opens a relative
path. -/
def opening (p : Path) : List Component :=
  if p.isAbsolute then [.root]
  else if p.body.head? == some ['.'] then [.current] else []

theorem segments_append_slash (cs ds : List Char) :
    segments (cs ++ '/' :: ds) = segments cs ++ segments ds := by
  rw [segments, pieces_append_slash, List.filterMap_append]
  rfl

theorem segments_of_name {n : String} (name : IsName n) : segments n.toList = [.name n] := by
  rw [segments, pieces_of_not_mem name.2, List.filterMap_cons, innerComponent?_of_name name]
  rfl

theorem segments_slash (a b : String) :
    segments (a ++ "/" ++ b).toList = segments a.toList ++ segments b.toList := by
  rw [String.toList_append, String.toList_append, List.append_assoc]
  exact segments_append_slash _ _

theorem segments_behindRoot (cs : List Char) : segments (behindRoot cs) = segments cs := by
  cases cs with
  | nil => rfl
  | cons c cs =>
    rw [behindRoot, List.head?_cons, Option.some_beq_some]
    by_cases slash : c = '/'
    · subst slash
      exact (segments_append_slash [] cs).symm
    · rw [if_neg (by simpa using slash)]

theorem components_eq (p : Path) : p.components = p.opening ++ segments p.text.toList := by
  rw [← segments_behindRoot, segments, ← body_eq, components, opening]
  cases p.isAbsolute with
  | true => rfl
  | false =>
    cases p.body with
    | nil => rfl
    | cons first rest =>
      simp only [Bool.false_eq_true, if_false, List.head?_cons, Option.some_beq_some,
        List.filterMap_cons, headComponent?]
      by_cases dot : first = ['.']
      · subst dot
        rfl
      · have other : (first == ['.']) = false := beq_eq_false_iff_ne.2 dot
        cases found : innerComponent? first <;> simp [other]

/-- Behind another path only the segments of a relative path count. -/
theorem segments_append {p q : Path} (relative : q.isAbsolute = false) :
    segments (p ++ q).text.toList = segments p.text.toList ++ segments q.text.toList := by
  rcases List.eq_nil_or_concat p.text.toList with empty | ⟨cs, c, text⟩
  · rw [empty_append (String.toList_inj.1 empty), empty]
    rfl
  · rw [List.concat_eq_append] at text
    rw [toList_append text relative, segments_append_slash]
    split
    · rename_i slash
      rw [text, slash, segments_append_slash]
      simp [segments, pieces, innerComponent?]
    · rfl

/-! ## Components below the root -/

/-- Whether a component can be that of a segment. -/
def Component.IsInner : Component → Prop
  | .parent => True
  | .name n => IsName n
  | _ => False

theorem Component.IsInner.piece_solid {c : Component} (h : c.IsInner) :
    c.piece ≠ [] ∧ '/' ∉ c.piece := by
  cases c with
  | parent => decide
  | name n => exact ⟨(IsName.no_segment h).1, h.2⟩
  | _ => cases h

theorem innerComponent?_piece {c : Component} (h : c.IsInner) :
    innerComponent? c.piece = some c := by
  cases c with
  | parent => rfl
  | name n => exact innerComponent?_of_name h
  | _ => cases h

theorem not_mem_of_mem_pieces {cs piece : List Char} (member : piece ∈ pieces cs) :
    '/' ∉ piece := by
  induction cs generalizing piece with
  | nil =>
    rw [List.mem_singleton.1 member]
    exact List.not_mem_nil
  | cons c cs ih =>
    rw [pieces] at member
    split at member
    · rcases List.mem_cons.1 member with rfl | rest
      · exact List.not_mem_nil
      · exact ih rest
    · rename_i plain
      split at member
      · rename_i none
        exact absurd none (pieces_ne_nil cs)
      · rename_i first rest split
        rw [split] at ih
        rcases List.mem_cons.1 member with rfl | inRest
        · rw [List.mem_cons, not_or]
          exact ⟨fun same => plain (by simp [← same]), ih List.mem_cons_self⟩
        · exact ih (List.mem_cons_of_mem _ inRest)

theorem isInner_of_mem_segments {cs : List Char} {c : Component} (member : c ∈ segments cs) :
    c.IsInner := by
  rcases List.mem_filterMap.1 member with ⟨piece, inPieces, found⟩
  rw [innerComponent?] at found
  split at found
  · cases found
  · rename_i some
    split at found
    · cases found
      trivial
    · rename_i other
      cases found
      rw [Bool.or_eq_true, beq_iff_eq, beq_iff_eq, not_or] at some
      refine ⟨?_, ?_⟩
      · simpa [not_or] using ⟨some.1, some.2, fun same => other (beq_iff_eq.2 same)⟩
      · simpa using not_mem_of_mem_pieces inPieces

/-! ## The stack -/

/-- The components of a normal path below its root: parent segments, which an absolute path has
none of, and then names. -/
def IsFolded (absolute : Bool) (cs : List Component) : Prop :=
  ∃ (ups : Nat) (names : List String),
    cs = (if absolute then [] else List.replicate ups .parent) ++ names.map .name

/-- The stack of a path, with further components folded onto it. -/
def pushAll (absolute : Bool) (stack cs : List Component) : List Component :=
  cs.foldl (pushComponent absolute) stack

theorem pushAll_append (absolute : Bool) (stack cs ds : List Component) :
    pushAll absolute stack (cs ++ ds) = pushAll absolute (pushAll absolute stack cs) ds :=
  List.foldl_append

theorem normalComponents_eq (p : Path) :
    p.normalComponents = (pushAll p.isAbsolute [] (segments p.text.toList)).reverse := by
  have ignored : pushAll p.isAbsolute [] p.opening = [] := by
    rw [opening]
    split_ifs <;> rfl
  change (pushAll p.isAbsolute [] p.components).reverse = _
  rw [components_eq, pushAll_append, ignored]

theorem normalComponents_append {p q : Path} (relative : q.isAbsolute = false) :
    (p ++ q).normalComponents =
      (pushAll p.isAbsolute p.normalComponents.reverse (segments q.text.toList)).reverse := by
  rw [normalComponents_eq, isAbsolute_append relative, segments_append relative, pushAll_append,
    normalComponents_eq p, List.reverse_reverse]

theorem push_parent (ups : Nat) :
    pushComponent false (List.replicate ups .parent) .parent =
      List.replicate (ups + 1) .parent := by
  cases ups <;> rfl

/-- A component keeps the stack folded: a name goes on top, and a parent segment takes the name on
top away or joins the parent segments. -/
theorem isFolded_push {absolute : Bool} {cs : List Component} (folded : IsFolded absolute cs)
    (c : Component) : IsFolded absolute (pushComponent absolute cs.reverse c).reverse := by
  rcases folded with ⟨ups, names, rfl⟩
  cases c with
  | root => exact ⟨ups, names, List.reverse_reverse _⟩
  | current => exact ⟨ups, names, List.reverse_reverse _⟩
  | name n => exact ⟨ups, names ++ [n], by simp [pushComponent]⟩
  | parent =>
    rcases List.eq_nil_or_concat names with rfl | ⟨front, last, rfl⟩
    · cases absolute with
      | true => exact ⟨0, [], rfl⟩
      | false => exact ⟨ups + 1, [], by simp [push_parent]⟩
    · exact ⟨ups, front, by simp [pushComponent]⟩

theorem isFolded_pushAll {absolute : Bool} {stack : List Component}
    (folded : IsFolded absolute stack.reverse) (cs : List Component) :
    IsFolded absolute (pushAll absolute stack cs).reverse := by
  induction cs generalizing stack with
  | nil => exact folded
  | cons c cs ih =>
    have next := isFolded_push folded c
    rw [List.reverse_reverse] at next
    exact ih next

theorem isFolded_normalComponents (p : Path) : IsFolded p.isAbsolute p.normalComponents := by
  rw [normalComponents_eq]
  exact isFolded_pushAll ⟨0, [], by simp⟩ _

theorem pushAll_names (absolute : Bool) (stack : List Component) (names : List String) :
    pushAll absolute stack (names.map .name) = (names.map .name).reverse ++ stack := by
  induction names generalizing stack with
  | nil => rfl
  | cons n names ih =>
    rw [List.map_cons, List.reverse_cons, List.append_assoc]
    exact ih (.name n :: stack)

theorem pushAll_parents (ups below : Nat) :
    pushAll false (List.replicate below .parent) (List.replicate ups .parent) =
      List.replicate (below + ups) .parent := by
  induction ups generalizing below with
  | zero => rfl
  | succ ups ih =>
    rw [List.replicate_succ, pushAll, List.foldl_cons, push_parent]
    exact (ih (below + 1)).trans (by rw [Nat.add_assoc, Nat.add_comm 1])

/-- What is folded already is folded to itself. -/
theorem pushAll_of_isFolded {absolute : Bool} {cs : List Component}
    (folded : IsFolded absolute cs) : pushAll absolute [] cs = cs.reverse := by
  rcases folded with ⟨ups, names, rfl⟩
  have parents : pushAll absolute [] (if absolute then [] else List.replicate ups .parent) =
      (if absolute then [] else List.replicate ups .parent).reverse := by
    cases absolute with
    | true => rfl
    | false => simpa using pushAll_parents ups 0
  rw [pushAll_append, parents, pushAll_names, List.reverse_append]

/-! ## Components written as a path -/

/-- The path that is written from components below its root. -/
def ofComponents (absolute : Bool) (cs : List Component) : Path :=
  withBody absolute (cs.map Component.piece)

theorem normalize_eq (p : Path) : p.normalize = ofComponents p.isAbsolute p.normalComponents := rfl

theorem mem_pushComponent {absolute : Bool} {stack : List Component} {c d : Component}
    (member : c ∈ pushComponent absolute stack d) : c ∈ stack ∨ c = d := by
  cases d with
  | root => exact Or.inl member
  | current => exact Or.inl member
  | name n => exact (List.mem_cons.1 member).symm
  | parent =>
    have unpopped (unpopped : c ∈ if absolute then stack else .parent :: stack) :
        c ∈ stack ∨ c = .parent := by
      split at unpopped
      · exact Or.inl unpopped
      · exact (List.mem_cons.1 unpopped).symm
    cases stack with
    | nil => exact unpopped member
    | cons top below =>
      cases top with
      | name n => exact Or.inl (List.mem_cons_of_mem _ member)
      | root => exact unpopped member
      | current => exact unpopped member
      | parent => exact unpopped member

theorem mem_pushAll {absolute : Bool} {stack cs : List Component} {c : Component}
    (member : c ∈ pushAll absolute stack cs) : c ∈ stack ∨ c ∈ cs := by
  induction cs generalizing stack with
  | nil => exact Or.inl member
  | cons d cs ih =>
    rcases ih member with pushed | behind
    · exact (mem_pushComponent pushed).imp_right fun same => List.mem_cons.2 (Or.inl same)
    · exact Or.inr (List.mem_cons_of_mem _ behind)

theorem isInner_of_mem_normalComponents {p : Path} {c : Component}
    (member : c ∈ p.normalComponents) : c.IsInner := by
  rw [normalComponents_eq, List.mem_reverse] at member
  rcases mem_pushAll member with empty | segment
  · exact absurd empty List.not_mem_nil
  · exact isInner_of_mem_segments segment

section Written

variable {absolute : Bool} {cs : List Component} (inner : ∀ c ∈ cs, c.IsInner)

include inner

theorem pieces_solid : ∀ piece ∈ cs.map Component.piece, piece ≠ [] ∧ '/' ∉ piece := by
  intro piece member
  rcases List.mem_map.1 member with ⟨c, inside, rfl⟩
  exact (inner c inside).piece_solid

theorem isAbsolute_ofComponents : (ofComponents absolute cs).isAbsolute = absolute :=
  isAbsolute_withBody (pieces_solid inner)

theorem filterMap_piece : (cs.map Component.piece).filterMap innerComponent? = cs := by
  rw [List.filterMap_map]
  exact (List.filterMap_congr fun c member => innerComponent?_piece (inner c member)).trans
    List.filterMap_some

theorem segments_ofComponents : segments (ofComponents absolute cs).text.toList = cs := by
  rw [← segments_behindRoot, segments, ← body_eq, ofComponents,
    body_withBody (pieces_solid inner)]
  split
  · rename_i empty
    rw [List.map_eq_nil_iff.1 empty]
    rfl
  · exact filterMap_piece inner

theorem components_ofComponents :
    (ofComponents absolute cs).components = (if absolute then [.root] else []) ++ cs := by
  have noDot : (ofComponents absolute cs).body.head? ≠ some ['.'] := by
    rw [ofComponents, body_withBody (pieces_solid inner)]
    split
    · decide
    · intro dot
      cases cs with
      | nil => cases dot
      | cons c cs =>
        have first := innerComponent?_piece (inner c List.mem_cons_self)
        rw [List.map_cons, List.head?_cons, Option.some.injEq] at dot
        rw [dot] at first
        cases first
  rw [components_eq, opening, segments_ofComponents inner, isAbsolute_ofComponents inner]
  rw [if_neg (show ¬(((ofComponents absolute cs).body.head? == some ['.']) = true) by
    simpa using noDot)]

end Written

theorem isAbsolute_normalize (p : Path) : p.normalize.isAbsolute = p.isAbsolute :=
  isAbsolute_ofComponents fun _ => isInner_of_mem_normalComponents

theorem components_normalize (p : Path) :
    p.normalize.components = (if p.isAbsolute then [.root] else []) ++ p.normalComponents :=
  components_ofComponents fun _ => isInner_of_mem_normalComponents

theorem normalComponents_normalize (p : Path) :
    p.normalize.normalComponents = p.normalComponents := by
  have segmentsSame : segments p.normalize.text.toList = p.normalComponents :=
    segments_ofComponents fun _ => isInner_of_mem_normalComponents
  rw [normalComponents_eq, isAbsolute_normalize, segmentsSame,
    pushAll_of_isFolded (isFolded_normalComponents p), List.reverse_reverse]

/-- A normal path is its own normal path. -/
theorem normalize_normalize (p : Path) : p.normalize.normalize = p.normalize := by
  rw [normalize_eq p.normalize, isAbsolute_normalize, normalComponents_normalize, normalize_eq]

theorem normalize_append {p q : Path} (relative : q.isAbsolute = false) :
    (p ++ q).normalize = ofComponents p.isAbsolute
      (pushAll p.isAbsolute p.normalComponents.reverse (segments q.text.toList)).reverse := by
  rw [normalize_eq, isAbsolute_append relative, normalComponents_append relative]

/-- Behind a directory it does not matter how the directory is spelled. -/
theorem normalize_normalize_append (p q : Path) :
    (p.normalize ++ q).normalize = (p ++ q).normalize := by
  cases kind : q.isAbsolute with
  | true => rw [append_of_absolute kind, append_of_absolute kind]
  | false =>
    rw [normalize_append kind, normalize_append kind, isAbsolute_normalize,
      normalComponents_normalize]

/-! ## Shortenings -/

/-- Components without a single dot, without a name and the parent segment behind it, or without a
parent segment at the root. -/
inductive Shortens : List Component → List Component → Prop
  | current (front back : List Component) : Shortens (front ++ .current :: back) (front ++ back)
  | name (front : List Component) (n : String) (back : List Component) :
      Shortens (front ++ .name n :: .parent :: back) (front ++ back)
  | root (back : List Component) : Shortens (.root :: .parent :: back) (.root :: back)

/-- Whether components have a root, and their stack. -/
def outcome (cs : List Component) : Bool × List Component :=
  (cs.contains .root, pushAll (cs.contains .root) [] cs)

theorem outcome_of_shortens {cs ds : List Component} (h : Shortens cs ds) :
    outcome cs = outcome ds := by
  cases h with
  | current front back =>
    have root : (front ++ .current :: back).contains .root = (front ++ back).contains .root := by
      simp
    rw [outcome, outcome, root, pushAll_append, pushAll_append]
    rfl
  | name front n back =>
    have root : (front ++ .name n :: .parent :: back).contains .root =
        (front ++ back).contains .root := by
      simp
    rw [outcome, outcome, root, pushAll_append, pushAll_append]
    rfl
  | root back =>
    have rooted : (Component.root :: .parent :: back).contains .root = true := by simp
    have rooted' : (Component.root :: back).contains .root = true := by simp
    rw [outcome, outcome, rooted, rooted']
    rfl

theorem outcome_of_eqvGen {cs ds : List Component} (h : Relation.EqvGen Shortens cs ds) :
    outcome cs = outcome ds := by
  induction h with
  | rel cs ds step => exact outcome_of_shortens step
  | refl cs => rfl
  | symm cs ds _ ih => exact ih.symm
  | trans cs ds es _ _ first second => exact first.trans second

theorem outcome_components (p : Path) :
    outcome p.components = (p.isAbsolute, p.normalComponents.reverse) := by
  have below : (segments p.text.toList).contains .root = false := by
    rw [List.contains_eq_mem, decide_eq_false_iff_not]
    exact fun member => isInner_of_mem_segments member
  have root : p.components.contains .root = p.isAbsolute := by
    rw [components_eq, List.contains_append, below, Bool.or_false, opening]
    split_ifs with absolute
    · exact absolute.symm
    · exact (Bool.eq_false_iff.2 absolute).symm
    · exact (Bool.eq_false_iff.2 absolute).symm
  rw [outcome, root, normalComponents, List.reverse_reverse]
  rfl

/-- The root in front of the components of an absolute path. -/
def rootOf (absolute : Bool) : List Component := if absolute then [.root] else []

/-- What is folded is shortened, or it stays. -/
theorem shortens_push {absolute : Bool} {front : List Component} (folded : IsFolded absolute front)
    {c : Component} (inner : c.IsInner) (back : List Component) :
    Relation.ReflTransGen Shortens (rootOf absolute ++ (front ++ c :: back))
      (rootOf absolute ++ ((pushComponent absolute front.reverse c).reverse ++ back)) := by
  cases c with
  | root => cases inner
  | current => cases inner
  | name n =>
    rw [pushComponent, List.reverse_cons, List.reverse_reverse, List.append_assoc]
    exact .refl
  | parent =>
    rcases folded with ⟨ups, names, rfl⟩
    rcases List.eq_nil_or_concat names with rfl | ⟨others, last, rfl⟩
    · cases absolute with
      | true => exact .single (.root back)
      | false =>
        have stays : (pushComponent false (List.replicate ups .parent) .parent).reverse ++ back =
            List.replicate ups .parent ++ .parent :: back := by
          rw [push_parent, List.reverse_replicate, List.replicate_succ', List.append_assoc]
          rfl
        simp only [Bool.false_eq_true, if_false, List.map_nil, List.append_nil,
          List.reverse_replicate, stays]
        exact .refl
    · generalize (if absolute then [] else List.replicate ups Component.parent) = parents
      have shortened := Shortens.name (rootOf absolute ++ (parents ++ others.map .name)) last back
      simp only [List.concat_eq_append, List.map_append, List.map_singleton, List.reverse_append,
        List.reverse_singleton, pushComponent, List.append_assoc, List.cons_append,
        List.nil_append, List.reverse_reverse] at shortened ⊢
      exact .single shortened

theorem shortens_pushAll {absolute : Bool} {front cs : List Component}
    (folded : IsFolded absolute front) (inner : ∀ c ∈ cs, c.IsInner) :
    Relation.ReflTransGen Shortens (rootOf absolute ++ (front ++ cs))
      (rootOf absolute ++ (pushAll absolute front.reverse cs).reverse) := by
  induction cs generalizing front with
  | nil =>
    rw [List.append_nil, pushAll, List.foldl_nil, List.reverse_reverse]
  | cons c cs ih =>
    rw [List.forall_mem_cons] at inner
    have rest := ih (isFolded_push folded c) inner.2
    rw [List.reverse_reverse] at rest
    exact (shortens_push folded inner.1 cs).trans rest

/-- Shortenings lead from a path to its normal path. -/
theorem shortens_normalize (p : Path) :
    Relation.ReflTransGen Shortens p.components p.normalize.components := by
  have opened : Relation.ReflTransGen Shortens p.components
      (rootOf p.isAbsolute ++ segments p.text.toList) := by
    rw [components_eq, opening, rootOf]
    split_ifs
    · exact .refl
    · exact .single (.current [] _)
    · exact .refl
  have none : IsFolded p.isAbsolute [] := ⟨0, [], by cases p.isAbsolute <;> rfl⟩
  have inner : ∀ c ∈ segments p.text.toList, c.IsInner := fun c => isInner_of_mem_segments
  rw [components_normalize, normalComponents_eq]
  exact opened.trans (shortens_pushAll none inner)

/-- Two paths have the same normal path exactly if shortenings connect them. -/
theorem normalize_eq_normalize_iff {p q : Path} :
    p.normalize = q.normalize ↔ Relation.EqvGen Shortens p.components q.components := by
  have connected (p : Path) : Relation.EqvGen Shortens p.components p.normalize.components :=
    Relation.EqvGen.reflTransGen_le_eqvGen Shortens _ _ (shortens_normalize p)
  constructor
  · intro same
    exact .trans _ _ _ (connected p) (same ▸ .symm _ _ (connected q))
  · intro linked
    have same := outcome_of_eqvGen linked
    rw [outcome_components, outcome_components, Prod.mk.injEq, List.reverse_inj] at same
    rw [normalize_eq, normalize_eq, same.1, same.2]

/-- Paths that have the same components when they are normal are the same. -/
theorem normalize_eq_of_components {p q : Path}
    (same : p.normalize.components = q.normalize.components) : p.normalize = q.normalize := by
  have linked : Relation.EqvGen Shortens p.normalize.components q.normalize.components := by
    rw [same]
    exact .refl _
  simpa only [normalize_normalize] using normalize_eq_normalize_iff.2 linked

/-! ## Normal paths are canonical -/

/-- The components of the path are names behind its root or, if it is relative, behind parent
segments. -/
def IsNormal (p : Path) : Prop :=
  ∃ (ups : Nat) (names : List String),
    p.components =
      (if p.isAbsolute then [.root] else List.replicate ups .parent) ++ names.map .name

theorem isNormal_normalize (p : Path) : IsNormal p.normalize := by
  rcases isFolded_normalComponents p with ⟨ups, names, folded⟩
  refine ⟨ups, names, ?_⟩
  rw [isAbsolute_normalize, components_normalize, folded]
  cases p.isAbsolute <;> rfl

/-- A module is resolved alike from any spelling of the directory of the importing file. -/
theorem resolve?_of_directory (t : TsConfig) (specifier : String) {file file' : Path}
    (same : (file.parent?.getD ⟨""⟩).normalize = (file'.parent?.getD ⟨""⟩).normalize) :
    t.resolve? specifier file = t.resolve? specifier file' := by
  rw [TsConfig.resolve?, TsConfig.resolve?,
    ← normalize_normalize_append (file.parent?.getD ⟨""⟩) ⟨specifier⟩, same,
    normalize_normalize_append]

/-- Normalisation leaves names behind the root or behind leading parent segments, keeps a path
absolute or relative, and has no effect on its own results.  It only shortens, and it gives two
paths one result exactly if shortenings connect them.  The path of something in a directory does
not depend on how the directory is spelled, and neither does a module that a file in it imports. -/
theorem normalize_canonical :
    (∀ p : Path, IsNormal p.normalize ∧ p.normalize.isAbsolute = p.isAbsolute ∧
      p.normalize.normalize = p.normalize ∧
      Relation.ReflTransGen Shortens p.components p.normalize.components) ∧
    (∀ p q : Path,
      p.normalize = q.normalize ↔ Relation.EqvGen Shortens p.components q.components) ∧
    (∀ p q : Path, (p ++ q).normalize = (p.normalize ++ q).normalize) ∧
    ∀ (t : TsConfig) (specifier : String) (file file' : Path),
      (file.parent?.getD ⟨""⟩).normalize = (file'.parent?.getD ⟨""⟩).normalize →
        t.resolve? specifier file = t.resolve? specifier file' :=
  ⟨fun p => ⟨isNormal_normalize p, isAbsolute_normalize p, normalize_normalize p,
      shortens_normalize p⟩,
    fun _ _ => normalize_eq_normalize_iff,
    fun p q => (normalize_normalize_append p q).symm,
    fun t specifier _ _ same => resolve?_of_directory t specifier same⟩

/-- Two files of one directory, which one of them spells with a detour. -/
theorem normalize_canonical_detour :
    let t : TsConfig := ⟨⟨"/project/tsconfig.json"⟩, none, [], ⟨"/project"⟩⟩
    let file : Path := ⟨"/project/src/./ui/..//Card.tsx"⟩
    let file' : Path := ⟨"/project/src/Button.tsx"⟩
    (file.parent?.getD ⟨""⟩).normalize = (file'.parent?.getD ⟨""⟩).normalize ∧
      t.resolve? "../theme" file = t.resolve? "../theme" file' := by
  intro t file file'
  have same : (file.parent?.getD ⟨""⟩).normalize = (file'.parent?.getD ⟨""⟩).normalize := by
    decide +kernel
  exact ⟨same, normalize_canonical.2.2.2 t "../theme" file file' same⟩

example : (Path.mk "/a/b/../c/./d").normalize = ⟨"/a/c/d"⟩ := by decide +kernel

example : (Path.mk "x/../../y").normalize = ⟨"../y"⟩ := by decide +kernel

end ThemeMigration.Path
