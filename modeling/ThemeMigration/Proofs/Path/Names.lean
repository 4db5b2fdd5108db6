import Mathlib.Data.List.Basic
import ThemeMigration.Path.Basic

/-!
# Paths of names

The path of some names below a directory.  Appended to the path of the directory, however that is
spelled, it adds its names to the components, and it is found again as the path below the
directory.
-/

namespace ThemeMigration.Path

/-- A name that an entry of a directory can have: neither empty nor a dot segment, and without a
slash. -/
def IsName (s : String) : Prop :=
  s.toList ∉ [[], ['.'], ['.', '.']] ∧ '/' ∉ s.toList

instance (s : String) : Decidable (IsName s) := inferInstanceAs (Decidable (_ ∧ _))

/-- The relative path of some names. -/
def ofNames (names : List String) : Path := ⟨"/".intercalate names⟩

/-! ## Pieces -/

theorem pieces_append_slash (cs ds : List Char) :
    pieces (cs ++ '/' :: ds) = pieces cs ++ pieces ds := by
  induction cs with
  | nil => rfl
  | cons c cs ih =>
    rw [List.cons_append, pieces, pieces, ih]
    split
    · rfl
    · cases front : pieces cs with
      | nil => exact absurd front (pieces_ne_nil cs)
      | cons p ps => rfl

theorem pieces_of_not_mem {cs : List Char} (h : '/' ∉ cs) : pieces cs = [cs] := by
  induction cs with
  | nil => rfl
  | cons c cs ih =>
    rw [List.mem_cons, not_or] at h
    have other : (c == '/') = false := beq_eq_false_iff_ne.2 (Ne.symm h.1)
    rw [pieces, other, ih h.2]
    rfl

theorem pieces_join {ps : List (List Char)} (some : ps ≠ []) (plain : ∀ p ∈ ps, '/' ∉ p) :
    pieces (join ps) = ps := by
  induction ps with
  | nil => exact absurd rfl some
  | cons p ps ih =>
    rw [List.forall_mem_cons] at plain
    cases ps with
    | nil => exact pieces_of_not_mem plain.1
    | cons q qs =>
      rw [join, pieces_append_slash, pieces_of_not_mem plain.1, ih (List.cons_ne_nil q qs) plain.2]
      · rfl
      · exact List.cons_ne_nil q qs

/-- The characters behind the slash that a text may begin with. -/
def behindRoot (cs : List Char) : List Char := if cs.head? == some '/' then cs.drop 1 else cs

theorem body_eq (p : Path) : p.body = pieces (behindRoot p.text.toList) := by
  rw [body, behindRoot, isAbsolute]
  split <;> rfl

section withBody

variable {absolute : Bool} {ps : List (List Char)} (solid : ∀ p ∈ ps, p ≠ [] ∧ '/' ∉ p)

include solid

theorem isAbsolute_withBody : (withBody absolute ps).isAbsolute = absolute := by
  rw [isAbsolute, withBody, String.toList_ofList]
  cases absolute with
  | true => rfl
  | false =>
    cases ps with
    | nil => rfl
    | cons p ps =>
      rcases solid p List.mem_cons_self with ⟨full, plain⟩
      cases p with
      | nil => exact absurd rfl full
      | cons c cs =>
        have head : (join ((c :: cs) :: ps)).head? = some c := by cases ps <;> rfl
        rw [if_neg Bool.false_ne_true, List.nil_append, head]
        exact beq_eq_false_iff_ne.2 fun same =>
          plain (Option.some.inj same ▸ List.mem_cons_self)

theorem body_withBody : (withBody absolute ps).body = if ps = [] then [[]] else ps := by
  have chars : (withBody absolute ps).body = pieces (join ps) := by
    rw [body, isAbsolute_withBody solid, withBody, String.toList_ofList]
    cases absolute <;> rfl
  rw [chars]
  split
  · rename_i empty
    rw [empty]
    rfl
  · rename_i some
    exact pieces_join some fun p member => (solid p member).2

end withBody

theorem behindRoot_append {cs : List Char} (some : cs ≠ []) (ds : List Char) :
    behindRoot (cs ++ ds) = behindRoot cs ++ ds := by
  cases cs with
  | nil => exact absurd rfl some
  | cons c cs =>
    rw [behindRoot, behindRoot, List.cons_append, List.head?_cons, List.head?_cons]
    split <;> rfl

theorem isAbsolute_of_append {p q : Path} {cs ds : List Char} (some : cs ≠ [])
    (first : p.text.toList = cs) (second : q.text.toList = cs ++ ds) :
    q.isAbsolute = p.isAbsolute := by
  rw [isAbsolute, isAbsolute, first, second, List.head?_append_of_ne_nil _ some]

/-- The characters of a path behind another one: a slash stands between them, if the first does
not end with one. -/
theorem toList_append {p q : Path} {cs : List Char} {c : Char}
    (text : p.text.toList = cs ++ [c]) (relative : q.isAbsolute = false) :
    (p ++ q).text.toList =
      (if c = '/' then cs else p.text.toList) ++ '/' :: q.text.toList := by
  have last : p.text.toList.getLast? = some c := by rw [text, List.getLast?_concat]
  change (append p q).text.toList = _
  rw [append, relative, last]
  by_cases slash : c = '/'
  · subst slash
    simp [text]
  · simp [slash]

/-- What stands in front of a path that is appended to another: the pieces of the other without an
empty one at their end. -/
theorem exists_front {p : Path} (full : p.text ≠ "") :
    ∃ front, (p.body = front ∨ p.body = front ++ [[]]) ∧
      ∀ q : Path, q.isAbsolute = false →
        (p ++ q).isAbsolute = p.isAbsolute ∧ (p ++ q).body = front ++ q.body := by
  rcases List.eq_nil_or_concat p.text.toList with empty | ⟨cs, c, text⟩
  · exact absurd (String.toList_inj.1 empty) full
  rw [List.concat_eq_append] at text
  have chars : p.text.toList ≠ [] := by simp [text]
  have relativeBody : ∀ q : Path, q.isAbsolute = false → q.body = pieces q.text.toList := by
    intro q relative
    rw [body, relative]
    rfl
  by_cases slash : c = '/'
  · subst slash
    by_cases root : cs = []
    · refine ⟨[], Or.inr ?_, fun q relative => ?_⟩
      · rw [body_eq, text, root]
        rfl
      · have joined := toList_append text relative
        rw [if_pos rfl, root, List.nil_append] at joined
        rw [root, List.nil_append] at text
        refine ⟨isAbsolute_of_append (List.cons_ne_nil _ _) text joined, ?_⟩
        rw [body_eq, joined, relativeBody q relative]
        rfl
    · refine ⟨pieces (behindRoot cs), Or.inr ?_, fun q relative => ?_⟩
      · rw [body_eq, text, behindRoot_append root, pieces_append_slash]
        rfl
      · have joined := toList_append text relative
        rw [if_pos rfl] at joined
        constructor
        · rw [isAbsolute, isAbsolute, joined, text, List.head?_append_of_ne_nil _ root,
            List.head?_append_of_ne_nil _ root]
        · rw [body_eq, joined, behindRoot_append root, pieces_append_slash, relativeBody q relative]
  · refine ⟨p.body, Or.inl rfl, fun q relative => ?_⟩
    have joined := toList_append text relative
    rw [if_neg slash] at joined
    refine ⟨isAbsolute_of_append chars rfl joined, ?_⟩
    rw [body_eq, body_eq p, joined, behindRoot_append chars, pieces_append_slash,
      relativeBody q relative]

theorem front_ne_nil {p : Path} (full : p.text ≠ "") (relative : p.isAbsolute = false)
    {front : List (List Char)} (h : p.body = front ∨ p.body = front ++ [[]]) : front ≠ [] := by
  rw [body, relative, if_neg Bool.false_ne_true] at h
  rintro rfl
  rcases h with none | empty
  · exact pieces_ne_nil _ none
  · have text := join_pieces p.text.toList
    rw [empty] at text
    exact full (String.toList_inj.1 text.symm)

theorem append_of_absolute {p q : Path} (absolute : q.isAbsolute = true) : p ++ q = q := by
  change append p q = q
  rw [append, if_pos absolute]

theorem empty_append {p q : Path} (empty : p.text = "") : p ++ q = q := by
  change append p q = q
  rw [append, empty]
  exact ite_self q

theorem isAbsolute_append {p q : Path} (relative : q.isAbsolute = false) :
    (p ++ q).isAbsolute = p.isAbsolute := by
  by_cases empty : p.text = ""
  · rw [empty_append empty, relative, isAbsolute, empty]
    rfl
  · rcases exists_front empty with ⟨_, _, appended⟩
    exact (appended q relative).1

theorem append_ne_empty_left {p q : Path} (full : p.text ≠ "") (relative : q.isAbsolute = false) :
    (p ++ q).text ≠ "" := by
  rcases List.eq_nil_or_concat p.text.toList with empty | ⟨cs, c, text⟩
  · exact absurd (String.toList_inj.1 empty) full
  · have joined := toList_append (text.trans List.concat_eq_append) relative
    intro empty
    rw [empty] at joined
    exact absurd joined.symm (by simp)

theorem append_ne_empty_right {p q : Path} (full : q.text ≠ "") : (p ++ q).text ≠ "" := by
  cases kind : q.isAbsolute with
  | true => rwa [append_of_absolute kind]
  | false =>
    by_cases empty : p.text = ""
    · rwa [empty_append empty]
    · exact append_ne_empty_left empty kind

theorem append_assoc {p q r : Path} (full : q.text ≠ "") (relative : r.isAbsolute = false) :
    p ++ (q ++ r) = p ++ q ++ r := by
  have kind : (q ++ r).isAbsolute = q.isAbsolute := isAbsolute_append relative
  cases absolute : q.isAbsolute with
  | true => rw [append_of_absolute absolute, append_of_absolute (kind.trans absolute)]
  | false =>
    rcases List.eq_nil_or_concat p.text.toList with empty | ⟨cs, c, text⟩
    · rw [empty_append (String.toList_inj.1 empty), empty_append (String.toList_inj.1 empty)]
    · rcases List.eq_nil_or_concat q.text.toList with empty | ⟨ds, d, behind⟩
      · exact absurd (String.toList_inj.1 empty) full
      rw [List.concat_eq_append] at text behind
      have outer := toList_append text (kind.trans absolute)
      have inner := toList_append text absolute
      have last : (p ++ q).text.toList =
          ((if c = '/' then cs else p.text.toList) ++ '/' :: ds) ++ [d] := by
        rw [inner, behind, List.append_assoc, List.cons_append]
      have nested := toList_append last relative
      have sides : (p ++ (q ++ r)).text.toList = (p ++ q ++ r).text.toList := by
        rw [outer, toList_append behind relative, nested, inner]
        by_cases slash : d = '/' <;> simp [slash]
      exact congrArg Path.mk (String.toList_inj.1 sides)

/-! ## Names -/

section names

variable {names : List String}

theorem IsName.no_segment {n : String} (h : IsName n) :
    n.toList ≠ [] ∧ n.toList ≠ ['.'] ∧ n.toList ≠ ['.', '.'] := by
  simpa only [List.mem_cons, List.not_mem_nil, or_false, not_or] using h.1

theorem innerComponent?_of_name {n : String} (h : IsName n) :
    innerComponent? n.toList = some (.name n) := by
  rcases h.no_segment with ⟨full, current, parent⟩
  rw [innerComponent?, if_neg, if_neg, String.ofList_toList]
  · exact fun same => parent (eq_of_beq same)
  · rw [Bool.or_eq_true, beq_iff_eq, beq_iff_eq, not_or]
    exact ⟨full, current⟩

theorem headComponent?_of_name {n : String} (h : IsName n) :
    headComponent? n.toList = some (.name n) := by
  rw [headComponent?, if_neg, innerComponent?_of_name h]
  exact fun same => h.no_segment.2.1 (eq_of_beq same)

theorem toList_ofNames (names : List String) :
    (ofNames names).text.toList = join (names.map String.toList) := by
  rw [ofNames, String.toList_intercalate]
  induction names with
  | nil => rfl
  | cons n names ih =>
    cases names with
    | nil => simp [join]
    | cons m names =>
      rw [List.map_cons, List.map_cons, List.intercalate_cons_cons, join, ← List.map_cons, ← ih]
      · simp
      · exact List.cons_ne_nil _ _

/-- The names of a path, as what is written between its slashes. -/
theorem ofNames_eq_withBody (names : List String) :
    ofNames names = withBody false (names.map String.toList) := by
  rw [withBody, ← toList_ofNames]
  exact congrArg Path.mk String.ofList_toList.symm

theorem names_solid (proper : ∀ n ∈ names, IsName n) :
    ∀ p ∈ names.map String.toList, p ≠ [] ∧ '/' ∉ p := by
  intro p member
  rcases List.mem_map.1 member with ⟨n, inside, rfl⟩
  exact ⟨(proper n inside).no_segment.1, (proper n inside).2⟩

theorem ofNames_relative (proper : ∀ n ∈ names, IsName n) :
    (ofNames names).isAbsolute = false := by
  rw [ofNames_eq_withBody, isAbsolute_withBody (names_solid proper)]

theorem body_ofNames (some : names ≠ []) (proper : ∀ n ∈ names, IsName n) :
    (ofNames names).body = names.map String.toList := by
  rw [ofNames_eq_withBody, body_withBody (names_solid proper), if_neg (by simpa using some)]

theorem components_of_names (proper : ∀ n ∈ names, IsName n) :
    (names.map String.toList).filterMap innerComponent? = names.map Component.name := by
  rw [List.filterMap_map, ← List.filterMap_eq_map]
  exact List.filterMap_congr fun n member => innerComponent?_of_name (proper n member)

theorem components_ofNames (some : names ≠ []) (proper : ∀ n ∈ names, IsName n) :
    (ofNames names).components = names.map Component.name := by
  rw [components, ofNames_relative proper, body_ofNames some proper]
  cases names with
  | nil => exact absurd rfl some
  | cons n names =>
    rw [List.forall_mem_cons] at proper
    simp only [Bool.false_eq_true, if_false, List.map_cons, headComponent?_of_name proper.1,
      components_of_names proper.2]
    rfl

/-! ## The path below a directory -/

/-- What stands in front of names that are appended to a path, which is something unless the path
begins with a slash. -/
theorem exists_front_names {p : Path} (full : p.text ≠ "") (many : names ≠ [])
    (proper : ∀ n ∈ names, IsName n) :
    ∃ front, (p.body = front ∨ p.body = front ++ [[]]) ∧ (p.isAbsolute = false → front ≠ []) ∧
      (p ++ ofNames names).body = front ++ names.map String.toList := by
  rcases exists_front full with ⟨front, body, appended⟩
  have joined := (appended (ofNames names) (ofNames_relative proper)).2
  rw [body_ofNames many proper] at joined
  exact ⟨front, body, fun relative => front_ne_nil full relative body, joined⟩

theorem components_append {p : Path} (full : p.text ≠ "") (many : names ≠ [])
    (proper : ∀ n ∈ names, IsName n) :
    (p ++ ofNames names).components = p.components ++ names.map Component.name := by
  rcases exists_front_names full many proper with ⟨front, body, begins, joined⟩
  rw [components, components, isAbsolute_append (ofNames_relative proper), joined]
  cases kind : p.isAbsolute with
  | true => rcases body with body | body <;>
      simp [body, components_of_names proper, innerComponent?]
  | false =>
    cases front with
    | nil => exact absurd rfl (begins kind)
    | cons first rest => rcases body with body | body <;>
        simp [body, components_of_names proper, innerComponent?]

/-- Pieces that end with a name are none too many. -/
theorem dropWhile_of_names (many : names ≠ []) (proper : ∀ n ∈ names, IsName n)
    (front : List (List Char)) :
    ((front ++ names.map String.toList).reverse.dropWhile
      fun s => (innerComponent? s).isNone).reverse = front ++ names.map String.toList := by
  rcases List.eq_nil_or_concat names with rfl | ⟨others, last, rfl⟩
  · exact absurd rfl many
  · have name := innerComponent?_of_name (proper last (by simp))
    simp [name]

theorem trimmedBody_append {p : Path} (full : p.text ≠ "") (many : names ≠ [])
    (proper : ∀ n ∈ names, IsName n) :
    (p ++ ofNames names).trimmedBody = (p ++ ofNames names).body := by
  rcases exists_front_names full many proper with ⟨front, body, begins, joined⟩
  rw [trimmedBody, isAbsolute_append (ofNames_relative proper), joined]
  cases kind : p.isAbsolute with
  | true => exact dropWhile_of_names many proper front
  | false =>
    cases front with
    | nil => exact absurd rfl (begins kind)
    | cons first rest =>
      have whole := dropWhile_of_names many proper rest
      simp only [Bool.false_eq_true, if_false, List.cons_append, whole]
      cases headComponent? first <;> simp [many]

theorem piecesBehind_inner (many : names ≠ []) (proper : ∀ n ∈ names, IsName n)
    (front : List (List Char)) :
    piecesBehind false (front.filterMap innerComponent?).length
      (front ++ names.map String.toList) = names.map String.toList := by
  induction front with
  | nil =>
    cases names with
    | nil => exact absurd rfl many
    | cons n names =>
      have name := innerComponent?_of_name (proper n List.mem_cons_self)
      simp [piecesBehind, name]
  | cons s front ih =>
    cases counted : innerComponent? s <;> simp [piecesBehind, counted, ih]

theorem piecesBehind_head (many : names ≠ []) (proper : ∀ n ∈ names, IsName n)
    (first : List Char) (rest : List (List Char)) :
    piecesBehind true
      ((headComponent? first).toList ++ rest.filterMap innerComponent?).length
      (first :: rest ++ names.map String.toList) = names.map String.toList := by
  have inner := piecesBehind_inner many proper rest
  cases counted : headComponent? first <;> simp [piecesBehind, counted, inner]

theorem components_ne_nil {p : Path} (full : p.text ≠ "") : p.components ≠ [] := by
  rw [components, body]
  cases kind : p.isAbsolute with
  | true => exact List.cons_ne_nil _ _
  | false =>
    cases text : p.text.toList with
    | nil => exact absurd (String.toList_inj.1 text) full
    | cons c cs =>
      rw [isAbsolute, text, List.head?_cons] at kind
      have plain : (c == '/') = false := by simpa using kind
      have first : ∃ more rest, pieces (c :: cs) = (c :: more) :: rest := by
        rw [pieces, plain]
        cases pieces cs <;> simp
      rcases first with ⟨more, rest, split⟩
      have counted : headComponent? (c :: more) ≠ none := by
        simp only [headComponent?, innerComponent?]
        split_ifs <;> simp_all
      simp [split, counted]

/-- Names appended to a path are found again as the path below it. -/
theorem below_append {p : Path} (full : p.text ≠ "") (many : names ≠ [])
    (proper : ∀ n ∈ names, IsName n) : (p ++ ofNames names).below p = ofNames names := by
  rcases exists_front_names full many proper with ⟨front, body, begins, joined⟩
  have inside : (p ++ ofNames names).startsWith p = true := by
    rw [startsWith, components_append full many proper, List.isPrefixOf_iff_prefix]
    exact List.prefix_append _ _
  have behind : piecesBehind (!(p ++ ofNames names).isAbsolute)
      (if (p ++ ofNames names).isAbsolute then p.components.length - 1 else p.components.length)
      (p ++ ofNames names).trimmedBody = names.map String.toList := by
    rw [trimmedBody_append full many proper, isAbsolute_append (ofNames_relative proper), joined]
    cases kind : p.isAbsolute with
    | true =>
      have count : p.components.length - 1 = (front.filterMap innerComponent?).length := by
        rcases body with body | body <;> simp [components, kind, body, innerComponent?]
      simp only [if_true, count]
      exact piecesBehind_inner many proper front
    | false =>
      cases front with
      | nil => exact absurd rfl (begins kind)
      | cons first rest =>
        have count : p.components =
            (headComponent? first).toList ++ rest.filterMap innerComponent? := by
          rcases body with body | body <;> simp [components, kind, body, innerComponent?]
        simp only [Bool.false_eq_true, if_false, count]
        exact piecesBehind_head many proper first rest
  have counted : p.components.isEmpty = false :=
    List.isEmpty_eq_false_iff.2 (components_ne_nil full)
  rw [below, relativeTo?, inside, counted]
  dsimp only
  simp only [Bool.not_true, Bool.false_eq_true, if_false, behind, ← ofNames_eq_withBody,
    Option.getD_some]

/-- A path that ends with a name does not end with a slash. -/
theorem getLast?_append {p : Path} (full : p.text ≠ "") (many : names ≠ [])
    (proper : ∀ n ∈ names, IsName n) :
    ∃ c, (p ++ ofNames names).text.toList.getLast? = some c ∧ c ≠ '/' := by
  have ends : ∃ c, (join (names.map String.toList)).getLast? = some c ∧ c ≠ '/' := by
    induction names with
    | nil => exact absurd rfl many
    | cons n names ih =>
      rw [List.forall_mem_cons] at proper
      cases names with
      | nil =>
        rcases List.eq_nil_or_concat n.toList with empty | ⟨cs, c, split⟩
        · exact absurd empty proper.1.no_segment.1
        · refine ⟨c, by simp [join, split], ?_⟩
          rintro rfl
          exact proper.1.2 (by simp [split])
      | cons m names =>
        rcases ih (List.cons_ne_nil m names) proper.2 with ⟨c, last, plain⟩
        refine ⟨c, ?_, plain⟩
        rw [List.map_cons, join]
        · rw [List.getLast?_append, List.getLast?_cons, last]
          rfl
        · exact List.cons_ne_nil _ _
  rcases ends with ⟨c, last, plain⟩
  rcases List.eq_nil_or_concat p.text.toList with empty | ⟨cs, d, split⟩
  · exact absurd (String.toList_inj.1 empty) full
  · refine ⟨c, ?_, plain⟩
    rw [toList_append (split.trans List.concat_eq_append) (ofNames_relative proper),
      List.getLast?_append, List.getLast?_cons, toList_ofNames, last]
    rfl

theorem ofNames_inj {names' : List String} (many : names ≠ []) (proper : ∀ n ∈ names, IsName n)
    (many' : names' ≠ []) (proper' : ∀ n ∈ names', IsName n)
    (same : (ofNames names).same (ofNames names') = true) : names = names' := by
  rw [Path.same, beq_iff_eq, components_ofNames many proper,
    components_ofNames many' proper'] at same
  exact List.map_injective_iff.2 (fun _ _ => Component.name.inj) same

end names

end ThemeMigration.Path
