import Mathlib.Data.List.TakeWhile
import ThemeMigration.Proofs.Path.Normal

/-!
# The path below a base

The path below a base has the components that are left when those of the base are dropped, whatever
empty segments and single dots stand between them in the text.
-/

namespace ThemeMigration.Path

/-! ## Components of a row of pieces -/

/-- The components of a row of pieces.  The first one may open a relative path. -/
def counted (opens : Bool) : List (List Char) → List Component
  | [] => []
  | s :: more =>
    (if opens then headComponent? s else innerComponent? s).toList ++
      more.filterMap innerComponent?

theorem counted_inner (ps : List (List Char)) :
    counted false ps = ps.filterMap innerComponent? := by
  cases ps with
  | nil => rfl
  | cons s more => cases first : innerComponent? s <;> simp [counted, first]

theorem components_eq_counted (p : Path) :
    p.components = rootOf p.isAbsolute ++ counted (!p.isAbsolute) p.body := by
  rw [components, rootOf]
  cases p.isAbsolute with
  | true => simp [counted_inner]
  | false => cases p.body <;> rfl

/-! ## Pieces that are kept -/

/-- The pieces of a row up to the last one that is a component. -/
def trimmed (ps : List (List Char)) : List (List Char) :=
  (ps.reverse.dropWhile fun s => (innerComponent? s).isNone).reverse

theorem trimmed_append (ps : List (List Char)) :
    ∃ back, ps = trimmed ps ++ back ∧ ∀ s ∈ back, innerComponent? s = none := by
  let blank (s : List Char) : Bool := (innerComponent? s).isNone
  refine ⟨(ps.reverse.takeWhile blank).reverse, ?_, fun s member => ?_⟩
  · rw [trimmed, ← List.reverse_append, List.takeWhile_append_dropWhile, List.reverse_reverse]
  · have isBlank : blank s = true := List.mem_takeWhile_imp (List.mem_reverse.1 member)
    exact Option.isNone_iff_eq_none.1 isBlank

theorem filterMap_trimmed (ps : List (List Char)) :
    (trimmed ps).filterMap innerComponent? = ps.filterMap innerComponent? := by
  obtain ⟨back, split, none⟩ := trimmed_append ps
  conv_rhs => rw [split]
  rw [List.filterMap_append, List.filterMap_eq_nil_iff.2 none, List.append_nil]

/-- The pieces that count are those of the text up to the last component. -/
theorem trimmedBody_spec (p : Path) :
    p.trimmedBody <+: p.body ∧
      counted (!p.isAbsolute) p.trimmedBody = counted (!p.isAbsolute) p.body := by
  rw [trimmedBody]
  cases p.isAbsolute with
  | true =>
    obtain ⟨back, split, -⟩ := trimmed_append p.body
    refine ⟨⟨back, split.symm⟩, ?_⟩
    exact (counted_inner _).trans ((filterMap_trimmed p.body).trans (counted_inner _).symm)
  | false =>
    cases p.body with
    | nil => exact ⟨List.nil_prefix, rfl⟩
    | cons first rest =>
      obtain ⟨back, split, -⟩ := trimmed_append rest
      have same := filterMap_trimmed rest
      have whole : first :: trimmed rest <+: first :: rest :=
        ⟨back, by rw [List.cons_append, ← split]⟩
      simp only [Bool.false_eq_true, if_false, Bool.not_false]
      split
      · rename_i none noHead
        rw [trimmed, none] at same
        exact ⟨List.nil_prefix, by simp [counted, noHead, ← same]⟩
      · exact ⟨whole, congrArg (_ ++ ·) same⟩

/-- Behind some components come the other ones, and a component comes first. -/
theorem piecesBehind_spec (opens : Bool) (count : Nat) (ps : List (List Char))
    (later : opens = true → count ≠ 0) :
    piecesBehind opens count ps <:+ ps ∧
      (piecesBehind opens count ps).filterMap innerComponent? = (counted opens ps).drop count ∧
      ∀ s ∈ (piecesBehind opens count ps).head?, (innerComponent? s).isSome = true := by
  fun_induction piecesBehind opens count ps with
  | case1 => exact ⟨List.nil_suffix, List.drop_nil.symm, nofun⟩
  | case2 opens count s more none ih =>
    obtain ⟨suffix, components, head⟩ := ih nofun
    refine ⟨suffix.trans (List.suffix_cons s more), ?_, head⟩
    rw [components, counted, Option.isNone_iff_eq_none.1 none, counted_inner]
    rfl
  | case3 opens s more some =>
    obtain rfl : opens = false := by
      cases opens with
      | false => rfl
      | true => exact absurd rfl (later rfl)
    refine ⟨List.suffix_rfl, ?_, ?_⟩
    · rw [counted_inner, List.drop_zero]
    · rintro _ ⟨⟩
      exact Option.isSome_iff_ne_none.2 fun none => some (by simp [none])
  | case4 opens s more some n ih =>
    obtain ⟨suffix, components, head⟩ := ih nofun
    refine ⟨suffix.trans (List.suffix_cons s more), ?_, head⟩
    obtain ⟨c, found⟩ :=
      Option.ne_none_iff_exists'.1 fun none => some (Option.isNone_iff_eq_none.2 none)
    rw [components, counted, found, counted_inner]
    rfl

/-! ## Pieces that are written -/

/-- Pieces written as a path are read as they are, but an empty one in front of a relative path
would be its root. -/
theorem components_withBody {absolute : Bool} {ps : List (List Char)} (plain : ∀ s ∈ ps, '/' ∉ s)
    (first : absolute = false → ∀ s ∈ ps.head?, s ≠ []) :
    (withBody absolute ps).components = rootOf absolute ++ counted (!absolute) ps := by
  cases ps with
  | nil => cases absolute <;> rfl
  | cons s more =>
    have read : pieces (join (s :: more)) = s :: more :=
      pieces_join (List.cons_ne_nil s more) plain
    have kind : (withBody absolute (s :: more)).isAbsolute = absolute := by
      rw [isAbsolute, withBody, String.toList_ofList]
      cases absolute with
      | true => rfl
      | false =>
        cases s with
        | nil => exact absurd rfl (first rfl [] rfl)
        | cons c cs =>
          have head : (join ((c :: cs) :: more)).head? = some c := by cases more <;> rfl
          have other : c ≠ '/' := fun same =>
            plain _ List.mem_cons_self (same ▸ List.mem_cons_self)
          simp [head, other]
    have body : (withBody absolute (s :: more)).body = s :: more := by
      rw [Path.body, kind, withBody, String.toList_ofList]
      cases absolute <;> exact read
    rw [components_eq_counted, kind, body]

theorem counted_of_head {ps : List (List Char)}
    (first : ∀ s ∈ ps.head?, (innerComponent? s).isSome = true) :
    counted true ps = ps.filterMap innerComponent? := by
  cases ps with
  | nil => rfl
  | cons s more =>
    have isSome := first s rfl
    have noDot : (s == ['.']) = false := by
      rw [beq_eq_false_iff_ne]
      rintro rfl
      cases isSome
    have same : headComponent? s = innerComponent? s := by
      rw [headComponent?, noDot]
      rfl
    rw [← counted_inner, counted, counted, same]
    rfl

theorem ne_nil_of_head_trimmedBody {p : Path} (relative : p.isAbsolute = false) {s : List Char}
    (first : s ∈ p.trimmedBody.head?) : s ≠ [] := by
  rintro rfl
  obtain ⟨back, inBody⟩ := (trimmedBody_spec p).1
  cases kept : p.trimmedBody with
  | nil =>
    rw [kept] at first
    cases first
  | cons s more =>
    rw [kept] at first inBody
    obtain rfl : s = [] := Option.some.inj first
    have text := join_pieces p.text.toList
    rw [body, relative] at inBody
    change [] :: (more ++ back) = pieces p.text.toList at inBody
    rw [← inBody] at text
    cases rest : more ++ back with
    | nil =>
      -- the empty path has one piece, which is no component
      rw [rest] at text
      obtain rfl : p = ⟨""⟩ := congrArg Path.mk (String.toList_inj.1 text.symm)
      cases kept
    | cons t others =>
      rw [rest] at text
      have slash : p.text.toList.head? = some '/' := text ▸ rfl
      rw [isAbsolute, slash] at relative
      cases relative

/-- Behind a base that a path begins with there are the other components of the path. -/
theorem components_relativeTo? {p base q : Path} (h : p.relativeTo? base = some q) :
    q.components = p.components.drop base.components.length := by
  obtain ⟨inBody, kept⟩ := trimmedBody_spec p
  have plain : ∀ s ∈ p.trimmedBody, '/' ∉ s := by
    intro s member
    have inPieces := inBody.subset member
    rw [body_eq] at inPieces
    exact not_mem_of_mem_pieces inPieces
  have whole := components_eq_counted p
  rw [← kept] at whole
  rw [relativeTo?] at h
  split at h
  · cases h
  · rename_i inside
    split at h
    · rename_i empty
      cases h
      rw [List.isEmpty_iff.1 empty, List.length_nil, List.drop_zero, whole]
      exact components_withBody plain fun relative _ => ne_nil_of_head_trimmedBody relative
    · rename_i full
      obtain ⟨n, length⟩ := Nat.exists_eq_succ_of_ne_zero
        (mt List.length_eq_zero_iff.1 (mt List.isEmpty_iff.2 full))
      cases h
      obtain ⟨suffix, components, head⟩ := piecesBehind_spec (!p.isAbsolute)
        (if p.isAbsolute then base.components.length - 1 else base.components.length)
        p.trimmedBody (by cases p.isAbsolute <;> simp [length])
      rw [components_withBody (fun s member => plain s (suffix.subset member))
        fun _ s first empty => by
          have isSome := head s first
          rw [empty] at isSome
          cases isSome]
      rw [Bool.not_false, counted_of_head head, components, whole, length]
      cases p.isAbsolute <;> rfl

theorem components_below {p base : Path} (inside : p.startsWith base = true) :
    base.components ++ (p.below base).components = p.components := by
  obtain ⟨rest, split⟩ := List.isPrefixOf_iff_prefix.1 inside
  cases found : p.relativeTo? base with
  | none =>
    rw [relativeTo?, inside] at found
    simp only [Bool.not_true, Bool.false_eq_true, if_false] at found
    split at found <;> cases found
  | some q =>
    rw [below, found, Option.getD_some, components_relativeTo? found, ← split, List.drop_left]

end ThemeMigration.Path
