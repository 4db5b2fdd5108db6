import ThemeMigration.Proofs.Path.Normal

/-!
# Module keys

The key of a normal path that ends with a name depends on the name without its source extension:
the key ends with what is left, or where the name stands if an `index` is left.
-/

namespace ThemeMigration.Path

/-! ## Names with an extension -/

theorem splitExtension_append {stem ending : List Char} (full : stem ≠ [])
    (plain : '.' ∉ ending) : splitExtension (stem ++ '.' :: ending) = (stem, some ending) := by
  have reversed : (stem ++ '.' :: ending).reverse = ending.reverse ++ '.' :: stem.reverse := by simp
  have ends : (ending.reverse ++ '.' :: stem.reverse).takeWhile (· != '.') = ending.reverse := by
    rw [List.takeWhile_append_of_pos]
    · simp
    · intro c member
      rw [bne_iff_ne]
      rintro rfl
      exact plain (List.mem_reverse.1 member)
  have some : stem.reverse.isEmpty = false := by simpa using full
  rw [splitExtension, reversed, ends, List.drop_left]
  simp [some]

/-- The name of a source file without its extension, and any other name as it is. -/
def sourceStem (n : String) : String :=
  match (splitExtension n.toList).2 with
  | some e =>
    if sourceExtensions.contains (String.ofList e) then String.ofList (splitExtension n.toList).1
    else n
  | none => n

theorem sourceStem_append {n e : String} (name : IsName n) (source : e ∈ sourceExtensions) :
    sourceStem (n ++ "." ++ e) = n := by
  have plain : ∀ e ∈ sourceExtensions, '.' ∉ e.toList := by decide
  have split : splitExtension (n ++ "." ++ e).toList = (n.toList, some e.toList) := by
    rw [String.toList_append, String.toList_append, List.append_assoc]
    exact splitExtension_append name.no_segment.1 (plain e source)
  rw [sourceStem, split]
  simp [String.ofList_toList, source]

theorem isName_append {n e : String} (name : IsName n) (source : e ∈ sourceExtensions) :
    IsName (n ++ "." ++ e) := by
  have long : ∀ e ∈ sourceExtensions, 2 ≤ e.toList.length ∧ '/' ∉ e.toList := by decide
  have chars : (n ++ "." ++ e).toList = n.toList ++ '.' :: e.toList := by
    rw [String.toList_append, String.toList_append, List.append_assoc]
    rfl
  rw [IsName, chars]
  constructor
  · intro member
    have length : (n.toList ++ '.' :: e.toList).length ≤ 2 := by
      rcases List.mem_cons.1 member with same | member
      · simp [same]
      · rcases List.mem_cons.1 member with same | member
        · simp [same]
        · simp [List.mem_singleton.1 member]
    have := (long e source).1
    rw [List.length_append, List.length_cons] at length
    omega
  · rw [List.mem_append, List.mem_cons, not_or, not_or]
    exact ⟨name.2, by decide, (long e source).2⟩

/-! ## Paths that end with a name -/

section Written

variable {absolute : Bool} {cs : List Component} (inner : ∀ c ∈ cs, c.IsInner)

include inner

theorem trimmedBody_ofComponents :
    (ofComponents absolute cs).trimmedBody = cs.map Component.piece := by
  rcases List.eq_nil_or_concat cs with rfl | ⟨front, last, rfl⟩
  · cases absolute <;> rfl
  rw [List.concat_eq_append] at inner ⊢
  have solid := pieces_solid inner
  have counted : innerComponent? last.piece = some last :=
    innerComponent?_piece (inner last (by simp))
  have body : (ofComponents absolute (front ++ [last])).body =
      front.map Component.piece ++ [last.piece] := by
    rw [ofComponents, body_withBody solid, if_neg (by simp), List.map_append, List.map_singleton]
  rw [trimmedBody, isAbsolute_ofComponents inner, body, List.map_append, List.map_singleton]
  cases absolute with
  | true => simp [counted]
  | false =>
    cases front with
    | nil =>
      cases last with
      | parent => rfl
      | name n =>
        have name : IsName n := inner (.name n) List.mem_cons_self
        simp [Component.piece, headComponent?_of_name name]
      | _ => cases inner _ List.mem_cons_self
    | cons first front => simp [counted]

end Written

section Named

variable {absolute : Bool} {cs : List Component} {n : String}
  (inner : ∀ c ∈ cs, c.IsInner) (name : IsName n)

include inner name

theorem inner_append_name : ∀ c ∈ cs ++ [Component.name n], c.IsInner := by
  intro c member
  rcases List.mem_append.1 member with front | last
  · exact inner c front
  · rw [List.mem_singleton.1 last]
    exact name

theorem fileName?_ofComponents :
    (ofComponents absolute (cs ++ [.name n])).fileName? = some n := by
  rw [fileName?, components_ofComponents (inner_append_name inner name), ← List.append_assoc,
    List.getLast?_concat]

theorem extension?_ofComponents :
    (ofComponents absolute (cs ++ [.name n])).extension? =
      (splitExtension n.toList).2.map String.ofList := by
  rw [extension?, fileName?_ofComponents inner name, Option.bind_some]

theorem parent?_ofComponents :
    (ofComponents absolute (cs ++ [.name n])).parent? = some (ofComponents absolute cs) := by
  have trimmed := @trimmedBody_ofComponents absolute _ (inner_append_name inner name)
  rw [List.map_append, List.map_singleton] at trimmed
  rw [parent?, trimmed, isAbsolute_ofComponents (inner_append_name inner name),
    List.reverse_append, List.reverse_singleton, List.singleton_append]
  simp only [List.reverse_reverse]
  exact congrArg (fun ps => some (withBody absolute ps)) (trimmedBody_ofComponents inner)

theorem dropSourceExtension_ofComponents :
    (ofComponents absolute (cs ++ [.name n])).dropSourceExtension =
      ofComponents absolute (cs ++ [.name (sourceStem n)]) := by
  have trimmed := @trimmedBody_ofComponents absolute _ (inner_append_name inner name)
  rw [List.map_append, List.map_singleton] at trimmed
  have dropped : (ofComponents absolute (cs ++ [.name n])).dropExtension = ofComponents absolute
      (cs ++ [.name (String.ofList (splitExtension n.toList).1)]) := by
    rw [dropExtension, fileName?_ofComponents inner name, trimmed,
      isAbsolute_ofComponents (inner_append_name inner name), List.reverse_append,
      List.reverse_singleton, List.singleton_append]
    simp [ofComponents, Component.piece]
  rw [dropSourceExtension, extension?_ofComponents inner name, dropped, sourceStem]
  cases (splitExtension n.toList).2 with
  | none => rfl
  | some e =>
    simp only [Option.map_some]
    split <;> rfl

theorem moduleKey_ofComponents (stem : IsName (sourceStem n)) :
    (ofComponents absolute (cs ++ [.name n])).moduleKey =
      if sourceStem n = "index" then ofComponents absolute cs
      else ofComponents absolute (cs ++ [.name (sourceStem n)]) := by
  rw [moduleKey]
  simp only [dropSourceExtension_ofComponents inner name, fileName?_ofComponents inner stem,
    parent?_ofComponents inner stem, Option.getD_some, Option.some_beq_some, beq_iff_eq]

end Named

/-! ## Names of modules -/

/-- A name that a module is imported by: no `index`, and without a source extension. -/
structure IsModuleName (n : String) : Prop where
  isName : IsName n
  noIndex : n ≠ "index"
  noExtension : ∀ e, (Path.mk n).extension? = some e → e ∉ sourceExtensions

theorem IsModuleName.sourceStem_eq {n : String} (h : IsModuleName n) : sourceStem n = n := by
  have alone : ofComponents false ([] ++ [.name n]) = ⟨n⟩ := by
    simp [ofComponents, withBody, join, Component.piece]
  have none : ∀ c ∈ ([] : List Component), c.IsInner :=
    fun c member => absurd member List.not_mem_nil
  have extension := @extension?_ofComponents false _ _ none h.isName
  rw [alone] at extension
  rw [sourceStem]
  split
  · rename_i e found
    rw [found, Option.map_some] at extension
    rw [if_neg (by simpa using h.noExtension _ extension)]
  · rfl

end ThemeMigration.Path
