import ThemeMigration.Proofs.Json.Reading

/-!
# Renderings of a value

A text may show a value with comments between its tokens and with a comma behind the last value of
a list or an object.  Without the commas in front of closing brackets the tokens of such a text are
those of the value, and the tokens of a value are a rendering without such commas.
-/

namespace ThemeMigration.Json

/-! ## Texts with comments and trailing commas -/

/-- What may stand between tokens. -/
inductive Filler : List Char → Prop where
  | blank {c : Char} (isBlank : Token.isBlank c = true) : Filler [c]
  | lineComment {body : List Char} (oneLine : '\n' ∉ body) :
      Filler ('/' :: '/' :: (body ++ ['\n']))
  | blockComment {body : List Char} (unclosed : ¬['*', '/'] <:+: body) :
      Filler ('/' :: '*' :: (body ++ ['*', '/']))

inductive Gap : List Char → Prop where
  | nil : Gap []
  | cons {filler gap : List Char} (head : Filler filler) (rest : Gap gap) : Gap (filler ++ gap)

/-- The end of a text may end a line comment. -/
inductive LastGap : List Char → Prop where
  | gap {gap : List Char} (isGap : Gap gap) : LastGap gap
  | lineComment {gap body : List Char} (isGap : Gap gap) (oneLine : '\n' ∉ body) :
      LastGap (gap ++ '/' :: '/' :: body)

/-- A value, or the items or the members that follow another one. -/
inductive Part where
  | value (v : Json)
  | items (vs : List Json)
  | members (ms : List (String × Json))

def Part.tokens : Part → List Token
  | value v => v.tokens
  | items vs => itemTokens vs
  | members ms => memberTokens ms

/-- The tokens of a value where a comma may stand behind the last value of each list and object
that has one. -/
inductive Renders : Part → List Token → Prop where
  | null : Renders (.value .null) [.null]
  | bool (b : Bool) : Renders (.value (.bool b)) [.bool b]
  | number (spelling : String) : Renders (.value (.number spelling)) [.number spelling]
  | string (s : String) : Renders (.value (.string s)) [.string s]
  | emptyArray : Renders (.value (.array [])) [.bracketOpen, .bracketClose]
  | array {v : Json} {vs : List Json} {first later trailing : List Token}
      (head : Renders (.value v) first) (tail : Renders (.items vs) later)
      (optional : trailing = [] ∨ trailing = [.comma]) :
      Renders (.value (.array (v :: vs)))
        (.bracketOpen :: (first ++ (later ++ (trailing ++ [.bracketClose]))))
  | emptyObject : Renders (.value (.object [])) [.braceOpen, .braceClose]
  | object {key : String} {v : Json} {ms : List (String × Json)} {first later trailing : List Token}
      (head : Renders (.value v) first) (tail : Renders (.members ms) later)
      (optional : trailing = [] ∨ trailing = [.comma]) :
      Renders (.value (.object ((key, v) :: ms)))
        (.braceOpen :: .string key :: .colon ::
          (first ++ (later ++ (trailing ++ [.braceClose]))))
  | noItems : Renders (.items []) []
  | item {v : Json} {vs : List Json} {first later : List Token} (head : Renders (.value v) first)
      (tail : Renders (.items vs) later) : Renders (.items (v :: vs)) (.comma :: (first ++ later))
  | noMembers : Renders (.members []) []
  | member {key : String} {v : Json} {ms : List (String × Json)} {first later : List Token}
      (head : Renders (.value v) first) (tail : Renders (.members ms) later) :
      Renders (.members ((key, v) :: ms)) (.comma :: .string key :: .colon :: (first ++ later))

/-! ## Commas in front of closing brackets -/

section

variable {α : Type} (token : α → Token)

/-- The lexemes of a text without the commas in front of closing brackets. -/
def withoutTrailing : List α → List α
  | [] => []
  | a :: as =>
    if token a = .comma ∧ (as.head?.any fun b => (token b).closes) = true then withoutTrailing as
    else a :: withoutTrailing as

theorem withoutTrailing_sublist (as : List α) : (withoutTrailing token as).Sublist as := by
  induction as with
  | nil => exact .slnil
  | cons a as ih =>
    rw [withoutTrailing]
    split
    · exact ih.cons a
    · exact ih.cons_cons a

/-- Only commas are left out. -/
theorem withoutTrailing_filter (as : List α) :
    (withoutTrailing token as).filter (token · ≠ .comma) = as.filter (token · ≠ .comma) := by
  induction as with
  | nil => rfl
  | cons a as ih =>
    rw [withoutTrailing]
    split
    · rename_i trailing
      rw [ih, List.filter_cons_of_neg (by simpa using trailing.1)]
    · rw [List.filter_cons, List.filter_cons, ih]

theorem withoutTrailing_map (as : List α) :
    (withoutTrailing token as).map token = withoutTrailing id (as.map token) := by
  induction as with
  | nil => rfl
  | cons a as ih =>
    rw [List.map_cons, withoutTrailing, withoutTrailing, List.head?_map, Option.any_map]
    change _ = if token a = .comma ∧ (as.head?.any fun b => (token b).closes) = true then _ else _
    split
    · exact ih
    · rw [List.map_cons, ih]

end

theorem withoutTrailing_cons {t : Token} (noComma : t ≠ .comma) (ts : List Token) :
    withoutTrailing id (t :: ts) = t :: withoutTrailing id ts :=
  if_neg fun trailing => noComma trailing.1

theorem withoutTrailing_comma {ts : List Token} (goesOn : ∀ t ∈ ts.head?, t.closes = false) :
    withoutTrailing id (.comma :: ts) = .comma :: withoutTrailing id ts := by
  refine if_neg fun trailing => ?_
  rcases (Option.any_eq_true ..).1 trailing.2 with ⟨t, first, closes⟩
  rw [id, goesOn t first] at closes
  cases closes

theorem withoutTrailing_close {t : Token} {trailing : List Token}
    (optional : trailing = [] ∨ trailing = [.comma]) (closes : t.closes = true) (ts : List Token) :
    withoutTrailing id (trailing ++ t :: ts) = t :: withoutTrailing id ts := by
  have noComma : t ≠ .comma := by
    rintro rfl
    cases closes
  rcases optional with rfl | rfl
  · exact withoutTrailing_cons noComma ts
  · exact (if_pos ⟨rfl, closes⟩).trans (withoutTrailing_cons noComma ts)

theorem Renders.head {v : Json} {ts : List Token} (rendered : Renders (.value v) ts)
    (rest : List Token) : ∀ t ∈ (ts ++ rest).head?, t.closes = false := by
  intro t first
  cases rendered <;> exact Option.some.inj first ▸ rfl

/-- What is left of the rendering of a value are the tokens of the value. -/
theorem withoutTrailing_of_renders {p : Part} {ts : List Token} (rendered : Renders p ts)
    (rest : List Token) :
    withoutTrailing id (ts ++ rest) = p.tokens ++ withoutTrailing id rest := by
  induction rendered generalizing rest with
  | null | bool | number | string => exact withoutTrailing_cons (by exact nofun) rest
  | emptyArray | emptyObject => simp [withoutTrailing_cons, Part.tokens, tokens]
  | array head tail optional ihHead ihTail =>
    have closed := withoutTrailing_close optional (Eq.refl (Token.closes .bracketClose)) rest
    simp [withoutTrailing_cons, ihHead, ihTail, closed, Part.tokens, tokens]
  | object head tail optional ihHead ihTail =>
    have closed := withoutTrailing_close optional (Eq.refl (Token.closes .braceClose)) rest
    simp [withoutTrailing_cons, ihHead, ihTail, closed, Part.tokens, tokens]
  | noItems | noMembers => rfl
  | @item v vs first later head tail ihHead ihTail =>
    have kept := withoutTrailing_comma (head.head (later ++ rest))
    simp [kept, ihHead, ihTail, Part.tokens, itemTokens]
  | @member key v ms first later head tail ihHead ihTail =>
    have kept := fun ts => withoutTrailing_comma (show ∀ t ∈ (Token.string key :: ts).head?,
      t.closes = false from fun t isKey => Option.some.inj isKey ▸ rfl)
    simp [kept, withoutTrailing_cons, ihHead, ihTail, Part.tokens, memberTokens]

theorem withoutTrailing_rendering {v : Json} {ts : List Token} (rendered : Renders (.value v) ts) :
    withoutTrailing id ts = tokens v := by
  have whole := withoutTrailing_of_renders rendered []
  rwa [List.append_nil, withoutTrailing, List.append_nil] at whole

mutual

/-- The tokens of a value are a rendering of it. -/
theorem renders_tokens (v : Json) : Renders (.value v) (tokens v) := by
  match v with
  | null => exact .null
  | bool b => exact .bool b
  | number spelling => exact .number spelling
  | string s => exact .string s
  | array [] =>
    rw [tokens]
    exact .emptyArray
  | array (v :: vs) =>
    rw [tokens]
    exact .array (renders_tokens v) (renders_itemTokens vs) (.inl rfl)
  | object [] =>
    rw [tokens]
    exact .emptyObject
  | object ((key, v) :: ms) =>
    rw [tokens]
    exact .object (renders_tokens v) (renders_memberTokens ms) (.inl rfl)

theorem renders_itemTokens (vs : List Json) : Renders (.items vs) (itemTokens vs) := by
  match vs with
  | [] => exact .noItems
  | v :: vs =>
    rw [itemTokens]
    exact .item (renders_tokens v) (renders_itemTokens vs)

theorem renders_memberTokens (ms : List (String × Json)) :
    Renders (.members ms) (memberTokens ms) := by
  match ms with
  | [] => exact .noMembers
  | (key, v) :: ms =>
    rw [memberTokens]
    exact .member (renders_tokens v) (renders_memberTokens ms)

end

end ThemeMigration.Json
