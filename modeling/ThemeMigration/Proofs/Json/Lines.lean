import Mathlib.Data.List.NodupEquivFin
import ThemeMigration.Json.Comments

/-!
# The lines of a stripped text

Stripping takes characters out of a text and never a line break, so whatever a reader says about a
line of the stripped text is about the same line of the text itself.  Nothing is assumed about the
text: a string or a comment may be left open, and a backslash may end it.  Where a comment is taken
out, what is left on both sides of it does not form a comment, so there is none in the result.
-/

namespace ThemeMigration.Json

/-! ## Texts with characters taken out -/

/-- The line of an offset, counted from 1. -/
def lineAt (cs : List Char) (offset : Nat) : Nat := (cs.take offset).count '\n' + 1

/-- What is left of a text when characters other than line breaks are taken out. -/
structure KeepsLines (kept cs : List Char) : Prop where
  sublist : kept.Sublist cs
  breaks : kept.count '\n' = cs.count '\n'

namespace KeepsLines

variable {kept cs : List Char}

theorem nil : KeepsLines [] [] := ⟨.slnil, rfl⟩

theorem keep (c : Char) (h : KeepsLines kept cs) : KeepsLines (c :: kept) (c :: cs) where
  sublist := h.sublist.cons_cons c
  breaks := by rw [List.count_cons, List.count_cons, h.breaks]

theorem drop {c : Char} (noBreak : c ≠ '\n') (h : KeepsLines kept cs) :
    KeepsLines kept (c :: cs) where
  sublist := h.sublist.cons c
  breaks := by rw [List.count_cons_of_ne noBreak, h.breaks]

theorem trans {inner outer : List Char} (first : KeepsLines kept inner)
    (second : KeepsLines inner outer) : KeepsLines kept outer :=
  ⟨first.sublist.trans second.sublist, first.breaks.trans second.breaks⟩

/-- However the characters that are left are found in the text, in order, each offset is on the
line of the offset it is found at.  An offset may be behind the last character. -/
theorem lineAt_eq (h : KeepsLines kept cs) {place : Nat ↪o Nat}
    (found : ∀ i : Nat, kept[i]? = cs[place i]?) (i : Nat) :
    lineAt cs (place i) = lineAt kept i := by
  have front : (kept.take i).Sublist (cs.take (place i)) := by
    refine List.sublist_of_orderEmbedding_getElem?_eq place fun k => ?_
    simp only [List.getElem?_take, place.lt_iff_lt, found]
  have back : (kept.drop i).Sublist (cs.drop (place i)) := by
    have behind : ∀ k, place i ≤ place (i + k) :=
      fun k => place.le_iff_le.2 (Nat.le_add_right i k)
    have rises : StrictMono fun k => place (i + k) - place i := by
      intro a b less
      have ordered : place (i + a) < place (i + b) :=
        place.lt_iff_lt.2 (Nat.add_lt_add_left less i)
      have start := behind a
      change place (i + a) - place i < place (i + b) - place i
      omega
    refine List.sublist_of_orderEmbedding_getElem?_eq (.ofStrictMono _ rises) fun k => ?_
    rw [List.getElem?_drop, found, List.getElem?_drop, OrderEmbedding.coe_ofStrictMono,
      Nat.add_sub_cancel' (behind k)]
  -- neither part has more breaks than what it is left of, and together they have as many
  have frontBreaks := front.count_le '\n'
  have backBreaks := back.count_le '\n'
  have total := h.breaks
  rw [← List.take_append_drop i kept, ← List.take_append_drop (place i) cs, List.count_append,
    List.count_append] at total
  simp only [lineAt]
  omega

end KeepsLines

theorem withoutComments_keepsLines (place : Place) (cs : List Char) :
    KeepsLines (withoutComments place cs) cs := by
  fun_induction withoutComments place cs with
  | case1 => exact .nil
  | case3 cs ih => exact (ih.drop (by decide)).drop (by decide)
  | case4 cs ih => exact (ih.drop (by decide)).drop (by decide)
  | case11 cs c other ih => exact ih.drop other
  | case12 cs ih => exact ih.drop (by decide)
  | case14 star cs c slash other ih => exact ih.drop other
  | _ => rename_i ih; exact ih.keep _

theorem withoutTrailingCommas_keepsLines (place : Place) (cs : List Char) :
    KeepsLines (withoutTrailingCommas place cs) cs := by
  fun_induction withoutTrailingCommas place cs with
  | case1 => exact .nil
  | case7 place cs _ _ _ ih => exact ih.drop (by decide)
  | _ => rename_i ih; exact ih.keep _

theorem strip_keepsLines (text : String) : KeepsLines (strip text).toList text.toList := by
  rw [strip, String.toList_ofList]
  exact (withoutTrailingCommas_keepsLines .plain _).trans (withoutComments_keepsLines .plain _)

/-! ## Comments that are left -/

/-- The place behind a character that is kept. -/
def Place.behind : Place → Char → Place
  | .string, c => if c = '\\' then .escape else if c = '"' then .plain else .string
  | .escape, _ => .string
  | _, c => if c = '"' then .string else .plain

/-- The place in what is left of a text. -/
def Place.left : Place → Place
  | .string => .string
  | .escape => .escape
  | _ => .plain

theorem left_behind (place : Place) (c : Char) : (place.behind c).left = place.behind c := by
  fun_cases Place.behind place c <;> rfl

/-- A slash in front of the character begins a comment. -/
def opensComment (c : Char) : Bool := c == '/' || c == '*'

/-- No slash outside the strings of a text begins a comment. -/
def NoComment (place : Place) (cs : List Char) : Prop :=
  ∀ front c back, cs = front ++ '/' :: c :: back → opensComment c = true →
    front.foldl Place.behind place ≠ .plain

/-- The first character of a text begins no comment. -/
def NoCommentFirst (place : Place) (c : Char) (cs : List Char) : Prop :=
  place = .plain → c = '/' → cs.head?.any opensComment = false

theorem noComment_nil (place : Place) : NoComment place [] := by
  intro front c back whole
  cases front <;> cases whole

theorem noComment_cons_iff {place : Place} {c : Char} {cs : List Char} :
    NoComment place (c :: cs) ↔ NoCommentFirst place c cs ∧ NoComment (place.behind c) cs := by
  constructor
  · intro h
    constructor
    · rintro plain rfl
      cases cs with
      | nil => rfl
      | cons d cs =>
        by_contra opens
        exact h [] d cs rfl (by simpa using opens) plain
    · rintro front d back rfl
      exact h (c :: front) d back rfl
  · rintro ⟨first, later⟩ front d back whole opens
    cases front with
    | nil =>
      obtain ⟨rfl, rfl⟩ := List.cons.inj whole
      intro plain
      have noComment := first plain rfl
      rw [List.head?_cons, Option.any_some, opens] at noComment
      cases noComment
    | cons _ front =>
      obtain ⟨rfl, rest⟩ := List.cons.inj whole
      exact later front d back rest opens

/-- A character is kept unless it begins a comment. -/
theorem withoutComments_cons {place : Place} (inText : place.left = place) {c : Char}
    {cs : List Char} (first : NoCommentFirst place c cs) :
    withoutComments place (c :: cs) = c :: withoutComments (place.behind c) cs := by
  cases place with
  | lineComment => cases inText
  | blockComment => cases inText
  | escape => rw [withoutComments, Place.behind]
  | string =>
    rw [Place.behind]
    split
    · rename_i backslash
      subst backslash
      rfl
    · split
      · rename_i quote
        subst quote
        rfl
      · rw [withoutComments] <;> assumption
  | plain =>
    rw [Place.behind]
    · split
      · rename_i quote
        subst quote
        rfl
      · have noComment : ∀ d, opensComment d = true → ∀ rest, c = '/' → cs = d :: rest → False := by
          rintro d opens rest slash rfl
          have closed := first rfl slash
          rw [List.head?_cons, Option.any_some, opens] at closed
          cases closed
        rw [withoutComments]
        · assumption
        · exact noComment '/' rfl
        · exact noComment '*' rfl
    all_goals nofun

/-- A text that does not begin with a slash keeps its first character. -/
theorem head?_withoutComments {cs : List Char} (noSlash : cs.head? ≠ some '/') :
    (withoutComments .plain cs).head? = cs.head? := by
  cases cs with
  | nil => rfl
  | cons c cs =>
    rw [withoutComments_cons rfl fun _ slash => absurd (congrArg some slash) noSlash]
    rfl

/-- No comment is left, and none is formed by what stood on both sides of one. -/
theorem noComment_withoutComments (place : Place) (cs : List Char) :
    NoComment place.left (withoutComments place cs) := by
  fun_induction withoutComments place cs with
  | case1 => exact noComment_nil _
  | case3 | case4 | case11 | case12 | case14 => assumption
  | case5 c cs noQuote noLine noBlock ih =>
    refine noComment_cons_iff.2 ⟨?_, ?_⟩
    · rintro - rfl
      have closed : cs.head?.any opensComment = false := by
        cases cs with
        | nil => rfl
        | cons d cs =>
          have noSlash : d ≠ '/' := fun slash => noLine cs rfl (slash ▸ rfl)
          have noStar : d ≠ '*' := fun star => noBlock cs rfl (star ▸ rfl)
          simp [opensComment, noSlash, noStar]
      -- what follows the slash is no slash itself, so it follows it in the text that is left too
      rw [head?_withoutComments, closed]
      intro slash
      rw [slash] at closed
      cases closed
    · rwa [Place.left, Place.behind, if_neg noQuote]
      all_goals nofun
  | case8 c cs noBackslash noQuote ih =>
    refine noComment_cons_iff.2 ⟨nofun, ?_⟩
    rwa [Place.left, Place.behind, if_neg noBackslash, if_neg noQuote]
  | case10 | case13 =>
    exact noComment_cons_iff.2 ⟨fun _ => nofun, ‹_›⟩
  | _ => exact noComment_cons_iff.2 ⟨nofun, ‹_›⟩

theorem withoutComments_of_noComment {place : Place} (inText : place.left = place)
    {cs : List Char} (h : NoComment place cs) : withoutComments place cs = cs := by
  induction cs generalizing place with
  | nil => rw [withoutComments]
  | cons c cs ih =>
    obtain ⟨first, later⟩ := noComment_cons_iff.1 h
    rw [withoutComments_cons inText first, ih (left_behind place c) later]

/-! ## The whole text -/

/-- Stripping takes characters out of a text and keeps its line breaks.  Each character left, and
the end of the text, is on the line it was on, wherever in the text a reader of the stripped one
finds it.  No comment is left outside strings, so taking the comments out again changes nothing. -/
theorem strip_keeps_lines (text : String) :
    (strip text).toList.Sublist text.toList ∧
      (strip text).toList.count '\n' = text.toList.count '\n' ∧
      (∃ place : Nat ↪o Nat, ∀ i : Nat, (strip text).toList[i]? = text.toList[place i]?) ∧
      (∀ place : Nat ↪o Nat, (∀ i : Nat, (strip text).toList[i]? = text.toList[place i]?) →
        ∀ i, lineAt text.toList (place i) = lineAt (strip text).toList i) ∧
      NoComment .plain (withoutComments .plain text.toList) ∧
      withoutComments .plain (withoutComments .plain text.toList) =
        withoutComments .plain text.toList := by
  have keeps := strip_keepsLines text
  have noComment := noComment_withoutComments .plain text.toList
  exact ⟨keeps.sublist, keeps.breaks,
    List.sublist_iff_exists_orderEmbedding_getElem?_eq.1 keeps.sublist,
    fun _ found => keeps.lineAt_eq found, noComment, withoutComments_of_noComment rfl noComment⟩

/-- A question mark on the third line, with comments in front of it and an open string behind it. -/
def strayMark : String := "[0, // \"\n/* , \n */ ] ? \"//"

theorem strip_keeps_lines_strayMark :
    strip strayMark = "[0 \n\n ] ? \"//" ∧ lineAt (strip strayMark).toList 8 = 3 ∧
      ∃ place : Nat ↪o Nat, strayMark.toList[place 8]? = some '?' ∧
        lineAt strayMark.toList (place 8) = 3 := by
  have stripped : strip strayMark = "[0 \n\n ] ? \"//" := by decide
  obtain ⟨-, -, ⟨place, found⟩, sameLine, -⟩ := strip_keeps_lines strayMark
  have line := sameLine place found 8
  have mark := found 8
  rw [stripped] at line mark ⊢
  exact ⟨rfl, rfl, place, mark.symm.trans rfl, line.trans rfl⟩

end ThemeMigration.Json
