import Mathlib.Data.List.TakeWhile
import ThemeMigration.Text.Blank

/-!
# Blanks around a text

Trimming drops what is blank at the two ends of a text and nothing else, so blanks that are put
around a text are dropped again, and a text with anything but blanks keeps it.  Lower case changes
no blanks: it does not matter whether a text is trimmed before or after it.
-/

namespace ThemeMigration.Text

/-! ## Characters -/

theorem trimChars_append {front cs back : List Char} (blankFront : ∀ c ∈ front, isBlank c = true)
    (blankBack : ∀ c ∈ back, isBlank c = true) :
    trimChars (front ++ cs ++ back) = trimChars cs := by
  have behind (ds : List Char) : (ds ++ back).reverse.dropWhile isBlank =
      ds.reverse.dropWhile isBlank := by
    rw [List.reverse_append]
    exact List.dropWhile_append_of_pos fun c member => blankBack c (List.mem_reverse.1 member)
  rw [trimChars, trimChars, List.append_assoc, List.dropWhile_append_of_pos blankFront,
    List.dropWhile_append]
  split
  · rename_i blank
    have none : back.dropWhile isBlank = [] := List.dropWhile_eq_nil_iff.2 blankBack
    rw [none, List.isEmpty_iff.1 blank]
  · rw [behind]

theorem mem_dropWhile_of_not {p : Char → Bool} {c : Char} {cs : List Char} (member : c ∈ cs)
    (stays : p c = false) : c ∈ cs.dropWhile p := by
  rw [← List.takeWhile_append_dropWhile (p := p) (l := cs)] at member
  rcases List.mem_append.1 member with dropped | kept
  · rw [List.mem_takeWhile_imp dropped] at stays
    cases stays
  · exact kept

/-- What is not blank is not trimmed. -/
theorem mem_trimChars {c : Char} {cs : List Char} (member : c ∈ cs) (ink : isBlank c = false) :
    c ∈ trimChars cs := by
  rw [trimChars, List.mem_reverse]
  exact mem_dropWhile_of_not (List.mem_reverse.2 (mem_dropWhile_of_not member ink)) ink

/-- Capitals and the letters in their place are no blanks. -/
theorem isBlank_toLower (c : Char) : isBlank c.toLower = isBlank c := by
  delta Char.toLower
  split
  · rename_i capital
    have low : 65 ≤ c.val.toNat := capital.1
    have high : c.val.toNat ≤ 90 := capital.2
    have sum : (c.val + ('a'.val - 'A'.val)).toNat = c.val.toNat + 32 := by
      rw [UInt32.toNat_add]
      exact Nat.mod_eq_of_lt (Nat.lt_of_le_of_lt (Nat.add_le_add_right high _) (by decide))
    have plain (n : Nat) (least : 65 ≤ n) (most : n ≤ 122) : isBlankCode n = false := by
      simp only [isBlankCode, Bool.or_eq_false_iff, Bool.and_eq_false_iff, decide_eq_false_iff_not,
        beq_eq_false_iff_ne]
      omega
    change isBlankCode (c.val + ('a'.val - 'A'.val)).toNat = isBlankCode c.val.toNat
    rw [sum, plain _ (by omega) (by omega), plain _ low (by omega)]
  · rfl

theorem trimChars_map_toLower (cs : List Char) :
    trimChars (cs.map Char.toLower) = (trimChars cs).map Char.toLower := by
  have same : isBlank ∘ Char.toLower = isBlank := funext isBlank_toLower
  rw [trimChars, trimChars, List.dropWhile_map, same, ← List.map_reverse, List.dropWhile_map, same,
    ← List.map_reverse]

/-! ## Texts -/

theorem trim_append {front back : String} (blankFront : allBlank front = true)
    (blankBack : allBlank back = true) (s : String) : trim (front ++ s ++ back) = trim s := by
  rw [trim, trim, String.toList_append, String.toList_append,
    trimChars_append (List.all_eq_true.1 blankFront) (List.all_eq_true.1 blankBack)]

theorem allBlank_trim {s : String} (ink : allBlank s = false) : allBlank (trim s) = false := by
  rw [allBlank, List.all_eq_false] at ink ⊢
  rcases ink with ⟨c, member, stays⟩
  refine ⟨c, ?_, stays⟩
  rw [trim, String.toList_ofList]
  exact mem_trimChars member (by simpa using stays)

theorem lowerAscii_trim (s : String) : lowerAscii (trim s) = trim (lowerAscii s) := by
  rw [lowerAscii, lowerAscii, trim, trim, String.toList_ofList, String.toList_ofList,
    trimChars_map_toLower]

end ThemeMigration.Text
