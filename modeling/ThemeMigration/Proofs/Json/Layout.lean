import Mathlib.Data.List.Chain
import ThemeMigration.Proofs.Json.Spelling

/-!
# Tokens laid out in a text

A text is laid out as lexemes if these stand in it one behind the other with nothing but gaps
between them.  With blanks in the gaps the lexemes are those that a reader finds, and each text that
a reader accepts is laid out like that.  Two numbers are never neighbours, since the second one
could go on with the first.
-/

namespace ThemeMigration.Json

/-- A token as it is written. -/
structure Lexeme where
  token : Token
  text : List Char
  spelling : token.Spelling text

/-- Lexemes in a text, with gaps in front of them and a last gap behind them. -/
inductive Laid (Gap LastGap : List Char → Prop) : List Lexeme → List Char → Prop where
  | nil {gap : List Char} (last : LastGap gap) : Laid Gap LastGap [] gap
  | cons {gap rest : List Char} {l : Lexeme} {ls : List Lexeme} (front : Gap gap)
      (later : Laid Gap LastGap ls rest) : Laid Gap LastGap (l :: ls) (gap ++ (l.text ++ rest))

/-- Nothing but blanks. -/
def Blanks (gap : List Char) : Prop := ∀ c ∈ gap, Token.isBlank c = true

/-- Lexemes with blanks around them. -/
abbrev LaidStrictly : List Lexeme → List Char → Prop := Laid Blanks Blanks

/-- No two numbers are neighbours. -/
def NumbersApart (ts : List Token) : Prop :=
  ts.IsChain fun a b => a.isNumber = true → b.isNumber = false

/-- The first character of a lexeme is no blank, and does not go on with a number unless it begins
one. -/
theorem Lexeme.exists_head (l : Lexeme) :
    ∃ c cs, l.text = c :: cs ∧ Token.isBlank c = false ∧
      (l.token.isNumber = false → Token.goesOn c = false) := by
  rcases l with ⟨t, text, spelling⟩
  cases spelling with
  | number spelled =>
    rcases spelled.head [] with ⟨c, cs, whole, first⟩
    rw [List.append_nil] at whole
    refine ⟨c, cs, whole, ?_, nofun⟩
    rcases first with digit | rfl
    · simp [Token.isBlank, Token.ne_of_isDigit digit]
    · rfl
  | _ => exact ⟨_, _, rfl, by decide, fun _ => by decide⟩

theorem goesOn_of_isBlank {c : Char} (h : Token.isBlank c = true) : Token.goesOn c = false := by
  simp only [Token.isBlank, Bool.or_eq_true, beq_iff_eq] at h
  rcases h with ((rfl | rfl) | rfl) | rfl <;> decide

/-! ## Reading what is laid out -/

section

variable {ls : List Lexeme} {cs : List Char}

/-- What a text begins with that is laid out as lexemes. -/
theorem LaidStrictly.ends (laid : LaidStrictly ls cs)
    (plain : ∀ l ∈ ls.head?, l.token.isNumber = false) : Token.Ends cs := by
  intro c first
  cases laid with
  | nil last => exact goesOn_of_isBlank (last c (List.mem_of_mem_head? first))
  | @cons gap rest l ls front later =>
    cases gap with
    | cons d gap => exact goesOn_of_isBlank (front c (List.mem_of_mem_head? first))
    | nil =>
      rcases l.exists_head with ⟨d, ds, whole, _, stops⟩
      rw [whole] at first
      obtain rfl := Option.some.inj first
      exact stops (plain l rfl)

theorem dropWhile_blanks {gap rest : List Char} (blanks : Blanks gap) :
    (gap ++ rest).dropWhile Token.isBlank = rest.dropWhile Token.isBlank := by
  rw [List.dropWhile_append_of_pos blanks]

theorem dropWhile_lexeme (l : Lexeme) (rest : List Char) :
    (l.text ++ rest).dropWhile Token.isBlank = l.text ++ rest := by
  rcases l.exists_head with ⟨c, cs, whole, noBlank, _⟩
  rw [whole, List.cons_append, List.dropWhile_cons_of_neg (by simp [noBlank])]

theorem allWithin_succ {bound : Nat} {c : Char} {text after : List Char} {t : Token}
    (begins : cs.dropWhile Token.isBlank = c :: text)
    (read : Token.first? (c :: text) = some (t, after)) :
    Token.allWithin (bound + 1) cs = (Token.allWithin bound after).map (t :: ·) := by
  rw [Token.allWithin, begins]
  simp only [read]

theorem allWithin_of_laid (laid : LaidStrictly ls cs) (apart : NumbersApart (ls.map Lexeme.token))
    {bound : Nat} (room : cs.length < bound) :
    Token.allWithin bound cs = some (ls.map Lexeme.token) := by
  induction laid generalizing bound with
  | @nil gap last =>
    rcases bound with _ | bound
    · exact absurd room (Nat.not_lt_zero _)
    · rw [Token.allWithin, ← List.append_nil gap, dropWhile_blanks last]
      rfl
  | @cons gap rest l ls front later ih =>
    rcases bound with _ | bound
    · exact absurd room (Nat.not_lt_zero _)
    · have next := List.isChain_cons.1 apart
      have ends : l.token.isNumber = true → Token.Ends rest := by
        intro number
        refine LaidStrictly.ends later fun m member => next.1 m.token ?_ number
        rw [List.head?_map, Option.mem_def.1 member, Option.map_some]
        rfl
      have read := Token.first?_append l.spelling ends
      have begins : (gap ++ (l.text ++ rest)).dropWhile Token.isBlank = l.text ++ rest := by
        rw [dropWhile_blanks front, dropWhile_lexeme]
      rcases l.exists_head with ⟨c, text, whole, _, _⟩
      have shorter : rest.length < bound := by
        rw [whole] at room
        simp only [List.length_append, List.length_cons] at room
        omega
      rw [whole] at read begins
      rw [whole, allWithin_succ begins read, ih next.2 shorter]
      rfl

theorem all?_of_laid (laid : LaidStrictly ls cs) (apart : NumbersApart (ls.map Lexeme.token)) :
    Token.all? cs = some (ls.map Lexeme.token) :=
  allWithin_of_laid laid apart (Nat.lt_succ_self _)

theorem laid_of_allWithin {bound : Nat} {ts : List Token}
    (read : Token.allWithin bound cs = some ts) :
    ∃ ls, ls.map Lexeme.token = ts ∧ LaidStrictly ls cs := by
  induction bound generalizing cs ts with
  | zero => cases read
  | succ bound ih =>
    have split : cs.takeWhile Token.isBlank ++ cs.dropWhile Token.isBlank = cs :=
      List.takeWhile_append_dropWhile
    have blanks : Blanks (cs.takeWhile Token.isBlank) := List.all_eq_true.1 List.all_takeWhile
    rw [Token.allWithin] at read
    split at read
    · rename_i none
      cases read
      rw [none, List.append_nil] at split
      exact ⟨[], rfl, .nil (split ▸ blanks)⟩
    · rename_i c rest some
      split at read
      · cases read
      · rename_i t after first
        rcases Option.map_eq_some_iff.1 read with ⟨ts, later, rfl⟩
        rcases Token.spelling_of_first? first with ⟨text, spelling, whole⟩
        rcases ih later with ⟨ls, rfl, laid⟩
        refine ⟨⟨t, text, spelling⟩ :: ls, rfl, ?_⟩
        rw [← split, some, whole]
        exact .cons blanks laid

/-- The tokens of a text are those that it is laid out as. -/
theorem all?_eq_some_iff {ts : List Token} (apart : NumbersApart ts) :
    Token.all? cs = some ts ↔ ∃ ls, ls.map Lexeme.token = ts ∧ LaidStrictly ls cs := by
  constructor
  · exact laid_of_allWithin
  · rintro ⟨ls, rfl, laid⟩
    exact all?_of_laid laid apart

end

end ThemeMigration.Json
