import Mathlib.Data.List.Basic
import ThemeMigration.Toml.Writer

/-!
# Written strings

A string is read from what is written for it, whichever quotes it got.  Between double quotes each
character is read from its own spelling.  Between three single quotes a text may hold single quotes
as long as no three of them meet.
-/

namespace ThemeMigration.Toml

/-! ## Escapes -/

theorem codePoint?_hexDigits4 : ∀ n : Fin 128,
    codePoint? (hexDigits4 n) = some (Char.ofNat n) ∧ (hexDigits4 n).length = 4 := by
  decide

theorem codePoint?_of_isControl {c : Char} (h : isControl c = true) :
    ∃ a b d e, hexDigits4 c.toNat = [a, b, d, e] ∧ codePoint? [a, b, d, e] = some c := by
  have small : c.toNat < 128 := by
    simp only [isControl, Bool.and_eq_true, Bool.or_eq_true, decide_eq_true_eq, beq_iff_eq] at h
    omega
  rcases codePoint?_hexDigits4 ⟨c.toNat, small⟩ with ⟨read, four⟩
  dsimp only at read four
  rw [Char.ofNat_toNat] at read
  rcases List.length_eq_four.1 four with ⟨a, b, d, e, digits⟩
  exact ⟨a, b, d, e, digits, digits ▸ read⟩

/-- How a character is written between double quotes: as it is, by a letter or by its code. -/
inductive EscapeForm (lines : Bool) (c : Char) : List Char → Prop where
  | plain (isText : isTextChar c = true) (noQuote : c ≠ '"') (noBackslash : c ≠ '\\') :
      EscapeForm lines c [c]
  | lineBreak (inLines : lines = true) (isBreak : c = '\n') : EscapeForm lines c [c]
  | short {e : Char} (escape : simpleEscape? e = some c) : EscapeForm lines c ['\\', e]
  | code {a b d e : Char} (code : codePoint? [a, b, d, e] = some c) :
      EscapeForm lines c ['\\', 'u', a, b, d, e]

theorem EscapeForm.of_beq {lines : Bool} {c d e : Char} (escape : simpleEscape? e = some d)
    (same : (c == d) = true) : EscapeForm lines c ['\\', e] :=
  .short (by rw [escape, beq_iff_eq.1 same])

theorem isTextChar_eq (c : Char) : isTextChar c = !isControl c := by
  have split : decide (32 ≤ c.toNat) = !decide (c.toNat < 32) := by
    rw [← decide_not, decide_eq_decide]
    omega
  simp only [isTextChar, isControl, bne, split]
  cases c == '\t' <;> cases decide (c.toNat < 32) <;> rfl

theorem escapeForm (lines : Bool) (c : Char) : EscapeForm lines c (escapeChar lines c) := by
  unfold escapeChar
  split
  · exact .of_beq rfl ‹_›
  split
  · exact .of_beq rfl ‹_›
  split
  · split
    · rename_i isBreak inLines
      exact .lineBreak inLines (beq_iff_eq.1 isBreak)
    · exact .of_beq rfl ‹_›
  split
  · exact .of_beq rfl ‹_›
  split
  · exact .of_beq rfl ‹_›
  split
  · exact .of_beq rfl ‹_›
  split
  · exact .of_beq rfl ‹_›
  split
  · rename_i control
    rcases codePoint?_of_isControl control with ⟨a, b, d, e, digits, code⟩
    rw [digits]
    exact .code code
  · rename_i noQuote noBackslash plain
    refine .plain ?_ (by simpa using noQuote) (by simpa using noBackslash)
    rw [isTextChar_eq]
    simpa using plain

/-- No spelling of a character begins with the quote that ends the string. -/
theorem EscapeForm.exists_head {lines : Bool} {c : Char} {cs : List Char}
    (form : EscapeForm lines c cs) : ∃ d ds, cs = d :: ds ∧ d ≠ '"' := by
  cases form with
  | plain _ noQuote _ => exact ⟨c, [], rfl, noQuote⟩
  | lineBreak _ isBreak => exact ⟨c, [], rfl, isBreak ▸ nofun⟩
  | short _ | code _ => exact ⟨'\\', _, rfl, nofun⟩

/-! ## Between double quotes -/

section

variable {c : Char} {cs : List Char}

theorem ne_of_simpleEscape? {d e : Char} (escape : simpleEscape? e = some c)
    (other : simpleEscape? d = none) : e ≠ d := by
  rintro rfl
  rw [other] at escape
  cases escape

theorem basicBody?_append (form : EscapeForm false c cs) (rest : List Char) :
    basicBody? (cs ++ rest) = (basicBody? rest).map fun p => (c :: p.1, p.2) := by
  cases form with
  | plain isText noQuote noBackslash =>
    rw [List.singleton_append, basicBody?]
    · simp [isText, noBackslash]
    all_goals simp [noQuote, noBackslash]
  | lineBreak inLines => cases inLines
  | @short e escape =>
    have other := fun {d : Char} => ne_of_simpleEscape? (d := d) escape
    rw [List.cons_append, List.singleton_append, basicBody?]
    · simp [escape]
    · simp [other (Eq.refl (simpleEscape? 'u'))]
    · simp [other (Eq.refl (simpleEscape? 'U'))]
  | code code => simp [basicBody?, code]

theorem basicBody?_quoted (cs rest : List Char) :
    basicBody? (cs.flatMap (escapeChar false) ++ '"' :: rest) = some (cs, rest) := by
  induction cs with
  | nil => rfl
  | cons c cs ih =>
    rw [List.flatMap_cons, List.append_assoc, basicBody?_append (escapeForm false c), ih,
      Option.map_some]

/-- An escape that is no line break is read as its character. -/
theorem linesBody?_backslash {bound : Nat} {rest after : List Char}
    (noBreak : newline? (skipBlanks rest) = none) (read : escape? rest = some (c, after)) :
    linesBody? '"' true (bound + 1) ('\\' :: rest) =
      (linesBody? '"' true bound after).map fun p => (c :: p.1, p.2) := by
  simp [linesBody?, noBreak, read]

theorem linesBody?_append (form : EscapeForm true c cs) (bound : Nat) (rest : List Char) :
    linesBody? '"' true (bound + 1) (cs ++ rest) =
      (linesBody? '"' true bound rest).map fun p => (c :: p.1, p.2) := by
  cases form with
  | plain isText noQuote noBackslash =>
    have noReturn : c ≠ '\r' ∧ c ≠ '\n' := by
      constructor <;> rintro rfl <;> cases isText
    rw [List.singleton_append, linesBody?]
    · simp [isText, noQuote, noBackslash]
    all_goals simp [noReturn]
  | lineBreak _ isBreak =>
    subst isBreak
    rfl
  | @short e escape =>
    have other := fun {d : Char} => ne_of_simpleEscape? (d := d) escape
    have noBreak : newline? (skipBlanks (e :: rest)) = none := by
      rw [skipBlanks, List.dropWhile_cons_of_neg, newline?]
      · simp [other (Eq.refl (simpleEscape? '\n'))]
      · simp [other (Eq.refl (simpleEscape? '\r'))]
      · simp [isBlank, other (Eq.refl (simpleEscape? ' ')), other (Eq.refl (simpleEscape? '\t'))]
    have read : escape? (e :: rest) = some (c, rest) := by
      unfold escape?
      split
      · exact absurd (List.cons.inj ‹_›).1 (other rfl)
      · exact absurd (List.cons.inj ‹_›).1 (other rfl)
      · rename_i same
        cases same
        rw [escape, Option.map_some]
      · cases ‹_ = []›
    exact linesBody?_backslash noBreak read
  | code code => exact linesBody?_backslash rfl (by simp [escape?, code])

/-- Three quotes end a string of several lines if no other one follows. -/
theorem linesBody?_close (quote : Char) (escapes : Bool) (bound : Nat) {rest : List Char}
    (noQuote : rest.head? ≠ some quote) (noBreak : quote ≠ '\n') (noReturn : quote ≠ '\r') :
    linesBody? quote escapes (bound + 1) (quote :: quote :: quote :: rest) = some ([], rest) := by
  have run : rest.takeWhile (· == quote) = [] := by
    cases rest with
    | nil => rfl
    | cons c rest =>
      exact List.takeWhile_cons_of_neg fun same => noQuote (congrArg some (beq_iff_eq.1 same))
  rw [linesBody?]
  · simp [run]
  all_goals simp [noBreak, noReturn]

theorem linesBody?_quoted (cs : List Char) {bound : Nat} (room : cs.length < bound)
    {rest : List Char} (noQuote : rest.head? ≠ some '"') :
    linesBody? '"' true bound (cs.flatMap (escapeChar true) ++ '"' :: '"' :: '"' :: rest) =
      some (cs, rest) := by
  induction cs generalizing bound with
  | nil => 
    rcases bound with _ | bound
    · exact absurd room (Nat.not_lt_zero _)
    · exact linesBody?_close '"' true bound noQuote nofun nofun
  | cons c cs ih => 
    rcases bound with _ | bound
    · exact absurd room (Nat.not_lt_zero _)
    · rw [List.flatMap_cons, List.append_assoc, linesBody?_append (escapeForm true c),
        ih (Nat.lt_of_succ_lt_succ room), Option.map_some]

/-! ## Between single quotes -/

theorem literalBody?_append (text : ∀ c ∈ cs, isTextChar c = true ∧ c ≠ '\'') (rest : List Char) :
    literalBody? (cs ++ '\'' :: rest) = some (cs, rest) := by
  induction cs with
  | nil => rfl
  | cons c cs ih =>
    rcases List.forall_mem_cons.1 text with ⟨⟨isText, noQuote⟩, later⟩
    rw [List.cons_append, literalBody?, if_pos isText, ih later, Option.map_some]
    exact noQuote

/-- The longest run is at least as long as each run that has been counted. -/
theorem le_longestQuoteRun (cs : List Char) (longest current : Nat) :
    max longest current ≤ longestQuoteRun.go longest current cs := by
  induction cs generalizing longest current with
  | nil => exact Nat.le_refl _
  | cons c cs ih =>
    rw [longestQuoteRun.go]
    split
    · have := ih longest (current + 1)
      omega
    · have := ih (max longest current) 0
      omega

/-- The run that the text goes on with is counted. -/
theorem run_le_longestQuoteRun (cs : List Char) (longest current : Nat) :
    current + (cs.takeWhile (· == '\'')).length ≤ longestQuoteRun.go longest current cs := by
  induction cs generalizing longest current with
  | nil => exact Nat.le_max_right ..
  | cons c cs ih =>
    rw [longestQuoteRun.go, List.takeWhile_cons]
    split
    · have := ih longest (current + 1)
      simp only [List.length_cons]
      omega
    · have := le_longestQuoteRun cs (max longest current) 0
      simp only [List.length_nil]
      omega

/-- A text that does not end with a quote ends each run of quotes in it. -/
theorem takeWhile_quote_append {cs : List Char} (last : cs.getLast? ≠ some '\'') (some : cs ≠ [])
    (rest : List Char) :
    (cs ++ rest).takeWhile (· == '\'') = cs.takeWhile (· == '\'') := by
  rw [List.takeWhile_append, if_neg]
  intro whole
  have all : cs.takeWhile (· == '\'') = cs :=
    (List.takeWhile_prefix _).eq_of_length whole
  have quotes : (cs.takeWhile (· == '\'')).all (· == '\'') = true := List.all_takeWhile
  rw [all] at quotes
  have isQuote := List.all_eq_true.1 quotes _ (List.getLast_mem some)
  exact last (beq_iff_eq.1 isQuote ▸ List.getLast?_eq_some_getLast some)

theorem linesBody?_plain {quote c : Char} (isText : c = '\n' ∨ isTextChar c = true)
    (noQuote : c ≠ quote) (bound : Nat) (rest : List Char) :
    linesBody? quote false (bound + 1) (c :: rest) =
      (linesBody? quote false bound rest).map fun p => (c :: p.1, p.2) := by
  rcases isText with rfl | isText
  · rfl
  · have noReturn : c ≠ '\r' ∧ c ≠ '\n' := by
      constructor <;> rintro rfl <;> cases isText
    rw [linesBody?]
    · simp [isText, noQuote]
    all_goals simp [noReturn]

/-- One or two quotes in a row do not end a string. -/
theorem linesBody?_few {bound : Nat} {rest : List Char}
    (few : (rest.takeWhile (· == '\'')).length < 2) :
    linesBody? '\'' false (bound + 1) ('\'' :: rest) =
      (linesBody? '\'' false bound rest).map fun p => ('\'' :: p.1, p.2) := by
  rw [linesBody?]
  · match (rest.takeWhile (· == '\'')).length, few with
    | 0, _ | 1, _ => simp
  all_goals nofun

theorem linesBody?_literal {cs : List Char} (text : ∀ c ∈ cs, c = '\n' ∨ isTextChar c = true)
    (last : cs.getLast? ≠ some '\'') {longest current : Nat}
    (few : longestQuoteRun.go longest current cs < 3) {bound : Nat} (room : cs.length < bound)
    {rest : List Char} (noQuote : rest.head? ≠ some '\'') :
    linesBody? '\'' false bound (cs ++ '\'' :: '\'' :: '\'' :: rest) = some (cs, rest) := by
  induction cs generalizing bound longest current with
  | nil =>
    rcases bound with _ | bound
    · exact absurd room (Nat.not_lt_zero _)
    · exact linesBody?_close '\'' false bound noQuote nofun nofun
  | cons c cs ih =>
    rcases bound with _ | bound
    · exact absurd room (Nat.not_lt_zero _)
    rcases List.forall_mem_cons.1 text with ⟨isText, laterText⟩
    have laterLast : cs.getLast? ≠ some '\'' := by
      cases cs with
      | nil => exact nofun
      | cons d cs => exact last
    have laterRoom := Nat.lt_of_succ_lt_succ room
    rw [longestQuoteRun.go] at few
    split at few
    · rename_i isQuote
      obtain rfl : c = '\'' := beq_iff_eq.1 isQuote
      have nonempty : cs ≠ [] := by
        rintro rfl
        exact last rfl
      have run := run_le_longestQuoteRun cs longest (current + 1)
      rw [List.cons_append, linesBody?_few, ih laterText laterLast few laterRoom, Option.map_some]
      rw [takeWhile_quote_append laterLast nonempty]
      omega
    · rename_i other
      rw [List.cons_append, linesBody?_plain isText (by simpa using other),
        ih laterText laterLast few laterRoom, Option.map_some]

end

/-! ## Strings -/

/-- What a text that is written between single quotes is like. -/
structure IsLiteral (cs : List Char) : Prop where
  nonempty : cs ≠ []
  text : ∀ c ∈ cs, c = '\n' ∨ isTextChar c = true
  few : longestQuoteRun cs < 3
  last : cs.getLast? ≠ some '\''

theorem isLiteral_spec {cs : List Char} (h : isLiteral cs = true) : IsLiteral cs := by
  simp only [isLiteral, Bool.and_eq_true, List.any_eq_true, Bool.not_eq_true', List.any_eq_false,
    decide_eq_true_eq, bne_iff_ne] at h
  rcases h with ⟨⟨⟨⟨c, member, _⟩, control⟩, few⟩, last⟩
  refine ⟨List.ne_nil_of_mem member, fun d member => ?_, few, last⟩
  by_cases isBreak : d = '\n'
  · exact .inl isBreak
  · have plain : ¬isControl d = true := fun isControl => control d member ⟨isBreak, isControl⟩
    exact .inr (by rw [isTextChar_eq, Bool.not_eq_true _ |>.mp plain]; rfl)

/-- Pieces that are never empty make a text no shorter than their number. -/
theorem length_le_flatMap {α : Type} {piece : α → List Char} (nonempty : ∀ a, piece a ≠ [])
    (as : List α) : as.length ≤ (as.flatMap piece).length := by
  induction as with
  | nil => exact Nat.le_refl _
  | cons a as ih =>
    have some := List.length_pos_iff.2 (nonempty a)
    rw [List.flatMap_cons, List.length_append, List.length_cons]
    omega

theorem escapeChar_ne_nil (lines : Bool) (c : Char) : escapeChar lines c ≠ [] := by
  rcases (escapeForm lines c).exists_head with ⟨d, ds, whole, _⟩
  exact whole ▸ List.cons_ne_nil d ds

/-- Where no three quotes stand, a string has one on either side. -/
theorem string?_eq_shortString? {q : Char} {cs : List Char} (h : cs.take 2 ≠ [q, q]) :
    string? (q :: cs) = shortString? (q :: cs) := by
  rw [string?]
  · rintro rest same
    cases same
    exact h rfl
  · rintro rest same
    cases same
    exact h rfl

section

variable {cs rest : List Char}

theorem string?_quoted (cs : List Char) (noQuote : rest.head? ≠ some '"') :
    string? (quoted cs ++ rest) = some (String.ofList cs, rest) := by
  have body : quoted cs ++ rest = '"' :: (cs.flatMap (escapeChar false) ++ '"' :: rest) := by
    simp [quoted]
  rw [body, string?_eq_shortString?, shortString?, basicBody?_quoted, Option.map_some]
  cases cs with
  | nil =>
    cases rest with
    | nil => exact nofun
    | cons c rest =>
      intro same
      exact noQuote (congrArg some (List.cons.inj (List.cons.inj same).2).1)
  | cons c cs =>
    rcases (escapeForm false c).exists_head with ⟨d, ds, whole, other⟩
    rw [List.flatMap_cons, whole]
    exact fun same => other (List.cons.inj same).1

theorem string?_block (cs : List Char) (noQuote : rest.head? ≠ some '"') :
    string? ('"' :: '"' :: '"' :: '\n' ::
      (cs.flatMap (escapeChar true) ++ '"' :: '"' :: '"' :: rest)) =
        some (String.ofList cs, rest) := by
  have enough := length_le_flatMap (escapeChar_ne_nil true) cs
  rw [string?, skipFirstBreak, newline?, Option.getD_some, linesBody?_quoted cs _ noQuote,
    Option.map_some]
  simp only [List.length_cons, List.length_append]
  omega

theorem string?_literal (literal : IsLiteral cs) (plain : '\'' ∉ cs) (oneLine : '\n' ∉ cs) :
    string? ('\'' :: (cs ++ '\'' :: rest)) = some (String.ofList cs, rest) := by
  have text : ∀ c ∈ cs, isTextChar c = true ∧ c ≠ '\'' := by
    intro c member
    refine ⟨(literal.text c member).resolve_left ?_, ?_⟩
    · rintro rfl
      exact oneLine member
    · rintro rfl
      exact plain member
  rw [string?_eq_shortString?, shortString?, literalBody?_append text, Option.map_some]
  rcases List.exists_cons_of_ne_nil literal.nonempty with ⟨c, cs, rfl⟩
  exact fun same => (text c (List.mem_cons_self ..)).2 (List.cons.inj same).1

theorem linesBody?_of_isLiteral (literal : IsLiteral cs) (noQuote : rest.head? ≠ some '\'')
    {bound : Nat} (room : cs.length < bound) :
    linesBody? '\'' false bound (cs ++ '\'' :: '\'' :: '\'' :: rest) = some (cs, rest) :=
  linesBody?_literal literal.text literal.last literal.few room noQuote

theorem string?_triple (literal : IsLiteral cs) (oneLine : '\n' ∉ cs)
    (noQuote : rest.head? ≠ some '\'') :
    string? ('\'' :: '\'' :: '\'' :: (cs ++ '\'' :: '\'' :: '\'' :: rest)) =
      some (String.ofList cs, rest) := by
  have noBreak : newline? (cs ++ '\'' :: '\'' :: '\'' :: rest) = none := by
    rcases List.exists_cons_of_ne_nil literal.nonempty with ⟨c, cs, rfl⟩
    have first := literal.text c (List.mem_cons_self ..)
    rw [List.cons_append, newline?]
    · rintro rest same
      exact oneLine ((List.cons.inj same).1 ▸ List.mem_cons_self ..)
    · rintro rest same
      rw [(List.cons.inj same).1] at first
      rcases first with first | first <;> cases first
  rw [string?, skipFirstBreak, noBreak, Option.getD_none, linesBody?_of_isLiteral literal noQuote,
    Option.map_some]
  simp only [List.length_cons, List.length_append]
  omega

theorem string?_literalBlock (literal : IsLiteral cs) (noQuote : rest.head? ≠ some '\'') :
    string? ('\'' :: '\'' :: '\'' :: '\n' :: (cs ++ '\'' :: '\'' :: '\'' :: rest)) =
      some (String.ofList cs, rest) := by
  rw [string?, skipFirstBreak, newline?, Option.getD_some, linesBody?_of_isLiteral literal noQuote,
    Option.map_some]
  simp only [List.length_cons, List.length_append]
  omega

end

/-- A string is read from what is written for it if no quote follows. -/
theorem string?_writeString (s : String) {rest : List Char} (noDouble : rest.head? ≠ some '"')
    (noSingle : rest.head? ≠ some '\'') : string? (writeString s ++ rest) = some (s, rest) := by
  have whole : String.ofList s.toList = s := String.ofList_toList
  rw [writeString]
  generalize s.toList = cs at whole ⊢
  subst whole
  by_cases breaks : '\n' ∈ cs
  · have block : quotesOf cs = .block := if_pos (List.contains_iff_mem.2 breaks)
    cases literal : isLiteral cs with
    | true =>
      simpa [block, literal] using string?_literalBlock (isLiteral_spec literal) noSingle
    | false => simpa [block, literal] using string?_block cs noDouble
  · have quotes : quotesOf cs = if isLiteral cs && cs.contains '\'' then .triple else .single :=
      if_neg fun member => breaks (List.contains_iff_mem.1 member)
    cases literal : isLiteral cs with
    | true =>
      by_cases quote : '\'' ∈ cs
      · simpa [quotes, literal, quote] using string?_triple (isLiteral_spec literal) breaks noSingle
      · simpa [quotes, literal, quote] using string?_literal (isLiteral_spec literal) quote breaks
    | false => simpa [quotes, literal] using string?_quoted cs noDouble

end ThemeMigration.Toml
