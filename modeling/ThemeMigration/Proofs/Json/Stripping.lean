import ThemeMigration.Json.Comments
import ThemeMigration.Proofs.Json.Rendering

/-!
# Stripping comments and trailing commas

Stripping leaves the lexemes of a text as they are, but for the commas in front of closing brackets,
with blanks between them.  Both passes copy a string as it is written, so what it holds is no
comment and no comma to them, and a text without comments and trailing commas is left alone.
-/

namespace ThemeMigration.Json

/-! ## Passes that copy strings -/

/-- A pass over a text that copies strings, and copies every character outside of them that begins
no string, no comment and is no comma. -/
structure CopiesStrings (pass : Place → List Char → List Char) : Prop where
  begins (cs : List Char) : pass .plain ('"' :: cs) = '"' :: pass .string cs
  ends (cs : List Char) : pass .string ('"' :: cs) = '"' :: pass .plain cs
  escaped (c : Char) (cs : List Char) :
    pass .string ('\\' :: c :: cs) = '\\' :: c :: pass .string cs
  inside {c : Char} (cs : List Char) (noQuote : c ≠ '"') (noBackslash : c ≠ '\\') :
    pass .string (c :: cs) = c :: pass .string cs
  outside {c : Char} (cs : List Char) (quiet : c ∉ ['"', '/', ',']) :
    pass .plain (c :: cs) = c :: pass .plain cs

-- the equations of both passes are made here once, in front of the lemmas that rewrite by them
attribute [local simp] withoutComments withoutTrailingCommas

theorem withoutComments_copiesStrings : CopiesStrings withoutComments where
  begins _ := rfl
  ends _ := rfl
  escaped c cs := by simp
  inside cs noQuote noBackslash := by
    rw [withoutComments]
    · exact noBackslash
    · exact noQuote
  outside cs quiet := by
    simp only [List.mem_cons, List.not_mem_nil, or_false, not_or] at quiet
    simp [quiet]

theorem withoutTrailingCommas_copiesStrings : CopiesStrings withoutTrailingCommas where
  begins _ := rfl
  ends _ := rfl
  escaped c cs := by simp
  inside cs noQuote noBackslash := by
    rw [withoutTrailingCommas]
    · exact noBackslash
    · exact noQuote
  outside cs quiet := by
    simp only [List.mem_cons, List.not_mem_nil, or_false, not_or] at quiet
    simp [quiet]

/-- The digits of a code are no quotes and no backslashes. -/
theorem plain_of_hexQuad? {a b c d : Char} {n : Nat} (quad : Token.hexQuad? a b c d = some n) :
    ∀ x ∈ [a, b, c, d], x ≠ '"' ∧ x ≠ '\\' := by
  have plain : ∀ {x : Char} {m : Nat}, Token.hexValue? x = some m → x ≠ '"' ∧ x ≠ '\\' := by
    rintro x m value
    constructor <;> rintro rfl <;> cases value
  simp only [Token.hexQuad?, Option.bind_eq_bind, Option.bind_eq_some_iff] at quad
  rcases quad with ⟨_, first, _, second, _, third, _, fourth, _⟩
  simpa using ⟨plain first, plain second, plain third, plain fourth⟩

/-- No character of a text begins a string or a comment or is a comma. -/
def Quiet (cs : List Char) : Prop := ∀ c ∈ cs, c ∉ ['"', '/', ',']

theorem Quiet.append {cs ds : List Char} (left : Quiet cs) (right : Quiet ds) : Quiet (cs ++ ds) :=
  List.forall_mem_append.2 ⟨left, right⟩

theorem quiet_of_isDigits {ds : List Char} (h : Token.IsDigits ds) : Quiet ds := by
  intro d member listed
  have isDigit := h.2 d member
  simp only [List.mem_cons, List.not_mem_nil, or_false] at listed
  rcases listed with rfl | rfl | rfl <;> cases isDigit

theorem quiet_of_numberSpelling {text : List Char} (h : Token.NumberSpelling text) :
    Quiet text := by
  cases h with
  | @mk sign whole part point power mark _ signed isWhole fraction exponent _ =>
    have quietSign : Quiet sign := by
      rcases signed with rfl | rfl <;> simp [Quiet]
    have quietWhole : Quiet whole := by
      rcases isWhole with rfl | ⟨isDigits, _⟩
      · simp [Quiet]
      · exact quiet_of_isDigits isDigits
    have quietPoint : Quiet point := by
      cases fraction with
      | none => exact nofun
      | some isDigits =>
        exact (show Quiet ['.'] by simp [Quiet]).append (quiet_of_isDigits isDigits)
    have quietMark : Quiet mark := by
      cases exponent with
      | none => exact nofun
      | @plain e ds letter isDigits =>
        have quietLetter : Quiet [e] := by
          rcases letter with rfl | rfl <;> simp [Quiet]
        exact quietLetter.append (quiet_of_isDigits isDigits)
      | @positive e ds letter isDigits =>
        have quietLetter : Quiet [e, '+'] := by
          rcases letter with rfl | rfl <;> simp [Quiet]
        exact quietLetter.append (quiet_of_isDigits isDigits)
      | @negative e ds letter isDigits =>
        have quietLetter : Quiet [e, '-'] := by
          rcases letter with rfl | rfl <;> simp [Quiet]
        exact quietLetter.append (quiet_of_isDigits isDigits)
    exact ((quietSign.append quietWhole).append quietPoint).append quietMark

namespace CopiesStrings

variable {pass : Place → List Char → List Char} (copies : CopiesStrings pass)

include copies

theorem inside_append {text : List Char} (h : ∀ c ∈ text, c ≠ '"' ∧ c ≠ '\\') (rest : List Char) :
    pass .string (text ++ rest) = text ++ pass .string rest := by
  induction text with
  | nil => rfl
  | cons c text ih =>
    have head := h c (List.mem_cons_self ..)
    rw [List.cons_append, copies.inside _ head.1 head.2,
      ih fun d member => h d (List.mem_cons_of_mem _ member), List.cons_append]

theorem outside_append {text : List Char} (h : Quiet text)
    (rest : List Char) : pass .plain (text ++ rest) = text ++ pass .plain rest := by
  induction text with
  | nil => rfl
  | cons c text ih =>
    rw [List.cons_append, copies.outside _ (h c (List.mem_cons_self ..)),
      ih fun d member => h d (List.mem_cons_of_mem _ member), List.cons_append]

theorem char_append {c : Char} {cs : List Char} (h : Token.CharSpelling c cs) (rest : List Char) :
    pass .string (cs ++ rest) = cs ++ pass .string rest := by
  cases h with
  | plain noQuote noBackslash _ => exact copies.inside rest noQuote noBackslash
  | short _ => exact copies.escaped _ rest
  | code quad _ _ =>
    rw [List.cons_append, List.cons_append, copies.escaped,
      copies.inside_append (plain_of_hexQuad? quad)]
    rfl
  | @halves a b c d e f g h _ _ first second _ _ =>
    change pass .string
      ('\\' :: 'u' :: ([a, b, c, d] ++ ('\\' :: 'u' :: ([e, f, g, h] ++ rest)))) = _
    rw [copies.escaped, copies.inside_append (plain_of_hexQuad? first), copies.escaped,
      copies.inside_append (plain_of_hexQuad? second)]
    rfl

theorem body_append {text body : List Char} (h : Token.TextSpelling text body) (rest : List Char) :
    pass .string (body ++ '"' :: rest) = body ++ '"' :: pass .plain rest := by
  induction h with
  | nil => exact copies.ends rest
  | cons head _ ih => rw [List.append_assoc, copies.char_append head, ih, List.append_assoc]

theorem spelling_append {t : Token} {text : List Char} (spelling : t.Spelling text)
    (noComma : t ≠ .comma) (rest : List Char) :
    pass .plain (text ++ rest) = text ++ pass .plain rest := by
  cases spelling with
  | comma => exact absurd rfl noComma
  | string spelled =>
    rw [List.cons_append, List.cons_append, copies.begins, List.append_assoc,
      List.singleton_append, copies.body_append spelled]
    simp
  | number spelled => exact copies.outside_append (quiet_of_numberSpelling spelled) rest
  | _ => exact copies.outside_append (by simp [Quiet]) rest

end CopiesStrings

/-! ## Comments -/

theorem not_quiet_of_isBlank {c : Char} (h : Token.isBlank c = true) : c ∉ ['"', '/', ','] := by
  simp only [Token.isBlank, Bool.or_eq_true, beq_iff_eq] at h
  rcases h with ((rfl | rfl) | rfl) | rfl <;> decide

theorem quiet_of_blanks {gap : List Char} (blanks : Blanks gap) : Quiet gap :=
  fun c member => not_quiet_of_isBlank (blanks c member)

theorem withoutComments_lineComment {body : List Char} (oneLine : '\n' ∉ body) (rest : List Char) :
    withoutComments .lineComment (body ++ rest) = withoutComments .lineComment rest := by
  induction body with
  | nil => rfl
  | cons c body ih =>
    simp only [List.mem_cons, not_or] at oneLine
    rw [List.cons_append, withoutComments, ih oneLine.2]
    exact fun same => oneLine.1 same.symm

/-- The line breaks of a block comment stay.  It ends with the first slash behind a star. -/
theorem withoutComments_blockComment {body : List Char} {star : Bool}
    (unclosed : ¬['*', '/'] <:+: (if star then ['*'] else []) ++ body) (rest : List Char) :
    withoutComments (.blockComment star) (body ++ '*' :: '/' :: rest) =
      body.filter (· == '\n') ++ withoutComments .plain rest := by
  induction body generalizing star with
  | nil => cases star <;> simp
  | cons c body ih =>
    have later : body <:+: (if star then ['*'] else []) ++ c :: body :=
      ⟨(if star then ['*'] else []) ++ [c], [], by simp⟩
    have apart : ¬['*', '/'] <:+: body := fun close => unclosed (close.trans later)
    rw [List.cons_append]
    by_cases slash : star = true ∧ c = '/'
    · obtain ⟨rfl, rfl⟩ := slash
      exact absurd ⟨[], body, rfl⟩ unclosed
    by_cases newline : c = '\n'
    · subst newline
      have later := @ih false apart
      rw [withoutComments, later]
      rfl
    · rw [withoutComments, ih, List.filter_cons_of_neg (by simpa using newline)]
      · by_cases isStar : c = '*'
        · subst isStar
          exact fun close => unclosed (close.trans ⟨if star then ['*'] else [], [], by simp⟩)
        · simpa [isStar] using apart
      · exact fun isTrue isSlash => slash ⟨isTrue, isSlash⟩
      · exact newline

theorem filler_blanks {filler : List Char} (isFiller : Filler filler) :
    ∃ blanks, Blanks blanks ∧ ∀ rest,
      withoutComments .plain (filler ++ rest) = blanks ++ withoutComments .plain rest := by
  cases isFiller with
  | @blank c isBlank =>
    have copied := withoutComments_copiesStrings.outside_append
      (show Quiet [c] from List.forall_mem_singleton.2 (not_quiet_of_isBlank isBlank))
    exact ⟨[c], List.forall_mem_singleton.2 isBlank, copied⟩
  | @lineComment body oneLine =>
    refine ⟨['\n'], List.forall_mem_singleton.2 rfl, fun rest => ?_⟩
    simp only [List.cons_append, List.append_assoc]
    rw [withoutComments, withoutComments_lineComment oneLine]
    rfl
  | @blockComment body unclosed =>
    refine ⟨body.filter (· == '\n'), fun c member => ?_, fun rest => ?_⟩
    · obtain rfl : c = '\n' := by simpa using (List.mem_filter.1 member).2
      rfl
    · simp only [List.cons_append, List.append_assoc]
      rw [withoutComments]
      exact withoutComments_blockComment (by simpa using unclosed) rest

/-- Of a gap nothing is left but blanks. -/
theorem gap_blanks {gap : List Char} (isGap : Gap gap) :
    ∃ blanks, Blanks blanks ∧
      ∀ rest, withoutComments .plain (gap ++ rest) = blanks ++ withoutComments .plain rest := by
  induction isGap with
  | nil => exact ⟨[], nofun, fun _ => rfl⟩
  | cons head _ ih =>
    rcases filler_blanks head with ⟨front, frontBlanks, first⟩
    rcases ih with ⟨blanks, areBlanks, later⟩
    refine ⟨front ++ blanks, List.forall_mem_append.2 ⟨frontBlanks, areBlanks⟩, fun rest => ?_⟩
    rw [List.append_assoc, first, later, List.append_assoc]

theorem lastGap_blanks {gap : List Char} (last : LastGap gap) :
    Blanks (withoutComments .plain gap) := by
  cases last with
  | gap isGap =>
    rcases gap_blanks isGap with ⟨blanks, areBlanks, whole⟩
    have alone := whole []
    rw [List.append_nil, withoutComments, List.append_nil] at alone
    rwa [alone]
  | @lineComment gap body isGap oneLine =>
    rcases gap_blanks isGap with ⟨blanks, areBlanks, whole⟩
    have comment := withoutComments_lineComment oneLine []
    rw [List.append_nil] at comment
    rw [whole, withoutComments, comment, withoutComments, List.append_nil]
    exact areBlanks

theorem withoutComments_lexeme (l : Lexeme) (rest : List Char) :
    withoutComments .plain (l.text ++ rest) = l.text ++ withoutComments .plain rest := by
  rcases l with ⟨t, text, spelling⟩
  by_cases comma : t = .comma
  · subst comma
    cases spelling
    rfl
  · exact withoutComments_copiesStrings.spelling_append spelling comma rest

/-- Without its comments a text shows the same lexemes with blanks between them. -/
theorem laid_withoutComments {ls : List Lexeme} {cs : List Char} (laid : Laid Gap LastGap ls cs) :
    LaidStrictly ls (withoutComments .plain cs) := by
  induction laid with
  | nil last => exact .nil (lastGap_blanks last)
  | cons front _ ih =>
    rcases gap_blanks front with ⟨blanks, areBlanks, whole⟩
    rw [whole, withoutComments_lexeme]
    exact .cons areBlanks ih

theorem withoutComments_of_laid {ls : List Lexeme} {cs : List Char} (laid : LaidStrictly ls cs) :
    withoutComments .plain cs = cs := by
  have blanksCopied := fun {gap : List Char} (blanks : Blanks gap) =>
    withoutComments_copiesStrings.outside_append (quiet_of_blanks blanks)
  induction laid with
  | @nil gap last =>
    have copied := blanksCopied last []
    rwa [List.append_nil, withoutComments, List.append_nil] at copied
  | cons front _ ih => rw [blanksCopied front, withoutComments_lexeme, ih]

/-! ## Trailing commas -/

/-- A blank of a text is one to the search for a closing bracket. -/
theorem isBlank_of_blank {c : Char} (h : Token.isBlank c = true) : Text.isBlank c = true := by
  simp only [Token.isBlank, Bool.or_eq_true, beq_iff_eq] at h
  rcases h with ((rfl | rfl) | rfl) | rfl <;> decide

theorem not_isBlank_of_isDigit {c : Char} (h : c.isDigit = true) : Text.isBlank c = false := by
  rw [Char.isDigit_iff_toNat] at h
  change 48 ≤ c.toNat ∧ c.toNat ≤ 57 at h
  simp only [Text.isBlank, Text.isBlankCode, Bool.or_eq_false_iff, Bool.and_eq_false_iff,
    decide_eq_false_iff_not, beq_eq_false_iff_ne]
  omega

theorem Lexeme.exists_head_closes (l : Lexeme) :
    ∃ c cs, l.text = c :: cs ∧ Text.isBlank c = false ∧
      (c == '\x7d' || c == ']') = l.token.closes := by
  rcases l with ⟨t, text, spelling⟩
  cases spelling with
  | number spelled =>
    rcases spelled.head [] with ⟨c, cs, whole, first⟩
    rw [List.append_nil] at whole
    refine ⟨c, cs, whole, ?_⟩
    rcases first with digit | rfl
    · exact ⟨not_isBlank_of_isDigit digit, by simp [Token.ne_of_isDigit digit, Token.closes]⟩
    · exact ⟨by decide, rfl⟩
  | _ => exact ⟨_, _, rfl, by decide, rfl⟩

theorem find?_blanks {gap : List Char} (blanks : Blanks gap) (rest : List Char) :
    (gap ++ rest).find? (fun c => !Text.isBlank c) = rest.find? fun c => !Text.isBlank c := by
  rw [List.find?_append, List.find?_eq_none.2, Option.none_or]
  intro c member
  simp [isBlank_of_blank (blanks c member)]

theorem closesNext_of_laid {ls : List Lexeme} {cs : List Char} (laid : LaidStrictly ls cs) :
    closesNext cs = ls.head?.any fun l => l.token.closes := by
  cases laid with
  | @nil gap last =>
    have found := find?_blanks last []
    rw [List.append_nil] at found
    rw [closesNext, found]
    rfl
  | @cons gap rest l ls front later =>
    rcases l.exists_head_closes with ⟨c, text, whole, noBlank, closes⟩
    rw [closesNext, find?_blanks front, whole, List.cons_append, List.find?_cons_of_pos]
    · exact closes
    · simp [noBlank]

theorem LaidStrictly.prepend {gap : List Char} (front : Blanks gap) {ls : List Lexeme}
    {cs : List Char} (laid : LaidStrictly ls cs) : LaidStrictly ls (gap ++ cs) := by
  cases laid with
  | nil last => exact .nil (List.forall_mem_append.2 ⟨front, last⟩)
  | cons blanks later =>
    rw [← List.append_assoc]
    exact .cons (List.forall_mem_append.2 ⟨front, blanks⟩) later

section

variable {l : Lexeme} {ls : List Lexeme} {cs rest : List Char}

theorem withoutTrailingCommas_blanks {gap : List Char} (blanks : Blanks gap) (rest : List Char) :
    withoutTrailingCommas .plain (gap ++ rest) = gap ++ withoutTrailingCommas .plain rest :=
  withoutTrailingCommas_copiesStrings.outside_append (quiet_of_blanks blanks) rest

/-- A lexeme is copied unless it is a comma in front of a closing bracket. -/
theorem withoutTrailingCommas_lexeme (later : LaidStrictly ls rest) :
    withoutTrailingCommas .plain (l.text ++ rest) =
      (if l.token = .comma ∧ (ls.head?.any fun l => l.token.closes) = true then []
        else l.text) ++ withoutTrailingCommas .plain rest := by
  rcases l with ⟨t, text, spelling⟩
  by_cases comma : t = .comma
  · subst comma
    cases spelling
    simp only [true_and, ← closesNext_of_laid later, List.singleton_append]
    rw [withoutTrailingCommas]
    · split <;> rfl
    all_goals nofun
  · rw [if_neg fun trailing => comma trailing.1]
    exact withoutTrailingCommas_copiesStrings.spelling_append spelling comma rest

/-- Without its trailing commas a text shows the lexemes that are left. -/
theorem laid_withoutTrailingCommas (laid : LaidStrictly ls cs) :
    LaidStrictly (withoutTrailing Lexeme.token ls) (withoutTrailingCommas .plain cs) := by
  induction laid with
  | @nil gap last =>
    have copied := withoutTrailingCommas_blanks last []
    rw [List.append_nil, withoutTrailingCommas, List.append_nil] at copied
    rw [copied]
    exact .nil last
  | cons front later ih =>
    rw [withoutTrailingCommas_blanks front, withoutTrailingCommas_lexeme later, withoutTrailing]
    split
    · exact ih.prepend front
    · exact .cons front ih

theorem withoutTrailingCommas_of_laid (laid : LaidStrictly ls cs)
    (full : withoutTrailing Lexeme.token ls = ls) : withoutTrailingCommas .plain cs = cs := by
  induction laid with
  | @nil gap last =>
    have copied := withoutTrailingCommas_blanks last []
    rwa [List.append_nil, withoutTrailingCommas, List.append_nil] at copied
  | @cons gap rest l ls front later ih =>
    rw [withoutTrailing] at full
    split at full
    · have shorter := (withoutTrailing_sublist Lexeme.token ls).length_le
      rw [full, List.length_cons] at shorter
      omega
    · rename_i stays
      rw [withoutTrailingCommas_blanks front, withoutTrailingCommas_lexeme later, if_neg stays,
        ih (List.cons.inj full).2]

end

/-! ## Stripping -/

theorem parse?_of_strict {v : Json} {text : String} (strict : Strict v text) :
    parse? text = if depth v ≤ Machine.maxDepth then some v else none := by
  split
  · rename_i shallow
    exact parse?_eq_some_iff.2 ⟨strict, shallow⟩
  · rename_i deep
    rw [Option.eq_none_iff_forall_ne_some]
    intro w read
    rcases parse?_eq_some_iff.1 read with ⟨other, shallow⟩
    rw [Strict.unique other strict] at shallow
    exact deep shallow

/-- A text without comments and trailing commas is left alone. -/
theorem strip_of_strict {v : Json} {text : String} (strict : Strict v text) :
    strip text = text := by
  rcases strict with ⟨ls, shown, laid⟩
  have full : withoutTrailing Lexeme.token ls = ls := by
    refine (withoutTrailing_sublist Lexeme.token ls).eq_of_length ?_
    rw [← List.length_map Lexeme.token, withoutTrailing_map, shown,
      withoutTrailing_rendering (renders_tokens v), ← shown, List.length_map]
  rw [strip, withoutComments_of_laid laid, withoutTrailingCommas_of_laid laid full,
    String.ofList_toList]

/-- Stripping a text that shows a value with comments and trailing commas leaves a strict text of
that value and of no other one, with the lexemes of the text but for some commas.  A reader accepts
it as far down as it reads, and a text that is strict is left as it is. -/
theorem strip_preserves :
    (∀ (v : Json) (ls : List Lexeme) (text : String), Renders (.value v) (ls.map Lexeme.token) →
      Laid Gap LastGap ls text.toList →
        (∃ kept : List Lexeme, kept.Sublist ls ∧
          kept.filter (Lexeme.token · ≠ .comma) = ls.filter (Lexeme.token · ≠ .comma) ∧
          kept.map Lexeme.token = tokens v ∧ LaidStrictly kept (strip text).toList) ∧
        (∀ w, Strict w (strip text) ↔ w = v) ∧
        parse? (strip text) = if depth v ≤ Machine.maxDepth then some v else none) ∧
    ∀ (v : Json) (text : String), Strict v text → strip text = text := by
  refine ⟨fun v ls text rendered laid => ?_, fun v text => strip_of_strict⟩
  have shown : (withoutTrailing Lexeme.token ls).map Lexeme.token = tokens v := by
    rw [withoutTrailing_map, withoutTrailing_rendering rendered]
  have strictly : LaidStrictly (withoutTrailing Lexeme.token ls) (strip text).toList := by
    rw [strip, String.toList_ofList]
    exact laid_withoutTrailingCommas (laid_withoutComments laid)
  have strict : Strict v (strip text) := ⟨_, shown, strictly⟩
  refine ⟨⟨_, withoutTrailing_sublist Lexeme.token ls, withoutTrailing_filter Lexeme.token ls,
    shown, strictly⟩, fun w => ⟨fun other => Strict.unique other strict, ?_⟩,
    parse?_of_strict strict⟩
  rintro rfl
  exact strict

namespace Commented

def value : Json := .object [("//", .array [.number "0"])]

/-- A marker of comments in a string, a bracket in a comment, two trailing commas, and a comment at
the end of the text. -/
def text : String := "\x7b\"//\":[0,/* ] */],\x7d//"

theorem zero : Token.NumberSpelling ['0'] :=
  (Token.numberSpelling_of_number? (show Token.number? ['0'] = some (['0'], []) from rfl)).1

def lexemes : List Lexeme :=
  [⟨.braceOpen, ['\x7b'], .braceOpen⟩,
   ⟨.string "//", ['"', '/', '/', '"'],
    .string (.cons (.plain (by decide) (by decide) (by decide))
      (.cons (.plain (by decide) (by decide) (by decide)) .nil))⟩,
   ⟨.colon, [':'], .colon⟩,
   ⟨.bracketOpen, ['['], .bracketOpen⟩,
   ⟨.number "0", ['0'], .number zero⟩,
   ⟨.comma, [','], .comma⟩,
   ⟨.bracketClose, [']'], .bracketClose⟩,
   ⟨.comma, [','], .comma⟩,
   ⟨.braceClose, ['\x7d'], .braceClose⟩]

theorem rendered : Renders (.value value) (lexemes.map Lexeme.token) :=
  .object (.array (.number "0") .noItems (.inr rfl)) .noMembers (.inr rfl)

theorem laid : Laid Gap LastGap lexemes text.toList := by
  have comment : Gap ['/', '*', ' ', ']', ' ', '*', '/'] :=
    .cons (.blockComment (show ¬['*', '/'] <:+: [' ', ']', ' '] by decide)) .nil
  have last : LastGap ['/', '/'] := .lineComment .nil nofun
  exact .cons .nil (.cons .nil (.cons .nil (.cons .nil (.cons .nil (.cons .nil (.cons comment
    (.cons .nil (.cons .nil (.nil last)))))))))

end Commented

theorem strip_preserves_commented :
    Renders (.value Commented.value) (Commented.lexemes.map Lexeme.token) ∧
      Laid Gap LastGap Commented.lexemes Commented.text.toList ∧
      parse? (strip Commented.text) = some Commented.value ∧
      strip Commented.text = "\x7b\"//\":[0]\x7d" ∧
      strip (strip Commented.text) = strip Commented.text := by
  have stripped := strip_preserves.1 Commented.value Commented.lexemes Commented.text
    Commented.rendered Commented.laid
  have strict := (stripped.2.1 Commented.value).2 rfl
  exact ⟨Commented.rendered, Commented.laid, stripped.2.2, by decide,
    strip_preserves.2 Commented.value _ strict⟩

end ThemeMigration.Json
