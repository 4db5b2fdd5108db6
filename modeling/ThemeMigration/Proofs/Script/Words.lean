import ThemeMigration.Config.Basic
import ThemeMigration.Proofs.Text.Lines
import ThemeMigration.Script.Cursor

/-!
# Words

A valid name is one word to the grammar, whatever stands behind it, if that does not go on with the
name.  Between tokens with single spaces a cursor finds no comments, so what it shows is the next
token and its place.
-/

namespace ThemeMigration.Script

/-! ## Characters of names -/

/-- A character that a valid name can go on with. -/
def isPlain (c : Char) : Bool := Config.isNameStart c || c.isDigit

/-- What the grammar has to know about a character of a valid name. -/
structure Plain (c : Char) : Prop where
  isNameChar : Token.isNameChar c = true
  noBackslash : c ≠ '\\'
  noSlash : c ≠ '/'
  noSpace : Token.isSpace c = false
  size : c.utf8Size = 1

theorem toNat_lt_of_isPlain {c : Char} (h : isPlain c = true) : c.toNat < 128 := by
  rw [isPlain, Config.isNameStart, Bool.or_eq_true, Bool.or_eq_true, Bool.or_eq_true, beq_iff_eq,
    beq_iff_eq] at h
  rcases h with ((alpha | rfl) | rfl) | digit
  · change (c.isUpper || c.isLower) = true at alpha
    rw [Bool.or_eq_true] at alpha
    rcases alpha with upper | lower
    · have last : c.val ≤ 'Z'.val := (of_decide_eq_true upper).2
      exact Nat.lt_of_le_of_lt last (by decide)
    · have last : c.val ≤ 'z'.val := of_decide_eq_true (Bool.and_elim_right lower)
      exact Nat.lt_of_le_of_lt last (by decide)
  · decide
  · decide
  · have last : c.val ≤ '9'.val := of_decide_eq_true (Bool.and_elim_right digit)
    exact Nat.lt_of_le_of_lt last (by decide)

theorem plain_of_isPlain {c : Char} (h : isPlain c = true) : Plain c := by
  have ascii : ∀ n < 128, isPlain (Char.ofNat n) = true →
      Token.isNameChar (Char.ofNat n) = true ∧ Char.ofNat n ≠ '\\' ∧ Char.ofNat n ≠ '/' ∧
        Token.isSpace (Char.ofNat n) = false ∧ (Char.ofNat n).utf8Size = 1 := by
    decide +kernel
  have facts := ascii c.toNat (toNat_lt_of_isPlain h)
  rw [Char.ofNat_toNat] at facts
  obtain ⟨isNameChar, noBackslash, noSlash, noSpace, size⟩ := facts h
  exact ⟨isNameChar, noBackslash, noSlash, noSpace, size⟩

theorem startsName_of_isNameStart {c : Char} (h : Config.isNameStart c = true) :
    Token.startsName c = true := by
  have ascii : ∀ n < 128, Config.isNameStart (Char.ofNat n) = true →
      Token.startsName (Char.ofNat n) = true := by
    decide +kernel
  have plain : isPlain c = true := by rw [isPlain, h, Bool.true_or]
  have facts := ascii c.toNat (toNat_lt_of_isPlain plain)
  rw [Char.ofNat_toNat] at facts
  exact facts h

theorem exists_chars_of_isName {s : String} (h : Config.isName s = true) :
    ∃ c cs, s.toList = c :: cs ∧ Config.isNameStart c = true ∧ ∀ d ∈ c :: cs, isPlain d = true := by
  rw [Config.isName] at h
  cases chars : s.toList with
  | nil =>
    rw [chars] at h
    cases h
  | cons c cs =>
    rw [chars, Bool.and_eq_true, List.all_eq_true] at h
    refine ⟨c, cs, rfl, h.1, List.forall_mem_cons.2 ⟨?_, h.2⟩⟩
    rw [isPlain, h.1, Bool.true_or]

/-! ## The word of a name -/

/-- The characters do not go on with a name in front of them. -/
def EndsWord (rest : List Char) : Prop :=
  ∀ c ∈ rest.head?, Token.isNameChar c = false ∧ c ≠ '\\'

theorem endsWord_cons {c : Char} (h : Token.isNameChar c = false ∧ c ≠ '\\') (cs : List Char) :
    EndsWord (c :: cs) := by
  rintro _ ⟨⟩
  exact h

theorem nameChars_append {cs rest : List Char} (plain : ∀ c ∈ cs, isPlain c = true)
    (ends : EndsWord rest) {fuel : Nat} (enough : cs.length ≤ fuel) :
    Token.nameChars fuel (cs ++ rest) = (cs, rest) := by
  induction cs generalizing fuel with
  | nil =>
    cases fuel with
    | zero => rfl
    | succ fuel =>
      cases rest with
      | nil => rfl
      | cons c rest =>
        obtain ⟨noName, noBackslash⟩ := ends c rfl
        rw [List.nil_append, Token.nameChars]
        · rw [noName]
          rfl
        · rintro _ rfl
          exact absurd rfl noBackslash
  | cons c cs ih =>
    rw [List.forall_mem_cons] at plain
    have facts := plain_of_isPlain plain.1
    cases fuel with
    | zero => exact absurd enough (by simp)
    | succ fuel =>
      rw [List.cons_append, Token.nameChars]
      · rw [facts.isNameChar, ih plain.2 (by simpa using enough)]
        rfl
      · rintro _ rfl
        exact absurd rfl facts.noBackslash

theorem lexeme_name {name : String} (isName : Config.isName name = true) {rest : List Char}
    (ends : EndsWord rest) {bound : Nat} (enough : name.toList.length ≤ bound) (offset : Nat) :
    Token.lexeme bound (name.toList ++ rest) offset =
      ⟨.word name, rest, offset + name.utf8ByteSize⟩ := by
  obtain ⟨c, cs, chars, start, plain⟩ := exists_chars_of_isName isName
  have size : name.utf8ByteSize = Text.byteLength (c :: cs) := by
    rw [← chars, ← Text.size_ofList, String.ofList_toList]
  have read := nameChars_append plain ends (chars ▸ enough)
  rw [List.cons_append] at read
  have word : String.ofList (c :: cs) = name := by rw [← chars, String.ofList_toList]
  rw [chars, List.cons_append, Token.lexeme, startsName_of_isNameStart start, Bool.true_or,
    if_pos rfl, read, size]
  exact congrArg (fun w => Token.Lexeme.mk (.word w) rest _) word

/-- A text has no more characters than bytes. -/
theorem length_le_size (s : String) : s.toList.length ≤ s.utf8ByteSize := by
  have chars (cs : List Char) : cs.length ≤ Text.byteLength cs := by
    induction cs with
    | nil => exact Nat.le_refl _
    | cons c cs ih =>
      have some := c.utf8Size_pos
      rw [List.length_cons, Text.byteLength_cons]
      omega
  have size := chars s.toList
  rwa [← Text.size_ofList, String.ofList_toList] at size

/-! ## String literals -/

/-- The text can stand between the quotes: it holds none of them, no backslash and no break. -/
def IsQuotable (quote : Char) (text : String) : Prop :=
  ∀ c ∈ text.toList, c ≠ quote ∧ c ≠ '\\' ∧ c ≠ '\n' ∧ c ≠ '\r'

instance (quote : Char) (text : String) : Decidable (IsQuotable quote text) :=
  List.decidableBAll _ text.toList

theorem stringEnd?_append {quote : Char} (noBackslash : quote ≠ '\\') {cs : List Char}
    (quotable : ∀ c ∈ cs, c ≠ quote ∧ c ≠ '\\' ∧ c ≠ '\n' ∧ c ≠ '\r') (rest : List Char)
    {fuel : Nat} (enough : cs.length < fuel) (offset : Nat) :
    Token.stringEnd? quote fuel (cs ++ quote :: rest) offset =
      some (rest, offset + Text.byteLength cs + 1) := by
  induction cs generalizing fuel offset with
  | nil =>
    obtain ⟨fuel, rfl⟩ := Nat.exists_eq_succ_of_ne_zero (Nat.ne_of_gt enough)
    rw [List.nil_append, Token.stringEnd?, if_pos (beq_self_eq_true quote)]
    · rfl
    all_goals
      intros
      contradiction
  | cons c cs ih =>
    rw [List.forall_mem_cons] at quotable
    obtain ⟨⟨noQuote, plain, noFeed, noReturn⟩, later⟩ := quotable
    cases fuel with
    | zero => cases enough
    | succ fuel =>
      rw [List.cons_append, Token.stringEnd?, if_neg (by simpa using noQuote),
        if_neg (by simp [noFeed, noReturn]), ih later (Nat.lt_of_succ_lt_succ enough),
        Text.byteLength_cons]
      · simp only [Nat.add_assoc]
      all_goals
        intros
        contradiction

theorem lexeme_string {quote : Char} (isQuote : quote = '\'' ∨ quote = '"') {text : String}
    (quotable : IsQuotable quote text) (rest : List Char) {bound : Nat}
    (enough : text.toList.length < bound) (offset : Nat) :
    Token.lexeme bound (quote :: (text.toList ++ quote :: rest)) offset =
      ⟨.string, rest, offset + (text.utf8ByteSize + 2)⟩ := by
  have noBackslash : quote ≠ '\\' := by rcases isQuote with rfl | rfl <;> decide
  have size : Text.byteLength text.toList = text.utf8ByteSize := by
    rw [← Text.size_ofList, String.ofList_toList]
  have ends := stringEnd?_append noBackslash quotable rest enough (offset + 1)
  have stop : offset + 1 + text.utf8ByteSize + 1 = offset + (text.utf8ByteSize + 2) := by omega
  rw [size, stop] at ends
  have noName : (Token.startsName quote || quote == '\\') = false := by
    rcases isQuote with rfl | rfl <;> decide
  have noNumber : (quote.isDigit ||
      (quote == '.' && (text.toList ++ quote :: rest).head?.any Char.isDigit)) = false := by
    rcases isQuote with rfl | rfl <;> rfl
  have opens : (quote == '\'' || quote == '"') = true := by
    rcases isQuote with rfl | rfl <;> rfl
  rw [Token.lexeme, noName, noNumber, opens, ends]
  rfl

/-! ## Tokens behind spaces -/

/-- The characters begin with no space and no comment. -/
def StartsToken (cs : List Char) : Prop :=
  ∀ c ∈ cs.head?, Token.isSpace c = false ∧ c ≠ '/'

theorem startsToken_nil : StartsToken [] := by
  intro c none
  cases none

theorem startsToken_cons {c : Char} (h : Token.isSpace c = false ∧ c ≠ '/') (cs : List Char) :
    StartsToken (c :: cs) := by
  rintro _ ⟨⟩
  exact h

theorem startsToken_name {name : String} (isName : Config.isName name = true) (rest : List Char) :
    StartsToken (name.toList ++ rest) := by
  obtain ⟨c, cs, chars, -, plain⟩ := exists_chars_of_isName isName
  rw [chars]
  rintro _ ⟨⟩
  have facts := plain_of_isPlain (plain c List.mem_cons_self)
  exact ⟨facts.noSpace, facts.noSlash⟩

theorem skipSpaces_append (spaces : Nat) {cs : List Char} (starts : StartsToken cs) (offset : Nat) :
    Token.skipSpaces (List.replicate spaces ' ' ++ cs) offset = (cs, offset + spaces) := by
  induction spaces generalizing offset with
  | zero =>
    cases cs with
    | nil => rfl
    | cons c cs =>
      rw [List.replicate_zero, List.nil_append, Token.skipSpaces, (starts c rfl).1]
      rfl
  | succ spaces ih =>
    rw [List.replicate_succ, List.cons_append, Token.skipSpaces, if_pos (by decide), ih]
    congr 1
    rw [Nat.add_assoc, Nat.add_comm spaces]
    rfl

theorem skipGap_append (spaces : Nat) {cs : List Char} (starts : StartsToken cs) {bound : Nat}
    (some : bound ≠ 0) (offset : Nat) :
    Token.skipGap bound (List.replicate spaces ' ' ++ cs) offset = ([], cs, offset + spaces) := by
  obtain ⟨bound, rfl⟩ := Nat.exists_eq_succ_of_ne_zero some
  have none : Token.comment? cs (offset + spaces) = Option.none := by
    rw [Token.comment?]
    all_goals
      rintro rest rfl
      exact (starts '/' rfl).2 rfl
  rw [Token.skipGap, skipSpaces_append spaces starts]
  simp only [none]

@[simp] theorem Cursor.resume_tailStart (language : Language) (bound : Nat) (passed : List Span)
    (tail : List Char) (tailStart : Nat) :
    (Cursor.resume language bound passed tail tailStart).tailStart = tailStart := rfl

@[simp] theorem Cursor.resume_bound (language : Language) (bound : Nat) (passed : List Span)
    (tail : List Char) (tailStart : Nat) :
    (Cursor.resume language bound passed tail tailStart).bound = bound := rfl

theorem Cursor.ofText_tailStart (language : Language) (text : String) :
    (Cursor.ofText language text).tailStart = 0 := by
  rw [ofText, resume_tailStart]

theorem Cursor.ofText_bound (language : Language) (text : String) :
    (Cursor.ofText language text).bound ≠ 0 := by
  rw [ofText, resume_bound]
  exact Nat.succ_ne_zero _

/-- The next token of a cursor, its place, and the cursor behind it. -/
structure Cursor.Meets (c : Cursor) (t : Token) (start stop : Nat) (d : Cursor) : Prop where
  token : c.token = t
  start : c.start = start
  stop : c.stop = stop
  advance : c.advance = d

section

variable {language : Language} {bound offset : Nat} {passed : List Span}

theorem meets_lexeme (spaces : Nat) {cs rest : List Char} {t : Token} {stop : Nat}
    (starts : StartsToken cs) (some : bound ≠ 0)
    (lexeme : Token.lexeme bound cs (offset + spaces) = ⟨t, rest, stop⟩) :
    (Cursor.resume language bound passed (List.replicate spaces ' ' ++ cs) offset).Meets t
      (offset + spaces) stop (.resume language bound passed rest stop) := by
  have gap := skipGap_append spaces starts some offset
  rw [Cursor.resume, gap]
  simp only [lexeme]
  exact ⟨rfl, rfl, rfl, rfl⟩

theorem meets_name (spaces : Nat) (name : String) (isName : Config.isName name = true)
    {rest : List Char} (ends : EndsWord rest) (enough : name.toList.length ≤ bound) :
    (Cursor.resume language bound passed
        (List.replicate spaces ' ' ++ (name.toList ++ rest)) offset).Meets (.word name)
      (offset + spaces) (offset + spaces + name.utf8ByteSize)
      (.resume language bound passed rest (offset + spaces + name.utf8ByteSize)) := by
  refine meets_lexeme spaces (startsToken_name isName rest) ?_
    (lexeme_name isName ends enough (offset + spaces))
  obtain ⟨c, cs, chars, -⟩ := exists_chars_of_isName isName
  rintro rfl
  rw [chars] at enough
  cases enough

end

/-- The tokens stand one behind the other from the first cursor on up to the second one. -/
def Cursor.Row (c : Cursor) : List Token → Cursor → Prop
  | [], d => c = d
  | t :: ts, d => c.token = t ∧ c.advance.Row ts d

namespace Cursor.Meets

variable {c d e : Cursor} {t : Token} {start stop : Nat}

theorem tokenSpan (h : c.Meets t start stop d) : c.tokenSpan = ⟨start, stop⟩ := by
  rw [Cursor.tokenSpan, h.start, h.stop]

theorem tailStart_eq (h : c.Meets t start stop d) : d.tailStart = stop := by
  rw [← h.advance, ← h.stop]
  rfl

theorem bound_eq (h : c.Meets t start stop d) : d.bound = c.bound := by
  rw [← h.advance]
  rfl

theorem one (h : c.Meets t start stop d) : c.Row [t] d := ⟨h.token, h.advance⟩

theorem row (first : c.Meets t start stop d) {ts : List Token} (later : d.Row ts e) :
    c.Row (t :: ts) e :=
  ⟨first.token, first.advance ▸ later⟩

end Cursor.Meets

end ThemeMigration.Script
