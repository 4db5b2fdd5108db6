import ThemeMigration.Json.Token

/-!
# Spellings of tokens

What may stand for a token in a strict text.  A string has many spellings, since each of its
characters may be escaped or not, and a number is known by its spelling.  A token is read from a
text exactly if one of its spellings stands at the head of it, and a number only if nothing follows
that would go on with it.
-/

namespace ThemeMigration.Json.Token

/-! ## Strings -/

/-- How a character may be written inside quotes. -/
inductive CharSpelling : Char → List Char → Prop where
  | plain {c : Char} (noQuote : c ≠ '"') (noBackslash : c ≠ '\\') (noControl : 32 ≤ c.toNat) :
      CharSpelling c [c]
  | short {e c : Char} (escape : simpleEscape? e = some c) : CharSpelling c ['\\', e]
  | code {a b c d : Char} {n : Nat} (quad : hexQuad? a b c d = some n)
      (notLow : isLowSurrogate n = false) (notHigh : isHighSurrogate n = false) :
      CharSpelling (Char.ofNat n) ['\\', 'u', a, b, c, d]
  /-- Two halves for a character beyond sixteen bits. -/
  | halves {a b c d e f g h : Char} {n m : Nat} (first : hexQuad? a b c d = some n)
      (second : hexQuad? e f g h = some m) (high : isHighSurrogate n = true)
      (low : isLowSurrogate m = true) :
      CharSpelling (Char.ofNat (0x10000 + (n - 0xD800) * 0x400 + (m - 0xDC00)))
        ['\\', 'u', a, b, c, d, '\\', 'u', e, f, g, h]

/-- How a text may be written inside quotes. -/
inductive TextSpelling : List Char → List Char → Prop where
  | nil : TextSpelling [] []
  | cons {c : Char} {cs text body : List Char} (head : CharSpelling c cs)
      (rest : TextSpelling text body) : TextSpelling (c :: text) (cs ++ body)

theorem not_isLowSurrogate {n : Nat} (high : isHighSurrogate n = true) :
    isLowSurrogate n = false := by
  simp only [isHighSurrogate, isLowSurrogate, Bool.and_eq_true, decide_eq_true_eq,
    Bool.and_eq_false_iff, decide_eq_false_iff_not] at high ⊢
  omega

theorem stringBody?_of_char {c : Char} {cs : List Char} (h : CharSpelling c cs)
    (rest : List Char) :
    stringBody? (cs ++ rest) = (stringBody? rest).map fun p => (c :: p.1, p.2) := by
  cases h with
  | plain noQuote noBackslash noControl =>
    rw [List.singleton_append, stringBody?]
    · simp [noBackslash, Nat.not_lt.2 noControl]
    all_goals simp [noQuote, noBackslash]
  | short escape =>
    rw [List.cons_append, List.singleton_append, stringBody?]
    · simp [escape]
    · rintro a b c d rest rfl
      cases escape
  | code quad notLow notHigh => simp [stringBody?, quad, notLow, notHigh]
  | halves first second high low =>
    simp [stringBody?, first, second, high, low, not_isLowSurrogate high]

/-- A body that is read behind the spelling of a character. -/
theorem exists_body_of_map {c : Char} {cs rest text after : List Char} (head : CharSpelling c cs)
    (read : (stringBody? rest).map (fun p => (c :: p.1, p.2)) = some (text, after))
    (ih : ∀ {text}, stringBody? rest = some (text, after) →
      ∃ body, TextSpelling text body ∧ rest = body ++ '"' :: after) :
    ∃ body, TextSpelling text body ∧ cs ++ rest = body ++ '"' :: after := by
  rcases Option.map_eq_some_iff.1 read with ⟨⟨text', after'⟩, found, same⟩
  obtain ⟨rfl, rfl⟩ := Prod.mk.inj same
  rcases ih found with ⟨body, spelled, rfl⟩
  exact ⟨cs ++ body, .cons head spelled, (List.append_assoc ..).symm⟩

theorem exists_body_of_stringBody? {cs text after : List Char}
    (read : stringBody? cs = some (text, after)) :
    ∃ body, TextSpelling text body ∧ cs = body ++ '"' :: after := by
  fun_induction stringBody? cs generalizing text with
  | case1 => cases read
  | case2 rest =>
    cases read
    exact ⟨[], .nil, rfl⟩
  | case3 => cases read
  | case4 => cases read
  | case5 => cases read
  | case6 a b c d n quad notLow high e f g h rest m quad' low code =>
    rename_i ih
    exact exists_body_of_map (.halves quad quad' high low) read ih
  | case7 => cases read
  | case8 => cases read
  | case9 a b c d rest n quad notLow notHigh ih =>
    exact exists_body_of_map (.code quad (by simpa using notLow) (by simpa using notHigh)) read ih
  | case10 => cases read
  | case11 e rest _ c escape ih => exact exists_body_of_map (.short escape) read ih
  | case12 => cases read
  | case13 c rest noQuote _ _ allowed ih =>
    simp only [Bool.or_eq_true, beq_iff_eq, decide_eq_true_eq, not_or, Nat.not_lt] at allowed
    exact exists_body_of_map (.plain noQuote allowed.1 allowed.2) read ih

theorem stringBody?_eq_some_iff {cs text after : List Char} :
    stringBody? cs = some (text, after) ↔
      ∃ body, TextSpelling text body ∧ cs = body ++ '"' :: after := by
  constructor
  · exact exists_body_of_stringBody?
  · rintro ⟨body, spelled, rfl⟩
    induction spelled with
    | nil => rfl
    | cons head _ ih => rw [List.append_assoc, stringBody?_of_char head, ih, Option.map_some]

/-! ## Numbers -/

def IsDigits (ds : List Char) : Prop := ds ≠ [] ∧ ∀ d ∈ ds, d.isDigit = true

/-- The digits in front of a point: a zero alone, or digits that begin with another one. -/
def IsWhole (ds : List Char) : Prop := ds = ['0'] ∨ IsDigits ds ∧ ds.head? ≠ some '0'

/-- How the digits behind a point are written, if there is one. -/
inductive FractionSpelling : List Char → List Char → Prop where
  | none : FractionSpelling [] []
  | some {ds : List Char} (digits : IsDigits ds) : FractionSpelling ds ('.' :: ds)

/-- How a power of ten is written, if there is one, and whether it is negative. -/
inductive ExponentSpelling : Bool → List Char → List Char → Prop where
  | none : ExponentSpelling false [] []
  | plain {e : Char} {ds : List Char} (mark : e = 'e' ∨ e = 'E') (digits : IsDigits ds) :
      ExponentSpelling false ds (e :: ds)
  | positive {e : Char} {ds : List Char} (mark : e = 'e' ∨ e = 'E') (digits : IsDigits ds) :
      ExponentSpelling false ds (e :: '+' :: ds)
  | negative {e : Char} {ds : List Char} (mark : e = 'e' ∨ e = 'E') (digits : IsDigits ds) :
      ExponentSpelling true ds (e :: '-' :: ds)

/-- Whether a double is near enough to a number of the given digits. -/
def isInRange (whole part : List Char) (negative : Bool) (power : List Char) : Bool :=
  isFinite (decimal (whole ++ part)) (if negative then 0 else decimal power)
    (part.length + if negative then decimal power else 0)

/-- A decimal number without zeros in front of other digits. -/
inductive NumberSpelling : List Char → Prop where
  | mk {sign whole part point power mark : List Char} {negative : Bool}
      (signed : sign = [] ∨ sign = ['-']) (isWhole : IsWhole whole)
      (fraction : FractionSpelling part point) (exponent : ExponentSpelling negative power mark)
      (finite : isInRange whole part negative power = true) :
      NumberSpelling (sign ++ whole ++ point ++ mark)

/-- A character that goes on with a number. -/
def goesOn (c : Char) : Bool := c.isDigit || c == '.' || c == 'e' || c == 'E'

/-- Nothing in front of the text would go on in it as a number. -/
def Ends (rest : List Char) : Prop := ∀ c ∈ rest.head?, goesOn c = false

/-- A run of characters of one kind ends where another kind begins. -/
theorem span_append {p : Char → Bool} {cs rest : List Char} (all : ∀ c ∈ cs, p c = true)
    (ends : ∀ c ∈ rest.head?, p c = false) :
    (cs ++ rest).takeWhile p = cs ∧ (cs ++ rest).dropWhile p = rest := by
  have stop : rest.takeWhile p = [] ∧ rest.dropWhile p = rest := by
    cases rest with
    | nil => exact ⟨rfl, rfl⟩
    | cons c rest =>
      have other : ¬p c = true := by simp [ends c rfl]
      exact ⟨List.takeWhile_cons_of_neg other, List.dropWhile_cons_of_neg other⟩
  rw [List.takeWhile_append_of_pos all, List.dropWhile_append_of_pos all, stop.1, stop.2,
    List.append_nil]
  exact ⟨rfl, rfl⟩

theorem digits_append {ds rest : List Char} (h : ∀ d ∈ ds, d.isDigit = true)
    (ends : ∀ c ∈ rest.head?, c.isDigit = false) : digits (ds ++ rest) = (ds, rest) := by
  rw [digits, (span_append h ends).1, (span_append h ends).2]

theorem isDigit_of_mem_digits (cs : List Char) : ∀ d ∈ (digits cs).1, d.isDigit = true :=
  List.all_eq_true.1 List.all_takeWhile

theorem digits_split (cs : List Char) : (digits cs).1 ++ (digits cs).2 = cs :=
  List.takeWhile_append_dropWhile

/-- A run of digits, if there is one, and what follows. -/
def someDigits? (cs : List Char) : Option (List Char × List Char) :=
  if (digits cs).1.isEmpty then none else some (digits cs)

theorem someDigits?_append {ds rest : List Char} (h : IsDigits ds)
    (ends : ∀ c ∈ rest.head?, c.isDigit = false) : someDigits? (ds ++ rest) = some (ds, rest) := by
  rw [someDigits?, digits_append h.2 ends, if_neg]
  simpa using h.1

theorem isDigits_of_someDigits? {cs ds rest : List Char} (h : someDigits? cs = some (ds, rest)) :
    IsDigits ds ∧ cs = ds ++ rest := by
  rw [someDigits?] at h
  split at h
  · cases h
  · rename_i some
    have pair := Option.some.inj h
    have split := digits_split cs
    have all := isDigit_of_mem_digits cs
    rw [pair] at split all some
    exact ⟨⟨by simpa using some, all⟩, split.symm⟩

theorem head?_append {ds rest : List Char} (some : ds ≠ []) : (ds ++ rest).head? = ds.head? := by
  cases ds with
  | nil => exact absurd rfl some
  | cons d ds => rfl

theorem integerPart?_of_ne {cs : List Char} (h : cs.head? ≠ some '0') :
    integerPart? cs = someDigits? cs := by
  rw [integerPart?]
  · rfl
  · rintro rest rfl
    exact h rfl

theorem fraction?_point (cs : List Char) : fraction? ('.' :: cs) = someDigits? cs := rfl

theorem integerPart?_append {ds rest : List Char} (h : IsWhole ds)
    (ends : ∀ c ∈ rest.head?, c.isDigit = false) : integerPart? (ds ++ rest) = some (ds, rest) := by
  rcases h with rfl | ⟨isDigits, first⟩
  · rfl
  · rw [integerPart?_of_ne, someDigits?_append isDigits ends]
    rwa [head?_append isDigits.1]

theorem isWhole_of_integerPart? {cs ds rest : List Char} (h : integerPart? cs = some (ds, rest)) :
    IsWhole ds ∧ cs = ds ++ rest := by
  by_cases first : cs.head? = some '0'
  · rcases List.head?_eq_some_iff.1 first with ⟨after, rfl⟩
    cases h
    exact ⟨.inl rfl, rfl⟩
  · rw [integerPart?_of_ne first] at h
    rcases isDigits_of_someDigits? h with ⟨isDigits, rfl⟩
    rw [head?_append isDigits.1] at first
    exact ⟨.inr ⟨isDigits, first⟩, rfl⟩

theorem fraction?_append {ds point rest : List Char} (h : FractionSpelling ds point)
    (ends : ∀ c ∈ rest.head?, c.isDigit = false ∧ c ≠ '.') :
    fraction? (point ++ rest) = some (ds, rest) := by
  cases h with
  | none =>
    rw [List.nil_append, fraction?]
    rintro rest rfl
    exact (ends '.' rfl).2 rfl
  | some isDigits =>
    rw [List.cons_append, fraction?_point]
    exact someDigits?_append isDigits fun c member => (ends c member).1

theorem fractionSpelling_of_fraction? {cs ds rest : List Char}
    (h : fraction? cs = some (ds, rest)) :
    ∃ point, FractionSpelling ds point ∧ cs = point ++ rest := by
  by_cases point : cs.head? = some '.'
  · rcases List.head?_eq_some_iff.1 point with ⟨after, rfl⟩
    rw [fraction?_point] at h
    rcases isDigits_of_someDigits? h with ⟨isDigits, rfl⟩
    exact ⟨_, .some isDigits, rfl⟩
  · rw [fraction?] at h
    · cases h
      exact ⟨[], .none, rfl⟩
    · rintro rest rfl
      exact point rfl

section

variable {e : Char} {cs : List Char}

-- its equations are made here once, in front of the lemmas that rewrite by them
attribute [local simp] exponent?

theorem exponent?_negative (mark : e = 'e' ∨ e = 'E') :
    exponent? (e :: '-' :: cs) =
      (someDigits? cs).map fun p => (e :: '-' :: p.1, true, p.1, p.2) := by
  rw [exponent?, if_pos (by simpa using mark), someDigits?]
  dsimp only
  split <;> rfl

theorem exponent?_positive (mark : e = 'e' ∨ e = 'E') :
    exponent? (e :: '+' :: cs) =
      (someDigits? cs).map fun p => (e :: '+' :: p.1, false, p.1, p.2) := by
  rw [exponent?, if_pos (by simpa using mark), someDigits?]
  dsimp only
  split <;> rfl

theorem exponent?_plain (mark : e = 'e' ∨ e = 'E') (minus : cs.head? ≠ some '-')
    (plus : cs.head? ≠ some '+') :
    exponent? (e :: cs) = (someDigits? cs).map fun p => (e :: p.1, false, p.1, p.2) := by
  rw [exponent?, if_pos (by simpa using mark), someDigits?]
  · dsimp only
    split <;> rfl
  · rintro cs rfl
    exact minus rfl
  · rintro cs rfl
    exact plus rfl

theorem exponent?_absent (ends : ∀ c ∈ cs.head?, c ≠ 'e' ∧ c ≠ 'E') :
    exponent? cs = some ([], false, [], cs) := by
  cases cs with
  | nil => rfl
  | cons c cs => simp [ends c rfl]

end

theorem Ends.facts {rest : List Char} (h : Ends rest) :
    ∀ c ∈ rest.head?, c.isDigit = false ∧ c ≠ '.' ∧ c ≠ 'e' ∧ c ≠ 'E' := by
  simpa only [Ends, goesOn, Bool.or_eq_false_iff, beq_eq_false_iff_ne, and_assoc] using h

/-- A digit is none of the signs and marks of a number. -/
theorem ne_of_isDigit {d c : Char} (h : d.isDigit = true) (other : c.isDigit = false) : d ≠ c := by
  rintro rfl
  rw [h] at other
  cases other

theorem IsDigits.head?_ne {ds rest : List Char} (h : IsDigits ds) {c : Char}
    (other : c.isDigit = false) : (ds ++ rest).head? ≠ some c := by
  rcases List.exists_cons_of_ne_nil h.1 with ⟨d, ds, rfl⟩
  intro same
  exact ne_of_isDigit (h.2 d (List.mem_cons_self ..)) other (Option.some.inj same)

theorem exponent?_append {negative : Bool} {power mark rest : List Char}
    (h : ExponentSpelling negative power mark) (ends : Ends rest) :
    exponent? (mark ++ rest) = some (mark, negative, power, rest) := by
  have noDigit : ∀ c ∈ rest.head?, c.isDigit = false := fun c member => (ends.facts c member).1
  cases h with
  | none => exact exponent?_absent fun c member => (ends.facts c member).2.2
  | plain mark isDigits =>
    rw [List.cons_append, exponent?_plain mark (isDigits.head?_ne rfl) (isDigits.head?_ne rfl),
      someDigits?_append isDigits noDigit, Option.map_some]
  | positive mark isDigits =>
    rw [List.cons_append, List.cons_append, exponent?_positive mark,
      someDigits?_append isDigits noDigit, Option.map_some]
  | negative mark isDigits =>
    rw [List.cons_append, List.cons_append, exponent?_negative mark,
      someDigits?_append isDigits noDigit, Option.map_some]

theorem exponentSpelling_of_exponent? {cs mark power rest : List Char} {negative : Bool}
    (h : exponent? cs = some (mark, negative, power, rest)) :
    ExponentSpelling negative power mark ∧ cs = mark ++ rest := by
  by_cases marked : ∀ c ∈ cs.head?, c ≠ 'e' ∧ c ≠ 'E'
  · rw [exponent?_absent marked] at h
    cases h
    exact ⟨.none, rfl⟩
  cases cs with
  | nil => exact absurd nofun marked
  | cons e cs =>
    have isMark : e = 'e' ∨ e = 'E' := by simpa [Classical.or_iff_not_imp_left] using marked
    by_cases minus : cs.head? = some '-'
    · rcases List.head?_eq_some_iff.1 minus with ⟨after, rfl⟩
      rw [exponent?_negative isMark] at h
      rcases Option.map_eq_some_iff.1 h with ⟨⟨ds, rest⟩, found, same⟩
      cases same
      rcases isDigits_of_someDigits? found with ⟨isDigits, rfl⟩
      exact ⟨.negative isMark isDigits, rfl⟩
    by_cases plus : cs.head? = some '+'
    · rcases List.head?_eq_some_iff.1 plus with ⟨after, rfl⟩
      rw [exponent?_positive isMark] at h
      rcases Option.map_eq_some_iff.1 h with ⟨⟨ds, rest⟩, found, same⟩
      cases same
      rcases isDigits_of_someDigits? found with ⟨isDigits, rfl⟩
      exact ⟨.positive isMark isDigits, rfl⟩
    rw [exponent?_plain isMark minus plus] at h
    rcases Option.map_eq_some_iff.1 h with ⟨⟨ds, rest⟩, found, same⟩
    cases same
    rcases isDigits_of_someDigits? found with ⟨isDigits, rfl⟩
    exact ⟨.plain isMark isDigits, rfl⟩

/-! ### The number as a whole -/

/-- The sign of a number and what follows. -/
def splitSign : List Char → List Char × List Char
  | '-' :: cs => (['-'], cs)
  | cs => ([], cs)

/-- The point of a number with its digits. -/
def pointed (part : List Char) : List Char := if part.isEmpty then [] else '.' :: part

theorem number?_eq_some_iff {cs text rest : List Char} :
    number? cs = some (text, rest) ↔
      ∃ whole cs₁ part cs₂ mark negative power,
        integerPart? (splitSign cs).2 = some (whole, cs₁) ∧ fraction? cs₁ = some (part, cs₂) ∧
        exponent? cs₂ = some (mark, negative, power, rest) ∧
        isInRange whole part negative power = true ∧
        (splitSign cs).1 ++ whole ++ pointed part ++ mark = text := by
  rw [number?.eq_def]
  change ((integerPart? (splitSign cs).2).bind fun p => (fraction? p.2).bind fun q =>
    (exponent? q.2).bind fun r =>
      if isInRange p.1 q.1 r.2.1 r.2.2.1 = true then
        some ((splitSign cs).1 ++ p.1 ++ pointed q.1 ++ r.1, r.2.2.2)
      else none) = some (text, rest) ↔ _
  simp only [Option.bind_eq_some_iff, Prod.exists, Option.ite_none_right_eq_some,
    Option.some.injEq, Prod.mk.injEq]
  constructor
  · rintro ⟨whole, cs₁, first, part, cs₂, second, mark, negative, power, _, third, finite, same,
      rfl⟩
    exact ⟨whole, cs₁, part, cs₂, mark, negative, power, first, second, third, finite, same⟩
  · rintro ⟨whole, cs₁, part, cs₂, mark, negative, power, first, second, third, finite, same⟩
    exact ⟨whole, cs₁, first, part, cs₂, second, mark, negative, power, rest, third, finite, same,
      rfl⟩

theorem pointed_of_spelling {part point : List Char} (h : FractionSpelling part point) :
    pointed part = point := by
  cases h with
  | none => rfl
  | some isDigits => exact if_neg (by simpa using isDigits.1)

theorem splitSign_of_ne {cs : List Char} (h : cs.head? ≠ some '-') : splitSign cs = ([], cs) := by
  rw [splitSign]
  rintro cs rfl
  exact h rfl

theorem IsWhole.head?_ne {ds rest : List Char} (h : IsWhole ds) {c : Char}
    (other : c.isDigit = false) : (ds ++ rest).head? ≠ some c := by
  rcases h with rfl | ⟨isDigits, _⟩
  · intro same
    exact ne_of_isDigit (d := '0') rfl other (Option.some.inj same)
  · exact isDigits.head?_ne other

theorem splitSign_append {sign whole rest : List Char} (signed : sign = [] ∨ sign = ['-'])
    (isWhole : IsWhole whole) :
    splitSign (sign ++ (whole ++ rest)) = (sign, whole ++ rest) := by
  rcases signed with rfl | rfl
  · exact splitSign_of_ne (isWhole.head?_ne rfl)
  · rfl

theorem splitSign_spec (cs : List Char) :
    ((splitSign cs).1 = [] ∨ (splitSign cs).1 = ['-']) ∧
      cs = (splitSign cs).1 ++ (splitSign cs).2 := by
  by_cases minus : cs.head? = some '-'
  · rcases List.head?_eq_some_iff.1 minus with ⟨after, rfl⟩
    exact ⟨.inr rfl, rfl⟩
  · rw [splitSign_of_ne minus]
    exact ⟨.inl rfl, rfl⟩

/-- The mark of an exponent and what ends a number are no digits and no points. -/
theorem ends_fraction {negative : Bool} {power mark rest : List Char}
    (h : ExponentSpelling negative power mark) (ends : Ends rest) :
    ∀ c ∈ (mark ++ rest).head?, c.isDigit = false ∧ c ≠ '.' := by
  have letter : ∀ {e : Char}, e = 'e' ∨ e = 'E' → e.isDigit = false ∧ e ≠ '.' := by
    rintro e (rfl | rfl) <;> decide
  cases h with
  | none => exact fun c member => ⟨(ends.facts c member).1, (ends.facts c member).2.1⟩
  | plain mark _ => exact fun c member => Option.some.inj member ▸ letter mark
  | positive mark _ => exact fun c member => Option.some.inj member ▸ letter mark
  | negative mark _ => exact fun c member => Option.some.inj member ▸ letter mark

theorem ends_whole {part point rest : List Char} (h : FractionSpelling part point)
    (ends : ∀ c ∈ rest.head?, c.isDigit = false ∧ c ≠ '.') :
    ∀ c ∈ (point ++ rest).head?, c.isDigit = false := by
  cases h with
  | none => exact fun c member => (ends c member).1
  | some _ =>
    intro c member
    obtain rfl := Option.some.inj member
    rfl

theorem number?_append {text rest : List Char} (h : NumberSpelling text) (ends : Ends rest) :
    number? (text ++ rest) = some (text, rest) := by
  cases h with
  | @mk sign whole part point power mark negative signed isWhole fraction exponent finite =>
    have afterPart := ends_fraction exponent ends
    have afterWhole := ends_whole fraction afterPart
    rw [number?_eq_some_iff, List.append_assoc, List.append_assoc, List.append_assoc,
      splitSign_append signed isWhole]
    refine ⟨whole, _, part, _, mark, negative, power, integerPart?_append isWhole afterWhole,
      fraction?_append fraction afterPart, exponent?_append exponent ends, finite, ?_⟩
    rw [pointed_of_spelling fraction, List.append_assoc, List.append_assoc]

theorem numberSpelling_of_number? {cs text rest : List Char} (h : number? cs = some (text, rest)) :
    NumberSpelling text ∧ cs = text ++ rest := by
  rcases number?_eq_some_iff.1 h with ⟨whole, cs₁, part, cs₂, mark, negative, power, first, second,
    third, finite, rfl⟩
  rcases splitSign_spec cs with ⟨signed, split⟩
  rcases isWhole_of_integerPart? first with ⟨isWhole, rest₁⟩
  rcases fractionSpelling_of_fraction? second with ⟨point, fraction, rfl⟩
  rcases exponentSpelling_of_exponent? third with ⟨exponent, rfl⟩
  rw [pointed_of_spelling fraction]
  refine ⟨.mk signed isWhole fraction exponent finite, ?_⟩
  rw [List.append_assoc, List.append_assoc, List.append_assoc, ← rest₁]
  exact split

/-! ## Tokens -/

/-- How a token may be written. -/
inductive Spelling : Token → List Char → Prop where
  | braceOpen : Spelling .braceOpen ['\x7b']
  | braceClose : Spelling .braceClose ['\x7d']
  | bracketOpen : Spelling .bracketOpen ['[']
  | bracketClose : Spelling .bracketClose [']']
  | colon : Spelling .colon [':']
  | comma : Spelling .comma [',']
  | null : Spelling .null ['n', 'u', 'l', 'l']
  | true : Spelling (.bool true) ['t', 'r', 'u', 'e']
  | false : Spelling (.bool false) ['f', 'a', 'l', 's', 'e']
  | number {text : List Char} (spelled : NumberSpelling text) :
      Spelling (.number (String.ofList text)) text
  | string {text body : List Char} (spelled : TextSpelling text body) :
      Spelling (.string (String.ofList text)) ('"' :: body ++ ['"'])

/-- Whether a token is a number, which has to end somewhere. -/
def isNumber : Token → Bool
  | .number _ => true
  | _ => false

theorem NumberSpelling.head {text : List Char} (h : NumberSpelling text) (rest : List Char) :
    ∃ c cs, text ++ rest = c :: cs ∧ (c.isDigit = true ∨ c = '-') := by
  cases h with
  | mk signed isWhole _ _ _ =>
    rcases signed with rfl | rfl
    · rcases isWhole with rfl | ⟨isDigits, _⟩
      · exact ⟨'0', _, rfl, .inl rfl⟩
      · rcases List.exists_cons_of_ne_nil isDigits.1 with ⟨d, ds, rfl⟩
        exact ⟨d, _, rfl, .inl (isDigits.2 d (List.mem_cons_self ..))⟩
    · exact ⟨'-', _, rfl, .inr rfl⟩

theorem first?_of_number {c : Char} {cs : List Char} (h : c.isDigit = true ∨ c = '-') :
    first? (c :: cs) = (number? (c :: cs)).map fun p => (number (String.ofList p.1), p.2) := by
  rw [first?]
  all_goals
    rintro rest same
    cases same
    revert h
    decide

theorem first?_append {t : Token} {text rest : List Char} (h : Spelling t text)
    (ends : t.isNumber = true → Ends rest) : first? (text ++ rest) = some (t, rest) := by
  cases h with
  | number spelled =>
    rcases spelled.head rest with ⟨c, cs, whole, first⟩
    rw [whole, first?_of_number first, ← whole, number?_append spelled (ends rfl), Option.map_some]
  | @string text body spelled =>
    have read : stringBody? (body ++ '"' :: rest) = some (text, rest) :=
      stringBody?_eq_some_iff.2 ⟨body, spelled, rfl⟩
    rw [List.cons_append, List.cons_append, List.append_assoc, List.singleton_append]
    change (stringBody? (body ++ '"' :: rest)).map _ = _
    rw [read, Option.map_some]
  | _ => rfl

theorem spelling_of_first? {t : Token} {cs rest : List Char} (h : first? cs = some (t, rest)) :
    ∃ text, Spelling t text ∧ cs = text ++ rest := by
  unfold first? at h
  split at h
  · cases h; exact ⟨_, .braceOpen, rfl⟩
  · cases h; exact ⟨_, .braceClose, rfl⟩
  · cases h; exact ⟨_, .bracketOpen, rfl⟩
  · cases h; exact ⟨_, .bracketClose, rfl⟩
  · cases h; exact ⟨_, .colon, rfl⟩
  · cases h; exact ⟨_, .comma, rfl⟩
  · rcases Option.map_eq_some_iff.1 h with ⟨⟨text, after⟩, read, same⟩
    cases same
    rcases exists_body_of_stringBody? read with ⟨body, spelled, rfl⟩
    exact ⟨_, .string spelled, by simp⟩
  · cases h; exact ⟨_, .null, rfl⟩
  · cases h; exact ⟨_, .true, rfl⟩
  · cases h; exact ⟨_, .false, rfl⟩
  · rcases Option.map_eq_some_iff.1 h with ⟨⟨text, after⟩, read, same⟩
    cases same
    rcases numberSpelling_of_number? read with ⟨spelled, rfl⟩
    exact ⟨text, .number spelled, rfl⟩

end ThemeMigration.Json.Token
