import ThemeMigration.Proofs.Json.Spelling
import ThemeMigration.Proofs.Toml.Strings

/-!
# Written keys and numbers

A key is read from what is written for it, in a path as well, and so is a natural number of no more
than 63 bits.  What is written for a number is no float, no date and no time.
-/

namespace ThemeMigration.Toml

/-! ## Keys -/

/-- A key is bare, with at least one character, or in quotes. -/
theorem writeKey_cases (key : String) :
    (writeKey key = key.toList ∧ key.toList ≠ [] ∧ ∀ c ∈ key.toList, isBareKeyChar c = true) ∨
      writeKey key = quoted key.toList := by
  rw [writeKey]
  split
  · rename_i bare
    simp only [Bool.and_eq_true, List.all_eq_true, Bool.not_eq_true'] at bare
    refine .inl ⟨rfl, fun empty => ?_, bare.1⟩
    rw [String.toList_eq_nil_iff.1 empty] at bare
    exact absurd bare.2 nofun
  · exact .inr rfl

theorem exists_writeKey_eq (key : String) :
    ∃ c cs, writeKey key = c :: cs ∧ (isBareKeyChar c = true ∨ c = '"') := by
  rcases writeKey_cases key with ⟨written, nonempty, bare⟩ | written
  · rcases List.exists_cons_of_ne_nil nonempty with ⟨c, cs, chars⟩
    exact ⟨c, cs, written.trans chars, .inl (bare c (chars ▸ List.mem_cons_self ..))⟩
  · exact ⟨'"', _, written, .inr rfl⟩

/-- The text does not go on with a bare key. -/
def EndsKey (rest : List Char) : Prop := ∀ c ∈ rest.head?, isBareKeyChar c = false

theorem simpleKey?_writeKey (key : String) {rest : List Char} (ends : EndsKey rest) :
    simpleKey? (writeKey key ++ rest) = some (key, rest) := by
  have whole : String.ofList key.toList = key := String.ofList_toList
  rcases writeKey_cases key with ⟨written, nonempty, bare⟩ | written
  · rcases Json.Token.span_append bare ends with ⟨taken, left⟩
    rw [written, simpleKey?, taken, left]
    split
    · exact absurd ‹_› nonempty
    · rw [whole]
  · have body : quoted key.toList ++ rest =
        '"' :: (key.toList.flatMap (escapeChar false) ++ '"' :: rest) := by
      simp [quoted]
    have noBare : (quoted key.toList ++ rest).takeWhile isBareKeyChar = [] := rfl
    rw [written, simpleKey?, noBare, body, shortString?, basicBody?_quoted, Option.map_some, whole]

theorem skipBlanks_writeKey (key : String) (rest : List Char) :
    skipBlanks (writeKey key ++ rest) = writeKey key ++ rest := by
  rcases exists_writeKey_eq key with ⟨c, cs, whole, first⟩
  rw [whole, List.cons_append, skipBlanks, List.dropWhile_cons_of_neg]
  intro blank
  simp only [isBlank, Bool.or_eq_true, beq_iff_eq] at blank
  rcases blank with rfl | rfl <;> rcases first with first | first <;> cases first

theorem writePath_singleton (key : String) : writePath [key] = writeKey key := by
  simp [writePath]

theorem writePath_cons_cons (key next : String) (path : List String) :
    writePath (key :: next :: path) = writeKey key ++ '.' :: writePath (next :: path) := by
  simp [writePath, List.intercalate_cons_cons]

/-- A path is read from what is written for it if neither a key nor a dot follows. -/
theorem keyPath?_writePath {path : List String} (nonempty : path ≠ []) {parts : Nat}
    (room : path.length ≤ parts) {rest : List Char} (ends : EndsKey rest)
    (noDot : (skipBlanks rest).head? ≠ some '.') :
    keyPath? parts (writePath path ++ rest) = some (path, skipBlanks rest) := by
  induction path generalizing parts with
  | nil => exact absurd rfl nonempty
  | cons key path ih =>
    rcases parts with _ | parts
    · exact absurd room (Nat.not_succ_le_zero _)
    cases path with
    | nil =>
      rw [writePath_singleton, keyPath?, skipBlanks_writeKey, simpleKey?_writeKey key ends]
      dsimp only
      split
      · rename_i dot
        rw [dot] at noDot
        exact absurd rfl noDot
      · rfl
    | cons next path =>
      have dot : EndsKey ('.' :: (writePath (next :: path) ++ rest)) := by
        intro c first
        obtain rfl := Option.some.inj first
        rfl
      have later := ih (List.cons_ne_nil _ _) (Nat.le_of_succ_le_succ room)
      rw [writePath_cons_cons, List.append_assoc, keyPath?, skipBlanks_writeKey, List.cons_append,
        simpleKey?_writeKey key dot]
      change (keyPath? parts (writePath (next :: path) ++ rest)).map _ = _
      rw [later, Option.map_some]

/-! ## Numbers -/

theorem decimal_toDigits (n : Nat) : Json.Token.decimal (Nat.toDigits 10 n) = n := by
  have step : (fun (n : Nat) (c : Char) => n * 10 + (c.toNat - 48)) =
      fun n c => 10 * n + (c.toNat - '0'.toNat) := by
    funext n c
    rw [Nat.mul_comm]
    rfl
  rw [Json.Token.decimal, step]
  exact Nat.ofDigitChars_toDigits (by decide) (by decide)

theorem isDigit_of_mem_toDigits {n : Nat} : ∀ c ∈ Nat.toDigits 10 n, c.isDigit = true :=
  fun _ member => Nat.isDigit_of_mem_toDigits (by decide) (by decide) member

/-- Only zero begins with a zero. -/
theorem toDigits_eq_zero_cons {n : Nat} {ds : List Char} (h : Nat.toDigits 10 n = '0' :: ds) :
    ds = [] := by
  induction n using Nat.strongRecOn generalizing ds with
  | ind n ih =>
    rw [Nat.toDigits_eq_if (by decide)] at h
    split at h
    · exact (List.cons.inj h).2.symm
    · rename_i large
      cases front : Nat.toDigits 10 (n / 10) with
      | nil => exact absurd front Nat.toDigits_ne_nil
      | cons c cs =>
        rw [front, List.cons_append] at h
        obtain ⟨rfl, _⟩ := List.cons.inj h
        obtain rfl := ih (n / 10) (Nat.div_lt_self (by omega) (by decide)) front
        have value := decimal_toDigits (n / 10)
        rw [front, show Json.Token.decimal ['0'] = 0 from rfl] at value
        omega

section

variable {ds : List Char} (nonempty : ds ≠ []) (all : ∀ d ∈ ds, d.isDigit = true)

include all

theorem not_mem_of_isDigit {c : Char} (other : c.isDigit = false) : c ∉ ds :=
  fun member => Json.Token.ne_of_isDigit (all c member) other rfl

theorem withoutUnderscores_of_digits : withoutUnderscores ds = ds := by
  refine List.filter_eq_self.2 fun d member => ?_
  simpa using Json.Token.ne_of_isDigit (all d member) (Eq.refl ('_'.isDigit))

include nonempty

theorem groupedDigits_of_digits : groupedDigits Char.isDigit ds = true := by
  induction ds with
  | nil => exact absurd rfl nonempty
  | cons d ds ih =>
    rcases List.forall_mem_cons.1 all with ⟨first, later⟩
    cases ds with
    | nil => exact first
    | cons e ds =>
      rw [groupedDigits, first, ih (List.cons_ne_nil _ _) later]
      · rfl
      · exact nofun
      · rintro rest same
        exact Json.Token.ne_of_isDigit (later e (List.mem_cons_self ..)) (Eq.refl ('_'.isDigit))
          (List.cons.inj same).1

theorem splitSign_of_digits : splitSign ds = (false, ds) := by
  rw [splitSign]
  · rintro rest rfl
    exact not_mem_of_isDigit all rfl (List.mem_cons_self ..)
  · rintro rest rfl
    exact not_mem_of_isDigit all rfl (List.mem_cons_self ..)

theorem not_isFloat_of_digits : isFloat ds = false := by
  have kept : ∀ {p : Char → Bool}, (∀ c, c.isDigit = true → p c = true) →
      ds.takeWhile p = ds ∧ ds.dropWhile p = [] := by
    intro p holds
    have span := Json.Token.span_append (fun c member => holds c (all c member))
      (show ∀ c ∈ ([] : List Char).head?, p c = false from nofun)
    rwa [List.append_nil] at span
  have noMark := kept (p := fun c => !(c == 'e' || c == 'E')) fun c isDigit => by
    simp [Json.Token.ne_of_isDigit isDigit]
  have noPoint := kept (p := fun c => c != '.') fun c isDigit => by
    simp [Json.Token.ne_of_isDigit isDigit]
  have noWord : ds ≠ ['i', 'n', 'f'] ∧ ds ≠ ['n', 'a', 'n'] := by
    constructor <;> rintro rfl <;> cases all 'n' (by decide)
  simp only [isFloat, splitSign_of_digits nonempty all, noMark, noPoint]
  simp [noWord]

omit nonempty

theorem expect?_of_digits {c : Char} (other : c.isDigit = false) : expect? c ds = none := by
  cases ds with
  | nil => rfl
  | cons d ds =>
    exact if_neg fun same =>
      Json.Token.ne_of_isDigit (all d (List.mem_cons_self ..)) other (beq_iff_eq.1 same)

theorem not_isMoment_of_digits : isMoment ds = false := by
  have later := fun count : Nat => fun d (member : d ∈ ds.drop count) =>
    all d (List.mem_of_mem_drop member)
  have noDate : afterDate? ds = none := by
    rw [afterDate?, digitsOf?]
    split
    · simp [expect?_of_digits (later 4) (Eq.refl ('-'.isDigit))]
    · rfl
  have noTime : afterTime? ds = none := by
    rw [afterTime?, digitsOf?]
    split
    · simp [expect?_of_digits (later 2) (Eq.refl (':'.isDigit))]
    · rfl
  rw [isMoment, noDate, noTime]
  rfl

end

/-- A number is read from its decimal digits. -/
theorem integer?_toDigits {n : Nat} (small : n < integerLimit) :
    integer? (Nat.toDigits 10 n) = some (.integer n) := by
  have all := fun c member => isDigit_of_mem_toDigits (n := n) c member
  have nonempty : Nat.toDigits 10 n ≠ [] := Nat.toDigits_ne_nil
  have whole : isWholeNumber (Nat.toDigits 10 n) = true := by
    unfold isWholeNumber
    rw [groupedDigits_of_digits nonempty all, Bool.true_and]
    split
    · rename_i d ds front
      cases toDigits_eq_zero_cons front
    · rfl
  have value := decimal_toDigits n
  generalize Nat.toDigits 10 n = ds at all nonempty whole value ⊢
  rw [integer?]
  · simp only [splitSign_of_digits nonempty all, whole, withoutUnderscores_of_digits all, value]
    rw [if_pos trivial, if_neg Bool.false_ne_true, boundedInteger?, if_pos]
    · rfl
    · simp only [Bool.and_eq_true, decide_eq_true_eq, Int.ofNat_eq_natCast]
      omega
  · rintro rest rfl
    exact not_mem_of_isDigit all (Eq.refl ('x'.isDigit)) (by simp)
  · rintro rest rfl
    exact not_mem_of_isDigit all (Eq.refl ('o'.isDigit)) (by simp)
  · rintro rest rfl
    exact not_mem_of_isDigit all (Eq.refl ('b'.isDigit)) (by simp)

/-! ## Scalars -/

/-- The text does not go on with a scalar, nor with the blank in front of a time. -/
def EndsScalar (rest : List Char) : Prop := ∀ c ∈ rest.head?, isScalarChar c = false ∧ c ≠ ' '

section

variable {rest : List Char} (ends : EndsScalar rest)

include ends

theorem scalarSpelling_append {cs : List Char} (all : ∀ c ∈ cs, isScalarChar c = true) :
    scalarSpelling (cs ++ rest) = (cs, rest) := by
  rcases Json.Token.span_append all fun c member => (ends c member).1 with ⟨taken, left⟩
  rw [scalarSpelling, taken, left]
  split
  · rename_i rest
    exact absurd rfl (ends ' ' rfl).2
  · rfl

theorem scalar?_toDigits {n : Nat} (small : n < integerLimit) :
    scalar? (Nat.toDigits 10 n ++ rest) = some (.integer n, rest) := by
  have digits := fun c member => isDigit_of_mem_toDigits (n := n) c member
  have nonempty : Nat.toDigits 10 n ≠ [] := Nat.toDigits_ne_nil
  have scalar : ∀ c ∈ Nat.toDigits 10 n, isScalarChar c = true := fun c member => by
    simp [isScalarChar, Char.isAlphanum, digits c member]
  have noWord : Nat.toDigits 10 n ≠ ['t', 'r', 'u', 'e'] ∧
      Nat.toDigits 10 n ≠ ['f', 'a', 'l', 's', 'e'] := by
    constructor <;> intro same <;> cases digits 'e' (same ▸ by decide)
  rw [scalar?, scalarSpelling_append ends scalar]
  simp [noWord, not_isFloat_of_digits nonempty digits, not_isMoment_of_digits digits,
    integer?_toDigits small]

theorem scalar?_boolean (b : Bool) :
    scalar? ((if b then "true" else "false").toList ++ rest) = some (.boolean b, rest) := by
  have scalar : ∀ c ∈ (if b then "true" else "false").toList, isScalarChar c = true :=
    List.all_eq_true.1 (by cases b <;> rfl)
  rw [scalar?, scalarSpelling_append ends scalar]
  cases b <;> rfl

end

end ThemeMigration.Toml
