import ThemeMigration.Glob.Basic

/-!
# Lexemes of glob patterns

A pattern text falls into lexemes before anything is known about groups: escapes are resolved, and
a bracketed set is one lexeme.  A fault of the text stands as the last lexeme, so that a fault in
front of it is met first.  Where ignore rules are read, a bracket without its partner stands for
itself.
-/

namespace ThemeMigration.Glob

inductive Lexeme where
  | char (c : Char) (escaped : Bool)
  | any
  | star
  | opening
  | comma
  | closing
  | set (negated : Bool) (ranges : List (Char × Char))
  | fault (f : Fault)
  deriving DecidableEq, Repr, Inhabited

/-- How an opening bracket is read. -/
inductive Brackets where
  | strict
  /-- A bracket without its partner is a character. -/
  | lenient
  /-- Every bracket is a character. -/
  | plain
  deriving DecidableEq, Repr, Inhabited

/-- What stands behind an opening bracket. -/
inductive SetReading where
  | closed (ranges : List (Char × Char)) (rest : List Char)
  | unclosed
  | reversed (first last : Char)
  deriving DecidableEq, Repr, Inhabited

/-- Read the ranges of a set, the latest one first.  `isOpen` tells that a dash waits for the end of
the latest range.  The first character always stands for itself, and so does a dash in front of
the closing bracket. -/
def readSet : List (Char × Char) → Bool → List Char → SetReading
  | _, _, [] => .unclosed
  | [], _, c :: cs => readSet [(c, c)] false cs
  | (first, last) :: more, isOpen, c :: cs =>
    if c == ']' then
      .closed ((if isOpen then [('-', '-')] else []) ++ (first, last) :: more).reverse cs
    else if isOpen then
      if c < first then .reversed first c else readSet ((first, c) :: more) false cs
    else if c == '-' then readSet ((first, last) :: more) true cs
    else readSet ((c, c) :: (first, last) :: more) false cs

theorem length_lt_of_readSet {ranges : List (Char × Char)} {isOpen : Bool} {cs rest : List Char}
    {result : List (Char × Char)} (h : readSet ranges isOpen cs = .closed result rest) :
    rest.length < cs.length := by
  fun_induction readSet ranges isOpen cs with
  | case1 => cases h
  | case2 _ c cs ih => exact Nat.lt_succ_of_lt (ih h)
  | case3 =>
    cases h
    exact Nat.lt_succ_self _
  | case4 => cases h
  | case5 => rename_i ih; exact Nat.lt_succ_of_lt (ih h)
  | case6 => rename_i ih; exact Nat.lt_succ_of_lt (ih h)
  | case7 => rename_i ih; exact Nat.lt_succ_of_lt (ih h)

/-- Whether the text behind an opening bracket negates the set, and the text behind that sign. -/
def readNegation : List Char → Bool × List Char
  | '!' :: cs => (true, cs)
  | '^' :: cs => (true, cs)
  | cs => (false, cs)

theorem length_readNegation_le (cs : List Char) : (readNegation cs).2.length ≤ cs.length := by
  unfold readNegation
  split <;> simp

/-- The lexeme of a character that nothing escapes. -/
def ofChar (c : Char) : Lexeme :=
  match c with
  | '?' => .any
  | '*' => .star
  | '\x7b' => .opening
  | ',' => .comma
  | '\x7d' => .closing
  | c => .char c false

/-- The lexemes of a pattern text. -/
def lexemes (brackets : Brackets) : List Char → List Lexeme
  | [] => []
  | '\\' :: [] => [.fault .danglingEscape]
  | '\\' :: c :: cs => .char c true :: lexemes brackets cs
  | c :: cs =>
    if c == '[' && brackets != .plain then
      match h : readSet [] false (readNegation cs).2 with
      | .closed ranges rest =>
        have : rest.length < cs.length :=
          Nat.lt_of_lt_of_le (length_lt_of_readSet h) (length_readNegation_le cs)
        .set (readNegation cs).1 ranges :: lexemes brackets rest
      | .unclosed =>
        if brackets == .lenient then .char c false :: lexemes .plain cs else [.fault .unclosedSet]
      | .reversed first last => [.fault (.reversedRange first last)]
    else ofChar c :: lexemes brackets cs
termination_by cs => cs.length

end ThemeMigration.Glob
