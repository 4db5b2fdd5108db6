import ThemeMigration.Proofs.Toml.Words
import ThemeMigration.Toml.Reader

/-!
# Written documents

A value of strings, booleans, natural numbers of no more than 63 bits and lists of such values is
read from what is written for it, and so is a sequence of statements that assign such values.
-/

namespace ThemeMigration.Toml

/-! ## Values -/

/-- A value without tables in it, whose lists lie no deeper in one another than the bound. -/
inductive IsWritable : Nat → Toml → Prop where
  | string {depth : Nat} (s : String) : IsWritable depth (.string s)
  | integer {depth n : Nat} (small : n < integerLimit) : IsWritable depth (.integer n)
  | boolean {depth : Nat} (b : Bool) : IsWritable depth (.boolean b)
  | array {depth : Nat} {items : List Toml} (each : ∀ v ∈ items, IsWritable depth v) :
      IsWritable (depth + 1) (.array items)

/-- What follows a value: the end of a line, another item or the end of a list. -/
def EndsValue (rest : List Char) : Prop := ∀ c ∈ rest.head?, c = '\n' ∨ c = ',' ∨ c = ']'

/-- A text begins as a value does, and neither as a table in braces nor as the end of a list. -/
def BeginsValue (cs : List Char) : Prop :=
  ∃ c rest, cs = c :: rest ∧ (c.isDigit = true ∨ c ∈ ['"', '\'', 't', 'f', '['])

theorem EndsValue.scalar {rest : List Char} (ends : EndsValue rest) : EndsScalar rest := by
  intro c first
  rcases ends c first with rfl | rfl | rfl <;> exact ⟨rfl, nofun⟩

theorem EndsValue.noQuote {rest : List Char} (ends : EndsValue rest) {quote : Char}
    (isQuote : quote = '"' ∨ quote = '\'') : rest.head? ≠ some quote := by
  intro first
  rcases ends quote first with rfl | rfl | rfl <;> rcases isQuote with h | h <;> cases h

theorem writeString_begins (s : String) :
    ∃ q cs, writeString s = q :: cs ∧ (q = '"' ∨ q = '\'') := by
  rw [writeString]
  split
  · exact ⟨_, _, rfl, .inr rfl⟩
  · exact ⟨_, _, rfl, .inr rfl⟩
  · exact ⟨_, _, rfl, .inr rfl⟩
  · exact ⟨_, _, rfl, .inl rfl⟩
  · exact ⟨_, _, rfl, .inl rfl⟩

theorem writeNatural_eq (n : Nat) : writeValue (.integer n) = Nat.toDigits 10 n :=
  Nat.toList_repr

theorem writeValue_array (items : List Toml) :
    writeValue (.array items) = writeList (items.map writeValue) := by
  have each : writeValues items = items.map writeValue := by
    induction items with
    | nil => rfl
    | cons v vs ih => rw [writeValues, ih, List.map_cons]
  rw [writeValue, each]

theorem writeList_begins (items : List (List Char)) : ∃ cs, writeList items = '[' :: cs := by
  match items with
  | [] | [_] | _ :: _ :: _ => exact ⟨_, rfl⟩

theorem BeginsValue.of_isWritable {depth : Nat} {v : Toml} (w : IsWritable depth v) :
    BeginsValue (writeValue v) := by
  cases w with
  | string s =>
    rcases writeString_begins s with ⟨q, cs, whole, isQuote⟩
    refine ⟨q, cs, by rw [writeValue, whole], .inr ?_⟩
    rcases isQuote with rfl | rfl <;> decide
  | @integer _ n small =>
    rcases List.exists_cons_of_ne_nil (Nat.toDigits_ne_nil (n := n) (b := 10)) with ⟨d, ds, whole⟩
    refine ⟨d, ds, (writeNatural_eq n).trans whole, .inl ?_⟩
    exact isDigit_of_mem_toDigits d (whole ▸ List.mem_cons_self ..)
  | boolean b => cases b <;> exact ⟨_, _, rfl, .inr (by decide)⟩
  | @array depth items each =>
    rcases writeList_begins (items.map writeValue) with ⟨cs, whole⟩
    exact ⟨'[', cs, (writeValue_array items).trans whole, .inr (by decide)⟩

section

variable {cs : List Char} (begins : BeginsValue cs) (rest : List Char)

include begins

theorem BeginsValue.append : BeginsValue (cs ++ rest) := by
  rcases begins with ⟨c, cs, rfl, first⟩
  exact ⟨c, cs ++ rest, rfl, first⟩

theorem BeginsValue.ne {c : Char} (other : c.isDigit = false)
    (unlisted : c ∉ ['"', '\'', 't', 'f', '[']) : cs.head? ≠ some c := by
  rcases begins with ⟨d, cs, rfl, first⟩
  intro same
  obtain rfl : d = c := Option.some.inj same
  rcases first with digit | listed
  · exact Json.Token.ne_of_isDigit digit other rfl
  · exact unlisted listed

theorem BeginsValue.skipBlanks_eq : skipBlanks cs = cs := by
  have noBlank := begins.ne (c := ' ') rfl (by decide)
  have noTab := begins.ne (c := '\t') rfl (by decide)
  rcases begins with ⟨c, cs, rfl, _⟩
  refine List.dropWhile_cons_of_neg ?_
  simp only [isBlank, Bool.or_eq_true, beq_iff_eq]
  rintro (rfl | rfl)
  · exact noBlank rfl
  · exact noTab rfl

omit begins

theorem skipVoid_of_head {c : Char} (first : c ∉ [' ', '\t', '\n', '\r', '#', '\ufeff']) :
    skipVoid false (c :: cs) = c :: cs := by
  simp only [List.mem_cons, List.not_mem_nil, or_false, not_or] at first
  rw [skipVoid]
  · simp [isBlank, first]
  · exact first.2.2.1
  · exact fun _ isReturn _ => first.2.2.2.1 isReturn

include begins

theorem BeginsValue.skipVoid_eq : skipVoid false cs = cs := by
  rcases begins with ⟨c, cs, rfl, first⟩
  refine skipVoid_of_head fun listed => ?_
  rcases first with digit | first
  · simp only [List.mem_cons, List.not_mem_nil, or_false] at listed
    rcases listed with rfl | rfl | rfl | rfl | rfl | rfl <;> cases digit
  · simp only [List.mem_cons, List.not_mem_nil, or_false] at first
    rcases first with rfl | rfl | rfl | rfl | rfl <;> revert listed <;> decide

end

/-! ### Strings, numbers and booleans -/

section

variable {depth : Nat} {c : Char} {cs rest : List Char}

theorem value?_eq (noList : c ≠ '[') (noTable : c ≠ '\x7b') :
    value? depth (c :: cs) =
      ((string? (c :: cs)).map fun p => (.string p.1, p.2)).or (scalar? (c :: cs)) := by
  rw [value?]
  · cases string? (c :: cs) <;> rfl
  · rintro rest same
    exact noList (List.cons.inj same).1
  · rintro rest same
    exact noTable (List.cons.inj same).1

theorem value?_of_string {s : String} (noList : c ≠ '[') (noTable : c ≠ '\x7b')
    (read : string? (c :: cs) = some (s, rest)) :
    value? depth (c :: cs) = some (.string s, rest) := by
  rw [value?_eq noList noTable, read]
  rfl

theorem value?_of_scalar (first : c ∉ ['[', '\x7b', '"', '\'']) :
    value? depth (c :: cs) = scalar? (c :: cs) := by
  simp only [List.mem_cons, List.not_mem_nil, or_false, not_or] at first
  have noString : string? (c :: cs) = none := by
    rw [string?, shortString?]
    all_goals simp [first]
  rw [value?_eq first.1 first.2.1, noString]
  rfl

/-! ### Lists -/

theorem value?_list {items : List Toml}
    (read : items? (value? depth) (cs.length + 1) cs = some (items, rest)) :
    value? (depth + 1) ('[' :: cs) = some (.array items, rest) := by
  rw [value?, read, Option.map_some]

section

variable {value? : List Char → Option (Toml × List Char)} {v : Toml} {bound : Nat}
  {text after : List Char}

theorem items?_nil (void : skipVoid false cs = ']' :: rest) :
    items? value? (bound + 1) cs = some ([], rest) := by
  rw [items?, void]
  rfl

/-- An item behind which the list goes on. -/
theorem items?_cons (void : skipVoid false cs = text) (begins : BeginsValue text)
    (read : value? text = some (v, rest)) (next : skipVoid false rest = ',' :: after) :
    items? value? (bound + 1) cs = (items? value? bound after).map fun p => (v :: p.1, p.2) := by
  have noClose := begins.ne (c := ']') rfl (by decide)
  rw [items?, void]
  split
  · exact absurd rfl noClose
  · simp only [read, next]

/-- An item behind which the list ends. -/
theorem items?_last (void : skipVoid false cs = text) (begins : BeginsValue text)
    (read : value? text = some (v, rest)) (close : skipVoid false rest = ']' :: after) :
    items? value? (bound + 1) cs = some ([v], after) := by
  have noClose := begins.ne (c := ']') rfl (by decide)
  rw [items?, void]
  split
  · exact absurd rfl noClose
  · simp only [read, close]

/-- A value is read from what is written for it, whatever follows the value. -/
def ReadsBack (value? : List Char → Option (Toml × List Char)) (v : Toml) : Prop :=
  BeginsValue (writeValue v) ∧
    ∀ rest, EndsValue rest → value? (writeValue v ++ rest) = some (v, rest)

theorem endsValue_cons {c : Char} (h : c = '\n' ∨ c = ',' ∨ c = ']') (rest : List Char) :
    EndsValue (c :: rest) := by
  intro d first
  obtain rfl : c = d := Option.some.inj first
  exact h

/-- Items on lines of their own are read one by one. -/
theorem items?_lines {vs : List Toml} (each : ∀ v ∈ vs, ReadsBack value? v)
    (room : vs.length < bound) (rest : List Char) :
    items? value? bound
        ((vs.map writeValue).flatMap (fun item => "\n    ".toList ++ item ++ [',']) ++
          '\n' :: ']' :: rest) = some (vs, rest) := by
  induction vs generalizing bound with
  | nil =>
    rcases bound with _ | bound
    · exact absurd room (Nat.not_lt_zero _)
    · exact items?_nil rfl
  | cons v vs ih =>
    rcases bound with _ | bound
    · exact absurd room (Nat.not_lt_zero _)
    rcases List.forall_mem_cons.1 each with ⟨⟨begins, read⟩, later⟩
    have readFirst := fun after => read (',' :: after) (endsValue_cons (.inr (.inl rfl)) after)
    rw [List.map_cons, List.flatMap_cons, List.append_assoc, List.append_assoc, List.append_assoc,
      List.singleton_append, items?_cons _ (begins.append _) (readFirst _) rfl,
      ih later (Nat.lt_of_succ_lt_succ room), Option.map_some]
    exact (begins.append _).skipVoid_eq

theorem items?_writeList {items : List Toml} (each : ∀ v ∈ items, ReadsBack value? v)
    (rest : List Char) :
    ∃ cs, writeList (items.map writeValue) ++ rest = '[' :: cs ∧
      items? value? (cs.length + 1) cs = some (items, rest) := by
  match items with
  | [] => exact ⟨']' :: rest, rfl, items?_nil rfl⟩
  | [v] =>
    rcases each v (List.mem_singleton_self v) with ⟨begins, read⟩
    refine ⟨writeValue v ++ ']' :: rest, by simp [writeList], ?_⟩
    exact items?_last (begins.append _).skipVoid_eq (begins.append _)
      (read _ (endsValue_cons (.inr (.inr rfl)) _)) rfl
  | v :: w :: vs =>
    refine ⟨((v :: w :: vs).map writeValue).flatMap
      (fun item => "\n    ".toList ++ item ++ [',']) ++ '\n' :: ']' :: rest,
      by simp [writeList], ?_⟩
    refine items?_lines each ?_ rest
    have nonempty : ∀ item : List Char, "\n    ".toList ++ item ++ [','] ≠ [] := fun _ => nofun
    have enough := length_le_flatMap nonempty ((v :: w :: vs).map writeValue)
    rw [List.length_map] at enough
    rw [List.length_append]
    omega

end

end

/-- A value is read from what is written for it. -/
theorem value?_writeValue {depth : Nat} {v : Toml} (w : IsWritable depth v) :
    ReadsBack (value? depth) v := by
  refine ⟨.of_isWritable w, ?_⟩
  induction w with
  | string s =>
    intro rest ends
    rcases writeString_begins s with ⟨q, cs, whole, isQuote⟩
    have read := string?_writeString s (ends.noQuote (.inl rfl)) (ends.noQuote (.inr rfl))
    rw [writeValue]
    rw [whole] at read ⊢
    rcases isQuote with rfl | rfl <;> exact value?_of_string nofun nofun read
  | @integer _ n small =>
    intro rest ends
    have read := scalar?_toDigits ends.scalar small
    rw [writeNatural_eq]
    rcases List.exists_cons_of_ne_nil (Nat.toDigits_ne_nil (n := n) (b := 10)) with ⟨d, ds, whole⟩
    have digit : d.isDigit = true := isDigit_of_mem_toDigits d (whole ▸ List.mem_cons_self ..)
    rw [whole] at read ⊢
    rw [← read]
    refine value?_of_scalar ?_
    simp [Json.Token.ne_of_isDigit digit]
  | boolean b =>
    intro rest ends
    rw [← scalar?_boolean ends.scalar]
    cases b <;> exact value?_of_scalar (by decide)
  | @array depth items each ih =>
    intro rest ends
    have readBack : ∀ v ∈ items, ReadsBack (value? depth) v := fun v member =>
      ⟨.of_isWritable (each v member), ih v member⟩
    rcases items?_writeList readBack rest with ⟨cs, whole, read⟩
    rw [writeValue_array, whole]
    exact value?_list read

/-! ## Statements -/

/-- A path that a reader takes. -/
def IsPath (path : List String) : Prop := path ≠ [] ∧ path.length ≤ maxDepth

/-- A statement with a path that a reader takes, and a value if it is an assignment. -/
inductive IsWritableStatement : Statement → Prop where
  | header {path : List String} (isPath : IsPath path) : IsWritableStatement (.header path)
  | nextHeader {path : List String} (isPath : IsPath path) : IsWritableStatement (.nextHeader path)
  | assignment {path : List String} {v : Toml} (isPath : IsPath path) (w : IsWritable maxDepth v) :
      IsWritableStatement (.assignment path v)

theorem exists_writePath_eq {path : List String} (nonempty : path ≠ []) :
    ∃ c cs, writePath path = c :: cs ∧ (isBareKeyChar c = true ∨ c = '"') := by
  match path with
  | [key] =>
    rw [writePath_singleton]
    exact exists_writeKey_eq key
  | key :: next :: path =>
    rcases exists_writeKey_eq key with ⟨c, cs, whole, first⟩
    rw [writePath_cons_cons, whole]
    exact ⟨c, _, rfl, first⟩

section

variable {path : List String} (isPath : IsPath path) (rest : List Char)

include isPath

theorem keyPath?_bracket :
    keyPath? maxDepth (writePath path ++ ']' :: rest) = some (path, ']' :: rest) := by
  have ends : EndsKey (']' :: rest) := by
    intro c first
    obtain rfl := Option.some.inj first
    rfl
  exact keyPath?_writePath isPath.1 isPath.2 ends nofun

theorem statement?_header :
    statement? ((Statement.header path).write ++ rest) = some (.header path, '\n' :: rest) := by
  rcases exists_writePath_eq isPath.1 with ⟨c, cs, whole, first⟩
  have noBracket : c ≠ '[' := by
    rintro rfl
    rcases first with first | first <;> cases first
  have read := keyPath?_bracket isPath ('\n' :: rest)
  have written : (Statement.header path).write ++ rest =
      '[' :: (writePath path ++ ']' :: '\n' :: rest) := by
    simp [Statement.write]
  rw [written]
  rw [whole, List.cons_append] at read ⊢
  rw [statement?, read]
  · rfl
  · rintro rest same
    exact noBracket (List.cons.inj same).1

theorem statement?_nextHeader :
    statement? ((Statement.nextHeader path).write ++ rest) =
      some (.nextHeader path, '\n' :: rest) := by
  have read := keyPath?_bracket isPath (']' :: '\n' :: rest)
  have written : (Statement.nextHeader path).write ++ rest =
      '[' :: '[' :: (writePath path ++ ']' :: ']' :: '\n' :: rest) := by
    simp [Statement.write]
  rw [written, statement?, read]
  rfl

theorem statement?_assignment {v : Toml} (w : IsWritable maxDepth v) :
    statement? ((Statement.assignment path v).write ++ rest) =
      some (.assignment path v, '\n' :: rest) := by
  rcases exists_writePath_eq isPath.1 with ⟨c, cs, whole, first⟩
  have noBracket : c ≠ '[' := by
    rintro rfl
    rcases first with first | first <;> cases first
  have written : (Statement.assignment path v).write ++ rest =
      writePath path ++ ' ' :: '=' :: ' ' :: (writeValue v ++ '\n' :: rest) := by
    simp [Statement.write]
  have ends : EndsKey (' ' :: '=' :: ' ' :: (writeValue v ++ '\n' :: rest)) := by
    intro d head
    obtain rfl := Option.some.inj head
    rfl
  have key := keyPath?_writePath isPath.1 isPath.2 ends nofun
  have value := (value?_writeValue w).2 _ (endsValue_cons (.inl rfl) rest)
  have begins := ((BeginsValue.of_isWritable w).append ('\n' :: rest)).skipBlanks_eq
  have read : assignment? (value? maxDepth)
      (writePath path ++ ' ' :: '=' :: ' ' :: (writeValue v ++ '\n' :: rest)) =
        some ((path, v), '\n' :: rest) := by
    have equals : skipBlanks (' ' :: '=' :: ' ' :: (writeValue v ++ '\n' :: rest)) =
        '=' :: ' ' :: (writeValue v ++ '\n' :: rest) := rfl
    have behind : skipBlanks (' ' :: (writeValue v ++ '\n' :: rest)) =
        skipBlanks (writeValue v ++ '\n' :: rest) := rfl
    rw [assignment?, key]
    simp [equals, expect?, behind, begins, value]
  rw [written]
  rw [whole, List.cons_append] at read ⊢
  rw [statement?, read, Option.map_some]
  · rintro rest same
    exact noBracket (List.cons.inj same).1
  · rintro rest same
    exact noBracket (List.cons.inj same).1

end

theorem statement?_write {s : Statement} (w : IsWritableStatement s) (rest : List Char) :
    statement? (s.write ++ rest) = some (s, '\n' :: rest) := by
  cases w with
  | header isPath => exact statement?_header isPath rest
  | nextHeader isPath => exact statement?_nextHeader isPath rest
  | assignment isPath w => exact statement?_assignment isPath rest w

/-- A statement begins with a bracket or a key, so it is neither blank nor a comment. -/
theorem exists_write_eq {s : Statement} (w : IsWritableStatement s) :
    ∃ c cs, s.write = c :: cs ∧ c ∉ [' ', '\t', '\n', '\r', '#', '\ufeff'] := by
  cases w with
  | header | nextHeader => exact ⟨'[', _, rfl, by decide⟩
  | assignment isPath w =>
    rcases exists_writePath_eq isPath.1 with ⟨c, cs, whole, first⟩
    refine ⟨c, _, by rw [Statement.write, whole]; rfl, fun listed => ?_⟩
    simp only [List.mem_cons, List.not_mem_nil, or_false] at listed
    rcases listed with rfl | rfl | rfl | rfl | rfl | rfl <;> rcases first with first | first <;>
      cases first

theorem statementsWithin_cons {s : Statement} (w : IsWritableStatement s) {bound : Nat}
    {cs rest : List Char} (void : skipVoid false cs = s.write ++ rest) :
    statementsWithin (bound + 1) cs = (statementsWithin bound rest).map (s :: ·) := by
  have read := statement?_write w rest
  have line : lineEnd? ('\n' :: rest) = some rest := rfl
  rcases exists_write_eq w with ⟨c, text, whole, _⟩
  rw [statementsWithin, void]
  rw [whole, List.cons_append] at read ⊢
  simp only [read, Option.bind_some, line, Option.map_some]

/-- The lines of a statement that does not open the document. -/
def laterLines (s : Statement) : List Char := if s.isHeader then '\n' :: s.write else s.write

theorem skipVoid_write {s : Statement} (w : IsWritableStatement s) (rest : List Char) :
    skipVoid false (s.write ++ rest) = s.write ++ rest := by
  rcases exists_write_eq w with ⟨c, cs, whole, first⟩
  rw [whole, List.cons_append, skipVoid_of_head first]

theorem skipVoid_laterLines {s : Statement} (w : IsWritableStatement s) (rest : List Char) :
    skipVoid false (laterLines s ++ rest) = s.write ++ rest := by
  rw [laterLines]
  split <;> exact skipVoid_write w rest

theorem laterLines_ne_nil (s : Statement) : laterLines s ≠ [] := by
  cases s with
  | header | nextHeader => exact List.cons_ne_nil _ _
  | assignment path v =>
    intro empty
    have length := congrArg List.length empty
    simp [laterLines, Statement.isHeader, Statement.write] at length

theorem statementsWithin_laterLines {ss : List Statement} (w : ∀ s ∈ ss, IsWritableStatement s)
    {bound : Nat} (room : ss.length < bound) :
    statementsWithin bound (ss.flatMap laterLines) = .ok ss := by
  induction ss generalizing bound with
  | nil =>
    rcases bound with _ | bound
    · exact absurd room (Nat.not_lt_zero _)
    · rfl
  | cons s ss ih =>
    rcases bound with _ | bound
    · exact absurd room (Nat.not_lt_zero _)
    rcases List.forall_mem_cons.1 w with ⟨first, later⟩
    rw [List.flatMap_cons, statementsWithin_cons first (skipVoid_laterLines first _),
      ih later (Nat.lt_of_succ_lt_succ room)]
    rfl

theorem statements_eq_ok {text : String} {ss : List Statement}
    (noMark : withoutMark text.toList = text.toList)
    (read : statementsWithin (text.toList.length + 1) text.toList = .ok ss) :
    statements text = .ok ss := by
  rw [statements, noMark]
  simp only [read]

/-- The statements of a document are those that it was written for. -/
theorem statements_write {ss : List Statement} (w : ∀ s ∈ ss, IsWritableStatement s) :
    statements (String.ofList (write ss)) = .ok ss := by
  cases ss with
  | nil => rfl
  | cons s ss =>
    rcases List.forall_mem_cons.1 w with ⟨first, later⟩
    rcases exists_write_eq first with ⟨c, cs, whole, begins⟩
    have written : (String.ofList (write (s :: ss))).toList = s.write ++ ss.flatMap laterLines :=
      String.toList_ofList
    apply statements_eq_ok
    · rw [written, whole, List.cons_append, withoutMark]
      rintro rest same
      obtain rfl := (List.cons.inj same).1
      exact begins (by simp)
    · have enough := length_le_flatMap laterLines_ne_nil ss
      have room : ss.length < (s.write ++ ss.flatMap laterLines).length := by
        rw [whole, List.cons_append, List.length_cons, List.length_append]
        omega
      rw [written, statementsWithin_cons first (skipVoid_write first _),
        statementsWithin_laterLines later room]
      rfl

end ThemeMigration.Toml
