import ThemeMigration.Json.Reader
import ThemeMigration.Proofs.Json.Layout

/-!
# Values as tokens

Each value has one sequence of tokens, and no value's tokens are the beginning of those of another
one.  The machine that reads tokens gives the value that they belong to, as long as it does not lie
deeper than the machine goes, and what it has read is at any time what its stack tells.
-/

namespace ThemeMigration.Json

/-! ## The tokens of a value -/

mutual

def tokens : Json → List Token
  | null => [.null]
  | bool b => [.bool b]
  | number spelling => [.number spelling]
  | string s => [.string s]
  | array [] => [.bracketOpen, .bracketClose]
  | array (v :: vs) => .bracketOpen :: (tokens v ++ (itemTokens vs ++ [.bracketClose]))
  | object [] => [.braceOpen, .braceClose]
  | object ((key, v) :: ms) =>
    .braceOpen :: .string key :: .colon :: (tokens v ++ (memberTokens ms ++ [.braceClose]))

/-- The tokens of items that follow another one. -/
def itemTokens : List Json → List Token
  | [] => []
  | v :: vs => .comma :: (tokens v ++ itemTokens vs)

/-- The tokens of members that follow another one. -/
def memberTokens : List (String × Json) → List Token
  | [] => []
  | (key, v) :: ms => .comma :: .string key :: .colon :: (tokens v ++ memberTokens ms)

end

mutual

/-- How many lists and objects lie inside one another. -/
def depth : Json → Nat
  | array vs => itemDepth vs + 1
  | object ms => memberDepth ms + 1
  | _ => 0

def itemDepth : List Json → Nat
  | [] => 0
  | v :: vs => max (depth v) (itemDepth vs)

def memberDepth : List (String × Json) → Nat
  | [] => 0
  | (_, v) :: ms => max (depth v) (memberDepth ms)

end

/-- The token that a value begins with. -/
def opening : Json → Token
  | null => .null
  | bool b => .bool b
  | number spelling => .number spelling
  | string s => .string s
  | array _ => .bracketOpen
  | object _ => .braceOpen

theorem exists_tokens_eq (v : Json) : ∃ ts, tokens v = v.opening :: ts := by
  match v with
  | null | bool _ | number _ | string _ => exact ⟨[], rfl⟩
  | array [] | array (_ :: _) | object [] | object ((_, _) :: _) =>
    rw [tokens]
    exact ⟨_, rfl⟩

/-- Whether a list or an object ends with a token. -/
def Token.closes : Token → Bool
  | braceClose | bracketClose => true
  | _ => false

theorem closes_opening (v : Json) : v.opening.closes = false := by
  cases v <;> rfl

/-! ## No value's tokens go on with another one's -/

theorem not_close_of_tokens (v : Json) {r s : List Token} :
    tokens v ++ r ≠ .bracketClose :: s := by
  intro same
  rcases exists_tokens_eq v with ⟨ts, whole⟩
  rw [whole] at same
  have closes := closes_opening v
  rw [(List.cons.inj same).1] at closes
  cases closes

mutual

theorem eq_of_tokens_append (v w : Json) {r s : List Token}
    (same : tokens v ++ r = tokens w ++ s) : v = w ∧ r = s := by
  have first : v.opening = w.opening := by
    rcases exists_tokens_eq v with ⟨vs, left⟩
    rcases exists_tokens_eq w with ⟨ws, right⟩
    rw [left, right] at same
    exact (List.cons.inj same).1
  match v, w with
  | null, null | bool _, bool _ | number _, number _ | string _, string _ | array [], array []
  | object [], object [] => simpa [tokens] using same
  | array (v :: vs), array [] =>
    simp only [tokens, List.cons_append, List.append_assoc, List.cons.injEq, true_and] at same
    exact absurd same (not_close_of_tokens v)
  | array [], array (w :: ws) =>
    simp only [tokens, List.cons_append, List.append_assoc, List.cons.injEq, true_and] at same
    exact absurd same.symm (not_close_of_tokens w)
  | array (v :: vs), array (w :: ws) =>
    simp only [tokens, List.cons_append, List.append_assoc, List.cons.injEq, true_and,
      List.nil_append] at same
    rcases eq_of_tokens_append v w same with ⟨rfl, later⟩
    rcases eq_of_itemTokens_append vs ws later with ⟨rfl, rest⟩
    exact ⟨rfl, rest⟩
  | object (_ :: _), object [] | object [], object (_ :: _) => simp [tokens] at same
  | object ((key, v) :: ms), object ((_, w) :: ns) =>
    simp only [tokens, List.cons_append, List.append_assoc, List.cons.injEq,
      Token.string.injEq, true_and, List.nil_append] at same
    rcases same with ⟨rfl, same⟩
    rcases eq_of_tokens_append v w same with ⟨rfl, later⟩
    rcases eq_of_memberTokens_append ms ns later with ⟨rfl, rest⟩
    exact ⟨rfl, rest⟩

theorem eq_of_itemTokens_append (vs ws : List Json) {r s : List Token}
    (same : itemTokens vs ++ .bracketClose :: r = itemTokens ws ++ .bracketClose :: s) :
    vs = ws ∧ r = s := by
  match vs, ws with
  | [], [] => simpa [itemTokens] using same
  | [], _ :: _ | _ :: _, [] => simp [itemTokens] at same
  | v :: vs, w :: ws =>
    simp only [itemTokens, List.cons_append, List.append_assoc, List.cons.injEq, true_and] at same
    rcases eq_of_tokens_append v w same with ⟨rfl, later⟩
    rcases eq_of_itemTokens_append vs ws later with ⟨rfl, rest⟩
    exact ⟨rfl, rest⟩

theorem eq_of_memberTokens_append (ms ns : List (String × Json)) {r s : List Token}
    (same : memberTokens ms ++ .braceClose :: r = memberTokens ns ++ .braceClose :: s) :
    ms = ns ∧ r = s := by
  match ms, ns with
  | [], [] => simpa [memberTokens] using same
  | [], _ :: _ | _ :: _, [] => simp [memberTokens] at same
  | (key, v) :: ms, (_, w) :: ns =>
    simp only [memberTokens, List.cons_append, List.append_assoc, List.cons.injEq,
      Token.string.injEq, true_and] at same
    rcases same with ⟨rfl, same⟩
    rcases eq_of_tokens_append v w same with ⟨rfl, later⟩
    rcases eq_of_memberTokens_append ms ns later with ⟨rfl, rest⟩
    exact ⟨rfl, rest⟩

end

theorem eq_of_tokens {v w : Json} (same : tokens v = tokens w) : v = w :=
  (eq_of_tokens_append v w (congrArg (· ++ []) same)).1

/-! ## Numbers in the tokens of a value -/

/-- Tokens that may follow a number. -/
def FollowNumber (ts : List Token) : Prop :=
  NumbersApart ts ∧ ∀ t ∈ ts.head?, t.isNumber = false

theorem FollowNumber.cons {t : Token} {ts : List Token} (other : t.isNumber = false)
    (apart : NumbersApart ts) : FollowNumber (t :: ts) := by
  refine ⟨List.isChain_cons.2 ⟨fun s _ number => ?_, apart⟩, fun s first => ?_⟩
  · exact absurd (number.symm.trans other) nofun
  · obtain rfl := Option.some.inj first
    exact other

mutual

theorem apart_tokens_append (v : Json) {rest : List Token} (later : FollowNumber rest) :
    NumbersApart (tokens v ++ rest) := by
  match v with
  | number _ => exact List.isChain_cons.2 ⟨fun t first _ => later.2 t first, later.1⟩
  | null | bool _ | string _ => exact (FollowNumber.cons rfl later.1).1
  | array [] | object [] => exact (FollowNumber.cons rfl (FollowNumber.cons rfl later.1).1).1
  | array (v :: vs) =>
    simp only [tokens, List.cons_append, List.append_assoc]
    refine (FollowNumber.cons rfl (apart_tokens_append v ?_)).1
    exact followNumber_itemTokens_append vs (.cons rfl later.1)
  | object ((_, v) :: ms) =>
    simp only [tokens, List.cons_append, List.append_assoc]
    refine (FollowNumber.cons rfl (FollowNumber.cons rfl
      (FollowNumber.cons rfl (apart_tokens_append v ?_)).1).1).1
    exact followNumber_memberTokens_append ms (.cons rfl later.1)

theorem followNumber_itemTokens_append (vs : List Json) {rest : List Token}
    (later : FollowNumber rest) : FollowNumber (itemTokens vs ++ rest) := by
  match vs with
  | [] => exact later
  | v :: vs =>
    simp only [itemTokens, List.cons_append, List.append_assoc]
    exact .cons rfl (apart_tokens_append v (followNumber_itemTokens_append vs later))

theorem followNumber_memberTokens_append (ms : List (String × Json)) {rest : List Token}
    (later : FollowNumber rest) : FollowNumber (memberTokens ms ++ rest) := by
  match ms with
  | [] => exact later
  | (_, v) :: ms =>
    simp only [memberTokens, List.cons_append, List.append_assoc]
    exact .cons rfl (FollowNumber.cons rfl (FollowNumber.cons rfl
      (apart_tokens_append v (followNumber_memberTokens_append ms later))).1).1

end

theorem apart_tokens (v : Json) : NumbersApart (tokens v) := by
  rw [← List.append_nil (tokens v)]
  exact apart_tokens_append v ⟨.nil, nofun⟩

/-! ## What the machine reads -/

namespace Machine

def run (m : Machine) (ts : List Token) : Option Machine := ts.foldlM step m

theorem run_cons {m n : Machine} {t : Token} (stepped : step m t = some n) (ts : List Token) :
    run m (t :: ts) = run n ts := by
  rw [run, List.foldlM_cons, stepped]
  rfl

theorem run_cons_none {m : Machine} {t : Token} (stuck : step m t = none) (ts : List Token) :
    run m (t :: ts) = none := by
  rw [run, List.foldlM_cons, stuck]
  rfl

/-- Two bounds in turn are a bound on the greater one. -/
theorem ite_within {α : Type} {a b whole bound : Nat} {x : Option α} (h : whole = max a b) :
    (if a ≤ bound then if b ≤ bound then x else none else none) =
      if whole ≤ bound then x else none := by
  subst h
  simp only [Nat.max_le]
  by_cases left : a ≤ bound <;> simp [left]

mutual

/-- The machine reads a value that lies within its depth. -/
theorem run_tokens (v : Json) {stack : List Frame} (room : stack.length ≤ maxDepth)
    (mayClose : Bool) (rest : List Token) :
    run ⟨stack, .value mayClose⟩ (tokens v ++ rest) =
      if stack.length + depth v ≤ maxDepth then run ⟨stack, .after v⟩ rest else none := by
  match v with
  | null | bool _ | number _ | string _ =>
    rw [depth, Nat.add_zero, if_pos room]
    · exact run_cons rfl rest
    all_goals nofun
  | array vs =>
    rw [depth]
    by_cases deeper : stack.length < maxDepth
    · have opened : step ⟨stack, .value mayClose⟩ .bracketOpen =
          some ⟨.array [] :: stack, .value true⟩ := if_pos deeper
      match vs with
      | [] =>
        rw [itemDepth, if_pos (Nat.succ_le_of_lt deeper)]
        exact (run_cons opened _).trans (run_cons rfl rest)
      | v :: vs =>
        simp only [tokens, List.cons_append, List.append_assoc, List.nil_append, itemDepth]
        have inside : (Frame.array [] :: stack).length ≤ maxDepth := deeper
        rw [run_cons opened, run_tokens v inside, run_itemTokens v vs [] deeper]
        exact ite_within (by rw [List.length_cons]; omega)
    · have stuck : step ⟨stack, .value mayClose⟩ .bracketOpen = none := if_neg deeper
      rcases exists_tokens_eq (array vs) with ⟨ts, whole⟩
      rw [whole, if_neg (by omega)]
      exact run_cons_none stuck _
  | object ms =>
    rw [depth]
    by_cases deeper : stack.length < maxDepth
    · have opened : step ⟨stack, .value mayClose⟩ .braceOpen =
          some ⟨stack, .key [] true⟩ := if_pos deeper
      match ms with
      | [] =>
        rw [memberDepth, if_pos (Nat.succ_le_of_lt deeper)]
        exact (run_cons opened _).trans (run_cons rfl rest)
      | (key, v) :: ms =>
        simp only [tokens, List.cons_append, List.append_assoc, List.nil_append, memberDepth]
        have inside : (Frame.object [] key :: stack).length ≤ maxDepth := deeper
        rw [run_cons opened, run_cons rfl, run_cons rfl, run_tokens v inside,
          run_memberTokens key v ms [] deeper]
        exact ite_within (by rw [List.length_cons]; omega)
    · have stuck : step ⟨stack, .value mayClose⟩ .braceOpen = none := if_neg deeper
      rcases exists_tokens_eq (object ms) with ⟨ts, whole⟩
      rw [whole, if_neg (by omega)]
      exact run_cons_none stuck _

theorem run_itemTokens (v : Json) (vs : List Json) (items : List Json) {below : List Frame}
    (room : below.length < maxDepth) (rest : List Token) :
    run ⟨.array items :: below, .after v⟩ (itemTokens vs ++ .bracketClose :: rest) =
      if below.length + 1 + itemDepth vs ≤ maxDepth then
        run ⟨below, .after (.array (items.reverse ++ v :: vs))⟩ rest
      else none := by
  match vs with
  | [] =>
    rw [itemDepth, if_pos (by omega), ← List.reverse_cons]
    exact run_cons rfl rest
  | w :: ws =>
    simp only [itemTokens, List.cons_append, List.append_assoc, itemDepth]
    have inside : (Frame.array (v :: items) :: below).length ≤ maxDepth := room
    rw [run_cons rfl, run_tokens w inside, run_itemTokens w ws (v :: items) room,
      List.reverse_cons, List.append_assoc, List.singleton_append]
    exact ite_within (by rw [List.length_cons]; omega)

theorem run_memberTokens (key : String) (v : Json) (ms members : List (String × Json))
    {below : List Frame} (room : below.length < maxDepth) (rest : List Token) :
    run ⟨.object members key :: below, .after v⟩ (memberTokens ms ++ .braceClose :: rest) =
      if below.length + 1 + memberDepth ms ≤ maxDepth then
        run ⟨below, .after (.object (members.reverse ++ (key, v) :: ms))⟩ rest
      else none := by
  match ms with
  | [] =>
    rw [memberDepth, if_pos (by omega), ← List.reverse_cons]
    exact run_cons rfl rest
  | (key', w) :: ms =>
    simp only [memberTokens, List.cons_append, List.append_assoc, memberDepth]
    have inside : (Frame.object ((key, v) :: members) key' :: below).length ≤ maxDepth := room
    rw [run_cons rfl, run_cons rfl, run_cons rfl, run_tokens w inside,
      run_memberTokens key' w ms ((key, v) :: members) room, List.reverse_cons,
      List.append_assoc, List.singleton_append]
    exact ite_within (by rw [List.length_cons]; omega)

end

/-! ### What a machine has read -/

/-- Items with a comma behind each. -/
def itemsSoFar (items : List Json) : List Token := items.flatMap fun v => tokens v ++ [.comma]

/-- Members with a comma behind each. -/
def membersSoFar (ms : List (String × Json)) : List Token :=
  ms.flatMap fun m => .string m.1 :: .colon :: (tokens m.2 ++ [.comma])

def frameTokens : Frame → List Token
  | .array items => .bracketOpen :: itemsSoFar items.reverse
  | .object ms key => .braceOpen :: (membersSoFar ms.reverse ++ [.string key, .colon])

def phaseTokens : Phase → List Token
  | .value _ => []
  | .key ms _ => .braceOpen :: membersSoFar ms.reverse
  | .colon ms key => .braceOpen :: (membersSoFar ms.reverse ++ [.string key])
  | .after v => tokens v

def stackTokens (stack : List Frame) : List Token := stack.reverse.flatMap frameTokens

def consumed (m : Machine) : List Token := stackTokens m.stack ++ phaseTokens m.phase

/-- A list or an object may be closed without a value only while it has none. -/
def Consistent (m : Machine) : Prop :=
  match m.phase with
  | .value true => ∃ below, m.stack = .array [] :: below
  | .key ms true => ms = []
  | _ => True

theorem stackTokens_cons (f : Frame) (below : List Frame) :
    stackTokens (f :: below) = stackTokens below ++ frameTokens f := by
  rw [stackTokens, List.reverse_cons, List.flatMap_append, List.flatMap_singleton]
  rfl

theorem tokens_append_itemTokens (v w : Json) (vs : List Json) :
    tokens v ++ itemTokens (vs ++ [w]) = itemsSoFar (v :: vs) ++ tokens w := by
  induction vs generalizing v with
  | nil => simp [itemTokens, itemsSoFar]
  | cons u us ih =>
    rw [List.cons_append, itemTokens, ih, itemsSoFar, itemsSoFar, List.flatMap_cons]
    simp

theorem tokens_append_memberTokens (key key' : String) (v w : Json) (ms : List (String × Json)) :
    .string key :: .colon :: (tokens v ++ memberTokens (ms ++ [(key', w)])) =
      membersSoFar ((key, v) :: ms) ++ .string key' :: .colon :: tokens w := by
  induction ms generalizing key v with
  | nil => simp [memberTokens, membersSoFar]
  | cons m ms ih =>
    rw [List.cons_append, memberTokens, ih, membersSoFar, membersSoFar, List.flatMap_cons]
    simp

/-- The tokens of a list by its last item. -/
theorem tokens_array_append (vs : List Json) (w : Json) :
    tokens (.array (vs ++ [w])) =
      .bracketOpen :: (itemsSoFar vs ++ (tokens w ++ [.bracketClose])) := by
  cases vs with
  | nil => simp [tokens, itemTokens, itemsSoFar]
  | cons v vs =>
    rw [List.cons_append, tokens, ← List.append_assoc, tokens_append_itemTokens, List.append_assoc]

theorem tokens_object_append (ms : List (String × Json)) (key : String) (w : Json) :
    tokens (.object (ms ++ [(key, w)])) =
      .braceOpen :: (membersSoFar ms ++ .string key :: .colon :: (tokens w ++ [.braceClose])) := by
  cases ms with
  | nil => simp [tokens, memberTokens, membersSoFar]
  | cons m ms =>
    have := congrArg (· ++ [Token.braceClose]) (tokens_append_memberTokens m.1 key m.2 w ms)
    simp only [List.cons_append, List.append_assoc] at this
    rw [List.cons_append, tokens, this]

theorem readValue_consumed {stack : List Frame} {mayClose : Bool} {n : Machine} {t : Token}
    (consistent : Consistent ⟨stack, .value mayClose⟩)
    (stepped : readValue stack mayClose t = some n) :
    n.Consistent ∧ n.consumed = stackTokens stack ++ [t] := by
  cases t with
  | null | bool _ | number _ | string _ =>
    obtain rfl := Option.some.inj stepped
    exact ⟨trivial, by simp [consumed, phaseTokens, tokens]⟩
  | bracketOpen =>
    rcases Option.ite_none_right_eq_some.1 stepped with ⟨_, opened⟩
    obtain rfl := Option.some.inj opened
    exact ⟨⟨stack, rfl⟩,
      by simp [consumed, phaseTokens, stackTokens_cons, frameTokens, itemsSoFar]⟩
  | braceOpen =>
    rcases Option.ite_none_right_eq_some.1 stepped with ⟨_, opened⟩
    obtain rfl := Option.some.inj opened
    exact ⟨rfl, by simp [consumed, phaseTokens, membersSoFar]⟩
  | bracketClose =>
    cases mayClose with
    | false => cases stepped
    | true =>
      rcases consistent with ⟨below, rfl⟩
      obtain rfl := Option.some.inj stepped
      exact ⟨trivial,
        by simp [consumed, phaseTokens, stackTokens_cons, frameTokens, itemsSoFar, tokens]⟩
  | _ => cases stepped

theorem readAfter_consumed {stack : List Frame} {v : Json} {n : Machine} {t : Token}
    (stepped : readAfter stack v t = some n) :
    n.Consistent ∧ n.consumed = stackTokens stack ++ (tokens v ++ [t]) := by
  unfold readAfter at stepped
  split at stepped
  · obtain rfl := Option.some.inj stepped
    exact ⟨trivial,
      by simp [consumed, phaseTokens, stackTokens_cons, frameTokens, itemsSoFar]⟩
  · obtain rfl := Option.some.inj stepped
    refine ⟨trivial, ?_⟩
    simp [consumed, phaseTokens, stackTokens_cons, frameTokens, tokens_array_append]
  · obtain rfl := Option.some.inj stepped
    exact ⟨trivial,
      by simp [consumed, phaseTokens, stackTokens_cons, frameTokens, membersSoFar]⟩
  · obtain rfl := Option.some.inj stepped
    refine ⟨trivial, ?_⟩
    simp [consumed, phaseTokens, stackTokens_cons, frameTokens, tokens_object_append]
  · cases stepped

theorem step_consumed {m n : Machine} {t : Token} (consistent : m.Consistent)
    (stepped : step m t = some n) : n.Consistent ∧ n.consumed = m.consumed ++ [t] := by
  rcases m with ⟨stack, phase⟩
  cases phase with
  | value mayClose =>
    change n.Consistent ∧ n.consumed = stackTokens stack ++ [] ++ [t]
    rw [List.append_nil]
    exact readValue_consumed consistent stepped
  | key ms mayClose =>
    cases t with
    | string key =>
      obtain rfl := Option.some.inj stepped
      exact ⟨trivial, by simp [consumed, phaseTokens]⟩
    | braceClose =>
      cases mayClose with
      | false => cases stepped
      | true =>
        obtain rfl : ms = [] := consistent
        obtain rfl := Option.some.inj stepped
        exact ⟨trivial, by simp [consumed, phaseTokens, membersSoFar, tokens]⟩
    | _ => cases mayClose <;> cases stepped
  | colon ms key =>
    cases t with
    | colon =>
      obtain rfl := Option.some.inj stepped
      exact ⟨trivial, by simp [consumed, phaseTokens, stackTokens_cons, frameTokens]⟩
    | _ => cases stepped
  | after v =>
    change n.Consistent ∧ n.consumed = stackTokens stack ++ tokens v ++ [t]
    rw [List.append_assoc]
    exact readAfter_consumed stepped

theorem run_consumed {m n : Machine} {ts : List Token} (consistent : m.Consistent)
    (ran : run m ts = some n) : n.Consistent ∧ n.consumed = m.consumed ++ ts := by
  induction ts generalizing m with
  | nil =>
    obtain rfl := Option.some.inj ran
    exact ⟨consistent, (List.append_nil _).symm⟩
  | cons t ts ih =>
    cases stepped : step m t with
    | none => rw [run_cons_none stepped] at ran; cases ran
    | some m' =>
      rw [run_cons stepped] at ran
      have one := step_consumed consistent stepped
      have later := ih one.1 ran
      exact ⟨later.1, by rw [later.2, one.2, List.append_assoc, List.singleton_append]⟩

end Machine

/-! ## What a reader accepts -/

theorem ofTokens?_tokens (v : Json) :
    ofTokens? (tokens v) = if depth v ≤ Machine.maxDepth then some v else none := by
  have shallow : ([] : List Frame).length ≤ Machine.maxDepth := Nat.zero_le _
  have reached := Machine.run_tokens v shallow false []
  rw [List.append_nil, List.length_nil, Nat.zero_add] at reached
  change (Machine.run _ (tokens v)).bind Machine.result? = _
  rw [Machine.initial, reached]
  split <;> rfl

theorem ofTokens?_eq_some_iff {ts : List Token} {v : Json} :
    ofTokens? ts = some v ↔ ts = tokens v ∧ depth v ≤ Machine.maxDepth := by
  constructor
  · intro read
    rcases Option.bind_eq_some_iff.1 read with ⟨⟨stack, phase⟩, ran, result⟩
    match stack, phase with
    | [], .after w =>
      obtain rfl : w = v := Option.some.inj result
      obtain rfl : tokens w = ts :=
        (Machine.run_consumed (m := Machine.initial) trivial ran).2
      rw [ofTokens?_tokens] at read
      exact ⟨rfl, (Option.ite_none_right_eq_some.1 read).1⟩
  · rintro ⟨rfl, shallow⟩
    rw [ofTokens?_tokens, if_pos shallow]

/-- A text that is laid out as the tokens of a value, whatever its depth. -/
def Strict (v : Json) (text : String) : Prop :=
  ∃ ls, ls.map Lexeme.token = tokens v ∧ LaidStrictly ls text.toList

theorem Strict.unique {v w : Json} {text : String} (left : Strict v text) (right : Strict w text) :
    v = w := by
  have readsAs : ∀ {u : Json}, Strict u text → Token.all? text.toList = some (tokens u) :=
    fun laid => (all?_eq_some_iff (apart_tokens _)).2 laid
  exact eq_of_tokens (Option.some.inj ((readsAs left).symm.trans (readsAs right)))

theorem parse?_eq_some_iff {text : String} {v : Json} :
    parse? text = some v ↔ Strict v text ∧ depth v ≤ Machine.maxDepth := by
  rw [parse?, Option.bind_eq_some_iff]
  constructor
  · rintro ⟨ts, all, read⟩
    rcases ofTokens?_eq_some_iff.1 read with ⟨rfl, shallow⟩
    exact ⟨(all?_eq_some_iff (apart_tokens v)).1 all, shallow⟩
  · rintro ⟨laid, shallow⟩
    exact ⟨tokens v, (all?_eq_some_iff (apart_tokens v)).2 laid,
      ofTokens?_eq_some_iff.2 ⟨rfl, shallow⟩⟩

end ThemeMigration.Json
