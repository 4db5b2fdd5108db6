import Mathlib.Data.List.Dedup
import Mathlib.Data.List.Perm.Basic
import ThemeMigration.Proofs.Config.Tables
import ThemeMigration.Proofs.Text.Bytes
import ThemeMigration.Proofs.Text.Trimming
import ThemeMigration.TokenTable

/-!
# Project colours over the defaults

Several keys of a project can have one normal form.  Entries are put into the table in the order of
their keys, so the last of these keys decides, and the default entry counts only where the project
has none.  The first entry that is no colour or has a blank expression is the error.
-/

namespace ThemeMigration

/-! ## Entries put one after the other -/

namespace KeyTable

variable {α : Type}

theorem putAll_append (t : KeyTable α) (front back : List (String × α)) :
    t.putAll (front ++ back) = (t.putAll front).putAll back := List.foldl_append ..

/-- The last entry for a key decides, and without one the table as it was. -/
theorem get?_putAll (t : KeyTable α) (entries : List (String × α)) (key : String) :
    (t.putAll entries).get? key =
      ((entries.reverse.find? fun e => e.1 == key).map (·.2)).or (t.get? key) := by
  induction entries generalizing t with
  | nil => rfl
  | cons e entries ih =>
    change ((t.put e.1 e.2).putAll entries).get? key = _
    rw [ih, get?_put, List.reverse_cons, List.find?_append]
    cases entries.reverse.find? fun e => e.1 == key with
    | some d => rfl
    | none =>
      by_cases same : e.1 = key
      · simp [same]
      · simp [same]

theorem get?_ofList (entries : List (String × α)) (key : String) :
    (ofList entries).get? key = (entries.reverse.find? fun e => e.1 == key).map (·.2) := by
  rw [ofList, get?_putAll, get?_empty, Option.or_none]

theorem isSome_get?_iff (t : KeyTable α) (key : String) :
    (t.get? key).isSome = true ↔ key ∈ t.entries.map Prod.fst := by
  simp [get?, List.find?_isSome]

theorem keys_nodup (t : KeyTable α) : (t.entries.map Prod.fst).Nodup := by
  rw [List.nodup_iff_pairwise_ne, List.pairwise_map]
  refine t.ordered.imp fun {a b} less same => ?_
  rw [same] at less
  exact String.lt_irrefl _ less

/-- A table of given entries has one for each key among them. -/
theorem size_ofList (entries : List (String × α)) :
    (ofList entries).size = (entries.map Prod.fst).dedup.length := by
  rw [size, ← List.length_map Prod.fst]
  apply List.Perm.length_eq
  refine (List.perm_ext_iff_of_nodup (keys_nodup _) (List.nodup_dedup _)).2 fun key => ?_
  rw [← isSome_get?_iff, get?_ofList, List.mem_dedup]
  simp [List.find?_isSome]

/-- Of entries in order, the greatest one that passes a test is the first one from behind. -/
theorem find?_reverse_eq_some {entries : List (String × α)} {p : String × α → Bool}
    {e : String × α} (ordered : entries.Pairwise fun a b => a.1 < b.1) (member : e ∈ entries)
    (passes : p e = true) (last : ∀ d ∈ entries, p d = true → ¬ e.1 < d.1) :
    entries.reverse.find? p = some e := by
  rcases List.append_of_mem member with ⟨front, back, rfl⟩
  have behind := (List.pairwise_append.1 ordered).2.1
  have none : back.reverse.find? p = none := by
    refine List.find?_eq_none.2 fun d inBack holds => ?_
    have found := List.mem_reverse.1 inBack
    exact last d (by simp [found]) holds ((List.pairwise_cons.1 behind).1 d found)
  simp [none, passes]

/-- In a list without equal keys it does not matter from which end a key is looked up. -/
theorem find?_reverse_eq_lookup {entries : List (String × α)}
    (ordered : entries.Pairwise fun a b => a.1 < b.1) (key : String) :
    (entries.reverse.find? fun e => e.1 == key).map (·.2) = entries.lookup key := by
  cases found : entries.lookup key with
  | none =>
    have none : entries.reverse.find? (fun e => e.1 == key) = none := by
      refine List.find?_eq_none.2 fun e member same => ?_
      rw [List.lookup_eq_none_iff] at found
      have other := found e (List.mem_reverse.1 member)
      rw [eq_of_beq same] at other
      simp at other
    rw [none, Option.map_none]
  | some value =>
    rcases List.lookup_eq_some_iff.1 found with ⟨front, back, rfl, _⟩
    rw [find?_reverse_eq_some ordered (List.mem_append_right _ List.mem_cons_self)
      (beq_self_eq_true key), Option.map_some]
    intro d _ same
    rw [eq_of_beq same]
    exact String.lt_irrefl _

end KeyTable

namespace TokenTable

/-! ## Colours and their expressions -/

/-- A number sign with three, four, six or eight hexadecimal digits behind it. -/
def NamesColor (s : String) : Prop :=
  ∃ digits, s.toList = '#' :: digits ∧ digits.length ∈ [3, 4, 6, 8] ∧
    ∀ d ∈ digits, ('0' ≤ d ∧ d ≤ '9') ∨ ('a' ≤ d ∧ d ≤ 'f') ∨ ('A' ≤ d ∧ d ≤ 'F')

theorem isHexDigit_iff (d : Char) :
    isHexDigit d = true ↔
      ('0' ≤ d ∧ d ≤ '9') ∨ ('a' ≤ d ∧ d ≤ 'f') ∨ ('A' ≤ d ∧ d ≤ 'F') := by
  have digit : d.isDigit = true ↔ '0' ≤ d ∧ d ≤ '9' := by
    rw [Char.isDigit, Bool.and_eq_true, decide_eq_true_eq, decide_eq_true_eq]
    exact Iff.rfl
  simp only [isHexDigit, Bool.or_eq_true, Bool.and_eq_true, decide_eq_true_eq, digit, or_assoc]

theorem isHexColor_iff (s : String) : isHexColor s = true ↔ NamesColor s := by
  unfold isHexColor NamesColor
  constructor
  · intro color
    split at color
    · rename_i digits chars
      rw [Bool.and_eq_true, List.contains_iff_mem, List.all_eq_true] at color
      exact ⟨digits, chars, color.1, fun d member => (isHexDigit_iff d).1 (color.2 d member)⟩
    · cases color
  · rintro ⟨digits, chars, count, hex⟩
    rw [chars]
    change ([3, 4, 6, 8].contains digits.length && digits.all isHexDigit) = true
    rw [Bool.and_eq_true, List.contains_iff_mem, List.all_eq_true]
    exact ⟨count, fun d member => (isHexDigit_iff d).2 (hex d member)⟩

/-- The normal form does not depend on the case of ASCII letters. -/
theorem normalForm_eq (s : String) : normalForm s = Text.trim (Text.lowerAscii s) :=
  Text.lowerAscii_trim s

theorem normalForm_append {front back : String} (blankFront : Text.allBlank front = true)
    (blankBack : Text.allBlank back = true) (s : String) :
    normalForm (front ++ s ++ back) = normalForm s := by
  rw [normalForm, normalForm, Text.trim_append blankFront blankBack]

/-! ## Faults -/

/-- An entry that a table takes. -/
def IsSound (e : String × String) : Prop :=
  NamesColor (normalForm e.1) ∧ Text.allBlank e.2 = false

/-- What is said of an entry that no table takes; the key is looked at first. -/
inductive IsFaultOf (e : String × String) : ConfigError → Prop
  | key : ¬ NamesColor (normalForm e.1) →
      IsFaultOf e (.validationFailed ("mapping.colors.\"" ++ e.1 ++ "\"")
        "keys must be #rgb, #rgba, #rrggbb or #rrggbbaa")
  | expression : NamesColor (normalForm e.1) → Text.allBlank e.2 = true →
      IsFaultOf e (.validationFailed ("mapping.colors.\"" ++ e.1 ++ "\"")
        "token expression must not be empty")

theorem entryFault?_eq_some_iff {e : String × String} {fault : ConfigError} :
    entryFault? "mapping.colors" e.1 e.2 = some fault ↔ IsFaultOf e fault := by
  rw [entryFault?]
  constructor
  · intro found
    split at found
    · rename_i other
      cases found
      exact .key fun color => by simp [(isHexColor_iff _).2 color] at other
    · rename_i color
      split at found
      · rename_i blank
        cases found
        exact .expression ((isHexColor_iff _).1 (by simpa using color)) blank
      · cases found
  · rintro (other | ⟨color, blank⟩)
    · have no : isHexColor (normalForm e.1) = false :=
        Bool.eq_false_iff.2 fun color => other ((isHexColor_iff _).1 color)
      simp [no]
    · simp [(isHexColor_iff _).2 color, blank]

theorem entryFault?_eq_none_iff {field : String} {e : String × String} :
    entryFault? field e.1 e.2 = none ↔ IsSound e := by
  rw [entryFault?, IsSound, ← isHexColor_iff]
  cases isHexColor (normalForm e.1) <;> cases Text.allBlank e.2 <;> simp

/-- Entries are put into a table if none has a fault. -/
theorem exists_extend_iff {field : String} {table : TokenTable}
    {entries : List (String × String)} :
    (∃ table', table.extend field entries = .ok table') ↔
      ∀ e ∈ entries, entryFault? field e.1 e.2 = none := by
  induction entries generalizing table with
  | nil => exact ⟨fun _ => List.forall_mem_nil _, fun _ => ⟨table, rfl⟩⟩
  | cons e entries ih =>
    rcases e with ⟨key, expression⟩
    unfold extend
    rw [List.forall_mem_cons]
    cases entryFault? field key expression with
    | none => simp [ih]
    | some e => simp

/-- The first entry with a fault is the error. -/
theorem extend_eq_error_iff {field : String} {table : TokenTable}
    {entries : List (String × String)} {fault : ConfigError} :
    table.extend field entries = .error fault ↔
      ∃ front e back, entries = front ++ e :: back ∧
        (∀ d ∈ front, entryFault? field d.1 d.2 = none) ∧
          entryFault? field e.1 e.2 = some fault := by
  induction entries generalizing table with
  | nil =>
    constructor
    · nofun
    · rintro ⟨front, e, back, split, -⟩
      cases front <;> cases split
  | cons e entries ih =>
    rcases e with ⟨key, expression⟩
    unfold extend
    cases found : entryFault? field key expression with
    | some first =>
      constructor
      · intro failed
        cases failed
        exact ⟨[], (key, expression), entries, rfl, List.forall_mem_nil _, found⟩
      · rintro ⟨front, e, back, split, fine, faulty⟩
        cases front with
        | nil =>
          cases split
          exact congrArg _ (Option.some.inj (found.symm.trans faulty))
        | cons d front =>
          cases split
          have taken : entryFault? field key expression = none :=
            fine (key, expression) List.mem_cons_self
          rw [taken] at found
          cases found
    | none =>
      dsimp only
      rw [ih]
      constructor
      · rintro ⟨front, e, back, rfl, fine, faulty⟩
        exact ⟨(key, expression) :: front, e, back, rfl,
          List.forall_mem_cons.2 ⟨found, fine⟩, faulty⟩
      · rintro ⟨front, e, back, split, fine, faulty⟩
        cases front with
        | nil =>
          cases split
          rw [found] at faulty
          cases faulty
        | cons d front =>
          cases split
          exact ⟨front, e, back, rfl, (List.forall_mem_cons.1 fine).2, faulty⟩

/-! ## The table of a configuration -/

/-- An entry as a table holds it. -/
def normalEntry (e : String × String) : String × String := (normalForm e.1, Text.trim e.2)

theorem extend_eq_ok {field : String} {entries : List (String × String)}
    (sound : ∀ e ∈ entries, IsSound e) (table : TokenTable) :
    table.extend field entries = .ok ⟨table.entries.putAll (entries.map normalEntry)⟩ := by
  induction entries generalizing table with
  | nil => rfl
  | cons e entries ih =>
    rcases List.forall_mem_cons.1 sound with ⟨first, rest⟩
    rcases e with ⟨key, expression⟩
    have taken : entryFault? field key expression = none :=
      entryFault?_eq_none_iff (e := (key, expression)).2 first
    unfold extend
    rw [taken]
    exact ih rest _

/-- Whether an entry, given as characters, is sound and kept as it stands. -/
def isPlain (e : List Char × List Char) : Bool :=
  (Text.trimChars e.1).map Char.toLower == e.1 && isHexColor (String.ofList e.1) &&
    Text.trimChars e.2 == e.2 && !e.2.all Text.isBlank

theorem defaultEntries_isPlain :
    (let entries := defaultEntries.map fun e => (e.1.toList, e.2.toList)
    decide (entries.IsChain fun a b => a.1 < b.1) && entries.all isPlain) = true := by
  -- The texts are read once; on their characters the checks are quick.
  simp only [defaultEntries, List.map_cons, List.map_nil, String.reduceToList]
  decide +kernel

theorem defaultEntries_ordered : defaultEntries.Pairwise fun a b => a.1 < b.1 := by
  have chain := of_decide_eq_true (Bool.and_eq_true_iff.1 defaultEntries_isPlain).1
  exact (List.pairwise_map.1 chain.pairwise).imp String.lt_iff.2

/-- The default entries are in order, so the table holds them as they stand. -/
theorem defaults_eq : defaults = ⟨⟨defaultEntries, defaultEntries_ordered⟩⟩ :=
  congrArg mk (KeyTable.ofList_entries ⟨defaultEntries, defaultEntries_ordered⟩)

theorem normalEntry_default {e : String × String} (member : e ∈ defaultEntries) :
    normalEntry e = e ∧ NamesColor e.1 ∧ Text.allBlank e.2 = false := by
  have plain := List.all_eq_true.1 (Bool.and_eq_true_iff.1 defaultEntries_isPlain).2 _
    (List.mem_map_of_mem member)
  simp only [isPlain, Bool.and_eq_true, beq_iff_eq, Bool.not_eq_true', String.ofList_toList]
    at plain
  rcases plain with ⟨⟨⟨key, color⟩, expression⟩, ink⟩
  refine ⟨Prod.ext ?_ ?_, (isHexColor_iff _).1 color, ink⟩
  · rw [normalEntry, normalForm, Text.lowerAscii, Text.trim, String.toList_ofList, key,
      String.ofList_toList]
  · rw [normalEntry, Text.trim, expression, String.ofList_toList]

theorem normalForm_default {e : String × String} (member : e ∈ defaultEntries) :
    normalForm e.1 = e.1 := by
  have same := congrArg Prod.fst (normalEntry_default member).1
  rwa [normalEntry] at same

/-- The default table takes its entries, and takes them as they stand. -/
theorem extend_defaultEntries :
    empty.extend "mapping.defaults" defaultEntries = .ok defaults := by
  have sound : ∀ e ∈ defaultEntries, IsSound e := by
    intro e member
    rw [IsSound, normalForm_default member]
    exact (normalEntry_default member).2
  have same : defaultEntries.map normalEntry = defaultEntries :=
    (List.map_congr_left fun e member => (normalEntry_default member).1).trans (List.map_id' _)
  rw [extend_eq_ok sound, same]
  rfl

/-- No default entry is refused, so only the project's entries can be. -/
theorem ofConfig_eq (c : Config.Mapping) :
    ofConfig c = (if c.includeDefaults.getD true then defaults else empty).extend "mapping.colors"
      c.colors.entries := by
  rw [ofConfig]
  cases c.includeDefaults.getD true with
  | true =>
    rw [if_pos rfl, if_pos rfl, extend_defaultEntries]
    rfl
  | false => rfl

theorem exists_ofConfig_iff {c : Config.Mapping} :
    (∃ table, ofConfig c = .ok table) ↔
      ∀ e ∈ c.colors.entries, entryFault? "mapping.colors" e.1 e.2 = none := by
  rw [ofConfig_eq]
  exact exists_extend_iff

/-- The default entries that a configuration starts from. -/
def baseEntries (c : Config.Mapping) : List (String × String) :=
  if c.includeDefaults.getD true then defaultEntries else []

theorem baseEntries_subset {c : Config.Mapping} {e : String × String} (member : e ∈ baseEntries c) :
    e ∈ defaultEntries := by
  rw [baseEntries] at member
  split at member
  · exact member
  · cases member

/-- The table of a configuration without faults. -/
def tableOf (c : Config.Mapping) : TokenTable :=
  ⟨.ofList (baseEntries c ++ c.colors.entries.map normalEntry)⟩

theorem ofConfig_eq_ok {c : Config.Mapping} (sound : ∀ e ∈ c.colors.entries, IsSound e) :
    ofConfig c = .ok (tableOf c) := by
  rw [ofConfig_eq, extend_eq_ok sound, tableOf, baseEntries, KeyTable.ofList,
    KeyTable.putAll_append]
  cases c.includeDefaults.getD true <;> rfl

theorem exists_ofConfig_eq_error {c : Config.Mapping} :
    (∃ fault, ofConfig c = .error fault) ↔ ∃ e ∈ c.colors.entries, ¬ IsSound e := by
  have sound : (∀ e ∈ c.colors.entries, IsSound e) ↔ ∃ t, ofConfig c = .ok t := by
    rw [exists_ofConfig_iff]
    exact forall₂_congr fun e _ => entryFault?_eq_none_iff.symm
  have faulty : (∃ e ∈ c.colors.entries, ¬ IsSound e) ↔ ¬ ∃ t, ofConfig c = .ok t := by
    rw [← sound, not_forall]
    simp only [Classical.not_imp]
  rw [faulty]
  cases ofConfig c <;> simp

/-! ## Looking colours up -/

/-- The last entry of the project with the normal form of a literal, or the default one. -/
theorem lookup?_tableOf (c : Config.Mapping) (l : String) :
    (tableOf c).lookup? l =
      ((c.colors.entries.reverse.find? fun e => normalForm e.1 == normalForm l).map
        fun e => Text.trim e.2).or
          (((baseEntries c).reverse.find? fun e => e.1 == normalForm l).map (·.2)) := by
  rw [tableOf, lookup?, KeyTable.get?_ofList, List.reverse_append, List.find?_append,
    Option.map_or, ← List.map_reverse, List.find?_map, Option.map_map]
  rfl

theorem lookup?_default (c : Config.Mapping) (l : String) :
    ((baseEntries c).reverse.find? fun e => e.1 == normalForm l).map (·.2) =
      if c.includeDefaults.getD true then defaultEntries.lookup (normalForm l) else none := by
  rw [baseEntries]
  split
  · exact KeyTable.find?_reverse_eq_lookup defaultEntries_ordered _
  · rfl

theorem sound_of_lookup? {c : Config.Mapping} (sound : ∀ e ∈ c.colors.entries, IsSound e)
    {l expression : String} (found : (tableOf c).lookup? l = some expression) :
    NamesColor (normalForm l) ∧ Text.allBlank expression = false := by
  rw [lookup?_tableOf, Option.or_eq_some_iff, Option.map_eq_some_iff, Option.map_eq_some_iff]
    at found
  rcases found with ⟨e, passes, rfl⟩ | ⟨_, e, passes, rfl⟩
  · have facts := sound e (List.mem_reverse.1 (List.mem_of_find?_eq_some passes))
    have same := List.find?_some passes
    rw [beq_iff_eq] at same
    rw [← same]
    exact ⟨facts.1, Text.allBlank_trim facts.2⟩
  · have member := baseEntries_subset (List.mem_reverse.1 (List.mem_of_find?_eq_some passes))
    have same := List.find?_some passes
    rw [beq_iff_eq] at same
    rw [← same]
    exact (normalEntry_default member).2

theorem size_tableOf (c : Config.Mapping) :
    (tableOf c).size =
      ((baseEntries c ++ c.colors.entries).map fun e => normalForm e.1).dedup.length := by
  have keys : (baseEntries c ++ c.colors.entries.map normalEntry).map Prod.fst =
      (baseEntries c ++ c.colors.entries).map fun e => normalForm e.1 := by
    have base : (baseEntries c).map Prod.fst = (baseEntries c).map fun e => normalForm e.1 :=
      List.map_congr_left fun e member => (normalForm_default (baseEntries_subset member)).symm
    rw [List.map_append, List.map_append, List.map_map, base]
    rfl
  rw [tableOf, size, KeyTable.size_ofList, keys]

/-- What a table says of the entries of a configuration and of the defaults. -/
structure Overrides (c : Config.Mapping) (t : TokenTable) : Prop where
  /-- The bytewise last key with the normal form of a literal decides. -/
  project : ∀ l, ∀ e ∈ c.colors.entries, normalForm e.1 = normalForm l →
    (∀ d ∈ c.colors.entries, normalForm d.1 = normalForm l → ¬ Text.bytes e.1 < Text.bytes d.1) →
      t.lookup? l = some (Text.trim e.2)
  /-- Without such a key the defaults count, if the configuration includes them. -/
  default : ∀ l, (∀ e ∈ c.colors.entries, normalForm e.1 ≠ normalForm l) →
    t.lookup? l =
      if c.includeDefaults.getD true then defaultEntries.lookup (normalForm l) else none
  anyCase : ∀ l l', Text.lowerAscii l = Text.lowerAscii l' → t.lookup? l = t.lookup? l'
  anyBlanks : ∀ front l back, Text.allBlank front = true → Text.allBlank back = true →
    t.lookup? (front ++ l ++ back) = t.lookup? l
  sound : ∀ l expression, t.lookup? l = some expression →
    NamesColor (normalForm l) ∧ Text.allBlank expression = false
  size_eq : t.size =
    ((baseEntries c ++ c.colors.entries).map fun e => normalForm e.1).dedup.length

theorem overrides_tableOf {c : Config.Mapping} (sound : ∀ e ∈ c.colors.entries, IsSound e) :
    Overrides c (tableOf c) where
  project l e member same last := by
    have greatest := KeyTable.find?_reverse_eq_some
      (p := fun e => normalForm e.1 == normalForm l) c.colors.ordered member (beq_iff_eq.2 same)
      fun d inTable equal greater =>
        last d inTable (beq_iff_eq.1 equal) (Text.bytes_lt_iff.2 greater)
    rw [lookup?_tableOf, greatest]
    rfl
  default l none := by
    have absent : c.colors.entries.reverse.find? (fun e => normalForm e.1 == normalForm l) =
        Option.none :=
      List.find?_eq_none.2 fun e member same =>
        none e (List.mem_reverse.1 member) (beq_iff_eq.1 same)
    rw [lookup?_tableOf, absent, Option.map_none, Option.none_or, lookup?_default]
  anyCase l l' same := by rw [lookup?, lookup?, normalForm_eq, normalForm_eq, same]
  anyBlanks front l back blankFront blankBack := by
    rw [lookup?, lookup?, normalForm_append blankFront blankBack]
  sound l expression found := sound_of_lookup? sound found
  size_eq := size_tableOf c

/-- A configuration is refused for the bytewise first of its entries that no table takes.  Without
one its table holds the project's entries over the defaults, each under its normal form. -/
theorem ofConfig_overrides (c : Config.Mapping) :
    (∀ fault, ofConfig c = .error fault ↔
      ∃ e ∈ c.colors.entries, IsFaultOf e fault ∧
        ∀ d ∈ c.colors.entries, Text.bytes d.1 < Text.bytes e.1 → IsSound d) ∧
    ((∃ fault, ofConfig c = .error fault) ↔ ∃ e ∈ c.colors.entries, ¬ IsSound e) ∧
    ((∀ e ∈ c.colors.entries, IsSound e) → ∃ t, ofConfig c = .ok t ∧ Overrides c t) := by
  refine ⟨fun fault => ?_, exists_ofConfig_eq_error,
    fun sound => ⟨tableOf c, ofConfig_eq_ok sound, overrides_tableOf sound⟩⟩
  · have ordered := c.colors.ordered
    rw [ofConfig_eq, extend_eq_error_iff]
    constructor
    · rintro ⟨front, e, back, split, fine, faulty⟩
      rw [split] at ordered ⊢
      refine ⟨e, by simp, entryFault?_eq_some_iff.1 faulty, fun d member less => ?_⟩
      rw [Text.bytes_lt_iff] at less
      rcases List.mem_append.1 member with inFront | inBack
      · exact entryFault?_eq_none_iff.1 (fine d inFront)
      · rcases List.mem_cons.1 inBack with rfl | inBack
        · exact absurd less (String.lt_irrefl _)
        · have later := (List.pairwise_cons.1 (List.pairwise_append.1 ordered).2.1).1 d inBack
          exact absurd less (String.lt_asymm later)
    · rintro ⟨e, member, faulty, first⟩
      rcases List.append_of_mem member with ⟨front, back, split⟩
      refine ⟨front, e, back, split, fun d inFront => ?_, entryFault?_eq_some_iff.2 faulty⟩
      rw [split] at ordered first
      have earlier := (List.pairwise_append.1 ordered).2.2 d inFront e List.mem_cons_self
      exact entryFault?_eq_none_iff.2
        (first d (List.mem_append_left _ inFront) (Text.bytes_lt_iff.2 earlier))

/-- Two keys for white, and a literal that is like neither of them. -/
theorem ofConfig_overrides_twoWhites :
    let c : Config.Mapping :=
      { colors := .ofList [("#fff ", " theme.paper "), (" #FFF", "theme.snow")] }
    (∀ e ∈ c.colors.entries, entryFault? "mapping.colors" e.1 e.2 = none) ∧
      ∃ t, ofConfig c = .ok t ∧ t.lookup? "\t#fFf" = some "theme.paper" ∧
        t.lookup? "#000" = some "theme.colors.onSurface" := by
  intro c
  have fine : ∀ e ∈ c.colors.entries, entryFault? "mapping.colors" e.1 e.2 = none := by
    decide +kernel
  rcases (ofConfig_overrides c).2.2 fun e member => entryFault?_eq_none_iff.1 (fine e member)
    with ⟨t, made, overrides⟩
  refine ⟨fine, t, made, ?_, ?_⟩
  · have last := overrides.project "\t#fFf" ("#fff ", " theme.paper ") (by decide +kernel)
      (by decide +kernel) (by decide +kernel)
    rw [last]
    decide +kernel
  · rw [overrides.default "#000" (by decide +kernel)]
    decide +kernel

end TokenTable

end ThemeMigration
