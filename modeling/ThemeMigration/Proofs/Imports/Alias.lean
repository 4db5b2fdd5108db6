import Mathlib.Data.List.Nodup
import Mathlib.Data.List.Dedup
import Mathlib.Data.List.Perm.Subperm
import ThemeMigration.Imports

/-!
# The alias of a new import

The candidates for an alias are all different, so of one more candidate than there are names, one
is free, and the first free one is taken.  The search as a loop has no bound of its own: it goes on
as long as the script binds the candidate, and ends for the same reason.
-/

namespace ThemeMigration.Imports

open Script

variable {exportName : String} {taken : List String}

/-- The candidates from the second on end with their number. -/
theorem aliasCandidate_of_two_le (exportName : String) {n : Nat} (h : 2 ≤ n) :
    aliasCandidate exportName n = exportName ++ "Accessor" ++ n.repr := by
  rw [aliasCandidate, if_neg (by omega)]
  simp only [toString, String.append_assoc]

theorem append_repr_ne (s : String) (n : Nat) : s ++ n.repr ≠ s := by
  intro same
  have none : n.repr = "" := by
    apply (String.append_right_inj s).1
    rw [same, String.append_empty]
  exact absurd none Nat.repr_ne_empty

theorem aliasCandidate_inj {m n : Nat} (hm : 1 ≤ m) (hn : 1 ≤ n)
    (h : aliasCandidate exportName m = aliasCandidate exportName n) : m = n := by
  have first : aliasCandidate exportName 1 = exportName ++ "Accessor" := rfl
  rcases Nat.eq_or_lt_of_le hm with rfl | m_ge <;> rcases Nat.eq_or_lt_of_le hn with rfl | n_ge
  · rfl
  · rw [first, aliasCandidate_of_two_le exportName n_ge] at h
    exact absurd h.symm (append_repr_ne _ n)
  · rw [first, aliasCandidate_of_two_le exportName m_ge] at h
    exact absurd h (append_repr_ne _ m)
  · rw [aliasCandidate_of_two_le exportName m_ge, aliasCandidate_of_two_le exportName n_ge] at h
    have digits := congrArg String.toList ((String.append_right_inj _).1 h)
    rw [Nat.toList_repr, Nat.toList_repr] at digits
    rw [← Nat.ofDigitChars_ten_toDigits (n := m), digits, Nat.ofDigitChars_ten_toDigits]

/-! ## The first free candidate -/

/-- The answer is a candidate, and all candidates in front of it are taken. -/
theorem freeAliasFrom_spec (taken : List String) (exportName : String) (start more : Nat) :
    ∃ k, freeAliasFrom taken exportName start more = aliasCandidate exportName (start + k) ∧
      (k ≤ more ∧ ∀ j < k, aliasCandidate exportName (start + j) ∈ taken) ∧
      (k < more → aliasCandidate exportName (start + k) ∉ taken) := by
  induction more generalizing start with
  | zero =>
    refine ⟨0, rfl, ⟨Nat.le_refl 0, ?_⟩, ?_⟩
    · intro j less
      exact absurd less (Nat.not_lt_zero j)
    · intro less
      exact absurd less (Nat.lt_irrefl 0)
  | succ more ih =>
    rw [freeAliasFrom]
    split
    · rename_i first
      rcases ih (start + 1) with ⟨k, found, ⟨bound, passed⟩, free⟩
      have shift : ∀ j, start + 1 + j = start + (j + 1) := by omega
      refine ⟨k + 1, ?_, ⟨Nat.succ_le_succ bound, ?_⟩, ?_⟩
      · rw [found, shift]
      · intro j less
        cases j with
        | zero => exact List.contains_iff_mem.1 first
        | succ j => exact shift j ▸ passed j (Nat.lt_of_succ_lt_succ less)
      · intro less
        exact shift k ▸ free (Nat.lt_of_succ_lt_succ less)
    · rename_i first
      refine ⟨0, rfl, ⟨Nat.zero_le _, ?_⟩, ?_⟩
      · intro j less
        exact absurd less (Nat.not_lt_zero j)
      · intro _ member
        exact first (List.contains_iff_mem.2 member)

/-- Only so many candidates in a row are taken as there are different names. -/
theorem le_length_dedup_of_taken {k : Nat}
    (all : ∀ j < k, aliasCandidate exportName (1 + j) ∈ taken) : k ≤ taken.dedup.length := by
  have different : ((List.range k).map fun j => aliasCandidate exportName (1 + j)).Nodup := by
    refine List.Nodup.map ?_ List.nodup_range
    intro i j same
    have equal := aliasCandidate_inj (by omega) (by omega) same
    omega
  have among : ((List.range k).map fun j => aliasCandidate exportName (1 + j)) ⊆ taken.dedup := by
    intro name member
    rcases List.mem_map.1 member with ⟨j, bound, rfl⟩
    exact List.mem_dedup.2 (all j (List.mem_range.1 bound))
  have length := (different.subperm among).length_le
  rwa [List.length_map, List.length_range] at length

/-- The alias is the first candidate that is not taken. -/
theorem freeAlias_spec (taken : List String) (exportName : String) :
    ∃ k, freeAlias taken exportName = aliasCandidate exportName (1 + k) ∧
      (∀ j < k, aliasCandidate exportName (1 + j) ∈ taken) ∧
      aliasCandidate exportName (1 + k) ∉ taken := by
  rcases freeAliasFrom_spec taken exportName 1 taken.length with
    ⟨k, found, ⟨bound, passed⟩, free⟩
  refine ⟨k, found, passed, ?_⟩
  rcases Nat.lt_or_eq_of_le bound with less | rfl
  · exact free less
  · intro last
    -- There would be one more candidate among the names than there are names.
    have all : ∀ j < taken.length + 1, aliasCandidate exportName (1 + j) ∈ taken := by
      intro j less
      rcases Nat.lt_succ_iff_lt_or_eq.1 less with less | rfl
      · exact passed j less
      · exact last
    have many := le_length_dedup_of_taken all
    have few := (List.dedup_sublist taken).length_le
    omega

/-- The alias is no name that is taken. -/
theorem freeAlias_not_mem (taken : List String) (exportName : String) :
    freeAlias taken exportName ∉ taken := by
  rcases freeAlias_spec taken exportName with ⟨k, found, -, free⟩
  rw [found]
  exact free

/-! ## The search as a loop -/

/-- Whether a statement of the script binds a name. -/
def bindsAtTopLevel (s : Source) (name : String) : Bool :=
  s.statements.any fun t => (namesOfStatement t).any fun n => s.textOf n == name

theorem bindsAtTopLevel_iff {s : Source} {name : String} :
    bindsAtTopLevel s name = true ↔ name ∈ topLevelNames s := by
  rw [bindsAtTopLevel, topLevelNames, List.any_eq_true, List.mem_map]
  constructor
  · rintro ⟨t, member, binds⟩
    rcases List.any_eq_true.1 binds with ⟨n, named, same⟩
    exact ⟨n, List.mem_flatMap.2 ⟨t, member, named⟩, beq_iff_eq.1 same⟩
  · rintro ⟨n, found, same⟩
    rcases List.mem_flatMap.1 found with ⟨t, member, named⟩
    exact ⟨t, member, List.any_eq_true.2 ⟨n, named, beq_iff_eq.2 same⟩⟩

/-- A search under way: the alias that is tried next, and the number of the one behind it. -/
structure AliasSearch where
  current : String
  number : Nat

namespace AliasSearch

/-- The first alias has no number, and the second one has the number two. -/
def start (exportName : String) : AliasSearch := ⟨exportName ++ "Accessor", 2⟩

/-- One turn of the search: an alias that the script binds gives way to the next one, and one that
it does not bind ends the search. -/
def turn? (s : Source) (exportName : String) (a : AliasSearch) : Option AliasSearch :=
  if bindsAtTopLevel s a.current then
    some ⟨exportName ++ "Accessor" ++ a.number.repr, a.number + 1⟩
  else none

/-- The second search is the first one some turns later. -/
inductive Turns (s : Source) (exportName : String) : Nat → AliasSearch → AliasSearch → Prop
  | zero (a : AliasSearch) : Turns s exportName 0 a a
  | succ {n : Nat} {a b c : AliasSearch} : Turns s exportName n a b →
      b.turn? s exportName = some c → Turns s exportName (n + 1) a c

variable {s : Source} {n : Nat} {a : AliasSearch}

/-- The search after so many turns. -/
def after (exportName : String) (n : Nat) : AliasSearch :=
  ⟨aliasCandidate exportName (n + 1), n + 2⟩

theorem turn?_after (s : Source) (exportName : String) (n : Nat) :
    (after exportName n).turn? s exportName =
      if bindsAtTopLevel s (aliasCandidate exportName (n + 1)) then some (after exportName (n + 1))
      else none := by
  rw [turn?, after, after, aliasCandidate_of_two_le exportName (by omega : 2 ≤ n + 1 + 1)]

/-- Whatever is reached after so many turns is the candidate of that number, and the script binds
all candidates before it. -/
theorem turns_start_iff :
    Turns s exportName n (start exportName) a ↔
      a = after exportName n ∧
        ∀ k < n, bindsAtTopLevel s (aliasCandidate exportName (k + 1)) = true := by
  induction n generalizing a with
  | zero =>
    constructor
    · rintro ⟨⟩
      exact ⟨rfl, fun k less => absurd less (Nat.not_lt_zero k)⟩
    · rintro ⟨rfl, -⟩
      exact .zero _
  | succ n ih =>
    constructor
    · rintro (_ | ⟨run, turn⟩)
      rcases ih.1 run with ⟨rfl, passed⟩
      rw [turn?_after] at turn
      split at turn
      · rename_i bound
        refine ⟨(Option.some.inj turn).symm, ?_⟩
        intro k less
        rcases Nat.lt_succ_iff_lt_or_eq.1 less with less | rfl
        · exact passed k less
        · exact bound
      · cases turn
    · rintro ⟨rfl, passed⟩
      have run := ih.2 ⟨rfl, fun k less => passed k (Nat.lt_succ_of_lt less)⟩
      refine .succ run ?_
      rw [turn?_after, if_pos (passed n (Nat.lt_succ_self n))]

end AliasSearch

open AliasSearch in
/-- The search for an alias ends.  It ends at the first candidate that the script does not bind,
and the candidates it tries are at most one more than the different names that the script binds. -/
theorem freeAlias_first_free (s : Source) (exportName : String) :
    ∃ turns final,
      Turns s exportName turns (start exportName) final ∧ final.turn? s exportName = none ∧
        (∀ n a, Turns s exportName n (start exportName) a → n ≤ turns) ∧
        final.current = freeAlias (topLevelNames s) exportName ∧
        final.current = aliasCandidate exportName (turns + 1) ∧
        bindsAtTopLevel s final.current = false ∧
        (∀ n, 1 ≤ n → n ≤ turns → bindsAtTopLevel s (aliasCandidate exportName n) = true) ∧
        turns + 1 ≤ (topLevelNames s).dedup.length + 1 := by
  rcases freeAlias_spec (topLevelNames s) exportName with ⟨k, found, passed, free⟩
  have bound : ∀ j < k, bindsAtTopLevel s (aliasCandidate exportName (j + 1)) = true := by
    intro j less
    rw [Nat.add_comm]
    exact bindsAtTopLevel_iff.2 (passed j less)
  have unbound : bindsAtTopLevel s (aliasCandidate exportName (k + 1)) = false := by
    rw [Nat.add_comm, ← Bool.not_eq_true]
    exact fun binds => free (bindsAtTopLevel_iff.1 binds)
  refine ⟨k, after exportName k, turns_start_iff.2 ⟨rfl, bound⟩, ?_, ?_, ?_, rfl, unbound, ?_, ?_⟩
  · rw [turn?_after, unbound]
    rfl
  · intro n a run
    refine Nat.le_of_not_lt fun less => ?_
    have binds := (turns_start_iff.1 run).2 k less
    rw [unbound] at binds
    cases binds
  · rw [found, Nat.add_comm]
    rfl
  · intro n positive le
    have binds := bound (n - 1) (by omega)
    rwa [Nat.sub_add_cancel positive] at binds
  · exact Nat.succ_le_succ (le_length_dedup_of_taken passed)

example : freeAlias ["useTheme", "useThemeAccessor", "useThemeAccessor2"] "useTheme" =
    "useThemeAccessor3" := by
  decide +kernel

end ThemeMigration.Imports
