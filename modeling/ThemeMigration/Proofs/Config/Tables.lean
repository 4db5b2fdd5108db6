import ThemeMigration.KeyTable

/-!
# Tables from their own entries

A table whose entries are put into the empty table one after the other comes out as it was: each
entry goes behind those that are there.
-/

namespace ThemeMigration.KeyTable

variable {α : Type}

/-- An entry whose key is above all keys goes to the end. -/
theorem putEntry_of_above {key : String} {value : α} {entries : List (String × α)}
    (above : ∀ e ∈ entries, e.1 < key) :
    putEntry key value entries = entries ++ [(key, value)] := by
  induction entries with
  | nil => rfl
  | cons head rest ih =>
    rcases head with ⟨k, v⟩
    rcases List.forall_mem_cons.1 above with ⟨less, later⟩
    have different : k ≠ key := fun same => String.lt_irrefl key (same ▸ less)
    rw [putEntry, if_neg (fun greater => String.lt_asymm less greater), if_neg different, ih later,
      List.cons_append]

/-- Entries in order are put behind the entries of a table whose keys are below theirs. -/
theorem entries_putAll {t : KeyTable α} {entries : List (String × α)}
    (ordered : (t.entries ++ entries).Pairwise fun a b => a.1 < b.1) :
    (t.putAll entries).entries = t.entries ++ entries := by
  induction entries generalizing t with
  | nil => exact (List.append_nil _).symm
  | cons e entries ih =>
    have put : (t.put e.1 e.2).entries = t.entries ++ [e] :=
      putEntry_of_above fun d member =>
        (List.pairwise_append.1 ordered).2.2 d member e (List.mem_cons_self ..)
    have rest := ih (t := t.put e.1 e.2) (by rwa [put, List.append_assoc, List.singleton_append])
    rw [put, List.append_assoc, List.singleton_append] at rest
    exact rest

theorem ofList_entries (t : KeyTable α) : ofList t.entries = t :=
  ext (entries_putAll (t := empty) t.ordered)

end ThemeMigration.KeyTable
