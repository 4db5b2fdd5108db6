/-!
# Tables in key order

A table from texts to values that holds its entries in the order of their keys, each key once.
Characters are compared by code point, which is the order of the bytes of the keys, so tables of
equal content are equal.  An entry that is put under a key of the table takes the place of the old
one.
-/

namespace ThemeMigration

structure KeyTable (α : Type) where
  entries : List (String × α)
  ordered : entries.Pairwise fun a b => a.1 < b.1

namespace KeyTable

variable {α : Type}

def empty : KeyTable α := ⟨[], .nil⟩

instance : Inhabited (KeyTable α) := ⟨empty⟩

instance [DecidableEq α] : DecidableEq (KeyTable α) := fun s t =>
  decidable_of_iff (s.entries = t.entries) ⟨fun h => by cases s; cases t; cases h; rfl,
    fun h => by rw [h]⟩

instance [Repr α] : Repr (KeyTable α) := ⟨fun t n => reprPrec t.entries n⟩

theorem ext {s t : KeyTable α} (h : s.entries = t.entries) : s = t := by
  cases s; cases t; cases h; rfl

/-- Entries with a value put under a key. -/
def putEntry (key : String) (value : α) : List (String × α) → List (String × α)
  | [] => [(key, value)]
  | (k, v) :: rest =>
    if key < k then (key, value) :: (k, v) :: rest
    else if k = key then (key, value) :: rest
    else (k, v) :: putEntry key value rest

theorem fst_of_mem_putEntry {key : String} {value : α} {entries : List (String × α)}
    {e : String × α} (h : e ∈ putEntry key value entries) : e.1 = key ∨ e ∈ entries := by
  induction entries with
  | nil => left; simp only [putEntry, List.mem_singleton] at h; rw [h]
  | cons head rest ih =>
    obtain ⟨k, v⟩ := head
    simp only [putEntry] at h
    split at h
    · rcases List.mem_cons.1 h with h | h
      · left; rw [h]
      · right; exact h
    · split at h
      · rcases List.mem_cons.1 h with h | h
        · left; rw [h]
        · right; exact List.mem_cons_of_mem _ h
      · rcases List.mem_cons.1 h with h | h
        · right; rw [h]; exact List.mem_cons_self ..
        · exact (ih h).imp id (List.mem_cons_of_mem _)

theorem ordered_putEntry (key : String) (value : α) {entries : List (String × α)}
    (h : entries.Pairwise fun a b => a.1 < b.1) :
    (putEntry key value entries).Pairwise fun a b => a.1 < b.1 := by
  induction entries with
  | nil => exact List.pairwise_singleton ..
  | cons head rest ih =>
    obtain ⟨k, v⟩ := head
    obtain ⟨below, later⟩ := List.pairwise_cons.1 h
    simp only [putEntry]
    split
    · rename_i less
      refine List.pairwise_cons.2 ⟨fun e mem => ?_, h⟩
      rcases List.mem_cons.1 mem with mem | mem
      · rw [mem]; exact less
      · exact String.lt_trans less (below e mem)
    · rename_i notLess
      split
      · rename_i same
        exact List.pairwise_cons.2 ⟨fun e mem => same ▸ below e mem, later⟩
      · rename_i different
        refine List.pairwise_cons.2 ⟨fun e mem => ?_, ih later⟩
        rcases fst_of_mem_putEntry mem with same | mem
        · rw [same]
          exact Decidable.byContradiction fun other =>
            different (String.le_antisymm (String.not_lt.1 notLess) (String.not_lt.1 other))
        · exact below e mem

/-- Put a value under a key. -/
def put (t : KeyTable α) (key : String) (value : α) : KeyTable α :=
  ⟨putEntry key value t.entries, ordered_putEntry key value t.ordered⟩

/-- The value under a key. -/
def get? (t : KeyTable α) (key : String) : Option α :=
  (t.entries.find? fun e => e.1 == key).map (·.2)

/-- The table with all given entries put one after the other. -/
def putAll (t : KeyTable α) (entries : List (String × α)) : KeyTable α :=
  entries.foldl (fun t e => t.put e.1 e.2) t

/-- The table of the given entries; of two entries for one key the later one stays. -/
def ofList (entries : List (String × α)) : KeyTable α := empty.putAll entries

def size (t : KeyTable α) : Nat := t.entries.length

def isEmpty (t : KeyTable α) : Bool := t.entries.isEmpty

@[simp] theorem get?_empty (key : String) : (empty : KeyTable α).get? key = none := rfl

theorem find?_putEntry (key other : String) (value : α) (entries : List (String × α)) :
    ((putEntry key value entries).find? fun e => e.1 == other).map (·.2) =
      if key = other then some value
      else (entries.find? fun e => e.1 == other).map (·.2) := by
  induction entries with
  | nil =>
    by_cases h : key = other <;> simp [putEntry, h]
  | cons head rest ih =>
    obtain ⟨k, v⟩ := head
    simp only [putEntry]
    split
    · by_cases h : key = other <;> simp [h]
    · split
      · rename_i same
        subst same
        by_cases h : k = other <;> simp [h]
      · rename_i different
        by_cases h : key = other
        · subst h
          have : (k == key) = false := by simpa using different
          simp only [List.find?_cons, this, if_true] at ih ⊢
          exact ih
        · simp only [h, if_false] at ih ⊢
          simp only [List.find?_cons]
          split
          · rfl
          · exact ih

theorem get?_put (t : KeyTable α) (key other : String) (value : α) :
    (t.put key value).get? other = if key = other then some value else t.get? other :=
  find?_putEntry key other value t.entries

end KeyTable

end ThemeMigration
