import ThemeMigration.Toml.Value

/-!
# Tables from statements

What a header adds to a document, and where the assignments behind it land: each section goes behind
those that are there, and so does each setting of it.
-/

namespace ThemeMigration.Toml

/-- No entry has the key. -/
def Fresh (key : String) (entries : List (String × Toml)) : Prop := ∀ e ∈ entries, e.1 ≠ key

/-- No two entries have the same key. -/
def Distinct (entries : List (String × Toml)) : Prop := entries.Pairwise fun a b => a.1 ≠ b.1

namespace Table

variable {key : String} {front entries : List (String × Toml)} {origin inner : Origin}

section

variable {change : Option Toml → Option Toml}

theorem changeEntry_of_fresh (fresh : Fresh key entries) :
    changeEntry key change entries = (change none).map fun v => entries ++ [(key, v)] := by
  induction entries with
  | nil => rfl
  | cons e entries ih =>
    rcases e with ⟨k, v⟩
    rcases List.forall_mem_cons.1 fresh with ⟨other, later⟩
    rw [changeEntry, if_neg (by simpa using other), ih later, Option.map_map]
    rfl

theorem changeEntry_last (fresh : Fresh key front) (v : Toml) :
    changeEntry key change (front ++ [(key, v)]) =
      (change (some v)).map fun w => front ++ [(key, w)] := by
  induction front with
  | nil => simp [changeEntry]
  | cons e front ih =>
    rcases e with ⟨k, u⟩
    rcases List.forall_mem_cons.1 fresh with ⟨other, later⟩
    rw [List.cons_append, changeEntry, if_neg (by simpa using other), ih later, Option.map_map]
    rfl

end

section

variable {f : Table → Option Table} {path : List String}

/-- A path that leads into a new table. -/
theorem changeAt_new (fresh : Fresh key entries) :
    changeAt false f (key :: path) ⟨origin, entries⟩ =
      (changeAt false f path (empty .implied)).map fun t =>
        ⟨origin, entries ++ [(key, t.toToml)]⟩ := by
  rw [changeAt, change, changeEntry_of_fresh fresh, Option.map_map, Option.map_map]
  rfl

/-- A path that leads into the last table. -/
theorem changeAt_table (fresh : Fresh key front) (isOpen : inner ≠ .inline) :
    changeAt false f (key :: path) ⟨origin, front ++ [(key, .table inner entries)]⟩ =
      (changeAt false f path ⟨inner, entries⟩).map fun t =>
        ⟨origin, front ++ [(key, t.toToml)]⟩ := by
  have mayEnter : ¬(inner == .inline || (false && inner == .header)) = true := by
    simpa using isOpen
  rw [changeAt, change, changeEntry_last fresh]
  simp only [if_neg mayEnter, Option.map_map]
  rfl

/-- A path that leads into the last one of several tables. -/
theorem changeAt_tables (fresh : Fresh key front) (items : List (List (String × Toml))) :
    changeAt false f (key :: path) ⟨origin, front ++ [(key, .tables (items ++ [entries]))]⟩ =
      (changeAt false f path ⟨.header, entries⟩).map fun t =>
        ⟨origin, front ++ [(key, .tables (items ++ [t.entries]))]⟩ := by
  rw [changeAt, change, changeEntry_last fresh]
  simp only [List.getLast?_concat, List.dropLast_concat, Option.map_map]
  rfl

end

theorem assign_of_fresh (fresh : Fresh key entries) (v : Toml) :
    assign [key] v ⟨.header, entries⟩ = some ⟨.header, entries ++ [(key, v)]⟩ := by
  change change key _ (⟨.header, entries⟩ : Table) = _
  rw [change, changeEntry_of_fresh fresh]
  rfl

end Table

namespace Builder

def run (b : Builder) (ss : List Statement) : Option Builder := ss.foldlM step b

theorem run_cons {b c : Builder} {s : Statement} (stepped : b.step s = some c)
    (ss : List Statement) : b.run (s :: ss) = c.run ss := by
  rw [run, List.foldlM_cons, stepped]
  rfl

theorem run_append {b c : Builder} {ss : List Statement} (ran : b.run ss = some c)
    (later : List Statement) : b.run (ss ++ later) = c.run later := by
  rw [run, List.foldlM_append]
  change (b.run ss).bind _ = _
  rw [ran]
  rfl

def assignments (entries : List (String × Toml)) : List Statement :=
  entries.map fun e => .assignment [e.1] e.2

/-- With the path of the last header, an assignment lands behind the entries at a place of the
document. -/
def Lands (path : List String) (place : List (String × Toml) → Table) : Prop :=
  ∀ {key : String} {entries : List (String × Toml)} (v : Toml), Fresh key entries →
    Table.changeAt false (Table.assign [key] v) path (place entries) =
      some (place (entries ++ [(key, v)]))

theorem run_assignments {path : List String} {place : List (String × Toml) → Table}
    (lands : Lands path place) {entries added : List (String × Toml)}
    (distinct : Distinct (entries ++ added)) :
    run ⟨place entries, path⟩ (assignments added) = some ⟨place (entries ++ added), path⟩ := by
  induction added generalizing entries with
  | nil =>
    rw [List.append_nil]
    rfl
  | cons e added ih =>
    have fresh : Fresh e.1 entries := fun d member =>
      (List.pairwise_append.1 distinct).2.2 d member e (List.mem_cons_self ..)
    have stepped : step ⟨place entries, path⟩ (.assignment [e.1] e.2) =
        some ⟨place (entries ++ [e]), path⟩ := by
      change Option.map _ (Table.changeAt false (Table.assign [e.1] e.2) path (place entries)) = _
      rw [lands e.2 fresh]
      rfl
    rw [assignments, List.map_cons, run_cons stepped]
    have whole : entries ++ e :: added = entries ++ [e] ++ added := by simp
    rw [whole] at distinct ⊢
    exact ih distinct

/-- The assignments behind a header fill the place that it opens. -/
theorem run_filled {path : List String} {place : List (String × Toml) → Table}
    (lands : Lands path place) {added : List (String × Toml)} (distinct : Distinct added) :
    run ⟨place [], path⟩ (assignments added) = some ⟨place added, path⟩ :=
  run_assignments lands distinct

section

variable {name list : String} {front entries : List (String × Toml)} {origin inner : Origin}
  {current : List String}

theorem lands_section (origin : Origin) (fresh : Fresh name front) :
    Lands [name] fun es => ⟨origin, front ++ [(name, .table .header es)]⟩ := by
  intro key es v isFresh
  have isOpen : Origin.header ≠ .inline := nofun
  rw [Table.changeAt_table fresh isOpen, Table.changeAt, Table.assign_of_fresh isFresh,
    Option.map_some]
  rfl

theorem lands_inner (origin : Origin) (fresh : Fresh name front) (isOpen : inner ≠ .inline)
    (freshInner : Fresh list entries) :
    Lands [name, list] fun es =>
      ⟨origin, front ++ [(name, .table inner (entries ++ [(list, .table .header es)]))]⟩ := by
  intro key es v isFresh
  rw [Table.changeAt_table fresh isOpen, lands_section inner freshInner v isFresh, Option.map_some]
  rfl

theorem lands_tables (origin : Origin) (fresh : Fresh name front) (isOpen : inner ≠ .inline)
    (freshInner : Fresh list entries) (items : List (List (String × Toml))) :
    Lands [name, list] fun es =>
      ⟨origin, front ++ [(name, .table inner (entries ++ [(list, .tables (items ++ [es]))]))]⟩ := by
  intro key es v isFresh
  rw [Table.changeAt_table fresh isOpen, Table.changeAt_tables freshInner, Table.changeAt,
    Table.assign_of_fresh isFresh, Option.map_some, Option.map_some]
  rfl

/-! ## Headers -/

theorem step_header (fresh : Fresh name front) :
    step ⟨⟨origin, front⟩, current⟩ (.header [name]) =
      some ⟨⟨origin, front ++ [(name, .table .header [])]⟩, [name]⟩ := by
  change Option.map _ (Table.change name _ ⟨origin, front⟩) = _
  rw [Table.change, Table.changeEntry_of_fresh fresh]
  rfl

/-- A section is a table behind those that are there. -/
theorem run_section (fresh : Fresh name front) (distinct : Distinct entries) :
    run ⟨⟨origin, front⟩, current⟩ (.header [name] :: assignments entries) =
      some ⟨⟨origin, front ++ [(name, .table .header entries)]⟩, [name]⟩ := by
  rw [run_cons (step_header fresh)]
  exact run_filled (lands_section origin fresh) distinct

theorem step_header_inner (fresh : Fresh name front) (isOpen : inner ≠ .inline)
    (freshInner : Fresh list entries) :
    step ⟨⟨origin, front ++ [(name, .table inner entries)]⟩, current⟩ (.header [name, list]) =
      some ⟨⟨origin, front ++ [(name, .table inner (entries ++ [(list, .table .header [])]))]⟩,
        [name, list]⟩ := by
  change Option.map _ (Table.changeAt false (Table.change list _) [name] _) = _
  rw [Table.changeAt_table fresh isOpen, Table.changeAt, Table.change,
    Table.changeEntry_of_fresh freshInner]
  rfl

theorem step_header_implied (fresh : Fresh name front) :
    step ⟨⟨origin, front⟩, current⟩ (.header [name, list]) =
      some ⟨⟨origin, front ++ [(name, .table .implied [(list, .table .header [])])]⟩,
        [name, list]⟩ := by
  change Option.map _ (Table.changeAt false (Table.change list _) [name] _) = _
  rw [Table.changeAt_new fresh]
  rfl

theorem step_nextHeader (fresh : Fresh name front) (isOpen : inner ≠ .inline)
    (freshInner : Fresh list entries) :
    step ⟨⟨origin, front ++ [(name, .table inner entries)]⟩, current⟩ (.nextHeader [name, list]) =
      some ⟨⟨origin, front ++ [(name, .table inner (entries ++ [(list, .tables [[]])]))]⟩,
        [name, list]⟩ := by
  change Option.map _ (Table.changeAt false (Table.change list _) [name] _) = _
  rw [Table.changeAt_table fresh isOpen, Table.changeAt, Table.change,
    Table.changeEntry_of_fresh freshInner]
  rfl

theorem step_nextHeader_again (fresh : Fresh name front) (isOpen : inner ≠ .inline)
    (freshInner : Fresh list entries) (items : List (List (String × Toml))) :
    step ⟨⟨origin, front ++ [(name, .table inner (entries ++ [(list, .tables items)]))]⟩, current⟩
        (.nextHeader [name, list]) =
      some ⟨⟨origin,
          front ++ [(name, .table inner (entries ++ [(list, .tables (items ++ [[]]))]))]⟩,
        [name, list]⟩ := by
  change Option.map _ (Table.changeAt false (Table.change list _) [name] _) = _
  rw [Table.changeAt_table fresh isOpen, Table.changeAt, Table.change,
    Table.changeEntry_last freshInner]
  rfl

/-- Headers in double brackets with the settings of the tables that they open. -/
def tableStatements (path : List String) (groups : List (List (String × Toml))) : List Statement :=
  groups.flatMap fun g => .nextHeader path :: assignments g

theorem run_tables_again (fresh : Fresh name front) (isOpen : inner ≠ .inline)
    (freshInner : Fresh list entries) (items : List (List (String × Toml)))
    {groups : List (List (String × Toml))} (distinct : ∀ g ∈ groups, Distinct g) :
    run ⟨⟨origin, front ++ [(name, .table inner (entries ++ [(list, .tables items)]))]⟩,
        [name, list]⟩ (tableStatements [name, list] groups) =
      some ⟨⟨origin,
          front ++ [(name, .table inner (entries ++ [(list, .tables (items ++ groups))]))]⟩,
        [name, list]⟩ := by
  induction groups generalizing items with
  | nil =>
    rw [List.append_nil]
    rfl
  | cons g groups ih =>
    rcases List.forall_mem_cons.1 distinct with ⟨first, later⟩
    have filled := run_filled (lands_tables origin fresh isOpen freshInner items) first
    have rest := ih (items ++ [g]) later
    rw [List.append_assoc] at rest
    rw [tableStatements, List.flatMap_cons, List.cons_append,
      run_cons (step_nextHeader_again fresh isOpen freshInner items), run_append filled]
    exact rest

/-- One table for each header in double brackets, in their order. -/
theorem run_tables (fresh : Fresh name front) (isOpen : inner ≠ .inline)
    (freshInner : Fresh list entries) {g : List (String × Toml)}
    {groups : List (List (String × Toml))} (distinct : ∀ h ∈ g :: groups, Distinct h) :
    run ⟨⟨origin, front ++ [(name, .table inner entries)]⟩, current⟩
        (tableStatements [name, list] (g :: groups)) =
      some ⟨⟨origin, front ++ [(name, .table inner (entries ++ [(list, .tables (g :: groups))]))]⟩,
        [name, list]⟩ := by
  rcases List.forall_mem_cons.1 distinct with ⟨first, later⟩
  have filled := run_filled (lands_tables origin fresh isOpen freshInner []) first
  simp only [List.nil_append] at filled
  rw [tableStatements, List.flatMap_cons, List.cons_append,
    run_cons (step_nextHeader fresh isOpen freshInner), run_append filled]
  exact run_tables_again fresh isOpen freshInner [g] later

end

end Builder

end ThemeMigration.Toml
