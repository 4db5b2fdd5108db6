import Mathlib.Data.List.Induction
import ThemeMigration.FileTree
import ThemeMigration.Proofs.Path.Names

/-!
# Places in a file tree

In a well-formed tree the path of a directory with the names of an entry behind it leads to the
entry.  Writing a file that is there changes its content and no other entry, and paths lead where
they led before.
-/

namespace ThemeMigration.FileTree

/-- A tree as a file system has it: one entry at a location, with names that entries can have, and
in a directory. -/
structure WellFormed (t : FileTree) : Prop where
  distinct : (t.entries.map Prod.fst).Nodup
  named : ∀ x ∈ t.entries, ∀ n ∈ x.1, Path.IsName n
  inside : ∀ x ∈ t.entries, x.1 ≠ [] ∧ t.get? x.1.dropLast = some .directory

instance (t : FileTree) (l : Location) : Decidable (t.get? l = some .directory) :=
  match t.get? l with
  | some .directory => isTrue rfl
  | some (.file _) => isFalse nofun
  | none => isFalse nofun

instance (t : FileTree) : Decidable t.WellFormed :=
  decidable_of_iff
    ((t.entries.map Prod.fst).Nodup ∧ (∀ x ∈ t.entries, ∀ n ∈ x.1, Path.IsName n) ∧
      ∀ x ∈ t.entries, x.1 ≠ [] ∧ t.get? x.1.dropLast = some .directory)
    ⟨fun ⟨distinct, named, inside⟩ => ⟨distinct, named, inside⟩,
      fun ⟨distinct, named, inside⟩ => ⟨distinct, named, inside⟩⟩

variable {t u : FileTree} {l : Location} {p : Path}

namespace WellFormed

theorem get?_eq (h : t.WellFormed) {e : Entry} (member : (l, e) ∈ t.entries) :
    t.get? l = some e := by
  have full : l.isEmpty = false := List.isEmpty_eq_false_iff.2 (h.inside _ member).1
  rw [get?, full, if_neg Bool.false_ne_true, List.lookup_eq_some_iff]
  rcases List.append_of_mem member with ⟨front, back, split⟩
  refine ⟨front, back, split, fun x before => ?_⟩
  have distinct := h.distinct
  rw [split, List.map_append, List.map_cons, List.nodup_append] at distinct
  exact bne_iff_ne.2 (distinct.2.2 x.1 (List.mem_map_of_mem before) l List.mem_cons_self).symm

theorem mem_entries {e : Entry} (found : t.get? l = some e) (full : l ≠ []) :
    (l, e) ∈ t.entries := by
  rw [get?, List.isEmpty_eq_false_iff.2 full, if_neg Bool.false_ne_true,
    List.lookup_eq_some_iff] at found
  rcases found with ⟨front, back, split, _⟩
  simp [split]

/-- What stands above an entry are directories. -/
theorem get?_above (h : t.WellFormed) {names : Location} {e : Entry}
    (found : t.get? (l ++ names) = some e) (some : names ≠ []) :
    t.get? l = Option.some .directory := by
  induction names using List.reverseRecOn generalizing e with
  | nil => exact absurd rfl some
  | append_singleton names n ih =>
    have member := mem_entries found (by simp)
    have above := (h.inside _ member).2
    rw [← List.append_assoc, List.dropLast_concat] at above
    cases names with
    | nil => rwa [List.append_nil] at above
    | cons m names => exact ih above (List.cons_ne_nil m names)

end WellFormed

theorem files_pairwise (h : t.WellFormed) : t.files.Pairwise fun a b => a.1 ≠ b.1 := by
  have distinct := List.pairwise_map.1 (List.nodup_iff_pairwise_ne.1 h.distinct)
  refine distinct.filterMap _ ?_
  rintro ⟨l, e⟩ ⟨k, f⟩ different a made b made'
  cases e <;> cases made
  cases f <;> cases made'
  exact different

/-! ## Following names -/

theorem follow_append (t : FileTree) (l : Location) (front back : List String) :
    t.follow l (front ++ back) = (t.follow l front).bind fun m => t.follow m back := by
  induction front generalizing l with
  | nil => rfl
  | cons piece front ih =>
    rw [List.cons_append, follow, follow]
    cases t.get? l with
    | none => rfl
    | some e =>
      cases e with
      | file c => rfl
      | directory =>
        dsimp only
        split
        · exact ih l
        · split
          · exact ih l.dropLast
          · exact ih (l ++ [piece])

theorem follow_names (h : t.WellFormed) {names : Location} {e : Entry}
    (found : t.get? (l ++ names) = some e) (proper : ∀ n ∈ names, Path.IsName n) :
    t.follow l names = .ok (l ++ names) := by
  induction names generalizing l with
  | nil => rw [follow, List.append_nil]
  | cons n names ih =>
    rw [List.forall_mem_cons] at proper
    have above := h.get?_above found (List.cons_ne_nil n names)
    have plain : (n == "" || n == ".") = false ∧ (n == "..") = false := by
      rcases proper.1.no_segment with ⟨full, current, parent⟩
      constructor
      · rw [Bool.or_eq_false_iff, beq_eq_false_iff_ne, beq_eq_false_iff_ne]
        exact ⟨fun same => full (by rw [same]; rfl), fun same => current (by rw [same]; rfl)⟩
      · exact beq_eq_false_iff_ne.2 fun same => parent (by rw [same]; rfl)
    have next := ih (l := l ++ [n]) (by rwa [List.append_assoc]) proper.2
    rw [List.append_assoc, List.singleton_append] at next
    simp only [follow, above, plain, Bool.false_eq_true, if_false]
    exact next

theorem text_ne_empty (located : t.locate p = .ok l) : p.text ≠ "" := by
  intro empty
  rw [locate, empty] at located
  cases located

/-- An empty piece at the end asks for a directory and leads no further. -/
theorem follow_of_empty_end {front : List String} (h : t.follow [] (front ++ [""]) = .ok l) :
    t.follow [] front = .ok l := by
  rw [follow_append] at h
  cases led : t.follow [] front with
  | error e =>
    rw [led] at h
    cases h
  | ok m =>
    rw [led] at h
    change t.follow m [""] = .ok l at h
    rw [follow] at h
    split at h <;> cases h
    rfl

/-- A path with names behind it leads to the entry that has these names below the directory the
path leads to. -/
theorem locate_append (h : t.WellFormed) (located : t.locate p = .ok l) {names : Location}
    {e : Entry} (found : t.get? (l ++ names) = some e) (many : names ≠ [])
    (proper : ∀ n ∈ names, Path.IsName n) :
    t.locate (p ++ Path.ofNames names) = .ok (l ++ names) := by
  have full := text_ne_empty located
  have relative := Path.ofNames_relative proper
  rcases Path.exists_front_names (Path.append_ne_empty_right (p := t.workingDirectory) full) many
    proper with ⟨front, body, -, joined⟩
  have led : t.follow [] (front.map String.ofList) = .ok l := by
    rw [locate, if_neg (by simpa using full)] at located
    rcases body with body | body
    · rwa [body] at located
    · rw [body, List.map_append] at located
      exact follow_of_empty_end located
  have names_eq : (names.map String.toList).map String.ofList = names := by simp
  have text := Path.append_ne_empty_left full relative
  rw [locate, if_neg (by simpa using text), Path.append_assoc full relative,
    joined, List.map_append, names_eq, follow_append, led]
  exact follow_names h found proper

theorem find_eq_ok_iff {e : Entry} :
    t.find p = .ok (l, e) ↔ t.locate p = .ok l ∧ t.get? l = some e := by
  rw [find]
  cases t.locate p with
  | error fault => simp
  | ok k =>
    constructor
    · intro found
      dsimp only at found
      split at found <;> cases found
      exact ⟨rfl, by assumption⟩
    · rintro ⟨located, there⟩
      cases located
      simp only [there]

/-- The path of an entry leads to the entry. -/
theorem locate_pathOf (h : t.WellFormed) {e : Entry} (there : t.get? l = some e) :
    t.locate (pathOf l) = .ok l := by
  have text : (pathOf l).text.toList = '/' :: Path.join (l.map String.toList) := by
    simp [pathOf, Path.withBody]
  have absolute : (pathOf l).isAbsolute = true := by rw [Path.isAbsolute, text]; rfl
  have full : (pathOf l).text.isEmpty = false := by
    rw [String.isEmpty_eq_false_iff, ← String.toList_inj.ne, text]
    exact List.cons_ne_nil _ _
  have body : (pathOf l).body = Path.pieces (Path.join (l.map String.toList)) := by
    rw [Path.body, absolute, text]
    rfl
  rw [locate, full, if_neg Bool.false_ne_true, Path.append_of_absolute absolute, body]
  by_cases root : l = []
  · subst root
    rfl
  · have named := h.named _ (WellFormed.mem_entries there root)
    rw [Path.pieces_join (by simpa using root) (by simpa using fun n member => (named n member).2)]
    have names : (l.map String.toList).map String.ofList = l := by simp
    rw [names]
    exact follow_names h (l := []) there named

/-- What a path leads to has its own path. -/
theorem find_realPath (h : t.WellFormed) {real : Path} (resolved : t.realPath? p = some real) :
    t.find real = t.find p := by
  rw [realPath?] at resolved
  cases found : t.find p with
  | error fault =>
    rw [found] at resolved
    cases resolved
  | ok x =>
    rw [found] at resolved
    cases resolved
    have there := (find_eq_ok_iff.1 found).2
    exact find_eq_ok_iff.2 ⟨locate_pathOf h there, there⟩

/-! ## Writing a file that is there -/

/-- Trees that differ in the contents of files only. -/
structure SameShape (t u : FileTree) : Prop where
  workingDirectory : u.workingDirectory = t.workingDirectory
  entry : ∀ l, u.get? l = t.get? l ∨
    ∃ c d, t.get? l = some (.file c) ∧ u.get? l = some (.file d)

namespace SameShape

theorem refl (t : FileTree) : SameShape t t := ⟨rfl, fun _ => Or.inl rfl⟩

theorem trans {v : FileTree} (first : SameShape t u) (second : SameShape u v) :
    SameShape t v := by
  refine ⟨second.workingDirectory.trans first.workingDirectory, fun l => ?_⟩
  rcases first.entry l with same | ⟨c, d, before, between⟩ <;>
    rcases second.entry l with same' | ⟨c', d', between', after⟩
  · exact Or.inl (same'.trans same)
  · exact Or.inr ⟨c', d', same ▸ between', after⟩
  · exact Or.inr ⟨c, d, before, same'.trans between⟩
  · exact Or.inr ⟨c, d', before, after⟩

theorem directory (h : SameShape t u) (there : t.get? l = some .directory) :
    u.get? l = some .directory := by
  rcases h.entry l with same | ⟨c, d, file, _⟩
  · exact same.trans there
  · rw [there] at file
    cases file

theorem follow (h : SameShape t u) (l : Location) (pieces : List String) :
    u.follow l pieces = t.follow l pieces := by
  induction pieces generalizing l with
  | nil => rfl
  | cons piece pieces ih =>
    rw [FileTree.follow, FileTree.follow]
    rcases h.entry l with same | ⟨c, d, there, here⟩
    · simp only [same, ih]
    · simp only [there, here]

theorem locate (h : SameShape t u) (p : Path) : u.locate p = t.locate p := by
  rw [FileTree.locate, FileTree.locate, h.workingDirectory, h.follow]

end SameShape

theorem withoutEndSlashes_eq {c : Char} (last : p.text.toList.getLast? = some c)
    (plain : c ≠ '/') : withoutEndSlashes p = p := by
  rcases List.getLast?_eq_some_iff.1 last with ⟨cs, text⟩
  have back : p.text.toList.reverse.dropWhile (· == '/') = c :: cs.reverse := by
    rw [text, List.reverse_append, List.reverse_singleton, List.singleton_append,
      List.dropWhile_cons_of_neg (by simp [plain])]
  simp only [withoutEndSlashes, back, List.reverse_cons, List.reverse_reverse, ← text,
    String.ofList_toList]

theorem get?_put_of_ne {k : Location} (e : Entry) (other : k ≠ l) :
    (t.put l e).get? k = t.get? k := by
  by_cases root : k = []
  · rw [root]
    rfl
  · rw [get?_put t l k e root, beq_eq_false_iff_ne.2 other, if_neg Bool.false_ne_true]

theorem get?_put_self (e : Entry) (full : l ≠ []) : (t.put l e).get? l = some e := by
  rw [get?_put t l l e full, beq_self_eq_true, if_pos rfl]

/-- To put an entry where it is already changes nothing. -/
theorem put_of_get? {e : Entry} (full : l ≠ []) (here : t.get? l = some e) : t.put l e = t := by
  have same : ∀ entries : List (Location × Entry), entries.lookup l = some e →
      putEntry l e entries = entries := by
    intro entries found
    induction entries with
    | nil => cases found
    | cons head rest ih =>
      rcases head with ⟨k, other⟩
      rw [List.lookup_cons] at found
      rw [putEntry]
      by_cases equal : k = l
      · subst equal
        rw [beq_self_eq_true] at found
        rw [beq_self_eq_true, if_pos rfl, Option.some.inj found]
      · rw [beq_eq_false_iff_ne.2 (Ne.symm equal)] at found
        rw [beq_eq_false_iff_ne.2 equal, if_neg Bool.false_ne_true, ih found]
  have entries : t.entries.lookup l = some e := by
    rwa [get?, List.isEmpty_eq_false_iff.2 full, if_neg Bool.false_ne_true] at here
  rw [put, same _ entries]

/-- A path leads to a file in a directory and does not ask for a directory. -/
structure LeadsToFile (t : FileTree) (p : Path) (l : Location) : Prop where
  located : t.locate p = .ok l
  file : ∃ c, t.get? l = some (.file c)
  inside : t.get? l.dropLast = some .directory
  plain : withoutEndSlashes p = p

namespace LeadsToFile

theorem ne_nil (h : t.LeadsToFile p l) : l ≠ [] := by
  rintro rfl
  rcases h.file with ⟨c, file⟩
  cases file

theorem of_sameShape (h : t.LeadsToFile p l) (shape : SameShape t u) : u.LeadsToFile p l := by
  refine ⟨(shape.locate p).trans h.located, ?_, shape.directory h.inside, h.plain⟩
  rcases shape.entry l with same | ⟨_, d, _, here⟩
  · rw [same]
    exact h.file
  · exact ⟨d, here⟩

theorem read_eq (h : t.LeadsToFile p l) {c : ByteArray} (file : t.get? l = some (.file c)) :
    t.read p = .ok c := by
  rw [read, find, h.located]
  simp only [file]

theorem write_eq (h : t.LeadsToFile p l) (content : ByteArray) :
    t.write p content = .ok (t.put l (.file content)) := by
  rcases h.file with ⟨c, file⟩
  rw [write, h.plain, h.located]
  simp only [file, h.inside, if_true]

/-- An attempt to write succeeds unless the system breaks it off, and in either case the file has
what the attempt left in it. -/
theorem tryWrite_eq (h : t.LeadsToFile p l) {old : ByteArray} (file : t.get? l = some (.file old))
    (new : ByteArray) (fault : Option WriteFault) :
    t.tryWrite p new fault =
      (match fault with
        | none => .ok ()
        | some fault => .error fault.cause,
      t.put l (.file (contentAfter fault old new))) := by
  cases fault with
  | none => simp only [tryWrite, h.write_eq, contentAfter]
  | some fault =>
    rcases fault with ⟨cause, _ | n⟩
    · simp only [tryWrite, contentAfter, put_of_get? h.ne_nil file]
    · simp only [tryWrite, h.write_eq, contentAfter]

theorem sameShape_put (h : t.LeadsToFile p l) (content : ByteArray) :
    SameShape t (t.put l (.file content)) := by
  refine ⟨rfl, fun k => ?_⟩
  by_cases same : k = l
  · rcases h.file with ⟨c, file⟩
    rw [same]
    exact Or.inr ⟨c, content, file, get?_put_self _ h.ne_nil⟩
  · exact Or.inl (get?_put_of_ne _ same)

end LeadsToFile

/-- Paths that lead to files, each to one of its own. -/
structure KeepsApart (t : FileTree) (files : List Path) : Prop where
  distinct : files.Nodup
  leads : ∀ p ∈ files, ∃ l, t.LeadsToFile p l
  apart : ∀ p ∈ files, ∀ q ∈ files, t.locate p = t.locate q → p = q

end ThemeMigration.FileTree
