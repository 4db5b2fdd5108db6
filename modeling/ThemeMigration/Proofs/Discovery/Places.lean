import ThemeMigration.Discovery
import ThemeMigration.Proofs.FileTree.Places

/-!
# Where discovered files are

Every discovered path leads to a file of the tree, no two of them to the same one, and the path
from the root leads there as well.
-/

namespace ThemeMigration.Discovery

variable {t : FileTree} {root p q : Path} {start : Location} {c : Config} {d : Discovery}

/-- The path of a file of the tree by its names below the root. -/
structure Places (t : FileTree) (root : Path) (start : Location) (p : Path)
    (names : List String) : Prop where
  path : p = root ++ Path.ofNames names
  many : names ≠ []
  proper : ∀ n ∈ names, Path.IsName n
  file : ∃ content, t.get? (start ++ names) = some (.file content)

namespace Places

variable {names names' : List String}

theorem leadsToFile (wellFormed : t.WellFormed) (located : t.locate root = .ok start)
    (h : Places t root start p names) : t.LeadsToFile p (start ++ names) := by
  rcases h.file with ⟨content, file⟩
  have full := FileTree.text_ne_empty located
  have member := FileTree.WellFormed.mem_entries file (by simp [h.many])
  refine ⟨?_, h.file, (wellFormed.inside _ member).2, ?_⟩
  · rw [h.path]
    exact FileTree.locate_append wellFormed located file h.many h.proper
  · rcases Path.getLast?_append full h.many h.proper with ⟨last, ends, plain⟩
    rw [← h.path] at ends
    exact FileTree.withoutEndSlashes_eq ends plain

theorem below (located : t.locate root = .ok start) (h : Places t root start p names) :
    p.below root = Path.ofNames names := by
  rw [h.path]
  exact Path.below_append (FileTree.text_ne_empty located) h.many h.proper

/-- The same path has the same names. -/
theorem eq_of_same (located : t.locate root = .ok start) (h : Places t root start p names)
    (h' : Places t root start q names') (same : p.same q = true) : p = q := by
  have full := FileTree.text_ne_empty located
  rw [Path.same, beq_iff_eq, h.path, h'.path, Path.components_append full h.many h.proper,
    Path.components_append full h'.many h'.proper] at same
  have names_eq := List.map_injective_iff.2 (fun _ _ => Path.Component.name.inj)
    (List.append_cancel_left same)
  rw [h.path, h'.path, names_eq]

end Places

/-! ## What a walk comes to -/

theorem exists_start (found : Discovery.run t root c = .ok d) :
    ∃ start f, t.find root = .ok (start, .directory) ∧ Filter.ofConfig c = .ok f ∧
      d.files = (((walk t (rules t c) start).filter fun x => f.eligibility x == .eligible).map
        fun x => root ++ x.relative).mergeSort Path.le := by
  rw [Discovery.run] at found
  split at found
  · rename_i start led
    cases made : Filter.ofConfig c with
    | error e =>
      rw [made] at found
      cases found
    | ok f =>
      rw [made] at found
      cases found
      exact ⟨start, f, led, rfl, rfl⟩
  · cases found

/-- Eligible candidates that come in the order of their paths are discovered as they come. -/
theorem exists_run {f : Filter} {files : List Path} (led : t.find root = .ok (start, .directory))
    (made : Filter.ofConfig c = .ok f)
    (eligible : ((walk t (rules t c) start).filter fun x => f.eligibility x == .eligible).map
      (fun x => root ++ x.relative) = files)
    (ordered : files.Pairwise fun p q => p.le q) :
    ∃ d, Discovery.run t root c = .ok d ∧ d.files = files := by
  rw [Discovery.run, led]
  dsimp only
  rw [made]
  refine ⟨_, rfl, ?_⟩
  dsimp only
  rw [eligible]
  exact List.mergeSort_of_pairwise ordered

theorem mem_files {l : Location} {content : ByteArray} (h : (l, content) ∈ t.files) :
    (l, .file content) ∈ t.entries := by
  rw [FileTree.files, List.mem_filterMap] at h
  rcases h with ⟨⟨k, e⟩, member, made⟩
  cases e with
  | directory => cases made
  | file content' =>
    cases made
    exact member

theorem mem_files_of_get? {l : Location} {content : ByteArray}
    (file : t.get? l = some (.file content)) : (l, content) ∈ t.files := by
  have some : l ≠ [] := by
    rintro rfl
    cases file
  exact List.mem_filterMap.2 ⟨_, FileTree.WellFormed.mem_entries file some, rfl⟩

/-- A candidate is a file of the tree below the start. -/
theorem walked (root : Path) (wellFormed : t.WellFormed) (led : t.get? start = some .directory)
    {rules : IgnoreRules} {l : Location} {content : ByteArray} {x : Candidate}
    (member : (l, content) ∈ t.files)
    (made : (let names := l.drop start.length
      if start.isPrefixOf l && rules.reaches start names then
        some (⟨⟨"/".intercalate names⟩, content.size⟩ : Candidate) else none) = some x) :
    ∃ names, l = start ++ names ∧ x.relative = Path.ofNames names ∧
      Places t root start (root ++ x.relative) names := by
  dsimp only at made
  split at made
  · rename_i reached
    rw [Bool.and_eq_true, List.isPrefixOf_iff_prefix] at reached
    rcases reached.1 with ⟨names, rfl⟩
    rw [List.drop_left] at made
    cases made
    have entry := mem_files member
    refine ⟨names, rfl, rfl, rfl, ?_, ?_, content, wellFormed.get?_eq entry⟩
    · rintro rfl
      have file := wellFormed.get?_eq entry
      rw [List.append_nil, led] at file
      cases file
    · exact fun n inside => wellFormed.named _ entry n (List.mem_append_right _ inside)
  · cases made

/-- Candidates are of files of their own. -/
theorem walk_pairwise (wellFormed : t.WellFormed) (located : t.locate root = .ok start)
    (led : t.get? start = some .directory) (rules : IgnoreRules) :
    (walk t rules start).Pairwise fun x y => root ++ x.relative ≠ root ++ y.relative := by
  rw [walk, List.pairwise_filterMap]
  refine (FileTree.files_pairwise wellFormed).imp_of_mem ?_
  rintro ⟨l, content⟩ ⟨k, content'⟩ first second different x made y made' same
  rcases walked root wellFormed led first made with ⟨names, rfl, _, place⟩
  rcases walked root wellFormed led second made' with ⟨names', rfl, _, place'⟩
  have there := (place.leadsToFile wellFormed located).located
  have there' := (place'.leadsToFile wellFormed located).located
  rw [same, there'] at there
  exact different (Except.ok.inj there).symm

/-- Discovered paths are different, and each is the path of a file by its names below the root. -/
theorem places (wellFormed : t.WellFormed) (found : Discovery.run t root c = .ok d) :
    ∃ start, t.locate root = .ok start ∧ d.files.Nodup ∧
      ∀ p ∈ d.files, ∃ names, Places t root start p names := by
  rcases exists_start found with ⟨start, f, led, _, files⟩
  have there := FileTree.find_eq_ok_iff.1 led
  refine ⟨start, there.1, ?_, fun p member => ?_⟩
  · rw [files, (List.mergeSort_perm _ _).nodup_iff, List.nodup_iff_pairwise_ne, List.pairwise_map]
    exact (walk_pairwise wellFormed there.1 there.2 _).filter _
  · rw [files, (List.mergeSort_perm _ _).mem_iff, List.mem_map] at member
    rcases member with ⟨x, candidate, rfl⟩
    rw [List.mem_filter, walk, List.mem_filterMap] at candidate
    rcases candidate.1 with ⟨⟨l, content⟩, file, made⟩
    rcases walked root wellFormed there.2 file made with ⟨names, _, _, place⟩
    exact ⟨names, place⟩

theorem keepsApart (wellFormed : t.WellFormed) (found : Discovery.run t root c = .ok d) :
    t.KeepsApart d.files := by
  rcases places wellFormed found with ⟨start, located, distinct, placed⟩
  refine ⟨distinct, fun p member => ?_, fun p member q member' same => ?_⟩
  · rcases placed p member with ⟨names, place⟩
    exact ⟨_, place.leadsToFile wellFormed located⟩
  · rcases placed p member with ⟨names, place⟩
    rcases placed q member' with ⟨names', place'⟩
    rw [(place.leadsToFile wellFormed located).located,
      (place'.leadsToFile wellFormed located).located] at same
    rw [place.path, place'.path, List.append_cancel_left (Except.ok.inj same)]

/-- The path from the root tells discovered files apart. -/
theorem below_inj (wellFormed : t.WellFormed) (found : Discovery.run t root c = .ok d)
    (member : p ∈ d.files) (member' : q ∈ d.files)
    (same : (p.below root).same (q.below root) = true) : p = q := by
  rcases places wellFormed found with ⟨start, located, _, placed⟩
  rcases placed p member with ⟨names, place⟩
  rcases placed q member' with ⟨names', place'⟩
  rw [place.below located, place'.below located] at same
  rw [place.path, place'.path,
    Path.ofNames_inj place.many place.proper place'.many place'.proper same]

theorem append_below (wellFormed : t.WellFormed) (found : Discovery.run t root c = .ok d)
    (member : p ∈ d.files) : root ++ p.below root = p := by
  rcases places wellFormed found with ⟨start, located, _, placed⟩
  rcases placed p member with ⟨names, place⟩
  rw [place.below located, place.path]

end ThemeMigration.Discovery
