import Mathlib.Data.Set.Card
import ThemeMigration.Proofs.Discovery.Places
import ThemeMigration.Proofs.FileTree.Reordering
import ThemeMigration.Proofs.Path.Order
import ThemeMigration.Proofs.Run.Acceptance

/-!
# What discovery selects

A file that the walk comes to and a pattern selects is of one of four classes: an exclude pattern
rejects it, it is no script, it is too large, or it is discovered.  Files of the first and the third
class are counted.  Neither the files nor the counts depend on the order in which the walk comes to
the files.
-/

namespace ThemeMigration.Discovery

open Script

/-! ## Classes of files -/

/-- One of some patterns matches the path of the names. -/
def Selects (patterns : List String) (names : List String) : Prop :=
  ∃ pattern ∈ patterns, ∃ glob, readGlob pattern = .ok glob ∧
    glob.accepts (Path.ofNames names).text = true

/-- A script that a pattern selects and no exclude pattern rejects. -/
structure Remains (c : Config) (names : List String) : Prop where
  selected : Selects c.project.patterns names
  kept : ¬ Selects c.exclude names
  script : ∃ language, Language.ofExtension? (Path.ofNames names).extension? = some language

/-- A file of the tree that a walk comes to by its names, with its size. -/
structure Visible (t : FileTree) (c : Config) (start : Location) (names : List String)
    (size : Nat) : Prop where
  file : ∃ content, t.get? (start ++ names) = some (.file content) ∧ content.size = size
  reached : (rules t c).reaches start names = true

theorem any_accepts_iff {patterns : List String} {globs : List Glob}
    (read : patterns.mapM readGlob = .ok globs) (names : List String) :
    (globs.any fun g => g.accepts (Path.ofNames names).text) = true ↔ Selects patterns names := by
  rw [List.any_eq_true, Selects]
  constructor
  · rintro ⟨glob, member, accepts⟩
    rcases (mem_mapM_iff read).1 member with ⟨pattern, inside, made⟩
    exact ⟨pattern, inside, glob, made, accepts⟩
  · rintro ⟨pattern, inside, glob, made, accepts⟩
    exact ⟨glob, (mem_mapM_iff read).2 ⟨pattern, inside, made⟩, accepts⟩

variable {t : FileTree} {root p q : Path} {start : Location} {c : Config} {f : Filter}

theorem Filter.ofConfig_eq_ok (made : Filter.ofConfig c = .ok f) :
    c.project.patterns.mapM readGlob = .ok f.patterns ∧ c.exclude.mapM readGlob = .ok f.exclude ∧
      f.maxFileSize = c.maxFileSize := by
  rw [Filter.ofConfig] at made
  cases patterns : c.project.patterns.mapM readGlob with
  | error e =>
    rw [patterns] at made
    cases made
  | ok globs =>
    rw [patterns] at made
    cases exclude : c.exclude.mapM readGlob with
    | error e =>
      rw [exclude] at made
      cases made
    | ok rejecting =>
      rw [exclude] at made
      cases made
      exact ⟨rfl, rfl, rfl⟩

/-- The classes of a file by the answers to the four questions. -/
theorem eligibility_iff (made : Filter.ofConfig c = .ok f) (names : List String) (size : Nat) :
    (f.eligibility ⟨Path.ofNames names, size⟩ = .excluded ↔
      Selects c.project.patterns names ∧ Selects c.exclude names) ∧
    (f.eligibility ⟨Path.ofNames names, size⟩ = .large ↔
      Remains c names ∧ c.maxFileSize < size) ∧
    (f.eligibility ⟨Path.ofNames names, size⟩ = .eligible ↔
      Remains c names ∧ size ≤ c.maxFileSize) := by
  rcases Filter.ofConfig_eq_ok made with ⟨patterns, exclude, limit⟩
  have remains : Remains c names ↔
      Selects c.project.patterns names ∧ ¬ Selects c.exclude names ∧
        (Language.ofExtension? (Path.ofNames names).extension?).isSome = true := by
    rw [Option.isSome_iff_exists]
    exact ⟨fun h => ⟨h.selected, h.kept, h.script⟩, fun ⟨one, two, three⟩ => ⟨one, two, three⟩⟩
  rw [remains, ← any_accepts_iff patterns, ← any_accepts_iff exclude, ← limit, Filter.eligibility]
  dsimp only
  cases f.patterns.any fun g => g.accepts (Path.ofNames names).text
  · simp
  cases f.exclude.any fun g => g.accepts (Path.ofNames names).text
  · cases Language.ofExtension? (Path.ofNames names).extension? with
    | none => simp
    | some language => by_cases large : f.maxFileSize < size <;> simp [large, ← Nat.not_lt]
  · simp

/-! ## The files of a walk -/

/-- The names and the size of a file, if a walk comes to it. -/
def visit? (rules : IgnoreRules) (start l : Location) (content : ByteArray) :
    Option (List String × Nat) :=
  let names := l.drop start.length
  if start.isPrefixOf l && rules.reaches start names then some (names, content.size) else none

/-- The names and sizes of the files that a walk comes to. -/
def visits (t : FileTree) (rules : IgnoreRules) (start : Location) : List (List String × Nat) :=
  t.files.filterMap fun (l, content) => visit? rules start l content

theorem walk_eq (t : FileTree) (rules : IgnoreRules) (start : Location) :
    walk t rules start = (visits t rules start).map fun v => ⟨Path.ofNames v.1, v.2⟩ := by
  rw [walk, visits, List.map_filterMap]
  refine List.filterMap_congr fun x _ => ?_
  dsimp only [visit?]
  split <;> rfl

theorem visit?_eq_some_iff {rules : IgnoreRules} {l : Location} {content : ByteArray}
    {v : List String × Nat} :
    visit? rules start l content = some v ↔
      l = start ++ v.1 ∧ rules.reaches start v.1 = true ∧ content.size = v.2 := by
  rcases v with ⟨names, size⟩
  dsimp only [visit?]
  constructor
  · intro made
    split at made
    · rename_i reached
      rw [Bool.and_eq_true, List.isPrefixOf_iff_prefix] at reached
      rcases reached with ⟨⟨rest, rfl⟩, reached⟩
      cases made
      rw [List.drop_left] at reached ⊢
      exact ⟨rfl, reached, rfl⟩
    · cases made
  · rintro ⟨rfl, reached, rfl⟩
    have inside : start.isPrefixOf (start ++ names) = true :=
      List.isPrefixOf_iff_prefix.2 (List.prefix_append ..)
    rw [List.drop_left, inside, reached]
    rfl

/-- A walk comes to the visible files. -/
theorem mem_visits_iff (wellFormed : t.WellFormed) {v : List String × Nat} :
    v ∈ visits t (rules t c) start ↔ Visible t c start v.1 v.2 := by
  rw [visits, List.mem_filterMap]
  constructor
  · rintro ⟨⟨l, content⟩, member, made⟩
    rcases visit?_eq_some_iff.1 made with ⟨rfl, reached, size⟩
    exact ⟨⟨content, wellFormed.get?_eq (mem_files member), size⟩, reached⟩
  · rintro ⟨⟨content, file, size⟩, reached⟩
    exact ⟨_, mem_files_of_get? file, visit?_eq_some_iff.2 ⟨rfl, reached, size⟩⟩

/-- A walk comes to each file once. -/
theorem visits_nodup (wellFormed : t.WellFormed) (rules : IgnoreRules) :
    ((visits t rules start).map Prod.fst).Nodup := by
  rw [List.nodup_iff_pairwise_ne, List.pairwise_map, visits]
  refine (FileTree.files_pairwise wellFormed).filterMap _ ?_
  rintro ⟨l, content⟩ ⟨k, content'⟩ different v made w made' same
  have first := (visit?_eq_some_iff.1 made).1
  rw [same, ← (visit?_eq_some_iff.1 made').1] at first
  exact different first

/-! ## The discovery of a walk -/

/-- What a filter makes of the files that a walk yields. -/
def select (f : Filter) (root : Path) (yielded : List Candidate) : Discovery :=
  let having (e : Eligibility) := yielded.filter fun x => f.eligibility x == e
  { files := ((having .eligible).map fun x => root ++ x.relative).mergeSort Path.le
    skippedLarge := (having .large).length
    skippedExcluded := (having .excluded).length }

theorem run_eq (led : t.find root = .ok (start, .directory)) (made : Filter.ofConfig c = .ok f) :
    run t root c = .ok (select f root (walk t (rules t c) start)) := by
  rw [run, led]
  dsimp only
  rw [made]
  rfl

theorem select_files_perm (f : Filter) (root : Path) (yielded : List Candidate) :
    (select f root yielded).files.Perm
      ((yielded.filter fun x => f.eligibility x == .eligible).map fun x => root ++ x.relative) :=
  List.mergeSort_perm _ _

theorem select_files_pairwise (f : Filter) (root : Path) (yielded : List Candidate) :
    (select f root yielded).files.Pairwise fun p q => p.le q = true :=
  Path.mergeSort_pairwise _

theorem filter_walk (passes : Candidate → Bool) :
    (walk t (rules t c) start).filter passes =
      ((visits t (rules t c) start).filter fun v => passes ⟨Path.ofNames v.1, v.2⟩).map
        fun v => ⟨Path.ofNames v.1, v.2⟩ := by
  rw [walk_eq, List.filter_map, Function.comp_def]

/-- The walk comes to as many files of a class as there are visible files with the property that
makes the class. -/
theorem count_walk (wellFormed : t.WellFormed) {e : Eligibility} {P : List String → Nat → Prop}
    (decides : ∀ names size, f.eligibility ⟨Path.ofNames names, size⟩ = e ↔ P names size) :
    (((walk t (rules t c) start).filter fun x => f.eligibility x == e).length : ℕ∞) =
      {names | ∃ size, Visible t c start names size ∧ P names size}.encard := by
  let found := (visits t (rules t c) start).filter fun v =>
    f.eligibility ⟨Path.ofNames v.1, v.2⟩ == e
  have distinct : (found.map Prod.fst).Nodup :=
    (visits_nodup wellFormed _).sublist (List.filter_sublist.map _)
  have same : {names | ∃ size, Visible t c start names size ∧ P names size} =
      (found.map Prod.fst).toFinset := by
    ext names
    simp [found, mem_visits_iff wellFormed, decides]
  rw [same, Set.encard_coe_eq_coe_finsetCard, List.toFinset_card_of_nodup distinct, List.length_map,
    filter_walk, List.length_map]

/-- Discovered files are visible and eligible. -/
theorem mem_select_files (wellFormed : t.WellFormed) (made : Filter.ofConfig c = .ok f) :
    p ∈ (select f root (walk t (rules t c) start)).files ↔
      ∃ names size, p = root ++ Path.ofNames names ∧ Visible t c start names size ∧
        Remains c names ∧ size ≤ c.maxFileSize := by
  rw [(select_files_perm ..).mem_iff, filter_walk, List.map_map, List.mem_map]
  constructor
  · rintro ⟨⟨names, size⟩, found, rfl⟩
    rw [List.mem_filter, mem_visits_iff wellFormed, beq_iff_eq,
      (eligibility_iff made names size).2.2] at found
    exact ⟨names, size, rfl, found.1, found.2⟩
  · rintro ⟨names, size, rfl, visible, eligible⟩
    refine ⟨(names, size), ?_, rfl⟩
    rw [List.mem_filter, mem_visits_iff wellFormed, beq_iff_eq,
      (eligibility_iff made names size).2.2]
    exact ⟨visible, eligible⟩

/-- Discovered files stand strictly in the order of their paths. -/
theorem files_pairwise_lt {d : Discovery} (wellFormed : t.WellFormed)
    (found : run t root c = .ok d) : d.files.Pairwise fun p q => p.compare q = .lt := by
  rcases places wellFormed found with ⟨start, located, distinct, placed⟩
  rcases exists_start found with ⟨_, f, _, _, files⟩
  have ordered : d.files.Pairwise fun p q => p.le q = true := by
    rw [files]
    exact Path.mergeSort_pairwise _
  refine (ordered.and (List.nodup_iff_pairwise_ne.1 distinct)).imp_of_mem ?_
  rintro p q first second ⟨le, different⟩
  refine Path.compare_eq_lt le (Bool.eq_false_iff.2 fun same => different ?_)
  rcases placed p first with ⟨names, place⟩
  rcases placed q second with ⟨names', place'⟩
  exact place.eq_of_same located place' same

/-- The order in which a walk yields its files does not matter. -/
theorem select_eq_of_perm (wellFormed : t.WellFormed)
    (led : t.find root = .ok (start, .directory)) (made : Filter.ofConfig c = .ok f)
    {yielded : List Candidate} (perm : yielded.Perm (walk t (rules t c) start)) :
    select f root yielded = select f root (walk t (rules t c) start) := by
  have files :
      (select f root yielded).files.Perm (select f root (walk t (rules t c) start)).files :=
    (select_files_perm ..).trans (((perm.filter _).map _).trans (select_files_perm ..).symm)
  rcases places wellFormed (run_eq led made) with ⟨start', located, _, placed⟩
  have same : (select f root yielded).files = (select f root (walk t (rules t c) start)).files := by
    refine List.Perm.eq_of_pairwise ?_ (select_files_pairwise ..) (select_files_pairwise ..) files
    intro p q first second le ge
    rcases placed p (files.mem_iff.1 first) with ⟨names, place⟩
    rcases placed q second with ⟨names', place'⟩
    exact place.eq_of_same located place' (Path.same_of_le le ge)
  have large := (perm.filter fun x => f.eligibility x == .large).length_eq
  have excluded := (perm.filter fun x => f.eligibility x == .excluded).length_eq
  exact (Discovery.mk.injEq ..).mpr ⟨same, large, excluded⟩

theorem run_eq_of_reordered {u : FileTree} (same : FileTree.Reordered t u)
    (wellFormed : t.WellFormed) (led : t.find root = .ok (start, .directory))
    (made : Filter.ofConfig c = .ok f) : run u root c = run t root c := by
  have led' : u.find root = .ok (start, .directory) := (same.find_eq wellFormed root).trans led
  have ruleFiles : (rules t c).Perm (rules u c) := by
    rw [rules, rules]
    split
    · exact same.files.filterMap _
    · exact .refl _
  have apart : (rules t c).Pairwise fun g h => ¬ (g.kind = h.kind ∧ g.directory = h.directory) := by
    rw [rules]
    split
    · exact RuleFile.ofTree_pairwise wellFormed
    · exact .nil
  have walks : (walk u (rules u c) start).Perm (walk t (rules t c) start) := by
    rw [walk, walk, IgnoreRules.reaches_eq_of_perm ruleFiles apart]
    exact same.files.symm.filterMap _
  rw [run_eq led' made, run_eq led made, select_eq_of_perm wellFormed led made walks]

/-- A run discovers the visible files that are eligible, in strict order of their paths, and counts
the visible files that are excluded or too large.  Entries and visits in another order lead to the
same discovery. -/
theorem run_selects (wellFormed : t.WellFormed) (led : t.find root = .ok (start, .directory))
    (valid : ∀ pattern ∈ c.project.patterns ++ c.exclude, ∃ glob, readGlob pattern = .ok glob) :
    ∃ d, run t root c = .ok d ∧
      d.files.Pairwise (fun p q => p.compare q = .lt) ∧
      (∀ p, p ∈ d.files ↔ ∃ names size, p = root ++ Path.ofNames names ∧
        Visible t c start names size ∧ Remains c names ∧ size ≤ c.maxFileSize) ∧
      d.skippedExcluded = {names | ∃ size, Visible t c start names size ∧
        Selects c.project.patterns names ∧ Selects c.exclude names}.encard ∧
      d.skippedLarge = {names | ∃ size, Visible t c start names size ∧
        Remains c names ∧ c.maxFileSize < size}.encard ∧
      (∃ f, Filter.ofConfig c = .ok f ∧
        ∀ yielded, yielded.Perm (walk t (rules t c) start) → select f root yielded = d) ∧
      ∀ u, FileTree.Reordered t u → run u root c = .ok d := by
  rcases Filter.exists_ofConfig_iff.2 valid with ⟨f, made⟩
  have found := run_eq led made
  refine ⟨_, found, files_pairwise_lt wellFormed found, fun p => mem_select_files wellFormed made,
    ?_, ?_, ⟨f, made, fun yielded perm => select_eq_of_perm wellFormed led made perm⟩,
    fun u same => (run_eq_of_reordered same wellFormed led made).trans found⟩
  · exact count_walk wellFormed (P := fun names _ => _ ∧ _) fun names size =>
      (eligibility_iff made names size).1
  · exact count_walk wellFormed fun names size => (eligibility_iff made names size).2.1

/-- A directory with a small script, a large one, declarations, styles and a script that its
`.gitignore` names. -/
def app : FileTree where
  entries := [
    (["app"], .directory),
    (["app", ".gitignore"], .file "Old.tsx\n".toUTF8),
    (["app", "src"], .directory),
    (["app", "src", "Big.tsx"], .file "let name = 'large';".toUTF8),
    (["app", "src", "Card.tsx"], .file "let size = 4;".toUTF8),
    (["app", "src", "Old.tsx"], .file "let name = 'old';".toUTF8),
    (["app", "src", "card.css"], .file "a \x7b\x7d".toUTF8),
    (["app", "src", "types.d.ts"], .file "let name;".toUTF8)]
  workingDirectory := ⟨"/"⟩

def appConfig : Config :=
  { project := { patterns := ["src/**/*.*"] }, scan := { maxFileSize := some 16 } }

theorem run_selects_app :
    app.WellFormed ∧ app.find ⟨"app"⟩ = .ok (["app"], .directory) ∧
      (∀ pattern ∈ appConfig.project.patterns ++ appConfig.exclude,
        ∃ glob, readGlob pattern = .ok glob) ∧
      ∃ d, run app ⟨"app"⟩ appConfig = .ok d ∧ d.skippedExcluded = 1 ∧ d.skippedLarge = 1 ∧
        {names | ∃ size, Visible app appConfig ["app"] names size ∧ Remains appConfig names ∧
          appConfig.maxFileSize < size}.encard = 1 ∧
        ∀ u, FileTree.Reordered app u → run u ⟨"app"⟩ appConfig = .ok d := by
  have wellFormed : app.WellFormed := by decide +kernel
  have led : app.find ⟨"app"⟩ = .ok (["app"], .directory) :=
    FileTree.find_eq_ok_iff.2 ⟨by decide +kernel, by decide +kernel⟩
  have valid : ∀ pattern ∈ appConfig.project.patterns ++ appConfig.exclude,
      ∃ glob, readGlob pattern = .ok glob := by
    have reads : ((appConfig.project.patterns ++ appConfig.exclude).all
        fun pattern => (readGlob pattern).isOk) = true := by decide +kernel
    intro pattern member
    have read := List.all_eq_true.1 reads pattern member
    cases made : readGlob pattern with
    | ok glob => exact ⟨glob, rfl⟩
    | error e =>
      rw [made] at read
      cases read
  have counts : ((run app ⟨"app"⟩ appConfig).toOption.map fun d =>
      (d.skippedExcluded, d.skippedLarge)) = some (1, 1) := by decide +kernel
  rcases run_selects wellFormed led valid with ⟨d, found, _, _, _, large, _, same⟩
  rw [found] at counts
  have both := Prod.mk.inj (Option.some.inj counts)
  refine ⟨wellFormed, led, valid, d, found, both.1, both.2, ?_, same⟩
  rw [← large, both.2]
  rfl

end ThemeMigration.Discovery
