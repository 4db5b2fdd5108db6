import Mathlib.Data.List.Forall2
import ThemeMigration.Proofs.TsConfig.Hierarchy

/-!
# Inheritance of options

The files of a hierarchy have an order of precedence: a file comes before those that it extends, and
a later base with all that it extends before an earlier one.  A load finds the hierarchy under its
path, and each option has the value of the first file that sets it, whatever sets the others.
-/

namespace ThemeMigration.TsConfig

namespace Options

theorem above_assoc (a b c : Options) : (a.above b).above c = a.above (b.above c) := by
  simp [above, Option.or_assoc]

/-- What files set together, each one over those behind it. -/
def ofFiles (files : List ReadFile) : Options :=
  ⟨files.findSome? ReadFile.baseUrl?, files.findSome? ReadFile.paths?⟩

theorem ofFiles_append (front back : List ReadFile) :
    ofFiles (front ++ back) = (ofFiles front).above (ofFiles back) := by
  simp [ofFiles, above, List.findSome?_append]

theorem ofFiles_cons (f : ReadFile) (files : List ReadFile) :
    ofFiles (f :: files) = (ownOptions f.directory f.config).above (ofFiles files) := by
  rw [← List.singleton_append, ofFiles_append, f.ownOptions_eq]
  simp [ofFiles]

end Options

namespace Hierarchy

mutual

/-- The files of a hierarchy in their order of precedence. -/
def files : Hierarchy → List ReadFile
  | node f bases => f :: filesOfAll bases

def filesOfAll : List Hierarchy → List ReadFile
  | [] => []
  | b :: bases => filesOfAll bases ++ b.files

end

/-- What the files of a hierarchy set together. -/
def options (h : Hierarchy) : Options := .ofFiles h.files

/-- The bases are put over each other one by one. -/
theorem foldl_options (bases : List Hierarchy) (o : Options) :
    (bases.map options).foldl (fun lower upper => upper.above lower) o =
      (Options.ofFiles (filesOfAll bases)).above o := by
  induction bases generalizing o with
  | nil => simp [filesOfAll, Options.ofFiles, Options.above]
  | cons b bases ih =>
    rw [List.map_cons, List.foldl_cons, ih, filesOfAll, Options.ofFiles_append,
      Options.above_assoc, options]

theorem options_node (f : ReadFile) (bases : List Hierarchy) :
    (node f bases).options = (ownOptions f.directory f.config).above
      ((bases.map options).foldl (fun lower upper => upper.above lower) {}) := by
  rw [foldl_options, options, files, Options.ofFiles_cons]
  simp [Options.above]

end Hierarchy

/-! ## What a load finds -/

/-- A relation that holds through a third thing, over two lists. -/
theorem forall₂_through_iff {α β γ : Type} {S : γ → Prop} {f : γ → α} {g : γ → β} {as : List α}
    {bs : List β} :
    List.Forall₂ (fun a b => ∃ c, S c ∧ f c = a ∧ g c = b) as bs ↔
      ∃ cs : List γ, (∀ c ∈ cs, S c) ∧ cs.map f = as ∧ cs.map g = bs := by
  constructor
  · intro related
    induction related with
    | nil => exact ⟨[], by simp⟩
    | cons head _ ih =>
      obtain ⟨c, holds, rfl, rfl⟩ := head
      obtain ⟨cs, all, rfl, rfl⟩ := ih
      exact ⟨c :: cs, by simpa using ⟨holds, all⟩, rfl, rfl⟩
  · rintro ⟨cs, all, rfl, rfl⟩
    simpa [List.forall₂_same] using fun c member => ⟨c, all c member, rfl, rfl⟩

section Load

variable {t : FileTree}

/-- The entries of a list are read file by file, and packages are passed over. -/
theorem extendAll_eq_ok_iff {file : Path} {room : Bool}
    {load : Path → Except ConfigError Options} {o r : Options} {entries : List String} :
    extendAll t file room load o entries = .ok r ↔
      ∃ inherited : List Options,
        List.Forall₂ (fun p i => room = true ∧ t.isFile p = true ∧ load p = .ok i)
            ((entries.filter (NamesFile ·)).map (extendedFile t (directoryOf file))) inherited ∧
          inherited.foldl (fun lower upper => upper.above lower) o = r := by
  induction entries generalizing o with
  | nil => simp [extendAll]
  | cons entry rest ih =>
    rw [extendAll]
    by_cases named : NamesFile entry
    case neg =>
      have package : namesFile entry = false :=
        Bool.eq_false_iff.2 fun names => named ((namesFile_iff entry).1 names)
      simp only [package, Bool.not_false, if_true, ih]
      rw [List.filter_cons_of_neg (by simpa using named)]
    case pos =>
      rw [List.filter_cons_of_pos (by simpa using named)]
      simp only [(namesFile_iff entry).2 named, Bool.not_true, Bool.false_eq_true, if_false,
        List.map_cons, List.forall₂_cons_left_iff]
      cases room with
      | false => simp
      | true =>
        cases t.isFile (extendedFile t (directoryOf file) entry) with
        | false => simp
        | true =>
          cases load (extendedFile t (directoryOf file) entry) with
          | error e => simp
          | ok i => simp [ih]

theorem loadFile_eq_ok_iff {room : Bool} {load : Path → Except ConfigError Options} {p : Path}
    {o : Options} :
    loadFile t room load p = .ok o ↔
      ∃ config inherited, readJson t p = .ok config ∧
        extendAll t p room load {} (extendsList config) = .ok inherited ∧
        (ownOptions (directoryOf p) config).above inherited = o := by
  rw [loadFile]
  cases readJson t p with
  | error e => simp
  | ok config =>
    simp only [Except.ok.injEq, exists_eq_left', exists_and_left]
    split <;> simp [*]

/-- A file loads exactly if it is the top of a hierarchy, given that the files that it extends do
so within fewer steps. -/
theorem loadFile_eq_ok_iff_of_base {n : Nat} {room : Bool}
    {load : Path → Except ConfigError Options} {p : Path} {o : Options}
    (base : ∀ q i, (room = true ∧ t.isFile q = true ∧ load q = .ok i) ↔
      ∃ b : Hierarchy, (b.IsRead t ∧ t.isFile b.path = true ∧ b.height < n) ∧ b.path = q ∧
        b.options = i) :
    loadFile t room load p = .ok o ↔
      ∃ h : Hierarchy, h.IsRead t ∧ h.path = p ∧ h.height ≤ n ∧ h.options = o := by
  simp only [loadFile_eq_ok_iff, extendAll_eq_ok_iff, base, forall₂_through_iff]
  constructor
  · rintro ⟨config, _, read, ⟨_, ⟨bases, all, named, rfl⟩, rfl⟩, rfl⟩
    refine ⟨.node ⟨p, config⟩ bases, ?_, rfl, ?_, ?_⟩
    · exact .node read named (fun b member => (all b member).2.1) fun b member => (all b member).1
    · exact (Hierarchy.heightAbove_le_iff bases n).2 fun b member => (all b member).2.2
    · exact Hierarchy.options_node ⟨p, config⟩ bases
  · rintro ⟨h, hr, rfl, low, rfl⟩
    cases hr with
    | @node f bases read named there below =>
      have lower := (Hierarchy.heightAbove_le_iff bases n).1 low
      exact ⟨f.config, _, read, ⟨_, ⟨bases, fun b member => ⟨below b member, there b member,
        lower b member⟩, named, rfl⟩, rfl⟩, (Hierarchy.options_node f bases).symm⟩

/-- Within a number of steps a file loads exactly if it is the top of a hierarchy of that height,
and what it loads is what the files of the hierarchy set together. -/
theorem loadOptions_eq_ok_iff {n : Nat} {p : Path} {o : Options} :
    loadOptions t n p = .ok o ↔
      ∃ h : Hierarchy, h.IsRead t ∧ h.path = p ∧ h.height ≤ n ∧ h.options = o := by
  induction n generalizing p o with
  | zero =>
    rw [loadOptions]
    exact loadFile_eq_ok_iff_of_base fun q i => by simp
  | succ n ih =>
    rw [loadOptions]
    refine loadFile_eq_ok_iff_of_base fun q i => ?_
    rw [ih]
    constructor
    · rintro ⟨_, there, b, read, rfl, low, rfl⟩
      exact ⟨b, ⟨read, there, Nat.lt_succ_of_le low⟩, rfl, rfl⟩
    · rintro ⟨b, ⟨read, there, low⟩, rfl, rfl⟩
      exact ⟨rfl, there, b, read, rfl, Nat.le_of_lt_succ low, rfl⟩

/-- The `tsconfig` at a path that has the options. -/
def Options.config (o : Options) (path : Path) : TsConfig where
  path := path
  baseUrl := o.baseUrl
  paths := (o.paths.getD ([], directoryOf path)).1
  pathsBase := o.baseUrl.getD (o.paths.getD ([], directoryOf path)).2

theorem load_eq_ok_iff {p : Path} {c : TsConfig} :
    load t p = .ok c ↔ t.isFile p = true ∧ ∃ h : Hierarchy, h.IsRead t ∧
      h.path = (t.workingDirectory ++ p).normalize ∧ h.height ≤ maxDepth ∧
      h.options.config h.path = c := by
  have loaded : load t p = if t.isFile p = true then
      (loadOptions t maxDepth (t.workingDirectory ++ p).normalize).map
        fun o => o.config (t.workingDirectory ++ p).normalize
      else .error (.fileNotFound p.text) := by
    rw [load]
    cases t.isFile p <;> rfl
  rw [loaded]
  cases t.isFile p with
  | false => simp
  | true =>
    have mapped : ∀ (x : Except ConfigError Options) (f : Options → TsConfig),
        x.map f = .ok c ↔ ∃ o, x = .ok o ∧ f o = c := by
      intro x f
      cases x <;> simp [Except.map]
    rw [if_pos rfl, mapped]
    simp only [loadOptions_eq_ok_iff, true_and]
    constructor
    · rintro ⟨_, ⟨h, hr, top, low, rfl⟩, rfl⟩
      exact ⟨h, hr, top, low, by rw [top]⟩
    · rintro ⟨h, hr, top, low, rfl⟩
      exact ⟨_, ⟨h, hr, top, low, rfl⟩, by rw [top]⟩

end Load

/-- For every file tree and every `tsconfig` that loads there is one hierarchy under its path, and
the `tsconfig` has from it each option by itself: the base directory of the first file that sets
one, and as a whole the path map of the first file that sets one.  The targets are resolved
against the base directory, or else against the directory of the file that sets the path map. -/
theorem load_inherits {t : FileTree} {p : Path} {c : TsConfig} (loaded : load t p = .ok c) :
    ∃ h : Hierarchy, (∀ k : Hierarchy, k.IsRead t ∧ k.path = c.path ↔ k = h) ∧
      c.path = (t.workingDirectory ++ p).normalize ∧
      c.baseUrl = h.files.findSome? ReadFile.baseUrl? ∧
      c.paths = ((h.files.findSome? ReadFile.paths?).map Prod.fst).getD [] ∧
      c.pathsBase = c.baseUrl.getD
        (((h.files.findSome? ReadFile.paths?).map Prod.snd).getD (directoryOf c.path)) := by
  rcases load_eq_ok_iff.1 loaded with ⟨_, h, hr, top, _, rfl⟩
  let default : List (String × List String) × Path := ([], directoryOf h.path)
  refine ⟨h, fun k => ⟨?_, ?_⟩, top, rfl, (Option.getD_map Prod.fst default _).symm, ?_⟩
  · rintro ⟨kr, same⟩
    exact kr.unique hr same
  · rintro rfl
    exact ⟨hr, rfl⟩
  · exact congrArg (Option.getD (h.files.findSome? ReadFile.baseUrl?))
      (Option.getD_map Prod.snd default _).symm

/-! ## A hierarchy of four files -/

namespace Layered

/-- A file over two others and a package.  The later one sets nothing itself and stands over a file
with a path map, the earlier one sets both options. -/
def project : FileTree where
  entries := [
    (["project"], .directory),
    (["project", "tsconfig.json"],
      .file "\x7b\"extends\":[\"./base\",\"@ts/node\",\"./web\"]\x7d".toUTF8),
    (["project", "base.json"],
      .file "\x7b\"compilerOptions\":\x7b\"baseUrl\":\"src\",\"paths\":\x7b\x7d\x7d\x7d".toUTF8),
    (["project", "web.json"], .file "\x7b\"extends\":\"./paths\"\x7d".toUTF8),
    (["project", "paths.json"],
      .file "\x7b\"compilerOptions\":\x7b\"paths\":\x7b\"@/*\":[\"*\"]\x7d\x7d\x7d".toUTF8)]
  workingDirectory := ⟨"/project"⟩

def config : TsConfig where
  path := ⟨"/project/tsconfig.json"⟩
  baseUrl := some ⟨"/project/src"⟩
  paths := [("@/*", ["*"])]
  pathsBase := ⟨"/project/src"⟩

end Layered

/-- Each option comes from another file. -/
theorem load_inherits_layered :
    load Layered.project ⟨"tsconfig.json"⟩ = .ok Layered.config ∧
      ∃ h : Hierarchy, (∀ k : Hierarchy,
          k.IsRead Layered.project ∧ k.path = ⟨"/project/tsconfig.json"⟩ ↔ k = h) ∧
        h.files.findSome? ReadFile.baseUrl? = some ⟨"/project/src"⟩ ∧
        ((h.files.findSome? ReadFile.paths?).map Prod.fst).getD [] = [("@/*", ["*"])] := by
  have loaded : load Layered.project ⟨"tsconfig.json"⟩ = .ok Layered.config := by decide +kernel
  rcases load_inherits loaded with ⟨h, unique, _, baseUrl, paths, _⟩
  exact ⟨loaded, h, unique, baseUrl.symm, paths.symm⟩

end ThemeMigration.TsConfig
