import Mathlib.Data.List.Basic
import ThemeMigration.Proofs.Config.Validity
import ThemeMigration.Proofs.Run.Acceptance

/-!
# Settings from layers

The configuration of a run, setting by setting.  Three settings can be given in all layers, two on
the command line and in the file, and the others in the file alone, which they leave unchanged.
What has to be valid is the outcome: a layer that would not be valid by itself does no harm under
one that mends it.
-/

namespace ThemeMigration.Config

/-! ## The file -/

section

variable {t : FileTree} {root : Path} {named : Option Path}

/-- The file that settings are read from: the one that is named, or else that of the project. -/
def IsUsed (t : FileTree) (root : Path) (named : Option Path) (p : Path) : Prop :=
  p = root ++ named.getD ⟨fileName⟩ ∧ t.isFile p = true

/-- The settings that a file has. -/
def HasSettings (t : FileTree) (p : Path) (file : Config) : Prop :=
  ∃ text, t.readText? p = some text ∧ ofToml p.text text = .ok file

/-- The settings of the layer below the environment.  Without a file nothing is set, unless one is
named. -/
def IsFileLayer (t : FileTree) (root : Path) (named : Option Path) (file : Config) : Prop :=
  (∃ p, IsUsed t root named p ∧ HasSettings t p file) ∨
    (named = none ∧ (¬∃ p, IsUsed t root named p) ∧ file = {})

theorem readFile_eq_ok_iff {p : Path} {file : Config} :
    readFile t p = .ok file ↔ HasSettings t p file := by
  rw [readFile, HasSettings]
  cases t.readText? p <;> simp

theorem exists_isUsed_iff (t : FileTree) (root : Path) (named : Option Path) (P : Path → Prop) :
    (∃ p, IsUsed t root named p ∧ P p) ↔
      t.isFile (root ++ named.getD ⟨fileName⟩) = true ∧ P (root ++ named.getD ⟨fileName⟩) := by
  simp only [IsUsed, and_assoc, exists_eq_left]

theorem ofFile_eq_ok_iff {file : Config} :
    ofFile t root named = .ok file ↔ IsFileLayer t root named file := by
  have used : (∃ p, IsUsed t root named p) ↔ t.isFile (root ++ named.getD ⟨fileName⟩) = true := by
    simpa using exists_isUsed_iff t root named fun _ => True
  rw [IsFileLayer, exists_isUsed_iff, used, ← readFile_eq_ok_iff]
  cases named with
  | some p =>
    rw [ofFile, Option.getD_some]
    cases t.isFile (root ++ p) <;> simp
  | none =>
    rw [ofFile, Option.getD_none]
    cases t.isFile (root ++ ⟨fileName⟩) with
    | false => simpa using eq_comm
    | true => simp

/-- What a text says does not depend on the name that it was found under. -/
theorem ofToml_eq_ok_iff {origin text : String} {c : Config} :
    ofToml origin text = .ok c ↔ (Toml.parse text).bind Decoder.config = .ok c := by
  rw [ofToml]
  cases (Toml.parse text).bind Decoder.config <;> simp

end

/-! ## The layers -/

section

variable {file : Config} {environment : Environment} {flags : Flags} {c : Config}

/-- What the environment says about a setting, if it can be read. -/
def inEnvironment? {α : Type} (environment : Environment) (name : String)
    (read? : String → Option α) : Option α :=
  (environment.lookup name).bind read?

/-- Each setting has the value of the highest layer that has it. -/
structure Layered (file : Config) (environment : Environment) (flags : Flags) (c : Config) :
    Prop where
  tsconfig : c.project.tsconfig = flags.tsconfig.or file.project.tsconfig
  patterns : c.project.patterns =
    if flags.patterns = [] then file.project.patterns else flags.patterns
  maxFileSize : c.scan.maxFileSize = flags.maxFileSize.or
    ((inEnvironment? environment "RECOLOR_MAX_FILE_SIZE" word?).or file.scan.maxFileSize)
  threads : c.scan.threads = flags.threads.or
    ((inEnvironment? environment "RECOLOR_THREADS" word?).or file.scan.threads)
  dryRun : c.scan.dryRun = flags.dryRun.or
    ((inEnvironment? environment "RECOLOR_DRY_RUN" flag?).or file.scan.dryRun)
  exclude : c.scan.exclude = file.scan.exclude
  respectGitignore : c.scan.respectGitignore = file.scan.respectGitignore
  accessor : c.accessor = file.accessor
  detector : c.detector = file.detector
  replacement : c.replacement = file.replacement
  mapping : c.mapping = file.mapping

/-- The environment and the command line have none of the settings that are left as they are. -/
theorem layered_merge (file : Config) (environment : Environment) (flags : Flags) :
    Layered file environment flags
      ((file.merge (ofEnvironment environment)).merge (ofFlags flags)) where
  tsconfig := rfl
  patterns := by
    change overrideList file.project.patterns flags.patterns = _
    simp [overrideList]
  maxFileSize := rfl
  threads := rfl
  dryRun := rfl
  exclude := rfl
  respectGitignore := rfl
  accessor := rfl
  detector := rfl
  replacement := rfl
  mapping := rfl

theorem Layered.unique {d : Config} (h : Layered file environment flags c)
    (k : Layered file environment flags d) : c = d := by
  rcases c with ⟨⟨_, _⟩, ⟨_, _, _, _, _⟩, _, _, _, _⟩
  rcases d with ⟨⟨_, _⟩, ⟨_, _, _, _, _⟩, _, _, _, _⟩
  congr 1
  · exact congr (congrArg Project.mk (h.tsconfig.trans k.tsconfig.symm))
      (h.patterns.trans k.patterns.symm)
  · congr 1
    · exact h.maxFileSize.trans k.maxFileSize.symm
    · exact h.threads.trans k.threads.symm
    · exact h.exclude.trans k.exclude.symm
    · exact h.respectGitignore.trans k.respectGitignore.symm
    · exact h.dryRun.trans k.dryRun.symm
  · exact h.accessor.trans k.accessor.symm
  · exact h.detector.trans k.detector.symm
  · exact h.replacement.trans k.replacement.symm
  · exact h.mapping.trans k.mapping.symm

/-- The layers one over the other. -/
theorem layered_iff :
    Layered file environment flags c ↔
      (file.merge (ofEnvironment environment)).merge (ofFlags flags) = c := by
  constructor
  · exact (layered_merge file environment flags).unique
  · rintro rfl
    exact layered_merge file environment flags

end

/-! ## A load -/

section

variable {t : FileTree} {root : Path} {named : Option Path} {environment : Environment}
  {flags : Flags} {c : Config}

theorem load_eq_ok_iff_layered :
    load t root named environment flags = .ok c ↔
      ∃ file, IsFileLayer t root named file ∧ Layered file environment flags c ∧ c.Valid := by
  simp only [load_eq_ok_iff, ofFile_eq_ok_iff, firstFault?_eq_none_iff, layered_iff]

theorem IsUsed.unique {p q : Path} (hp : IsUsed t root named p) (hq : IsUsed t root named q) :
    p = q := hp.1.trans hq.1.symm

theorem IsFileLayer.unique {file other : Config} (h : IsFileLayer t root named file)
    (k : IsFileLayer t root named other) : file = other :=
  Except.ok.inj ((ofFile_eq_ok_iff.2 h).symm.trans (ofFile_eq_ok_iff.2 k))

/-- There is a layer of the file unless a file that is named is missing, or the file that is used
has no settings. -/
theorem exists_isFileLayer_iff :
    (∃ file, IsFileLayer t root named file) ↔
      (∀ p, named = some p → t.isFile (root ++ p) = true) ∧
        ∀ p, IsUsed t root named p → ∃ file, HasSettings t p file := by
  constructor
  · rintro ⟨file, ⟨p, used, settings⟩ | ⟨rfl, unused, _⟩⟩
    · refine ⟨?_, fun q other => ⟨file, used.unique other ▸ settings⟩⟩
      rintro q rfl
      exact used.1 ▸ used.2
    · exact ⟨nofun, fun q used => absurd ⟨q, used⟩ unused⟩
  · rintro ⟨there, settings⟩
    by_cases used : ∃ p, IsUsed t root named p
    · rcases used with ⟨p, used⟩
      rcases settings p used with ⟨file, settings⟩
      exact ⟨file, .inl ⟨p, used, settings⟩⟩
    · cases named with
      | none => exact ⟨{}, .inr ⟨rfl, used, rfl⟩⟩
      | some p => exact absurd ⟨root ++ p, rfl, there p rfl⟩ used

theorem not_exists_hasSettings_iff {p : Path} :
    (¬∃ file, HasSettings t p file) ↔ t.readText? p = none ∨
      ∃ text, t.readText? p = some text ∧ ∀ origin file, ofToml origin text ≠ .ok file := by
  simp only [HasSettings, ofToml_eq_ok_iff, ne_eq]
  cases t.readText? p <;> simp

theorem not_exists_isFileLayer_iff :
    (¬∃ file, IsFileLayer t root named file) ↔
      (∃ p, named = some p ∧ t.isFile (root ++ p) = false) ∨
      (∃ p, IsUsed t root named p ∧ t.readText? p = none) ∨
      ∃ p text, IsUsed t root named p ∧ t.readText? p = some text ∧
        ∀ origin file, ofToml origin text ≠ .ok file := by
  rw [exists_isFileLayer_iff, not_and_or]
  refine or_congr ?_ ?_
  · simp
  · simp only [not_forall, exists_prop, not_exists_hasSettings_iff, and_or_left, exists_or,
      exists_and_left]

theorem exists_load_eq_error_iff :
    (∃ e, load t root named environment flags = .error e) ↔
      (∃ file, IsFileLayer t root named file) →
        ∃ file c, IsFileLayer t root named file ∧ Layered file environment flags c ∧ ¬c.Valid := by
  constructor
  · rintro ⟨e, failed⟩ ⟨file, layer⟩
    have layered := layered_merge file environment flags
    refine ⟨file, _, layer, layered, fun valid => ?_⟩
    rw [load_eq_ok_iff_layered.2 ⟨file, layer, layered, valid⟩] at failed
    cases failed
  · intro fails
    cases loaded : load t root named environment flags with
    | error e => exact ⟨e, rfl⟩
    | ok c =>
      rcases load_eq_ok_iff_layered.1 loaded with ⟨file, layer, layered, valid⟩
      rcases fails ⟨file, layer⟩ with ⟨other, d, layer', layered', invalid⟩
      obtain rfl := layer.unique layer'
      exact absurd (layered.unique layered' ▸ valid) invalid

end

/-- None of the variables that a run looks at is set. -/
def HasNoVariables (environment : Environment) : Prop :=
  ∀ name ∈ ["RECOLOR_MAX_FILE_SIZE", "RECOLOR_THREADS", "RECOLOR_DRY_RUN"],
    environment.lookup name = none

theorem layered_alone {file c : Config} {environment : Environment}
    (none : HasNoVariables environment) : Layered file environment {} c ↔ file = c := by
  have blank : ofEnvironment environment = {} := by
    rw [ofEnvironment, none "RECOLOR_MAX_FILE_SIZE" (by decide),
      none "RECOLOR_THREADS" (by decide), none "RECOLOR_DRY_RUN" (by decide)]
    rfl
  rw [layered_iff, blank]
  rfl

/-- A configuration is loaded exactly if it has each setting from the highest layer that has it and
is valid as a whole.  Nothing is loaded exactly if a file that is named is missing, if the file that
is used is no text or not in the form of settings, or if what the layers give together is not valid.
Without variables and without anything on the command line, what is loaded is what the text of the
file says. -/
theorem load_layered (t : FileTree) (root : Path) (named : Option Path) (environment : Environment)
    (flags : Flags) :
    (∀ c, load t root named environment flags = .ok c ↔
      ∃ file, IsFileLayer t root named file ∧ Layered file environment flags c ∧ c.Valid) ∧
    ((∃ e, load t root named environment flags = .error e) ↔
      (∃ p, named = some p ∧ t.isFile (root ++ p) = false) ∨
      (∃ p, IsUsed t root named p ∧ t.readText? p = none) ∨
      (∃ p text, IsUsed t root named p ∧ t.readText? p = some text ∧
        ∀ origin file, ofToml origin text ≠ .ok file) ∨
      ∃ file c, IsFileLayer t root named file ∧ Layered file environment flags c ∧ ¬c.Valid) ∧
    (HasNoVariables environment → flags = {} → ∀ p text c, IsUsed t root named p →
      t.readText? p = some text → load t root named environment flags = .ok c →
        ∀ origin, ofToml origin text = .ok c) := by
  refine ⟨fun c => load_eq_ok_iff_layered, ?_, ?_⟩
  · rw [exists_load_eq_error_iff, imp_iff_not_or, not_exists_isFileLayer_iff, or_assoc, or_assoc]
  · rintro none rfl p text c used read loaded origin
    rcases load_eq_ok_iff_layered.1 loaded with ⟨file, layer, layered, _⟩
    obtain rfl := (layered_alone none).1 layered
    rcases layer with ⟨q, used', text', read', settings⟩ | ⟨_, unused, _⟩
    · obtain rfl := used.unique used'
      obtain rfl := Option.some.inj (read.symm.trans read')
      exact ofToml_eq_ok_iff.2 (ofToml_eq_ok_iff.1 settings)
    · exact absurd ⟨p, used⟩ unused

/-! ## A file that the layers above it mend -/

namespace Mended

/-- The size in the file of the project would not be valid. -/
def project : FileTree where
  entries := [
    (["project"], .directory),
    (["project", "recolor.toml"],
      .file "[scan]\nmax_file_size = 0\nthreads = 2\n[detector]\nwrappers = []\n".toUTF8),
    (["project", "quiet.toml"], .file "[scan]\ndry_run = true\n".toUTF8)]
  workingDirectory := ⟨"/project"⟩

/-- The number of threads cannot be read. -/
def environment : Environment :=
  [("RECOLOR_DRY_RUN", " YES "), ("RECOLOR_MAX_FILE_SIZE", "+4096"), ("RECOLOR_THREADS", "many")]

def flags : Flags := { tsconfig := some "tsconfig.json", dryRun := some false }

def config : Config where
  project := { tsconfig := some "tsconfig.json" }
  scan := { maxFileSize := some 4096, threads := some 2, dryRun := some false }
  detector := { wrappers := some [] }

end Mended

/-- The file of the project is mended by the environment, and another file is good by itself. -/
theorem load_layered_mended :
    (load Mended.project ⟨"/project"⟩ none Mended.environment Mended.flags = .ok Mended.config ∧
      ∃ file, IsFileLayer Mended.project ⟨"/project"⟩ none file ∧
        Layered file Mended.environment Mended.flags Mended.config ∧ Mended.config.Valid) ∧
    HasNoVariables [] ∧
      ∀ origin, ofToml origin "[scan]\ndry_run = true\n" =
        .ok { scan := { dryRun := some true } } := by
  have loaded : load Mended.project ⟨"/project"⟩ none Mended.environment Mended.flags =
      .ok Mended.config := by decide +kernel
  have alone : load Mended.project ⟨"/project"⟩ (some ⟨"quiet.toml"⟩) [] {} =
      .ok { scan := { dryRun := some true } } := by decide +kernel
  have used : IsUsed Mended.project ⟨"/project"⟩ (some ⟨"quiet.toml"⟩)
      ⟨"/project/quiet.toml"⟩ := ⟨by decide +kernel, by decide +kernel⟩
  refine ⟨⟨loaded, ((load_layered Mended.project ⟨"/project"⟩ none Mended.environment
    Mended.flags).1 Mended.config).1 loaded⟩, fun _ _ => rfl, ?_⟩
  exact (load_layered Mended.project ⟨"/project"⟩ (some ⟨"quiet.toml"⟩) [] {}).2.2
    (fun _ _ => rfl) rfl ⟨"/project/quiet.toml"⟩ _ _ used (by decide +kernel) alone

end ThemeMigration.Config
