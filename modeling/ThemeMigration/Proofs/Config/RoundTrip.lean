import ThemeMigration.Proofs.Config.Document
import ThemeMigration.Proofs.Config.Layers
import ThemeMigration.Proofs.Config.Tables
import ThemeMigration.Proofs.Toml.Documents

/-!
# Configurations read back

What is written for a configuration reads back as the same configuration, with settings that are not
given apart from those that are given as empty, lists in their order, and any characters in texts
and in the keys of colours.  Only a number beyond 63 bits cannot be written.
-/

namespace ThemeMigration.Config

open Toml (IsWritable IsWritableStatement IsPath)
open Toml.Builder (assignments tableStatements)

/-! ## The document reads back -/

section

variable {α : Type} {settings : String → Nat → Option Toml} {name : String} {value : α → Toml}
  {decoder : Decoder α}

@[simp] theorem get?_append (key : String) (origin : Toml.Origin) (left right : Entries) :
    Toml.get? key (.table origin (left ++ right)) =
      (Toml.get? key (.table origin left)).or (Toml.get? key (.table origin right)) := by
  simp only [Toml.get?, List.find?_append, Option.map_or]

@[simp] theorem get?_optional (key : String) (origin : Toml.Origin) (setting : Option α) :
    Toml.get? key (.table origin (optional name value setting)) =
      if name = key then setting.map value else none := by
  cases setting with
  | none => simp [Toml.get?, optional]
  | some a => by_cases same : name = key <;> simp [Toml.get?, optional, same]

@[simp] theorem get?_nil (key : String) (origin : Toml.Origin) :
    Toml.get? key (.table origin []) = none := rfl

@[simp] theorem get?_cons (key : String) (origin : Toml.Origin) (v : Toml) (entries : Entries) :
    Toml.get? key (.table origin ((name, v) :: entries)) =
      if name = key then some v else Toml.get? key (.table origin entries) := by
  by_cases same : name = key <;> simp [Toml.get?, same]

/-- A setting whose entry can be decoded. -/
theorem setting_eq {setting : Option α} (position : Nat)
    (found : settings name position = setting.map value)
    (decodes : ∀ a ∈ setting, decoder (value a) = .ok a) :
    Decoder.setting settings name position decoder = .ok setting := by
  rw [Decoder.setting, found]
  cases setting with
  | none => rfl
  | some a => simp [decodes a rfl]

end

theorem mapM_eq_ok {α β : Type} {f : β → Except String α} {g : α → β} {as : List α}
    (h : ∀ a ∈ as, f (g a) = .ok a) : (as.map g).mapM f = .ok as := by
  induction as with
  | nil => rfl
  | cons a as ih =>
    rcases List.forall_mem_cons.1 h with ⟨first, later⟩
    rw [List.map_cons, List.mapM_cons, first, ih later]
    rfl

theorem decode_texts (items : List String) :
    Decoder.list Decoder.text (Encoder.texts items) = .ok items :=
  mapM_eq_ok fun _ _ => rfl

theorem decode_natural (n : Nat) : Decoder.natural (.integer n) = .ok n := by
  simp [Decoder.natural]

theorem decode_text (s : String) : Decoder.text (.string s) = .ok s := rfl

theorem decode_flag (b : Bool) : Decoder.flag (.boolean b) = .ok b := rfl

/-! ### Sections -/

/-- The settings of a table by their names. -/
def settingsOf (origin : Toml.Origin) (entries : Entries) : String → Nat → Option Toml :=
  fun name _ => Toml.get? name (.table origin entries)

theorem section?_table (origin : Toml.Origin) (entries : Entries) :
    Decoder.section? (.table origin entries) = .ok (settingsOf origin entries) := rfl

section

variable (origin : Toml.Origin)

theorem decode_project (c : Project) :
    Decoder.project (.table origin (projectEntries c)) = .ok c := by
  have tsconfig : Decoder.setting (settingsOf origin (projectEntries c)) "tsconfig" 0
      Decoder.text = .ok c.tsconfig :=
    setting_eq 0 (by simp [settingsOf, projectEntries]) fun s _ => decode_text s
  have patterns : Decoder.setting (settingsOf origin (projectEntries c)) "include" 1
      (Decoder.list Decoder.text) = .ok (some c.patterns) :=
    setting_eq 1 (by simp [settingsOf, projectEntries]) fun items _ => decode_texts items
  simp only [Decoder.project, section?_table, bind, Except.bind, tsconfig, patterns]
  rfl

theorem decode_scan (c : Scan) : Decoder.scan (.table origin (scanEntries c)) = .ok c := by
  have maxFileSize : Decoder.setting (settingsOf origin (scanEntries c)) "max_file_size" 0
      Decoder.natural = .ok c.maxFileSize :=
    setting_eq 0 (by simp [settingsOf, scanEntries]) fun n _ => decode_natural n
  have threads : Decoder.setting (settingsOf origin (scanEntries c)) "threads" 1
      Decoder.natural = .ok c.threads :=
    setting_eq 1 (by simp [settingsOf, scanEntries]) fun n _ => decode_natural n
  have exclude : Decoder.setting (settingsOf origin (scanEntries c)) "exclude" 2
      (Decoder.list Decoder.text) = .ok c.exclude :=
    setting_eq 2 (by simp [settingsOf, scanEntries]) fun items _ => decode_texts items
  have respectGitignore : Decoder.setting (settingsOf origin (scanEntries c)) "respect_gitignore" 3
      Decoder.flag = .ok c.respectGitignore :=
    setting_eq 3 (by simp [settingsOf, scanEntries]) fun b _ => decode_flag b
  have dryRun : Decoder.setting (settingsOf origin (scanEntries c)) "dry_run" 4
      Decoder.flag = .ok c.dryRun :=
    setting_eq 4 (by simp [settingsOf, scanEntries]) fun b _ => decode_flag b
  simp only [Decoder.scan, section?_table, bind, Except.bind, maxFileSize, threads, exclude,
    respectGitignore, dryRun]
  rfl

theorem decode_pathOverride (o : PathOverride) :
    Decoder.pathOverride (.table origin (overrideEntries o)) = .ok o := rfl

theorem decode_overrides (overrides : List PathOverride) :
    Decoder.list Decoder.pathOverride (overridesValue overrides) = .ok overrides := by
  cases overrides with
  | nil => rfl
  | cons o os =>
    change ((List.map overrideEntries (o :: os)).map (Toml.table .header)).mapM _ = _
    rw [List.map_map]
    exact mapM_eq_ok fun o _ => decode_pathOverride .header o

theorem decode_accessor (c : Accessor) :
    Decoder.accessor (.table origin (accessorEntries c)) = .ok c := by
  have moduleName : Decoder.setting (settingsOf origin (accessorEntries c)) "module" 0
      Decoder.text = .ok c.moduleName :=
    setting_eq 0 (by simp [settingsOf, accessorEntries, accessorFront]) fun s _ => decode_text s
  have exportName : Decoder.setting (settingsOf origin (accessorEntries c)) "export" 1
      Decoder.text = .ok c.exportName :=
    setting_eq 1 (by simp [settingsOf, accessorEntries, accessorFront]) fun s _ => decode_text s
  have binding : Decoder.setting (settingsOf origin (accessorEntries c)) "binding" 2
      Decoder.text = .ok c.binding :=
    setting_eq 2 (by simp [settingsOf, accessorEntries, accessorFront]) fun s _ => decode_text s
  have aliases : Decoder.setting (settingsOf origin (accessorEntries c)) "aliases" 3
      (Decoder.list Decoder.text) = .ok (some c.aliases) :=
    setting_eq 3 (by simp [settingsOf, accessorEntries, accessorFront])
      fun items _ => decode_texts items
  have overrides : Decoder.setting (settingsOf origin (accessorEntries c)) "path_overrides" 4
      (Decoder.list Decoder.pathOverride) = .ok (some c.overrides) :=
    setting_eq 4 (by simp [settingsOf, accessorEntries, accessorFront])
      fun overrides _ => decode_overrides overrides
  simp only [Decoder.accessor, section?_table, bind, Except.bind, moduleName, exportName, binding,
    aliases, overrides]
  rfl

theorem decode_detector (c : Detector) :
    Decoder.detector (.table origin (detectorEntries c)) = .ok c := by
  have wrappers : Decoder.setting (settingsOf origin (detectorEntries c)) "wrappers" 0
      (Decoder.list Decoder.text) = .ok c.wrappers :=
    setting_eq 0 (by simp [settingsOf, detectorEntries]) fun items _ => decode_texts items
  simp only [Decoder.detector, section?_table, bind, Except.bind, wrappers]
  rfl

theorem decode_replacement (c : Replacement) :
    Decoder.replacement (.table origin (replacementEntries c)) = .ok c := by
  have extra : Decoder.setting (settingsOf origin (replacementEntries c))
      "extra_color_properties" 0 (Decoder.list Decoder.text) = .ok (some c.extraColorProperties) :=
    setting_eq 0 (by simp [settingsOf, replacementEntries]) fun items _ => decode_texts items
  simp only [Decoder.replacement, section?_table, bind, Except.bind, extra]
  rfl

theorem decode_colors (colors : KeyTable String) :
    Decoder.colors (.table origin (colorEntries colors)) = .ok colors := by
  rw [Decoder.colors, colorEntries, mapM_eq_ok]
  · exact congrArg Except.ok (KeyTable.ofList_entries colors)
  · exact fun _ _ => rfl

theorem decode_mapping (c : Mapping) :
    Decoder.mapping (.table origin (mappingEntries c)) = .ok c := by
  have includeDefaults : Decoder.setting (settingsOf origin (mappingEntries c))
      "include_defaults" 0 Decoder.flag = .ok c.includeDefaults :=
    setting_eq 0 (by simp [settingsOf, mappingEntries, mappingFront]) fun b _ => decode_flag b
  have colors : Decoder.setting (settingsOf origin (mappingEntries c)) "colors" 1
      Decoder.colors = .ok (some c.colors) :=
    setting_eq 1 (by simp [settingsOf, mappingEntries, mappingFront])
      fun colors _ => decode_colors .header colors
  simp only [Decoder.mapping, section?_table, bind, Except.bind, includeDefaults, colors]
  rfl

end

theorem decode_document (c : Config) :
    Decoder.config (.table .header (document c)) = .ok c := by
  have project : Decoder.setting (settingsOf .header (document c)) "project" 0
      Decoder.project = .ok (some c.project) :=
    setting_eq 0 rfl fun project _ => decode_project .header project
  have scan : Decoder.setting (settingsOf .header (document c)) "scan" 1
      Decoder.scan = .ok (some c.scan) :=
    setting_eq 1 rfl fun scan _ => decode_scan .header scan
  have accessor : Decoder.setting (settingsOf .header (document c)) "accessor" 2
      Decoder.accessor = .ok (some c.accessor) :=
    setting_eq 2 rfl fun accessor _ => decode_accessor .header accessor
  have detector : Decoder.setting (settingsOf .header (document c)) "detector" 3
      Decoder.detector = .ok (some c.detector) :=
    setting_eq 3 rfl fun detector _ => decode_detector .header detector
  have replacement : Decoder.setting (settingsOf .header (document c)) "rewriter" 4
      Decoder.replacement = .ok (some c.replacement) :=
    setting_eq 4 rfl fun replacement _ => decode_replacement .header replacement
  have mapping : Decoder.setting (settingsOf .header (document c)) "mapping" 5
      Decoder.mapping = .ok (some c.mapping) :=
    setting_eq 5 rfl fun mapping _ => decode_mapping (mappingOrigin mapping) mapping
  simp only [Decoder.config, section?_table, bind, Except.bind, project, scan, accessor, detector,
    replacement, mapping]
  rfl

/-! ## What is written can be read -/

theorem isWritable_texts (items : List String) {depth : Nat} :
    IsWritable (depth + 1) (Encoder.texts items) := by
  refine .array fun v member => ?_
  rcases List.mem_map.1 member with ⟨s, _, rfl⟩
  exact .string s

/-- Every value can be written. -/
def AllWritable (entries : Entries) : Prop := ∀ e ∈ entries, IsWritable Toml.maxDepth e.2

theorem AllWritable.optional {α : Type} {name : String} {value : α → Toml} {setting : Option α}
    (h : ∀ a ∈ setting, IsWritable Toml.maxDepth (value a)) :
    AllWritable (optional name value setting) := by
  intro e member
  rcases List.mem_map.1 member with ⟨a, given, rfl⟩
  exact h a (Option.mem_toList.1 given)

theorem AllWritable.append {left right : Entries} (first : AllWritable left)
    (second : AllWritable right) : AllWritable (left ++ right) :=
  List.forall_mem_append.2 ⟨first, second⟩

theorem AllWritable.singleton {name : String} {v : Toml} (h : IsWritable Toml.maxDepth v) :
    AllWritable [(name, v)] :=
  List.forall_mem_singleton.2 h

/-- A configuration whose numbers have no more than 63 bits. -/
structure Fits (c : Config) : Prop where
  maxFileSize : ∀ n ∈ c.scan.maxFileSize, n < Nat.pow 2 63
  threads : ∀ n ∈ c.scan.threads, n < Nat.pow 2 63

theorem writable_natural {name : String} {setting : Option Nat}
    (small : ∀ n ∈ setting, n < Nat.pow 2 63) :
    AllWritable (optional name (fun n : Nat => .integer n) setting) :=
  .optional fun n given => .integer (small n given)

theorem writable_text (name : String) (setting : Option String) :
    AllWritable (optional name .string setting) :=
  .optional fun s _ => .string s

theorem writable_flag (name : String) (setting : Option Bool) :
    AllWritable (optional name .boolean setting) :=
  .optional fun b _ => .boolean b

theorem writable_list (name : String) (setting : Option (List String)) :
    AllWritable (optional name Encoder.texts setting) :=
  .optional fun items _ => isWritable_texts items

/-- Statements that can be written. -/
def Writes (ss : List Toml.Statement) : Prop := ∀ s ∈ ss, IsWritableStatement s

theorem Writes.append {left right : List Toml.Statement} (first : Writes left)
    (second : Writes right) : Writes (left ++ right) :=
  List.forall_mem_append.2 ⟨first, second⟩

theorem isPath_singleton (key : String) : IsPath [key] := ⟨nofun, show 1 ≤ 79 by decide⟩

theorem isPath_pair (key next : String) : IsPath [key, next] :=
  ⟨nofun, show 2 ≤ 79 by decide⟩

theorem writes_assignments {entries : Entries} (h : AllWritable entries) :
    Writes (assignments entries) := by
  intro s member
  rcases List.mem_map.1 member with ⟨e, listed, rfl⟩
  exact .assignment (isPath_singleton e.1) (h e listed)

theorem writes_section {path : List String} (isPath : IsPath path) {entries : Entries}
    (h : AllWritable entries) : Writes (.header path :: assignments entries) :=
  List.forall_mem_cons.2 ⟨.header isPath, writes_assignments h⟩

theorem writes_tables {path : List String} (isPath : IsPath path) {groups : List Entries}
    (h : ∀ g ∈ groups, AllWritable g) : Writes (tableStatements path groups) := by
  intro s member
  rcases List.mem_flatMap.1 member with ⟨g, listed, member⟩
  rcases List.mem_cons.1 member with rfl | member
  · exact .nextHeader isPath
  · exact writes_assignments (h g listed) s member

theorem writes_accessor (c : Accessor) : Writes (Encoder.accessor c) := by
  have front : AllWritable (accessorFront c) :=
    (writable_text _ _).append ((writable_text _ _).append ((writable_text _ _).append
      (.singleton (isWritable_texts c.aliases))))
  rw [accessor_eq, ← List.cons_append]
  refine (writes_section (isPath_singleton _) front).append ?_
  split
  · exact writes_assignments (.singleton (.array nofun))
  · refine writes_tables (isPath_pair _ _) fun g member => ?_
    rcases List.mem_map.1 member with ⟨o, _, rfl⟩
    exact (AllWritable.singleton (.string o.directory)).append (.singleton (.string o.moduleName))

theorem writes_mapping (c : Mapping) : Writes (Encoder.mapping c) := by
  have colors : AllWritable (colorEntries c.colors) := by
    intro e member
    rcases List.mem_map.1 member with ⟨e, _, rfl⟩
    exact .string e.2
  rw [mapping_eq]
  refine Writes.append ?_ (writes_section (isPath_pair _ _) colors)
  split
  · exact writes_section (isPath_singleton _) (writable_flag _ _)
  · exact nofun

theorem writes_config {c : Config} (fits : c.Fits) : Writes (Encoder.config c) := by
  have project : Writes (Encoder.project c.project) := by
    rw [project_eq]
    exact writes_section (isPath_singleton _)
      ((writable_text _ _).append (.singleton (isWritable_texts _)))
  have scan : Writes (Encoder.scan c.scan) := by
    rw [scan_eq]
    exact writes_section (isPath_singleton _)
      ((writable_natural fits.maxFileSize).append ((writable_natural fits.threads).append
        ((writable_list _ _).append ((writable_flag _ _).append (writable_flag _ _)))))
  have detector : Writes (Encoder.detector c.detector) := by
    rw [detector_eq]
    exact writes_section (isPath_singleton _) (writable_list _ _)
  have replacement : Writes (Encoder.replacement c.replacement) := by
    rw [replacement_eq]
    exact writes_section (isPath_singleton _) (.singleton (isWritable_texts _))
  exact ((((project.append scan).append (writes_accessor c.accessor)).append detector).append
    replacement).append (writes_mapping c.mapping)

/-! ## The round trip -/

/-- What is written for a configuration is the document of it. -/
theorem parse_config {c : Config} (fits : c.Fits) :
    Toml.parse (String.ofList (Toml.write (Encoder.config c))) =
      .ok (.table .header (document c)) := by
  rw [Toml.parse, Toml.statements_write (writes_config fits)]
  simp only [ofStatements?_config]

theorem fits_iff {c : Config} :
    c.Fits ↔ (c.scan.maxFileSize.getD 0 < Toml.integerLimit ∧
      c.scan.threads.getD 0 < Toml.integerLimit) := by
  have each : ∀ {n : Option Nat}, (∀ m ∈ n, m < Nat.pow 2 63) ↔ n.getD 0 < Toml.integerLimit := by
    intro n
    cases n with
    | none => exact ⟨fun _ => by decide, fun _ => nofun⟩
    | some n => exact ⟨fun h => h n rfl, fun h m given => Option.some.inj given ▸ h⟩
  exact ⟨fun h => ⟨each.1 h.maxFileSize, each.1 h.threads⟩,
    fun h => ⟨each.2 h.1, each.2 h.2⟩⟩

theorem toToml_of_fits {c : Config} (fits : c.Fits) :
    c.toToml = .ok (String.ofList (Toml.write (Encoder.config c))) := by
  have small := fits_iff.1 fits
  exact if_pos (by simp [small])

theorem exists_error_iff (c : Config) : (∃ e, c.toToml = .error e) ↔ ¬c.Fits := by
  constructor
  · rintro ⟨e, failed⟩ fits
    rw [toToml_of_fits fits] at failed
    cases failed
  · intro large
    rw [fits_iff] at large
    exact ⟨_, if_neg (by simpa using large)⟩

/-- Every configuration whose numbers have no more than 63 bits is written as a text that reads
back as the same configuration, and a configuration with a larger number is not written. -/
theorem toToml_reads_back (c : Config) :
    (c.Fits → ∃ text, c.toToml = .ok text ∧ ∀ origin, ofToml origin text = .ok c) ∧
      ((∃ e, c.toToml = .error e) ↔
        (∃ n, c.scan.maxFileSize = some n ∧ Nat.pow 2 63 ≤ n) ∨
          ∃ n, c.scan.threads = some n ∧ Nat.pow 2 63 ≤ n) := by
  constructor
  · intro fits
    refine ⟨_, toToml_of_fits fits, fun origin => ?_⟩
    rw [ofToml_eq_ok_iff, parse_config fits]
    exact decode_document c
  · rw [exists_error_iff]
    constructor
    · intro large
      by_cases bytes : ∃ n, c.scan.maxFileSize = some n ∧ Nat.pow 2 63 ≤ n
      · exact .inl bytes
      by_cases workers : ∃ n, c.scan.threads = some n ∧ Nat.pow 2 63 ≤ n
      · exact .inr workers
      refine absurd ⟨fun n given => ?_, fun n given => ?_⟩ large
      · exact Nat.lt_of_not_le fun beyond => bytes ⟨n, given, beyond⟩
      · exact Nat.lt_of_not_le fun beyond => workers ⟨n, given, beyond⟩
    · rintro (⟨n, given, beyond⟩ | ⟨n, given, beyond⟩) fits
      · exact Nat.not_lt.2 beyond (fits.maxFileSize n given)
      · exact Nat.not_lt.2 beyond (fits.threads n given)

/-- Quotes, backslashes and line breaks in texts, a colour under a key that has to be quoted, empty
lists beside missing ones, and the largest number that can be written. -/
def awkward : Config where
  project := { tsconfig := some "a\"b\\c" }
  scan := { maxFileSize := some 9223372036854775807, exclude := some [] }
  accessor := {
    moduleName := some "'''"
    aliases := ["\n", "\t\x01\u00e9"]
    overrides := [⟨"src", ""⟩, ⟨"lib", "'\\"⟩] }
  mapping := { colors := .ofList [("a.b\n", "\"x'")] }

theorem awkward_reads_back :
    awkward.Fits ∧
      ∃ text, awkward.toToml = .ok text ∧ ∀ origin, ofToml origin text = .ok awkward := by
  have fits : awkward.Fits := by
    constructor
    · rintro n given
      obtain rfl := Option.some.inj given
      decide
    · exact nofun
  exact ⟨fits, (toToml_reads_back awkward).1 fits⟩

end ThemeMigration.Config
