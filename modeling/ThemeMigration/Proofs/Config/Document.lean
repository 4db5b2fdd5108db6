import ThemeMigration.Config.Toml
import ThemeMigration.Proofs.Toml.Building

/-!
# The document of a configuration

A configuration is written as a document with one table for each section.  A setting that is not
given has no entry, and one that is given as empty has an empty one.  The statements that are
written build that document.
-/

namespace ThemeMigration.Config

open Toml (Fresh Distinct)
open Toml.Builder (assignments tableStatements run)

/-! ## Entries -/

abbrev Entries := List (String × Toml)

/-- The entry of a setting that is given. -/
def optional {α : Type} (name : String) (value : α → Toml) (setting : Option α) : Entries :=
  setting.toList.map fun a => (name, value a)

def projectEntries (c : Project) : Entries :=
  optional "tsconfig" .string c.tsconfig ++ [("include", Encoder.texts c.patterns)]

def scanEntries (c : Scan) : Entries :=
  optional "max_file_size" (fun n : Nat => .integer n) c.maxFileSize ++
    (optional "threads" (fun n : Nat => .integer n) c.threads ++
      (optional "exclude" Encoder.texts c.exclude ++
        (optional "respect_gitignore" .boolean c.respectGitignore ++
          optional "dry_run" .boolean c.dryRun)))

def overrideEntries (o : PathOverride) : Entries :=
  [("prefix", .string o.directory), ("module", .string o.moduleName)]

/-- The settings of the accessor in front of its overrides. -/
def accessorFront (c : Accessor) : Entries :=
  optional "module" .string c.moduleName ++
    (optional "export" .string c.exportName ++
      (optional "binding" .string c.binding ++ [("aliases", Encoder.texts c.aliases)]))

/-- Without overrides there is an empty list, and else a table for each. -/
def overridesValue (overrides : List PathOverride) : Toml :=
  if overrides.isEmpty then .array [] else .tables (overrides.map overrideEntries)

def accessorEntries (c : Accessor) : Entries :=
  accessorFront c ++ [("path_overrides", overridesValue c.overrides)]

def detectorEntries (c : Detector) : Entries := optional "wrappers" Encoder.texts c.wrappers

def replacementEntries (c : Replacement) : Entries :=
  [("extra_color_properties", Encoder.texts c.extraColorProperties)]

def colorEntries (colors : KeyTable String) : Entries :=
  colors.entries.map fun e => (e.1, .string e.2)

def mappingFront (c : Mapping) : Entries := optional "include_defaults" .boolean c.includeDefaults

def mappingEntries (c : Mapping) : Entries :=
  mappingFront c ++ [("colors", .table .header (colorEntries c.colors))]

/-- Without a setting of its own the section is only implied by its colours. -/
def mappingOrigin (c : Mapping) : Toml.Origin :=
  if c.includeDefaults.isSome then .header else .implied

def document (c : Config) : Entries :=
  [("project", .table .header (projectEntries c.project)),
   ("scan", .table .header (scanEntries c.scan)),
   ("accessor", .table .header (accessorEntries c.accessor)),
   ("detector", .table .header (detectorEntries c.detector)),
   ("rewriter", .table .header (replacementEntries c.replacement)),
   ("mapping", .table (mappingOrigin c.mapping) (mappingEntries c.mapping))]

/-! ## The statements build the document -/

theorem given_eq {α : Type} (name : String) (value : α → Toml) (setting : Option α) :
    Encoder.given name value setting = assignments (optional name value setting) := by
  cases setting <;> rfl

theorem assignments_append (left right : Entries) :
    assignments (left ++ right) = assignments left ++ assignments right :=
  List.map_append

theorem project_eq (c : Project) :
    Encoder.project c = .header ["project"] :: assignments (projectEntries c) := by
  rw [Encoder.project, given_eq, projectEntries, assignments_append]
  rfl

theorem scan_eq (c : Scan) : Encoder.scan c = .header ["scan"] :: assignments (scanEntries c) := by
  simp only [Encoder.scan, given_eq, scanEntries, assignments_append, List.cons_append,
    List.append_assoc]
  rfl

theorem detector_eq (c : Detector) :
    Encoder.detector c = .header ["detector"] :: assignments (detectorEntries c) := by
  rw [Encoder.detector, given_eq, detectorEntries]

theorem replacement_eq (c : Replacement) :
    Encoder.replacement c = .header ["rewriter"] :: assignments (replacementEntries c) := rfl

theorem overrides_eq (overrides : List PathOverride) :
    overrides.flatMap Encoder.pathOverride =
      tableStatements ["accessor", "path_overrides"] (overrides.map overrideEntries) := by
  rw [tableStatements, List.flatMap_map]
  rfl

theorem accessor_eq (c : Accessor) :
    Encoder.accessor c = .header ["accessor"] :: (assignments (accessorFront c) ++
      if c.overrides.isEmpty then assignments [("path_overrides", .array [])]
      else tableStatements ["accessor", "path_overrides"] (c.overrides.map overrideEntries)) := by
  rw [← overrides_eq]
  simp only [Encoder.accessor, given_eq, accessorFront, assignments_append, List.cons_append,
    List.append_assoc]
  cases c.overrides <;> rfl

theorem mapping_eq (c : Mapping) :
    Encoder.mapping c = (if c.includeDefaults.isSome then
      .header ["mapping"] :: assignments (mappingFront c) else []) ++
        .header ["mapping", "colors"] :: assignments (colorEntries c.colors) := by
  have colors : (c.colors.entries.map fun e => .assignment [e.1] (.string e.2)) =
      assignments (colorEntries c.colors) := by
    rw [assignments, colorEntries, List.map_map]
    rfl
  rw [Encoder.mapping, colors, mappingFront]
  cases c.includeDefaults <;> rfl

/-! ### Keys -/

/-- Entries whose keys are some of a list of different names. -/
theorem distinct_of_sublist {entries : Entries} {names : List String}
    (keys : (entries.map Prod.fst).Sublist names) (nodup : names.Nodup) : Distinct entries :=
  List.pairwise_map.1 (nodup.sublist keys)

theorem keys_optional {α : Type} (name : String) (value : α → Toml) (setting : Option α) :
    ((optional name value setting).map Prod.fst).Sublist [name] := by
  cases setting with
  | none => exact List.nil_sublist _
  | some a => exact List.Sublist.refl _

theorem keys_projectEntries (c : Project) :
    ((projectEntries c).map Prod.fst).Sublist ["tsconfig", "include"] := by
  rw [projectEntries, List.map_append]
  exact (keys_optional "tsconfig" ..).append (.refl ["include"])

theorem keys_scanEntries (c : Scan) :
    ((scanEntries c).map Prod.fst).Sublist
      ["max_file_size", "threads", "exclude", "respect_gitignore", "dry_run"] := by
  simp only [scanEntries, List.map_append]
  exact (keys_optional "max_file_size" ..).append ((keys_optional "threads" ..).append
    ((keys_optional "exclude" ..).append ((keys_optional "respect_gitignore" ..).append
      (keys_optional "dry_run" ..))))

theorem keys_accessorFront (c : Accessor) :
    ((accessorFront c).map Prod.fst).Sublist ["module", "export", "binding", "aliases"] := by
  simp only [accessorFront, List.map_append]
  exact (keys_optional "module" ..).append ((keys_optional "export" ..).append
    ((keys_optional "binding" ..).append (.refl ["aliases"])))

theorem keys_replacementEntries (c : Replacement) :
    ((replacementEntries c).map Prod.fst).Sublist ["extra_color_properties"] := .refl _

theorem fresh_of_sublist {entries : Entries} {names : List String} {key : String}
    (keys : (entries.map Prod.fst).Sublist names) (unlisted : key ∉ names) : Fresh key entries :=
  fun _ member same => unlisted (keys.subset (same ▸ List.mem_map_of_mem member))

theorem distinct_colorEntries (colors : KeyTable String) : Distinct (colorEntries colors) := by
  refine List.pairwise_map.2 (colors.ordered.imp ?_)
  rintro a b below same
  exact String.lt_irrefl _ (same ▸ below)

/-! ### Runs -/

section

variable {front : Entries}

/-- A section that has nothing but settings. -/
theorem run_plain {name : String} {entries : Entries} {names : List String}
    (fresh : Fresh name front) (keys : (entries.map Prod.fst).Sublist names) (nodup : names.Nodup)
    (current : List String) :
    run ⟨⟨.header, front⟩, current⟩ (.header [name] :: assignments entries) =
      some ⟨⟨.header, front ++ [(name, .table .header entries)]⟩, [name]⟩ :=
  Toml.Builder.run_section fresh (distinct_of_sublist keys nodup)

theorem run_project (fresh : Fresh "project" front) (c : Project) (current : List String) :
    run ⟨⟨.header, front⟩, current⟩ (Encoder.project c) =
      some ⟨⟨.header, front ++ [("project", .table .header (projectEntries c))]⟩, ["project"]⟩ := by
  rw [project_eq]
  exact run_plain fresh (keys_projectEntries c) (by decide) current

theorem run_scan (fresh : Fresh "scan" front) (c : Scan) (current : List String) :
    run ⟨⟨.header, front⟩, current⟩ (Encoder.scan c) =
      some ⟨⟨.header, front ++ [("scan", .table .header (scanEntries c))]⟩, ["scan"]⟩ := by
  rw [scan_eq]
  exact run_plain fresh (keys_scanEntries c) (by decide) current

theorem run_detector (fresh : Fresh "detector" front) (c : Detector) (current : List String) :
    run ⟨⟨.header, front⟩, current⟩ (Encoder.detector c) =
      some ⟨⟨.header, front ++ [("detector", .table .header (detectorEntries c))]⟩,
        ["detector"]⟩ := by
  rw [detector_eq]
  exact run_plain fresh (keys_optional "wrappers" ..) (by decide) current

theorem run_replacement (fresh : Fresh "rewriter" front) (c : Replacement) (current : List String) :
    run ⟨⟨.header, front⟩, current⟩ (Encoder.replacement c) =
      some ⟨⟨.header, front ++ [("rewriter", .table .header (replacementEntries c))]⟩,
        ["rewriter"]⟩ := by
  rw [replacement_eq]
  exact run_plain fresh (keys_replacementEntries c) (by decide) current

theorem run_accessor (fresh : Fresh "accessor" front) (c : Accessor) (current : List String) :
    ∃ last, run ⟨⟨.header, front⟩, current⟩ (Encoder.accessor c) =
      some ⟨⟨.header, front ++ [("accessor", .table .header (accessorEntries c))]⟩, last⟩ := by
  have keys := keys_accessorFront c
  rw [accessor_eq, accessorEntries, overridesValue]
  cases c.overrides with
  | nil =>
    have whole : ((accessorFront c ++ [("path_overrides", Toml.array [])]).map Prod.fst).Sublist
        (["module", "export", "binding", "aliases"] ++ ["path_overrides"]) := by
      rw [List.map_append]
      exact keys.append (.refl ["path_overrides"])
    rw [List.isEmpty_nil, if_pos rfl, if_pos rfl, ← assignments_append]
    exact ⟨["accessor"], run_plain fresh whole (by decide) current⟩
  | cons o os =>
    have isFresh : Fresh "path_overrides" (accessorFront c) := fresh_of_sublist keys (by decide)
    have isOpen : Toml.Origin.header ≠ .inline := nofun
    have distinct : ∀ g ∈ (o :: os).map overrideEntries, Distinct g := by
      intro g member
      rcases List.mem_map.1 member with ⟨o, _, rfl⟩
      exact distinct_of_sublist (.refl ["prefix", "module"]) (by decide)
    have nodup : ["module", "export", "binding", "aliases"].Nodup := by decide
    refine ⟨["accessor", "path_overrides"], ?_⟩
    rw [← List.cons_append, Toml.Builder.run_append (run_plain fresh keys nodup current)]
    exact Toml.Builder.run_tables fresh isOpen isFresh distinct

theorem run_mapping (fresh : Fresh "mapping" front) (c : Mapping) (current : List String) :
    run ⟨⟨.header, front⟩, current⟩ (Encoder.mapping c) =
      some ⟨⟨.header, front ++ [("mapping", .table (mappingOrigin c) (mappingEntries c))]⟩,
        ["mapping", "colors"]⟩ := by
  have distinct := distinct_colorEntries c.colors
  rw [mapping_eq, mappingOrigin, mappingEntries, mappingFront]
  cases c.includeDefaults with
  | none =>
    have isOpen : Toml.Origin.implied ≠ .inline := nofun
    have filled := Toml.Builder.run_filled
      (Toml.Builder.lands_inner .header fresh isOpen (show Fresh "colors" [] from nofun)) distinct
    exact (Toml.Builder.run_cons (Toml.Builder.step_header_implied fresh) _).trans filled
  | some b =>
    have isOpen : Toml.Origin.header ≠ .inline := nofun
    have keys := keys_optional "include_defaults" Toml.boolean (some b)
    have isFresh := fresh_of_sublist keys (show "colors" ∉ _ by decide)
    have filled := Toml.Builder.run_filled
      (Toml.Builder.lands_inner .header fresh isOpen isFresh) distinct
    have nodup : ["include_defaults"].Nodup := by decide
    refine (Toml.Builder.run_append (run_plain fresh keys nodup current) _).trans ?_
    exact (Toml.Builder.run_cons
      (Toml.Builder.step_header_inner fresh isOpen isFresh) _).trans filled

/-- The sections come one behind the other, and none of them twice. -/
theorem fresh_document (c : Config) (k : Nat) {key : String}
    (later : key ∉ ["project", "scan", "accessor", "detector", "rewriter", "mapping"].take k) :
    Fresh key ((document c).take k) := by
  refine fresh_of_sublist ?_ later
  rw [List.map_take]
  exact .refl _

/-- The statements of a configuration build its document. -/
theorem ofStatements?_config (c : Config) :
    Toml.ofStatements? (Encoder.config c) = some (.table .header (document c)) := by
  have ran : ∃ last, run .initial (Encoder.config c) = some ⟨⟨.header, document c⟩, last⟩ := by
    rcases run_accessor (fresh_document c 2 (by decide)) c.accessor ["scan"] with ⟨last, accessor⟩
    have project := run_project (fresh_document c 0 (by decide)) c.project []
    have scan := run_scan (fresh_document c 1 (by decide)) c.scan ["project"]
    have detector := run_detector (fresh_document c 3 (by decide)) c.detector last
    have replacement := run_replacement (fresh_document c 4 (by decide)) c.replacement ["detector"]
    have mapping := run_mapping (fresh_document c 5 (by decide)) c.mapping ["rewriter"]
    simp only [Encoder.config, List.append_assoc]
    exact ⟨_, (Toml.Builder.run_append project _).trans ((Toml.Builder.run_append scan _).trans
      ((Toml.Builder.run_append accessor _).trans ((Toml.Builder.run_append detector _).trans
      ((Toml.Builder.run_append replacement _).trans mapping))))⟩
  rcases ran with ⟨last, ran⟩
  change (run .initial (Encoder.config c)).map _ = _
  rw [ran]
  rfl

end

end ThemeMigration.Config
