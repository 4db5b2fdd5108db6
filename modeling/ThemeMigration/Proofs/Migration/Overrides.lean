import ThemeMigration.Proofs.Migration.Inspection
import ThemeMigration.Proofs.Path.Below

/-!
# Overrides of the accessor module

An override is for the files below a directory, component by component.  The first one that covers
a file decides about the module it imports the accessor from.  What is planned for a file depends
on its overrides by the specifiers alone that they give for this file, so overrides that do not
cover it can be added, left out, changed and moved without an effect on it.
-/

namespace ThemeMigration

namespace Accessor

/-! ## The directory of an override -/

/-- The text is the directory with `./` in front of it, as often as possible, and slashes behind. -/
def Spells (text directory : List Char) : Prop :=
  ∃ dots slashes : Nat,
    text = (List.replicate dots ['.', '/']).flatten ++ (directory ++ List.replicate slashes '/') ∧
      ¬['.', '/'] <+: directory ++ List.replicate slashes '/' ∧ directory.getLast? ≠ some '/'

theorem dropDots_append (dots : Nat) {rest : List Char} (h : ¬['.', '/'] <+: rest) :
    trimDirectory.dropDots ((List.replicate dots ['.', '/']).flatten ++ rest) = rest := by
  induction dots with
  | zero =>
    change trimDirectory.dropDots rest = rest
    fun_cases trimDirectory.dropDots rest with
    | case1 rest => exact absurd ⟨rest, rfl⟩ h
    | case2 => rfl
  | succ dots ih => exact ih

theorem exists_dots (text : List Char) :
    ∃ dots, text = (List.replicate dots ['.', '/']).flatten ++ trimDirectory.dropDots text ∧
      ¬['.', '/'] <+: trimDirectory.dropDots text := by
  fun_induction trimDirectory.dropDots text with
  | case1 rest ih =>
    obtain ⟨dots, split, last⟩ := ih
    refine ⟨dots + 1, ?_, last⟩
    rw [List.replicate_succ, List.flatten_cons, List.append_assoc, ← split]
    rfl
  | case2 rest other =>
    refine ⟨0, rfl, ?_⟩
    rintro ⟨behind, rfl⟩
    exact other behind rfl

theorem dropSlashes_append {directory : List Char} (h : directory.getLast? ≠ some '/')
    (slashes : Nat) :
    ((directory ++ List.replicate slashes '/').reverse.dropWhile (· == '/')).reverse =
      directory := by
  rw [List.reverse_append, List.reverse_replicate, List.dropWhile_append_of_pos]
  · rcases List.eq_nil_or_concat directory with rfl | ⟨front, c, rfl⟩
    · rfl
    · have noSlash : (c == '/') = false := by simpa using h
      simp [noSlash]
  · exact fun c member => beq_iff_eq.2 (List.eq_of_mem_replicate member)

theorem exists_slashes (text : List Char) :
    let directory := (text.reverse.dropWhile (· == '/')).reverse
    ∃ slashes, text = directory ++ List.replicate slashes '/' ∧ directory.getLast? ≠ some '/' := by
  intro directory
  refine ⟨(text.reverse.takeWhile (· == '/')).length, ?_, ?_⟩
  · have slashes : text.reverse.takeWhile (· == '/') =
        List.replicate (text.reverse.takeWhile (· == '/')).length '/' := by
      refine List.eq_replicate_iff.2 ⟨rfl, fun c member => ?_⟩
      have isSlash : (c == '/') = true := List.mem_takeWhile_imp (p := fun c => c == '/') member
      exact beq_iff_eq.1 isSlash
    rw [← List.reverse_inj, List.reverse_append, List.reverse_replicate, ← slashes,
      List.reverse_reverse, List.takeWhile_append_dropWhile]
  · have first := List.head?_dropWhile_not (· == '/') text.reverse
    rw [List.getLast?_reverse]
    intro slash
    rw [slash] at first
    cases first

/-- A text spells one directory, which is what is left of it. -/
theorem spells_iff {text directory : List Char} :
    Spells text directory ↔ directory = trimDirectory text := by
  constructor
  · rintro ⟨dots, slashes, rfl, noDots, noSlash⟩
    rw [trimDirectory, dropDots_append dots noDots, dropSlashes_append noSlash]
  · rintro rfl
    obtain ⟨dots, split, noDots⟩ := exists_dots text
    obtain ⟨slashes, behind, noSlash⟩ := exists_slashes (trimDirectory.dropDots text)
    refine ⟨dots, slashes, ?_, ?_, noSlash⟩
    · rw [trimDirectory, ← behind, ← split]
    · rwa [trimDirectory, ← behind]

/-- The file is below the directory of the override: the components of the directory, which is not
the root itself, begin those of the file behind the root. -/
def Covers (root file : Path) (o : PathOverride) : Prop :=
  ∃ directory : List Char, Spells o.directory.toList directory ∧ directory ≠ [] ∧
    ∃ relative : List Path.Component, file.components = root.components ++ relative ∧
      (Path.mk (String.ofList directory)).components <+: relative

theorem overrideHolds_iff {root file : Path} (inside : file.startsWith root = true)
    {o : PathOverride} : overrideHolds (file.below root) o = true ↔ Covers root file o := by
  have split := Path.components_below inside
  rw [overrideHolds, Bool.and_eq_true, Bool.not_eq_true', List.isEmpty_eq_false_iff,
    Path.startsWith, List.isPrefixOf_iff_prefix]
  constructor
  · rintro ⟨full, holds⟩
    exact ⟨_, spells_iff.2 rfl, full, _, split.symm, holds⟩
  · rintro ⟨_, spelled, full, relative, whole, holds⟩
    obtain rfl := spells_iff.1 spelled
    rw [← split] at whole
    obtain rfl := List.append_cancel_left whole
    exact ⟨full, holds⟩

/-! ## The module for a file -/

section

variable {a : Accessor} {file : Path} (inside : file.startsWith a.root = true)

include inside

theorem specifierFor_of_first {front back : List PathOverride} {o : PathOverride}
    (split : a.overrides = front ++ o :: back) (before : ∀ x ∈ front, ¬Covers a.root file x)
    (covers : Covers a.root file o) : a.specifierFor file = o.moduleName := by
  have found : a.overrides.find? (overrideHolds (file.below a.root)) = some o := by
    rw [split, List.find?_append, List.find?_eq_none.2, Option.none_or,
      List.find?_cons_of_pos ((overrideHolds_iff inside).2 covers)]
    exact fun x member => mt (overrideHolds_iff inside).1 (before x member)
  rw [specifierFor, found]

theorem specifierFor_of_none (none : ∀ o ∈ a.overrides, ¬Covers a.root file o) :
    a.specifierFor file = a.moduleName := by
  have found : a.overrides.find? (overrideHolds (file.below a.root)) = Option.none :=
    List.find?_eq_none.2 fun o member => mt (overrideHolds_iff inside).1 (none o member)
  rw [specifierFor, found]

end

/-! ## Other overrides -/

/-- Two rows of overrides with the same ones for the file, in the same order.  The others may be in
one of them alone, different, or in other places. -/
inductive AgreeAt (root file : Path) : List PathOverride → List PathOverride → Prop
  | nil : AgreeAt root file [] []
  | both (o : PathOverride) {os os' : List PathOverride} :
      AgreeAt root file os os' → AgreeAt root file (o :: os) (o :: os')
  | left {o : PathOverride} {os os' : List PathOverride} :
      ¬Covers root file o → AgreeAt root file os os' → AgreeAt root file (o :: os) os'
  | right {o : PathOverride} {os os' : List PathOverride} :
      ¬Covers root file o → AgreeAt root file os os' → AgreeAt root file os (o :: os')

theorem AgreeAt.find?_eq {root file : Path} (inside : file.startsWith root = true)
    {os os' : List PathOverride} (h : AgreeAt root file os os') :
    os.find? (overrideHolds (file.below root)) = os'.find? (overrideHolds (file.below root)) := by
  induction h with
  | nil => rfl
  | both o _ ih => rw [List.find?_cons, List.find?_cons, ih]
  | left other _ ih => rw [List.find?_cons_of_neg (mt (overrideHolds_iff inside).1 other), ih]
  | right other _ ih => rw [List.find?_cons_of_neg (mt (overrideHolds_iff inside).1 other), ih]

/-- The accessor with other overrides. -/
def withOverrides (a : Accessor) (os : List PathOverride) : Accessor := { a with overrides := os }

/-- Two accessors that say the same about a file. -/
structure SameAt (a b : Accessor) (file : Path) : Prop where
  exportName : a.exportName = b.exportName
  binding : a.binding = b.binding
  specifierFor : a.specifierFor file = b.specifierFor file
  namesModule (t : TsConfig) (specifier : String) :
    a.namesModule t specifier file = b.namesModule t specifier file

theorem sameAt_withOverrides {a : Accessor} {os : List PathOverride} {file : Path}
    (inside : file.startsWith a.root = true) (agree : AgreeAt a.root file a.overrides os) :
    SameAt a (a.withOverrides os) file := by
  have specifier : a.specifierFor file = (a.withOverrides os).specifierFor file := by
    rw [Accessor.specifierFor, agree.find?_eq inside]
    rfl
  refine ⟨rfl, rfl, specifier, fun t s => ?_⟩
  rw [namesModule, namesModule, spellings, spellings, specifier]
  rfl

end Accessor

/-! ## What is planned for a file -/

namespace Accessor.SameAt

open Script

variable {a b : Accessor}

theorem ofSource_eq {file : Path} (h : SameAt a b file) (s : Source) (t : TsConfig) :
    Imports.ofSource s file a t = Imports.ofSource s file b t := by
  have lists : Imports.accessorLists s file a t = Imports.accessorLists s file b t := by
    simp only [Imports.accessorLists, h.namesModule]
  have locals : Imports.accessorLocal? s a = Imports.accessorLocal? s b := by
    funext specifier
    rw [Imports.accessorLocal?, Imports.accessorLocal?, h.exportName]
  rw [Imports.ofSource, Imports.ofSource, lists, locals, h.exportName]

theorem callee_eq {file : Path} (h : SameAt a b file) (i : Imports) : i.callee a = i.callee b := by
  rw [Imports.callee, Imports.callee, h.exportName]

theorem insertion?_eq {file : Path} (h : SameAt a b file) (i : Imports) :
    i.insertion? a file = i.insertion? b file := by
  have specifier : i.newSpecifier a = i.newSpecifier b := by
    rw [Imports.newSpecifier, Imports.newSpecifier, h.exportName]
  have statement : i.newStatement a file = i.newStatement b file := by
    rw [Imports.newStatement, Imports.newStatement, specifier, h.specifierFor]
  rw [Imports.insertion?, Imports.insertion?, specifier, statement]

end Accessor.SameAt

namespace Migration

/-- The migration with another accessor. -/
def withAccessor (m : Migration) (a : Accessor) : Migration := { m with accessor := a }

section

variable {m : Migration} {a : Accessor} {file : SourceFile}
  (same : m.accessor.SameAt a file.path)

include same

theorem plan_withAccessor : (m.withAccessor a).plan file = m.plan file := by
  have imports : (m.withAccessor a).imports file = m.imports file :=
    (same.ofSource_eq file.source m.tsconfig).symm
  have binding : (m.withAccessor a).binding (m.imports file) = m.binding (m.imports file) := by
    change BindingStatement.mk a.binding ((m.imports file).callee a) = _
    rw [← same.binding, ← same.callee_eq]
    rfl
  have synthesis (recolorings : List Recoloring) :
      synthesize a file (m.imports file) recolorings =
        synthesize m.accessor file (m.imports file) recolorings := by
    rw [synthesize, synthesize, same.binding, same.callee_eq, same.insertion?_eq]
  rw [plan, plan, imports, binding]
  exact congrArg (Plan.mk _) (synthesis _)

theorem transform_withAccessor : (m.withAccessor a).transform file = m.transform file := by
  rw [transform, transform, plan_withAccessor same]

end

open Accessor

/-- The module for a file is that of the first override that covers it, or the accessor module if
none does.  With other overrides that agree at the file this module is the same, imports name the
accessor module or not as before, the same edits are planned for the file, and it becomes the
same. -/
theorem overrides_local (a : Accessor) (file : Path) (inside : file.startsWith a.root = true) :
    (∀ front o back, a.overrides = front ++ o :: back → (∀ x ∈ front, ¬Covers a.root file x) →
      Covers a.root file o → a.specifierFor file = o.moduleName) ∧
    ((∀ o ∈ a.overrides, ¬Covers a.root file o) → a.specifierFor file = a.moduleName) ∧
    ∀ os, AgreeAt a.root file a.overrides os →
      (a.withOverrides os).specifierFor file = a.specifierFor file ∧
      (∀ t specifier, (a.withOverrides os).namesModule t specifier file =
        a.namesModule t specifier file) ∧
      ∀ (m : Migration) (s : SourceFile), m.accessor = a → s.path = file →
        ((m.withAccessor (a.withOverrides os)).plan s).edits = (m.plan s).edits ∧
        (m.withAccessor (a.withOverrides os)).transform s = m.transform s := by
  refine ⟨fun _ _ _ split before covers => specifierFor_of_first inside split before covers,
    specifierFor_of_none inside, fun os agree => ?_⟩
  have same := sameAt_withOverrides inside agree
  refine ⟨same.specifierFor.symm, fun t s => (same.namesModule t s).symm, ?_⟩
  rintro m s rfl rfl
  exact ⟨congrArg Plan.edits (plan_withAccessor same), transform_withAccessor same⟩

/-- Overrides for the packages and for another application are added in front of the one for the
application of the file. -/
theorem overrides_local_mobile :
    let mobile : PathOverride := ⟨"./apps/mobile//", "@mobile/theme"⟩
    let others : List PathOverride := [⟨"apps/mobile-legacy", "@legacy"⟩, ⟨"packages", "@shared"⟩]
    let m := standard.withAccessor (standard.accessor.withOverrides [mobile])
    let other := m.withAccessor (m.accessor.withOverrides (others ++ [mobile]))
    ∃ file, SourceFile.ofText ⟨"/project/apps/mobile/A.tsx"⟩ "const A=()=>(\x7bcolor:'#fff'\x7d)" =
        .ok file ∧
      other.accessor.specifierFor file.path = "@mobile/theme" ∧
      (other.plan file).edits.map Edit.replacement =
        ["theme.colors.surface", "import \x7b useTheme \x7d from '@mobile/theme';\n\n",
          "\x7b\n  const theme = useTheme();\n  return ", ";\n\x7d"] := by
  intro mobile others m other
  have facts : (SourceFile.ofText ⟨"/project/apps/mobile/A.tsx"⟩
      "const A=()=>(\x7bcolor:'#fff'\x7d)").toOption.any (fun file =>
        file.path == ⟨"/project/apps/mobile/A.tsx"⟩ && (m.plan file).edits.map Edit.replacement ==
          ["theme.colors.surface", "import \x7b useTheme \x7d from '@mobile/theme';\n\n",
            "\x7b\n  const theme = useTheme();\n  return ", ";\n\x7d"]) = true := by
    simp only [m]
    rw [standard_eq]
    decide +kernel
  obtain ⟨file, read, holds⟩ := exists_ofText facts
  rw [Bool.and_eq_true, beq_iff_eq, beq_iff_eq] at holds
  obtain ⟨path, planned⟩ := holds
  have inside : file.path.startsWith m.accessor.root = true := by
    rw [path]
    decide +kernel
  have covers : Covers m.accessor.root file.path mobile := by
    rw [← overrideHolds_iff inside, path]
    decide +kernel
  have apart : ∀ o ∈ others, ¬Covers m.accessor.root file.path o := by
    intro o member
    rw [← overrideHolds_iff inside, path]
    revert o
    decide +kernel
  have agree : AgreeAt m.accessor.root file.path m.accessor.overrides (others ++ [mobile]) :=
    .right (apart _ List.mem_cons_self)
      (.right (apart _ (List.mem_cons_of_mem _ List.mem_cons_self)) (.both mobile .nil))
  obtain ⟨first, -, localTo⟩ := overrides_local m.accessor file.path inside
  obtain ⟨specifier, -, same⟩ := localTo (others ++ [mobile]) agree
  refine ⟨file, read, specifier.trans (first [] mobile [] rfl nofun covers), ?_⟩
  rw [← planned]
  exact congrArg (List.map Edit.replacement) (same m file rfl rfl).1

end Migration

end ThemeMigration
