import ThemeMigration.Proofs.Path.Keys
import ThemeMigration.Proofs.TsConfig.Identity

/-!
# Spellings of a relative module

A module that a relative specifier names by its plain name can be spelled in more ways: with a
source extension, as the `index` in a directory of its name, and with detours on the way to it.  All
spellings resolve to one path, that of the plain specifier behind the directory of the importing
file, so two of them name the same module exactly if these paths are the same.
-/

namespace ThemeMigration

open ThemeMigration.Path

namespace TsConfig

/-! ## Relative specifiers -/

theorem head?_pieces (cs : List Char) : (pieces cs).head? = some (cs.takeWhile (· != '/')) := by
  induction cs with
  | nil => rfl
  | cons c cs ih =>
    rw [pieces]
    by_cases slash : c = '/'
    · simp [slash]
    · have plain : (c == '/') = false := beq_eq_false_iff_ne.2 slash
      rw [plain, List.takeWhile_cons_of_pos (by simpa using slash)]
      cases split : pieces cs with
      | nil => exact absurd split (pieces_ne_nil cs)
      | cons p ps =>
        rw [split, List.head?_cons, Option.some.injEq] at ih
        simp [ih]

/-- A specifier is relative exactly if its first piece is a dot segment. -/
theorem isRelative_iff {s : String} :
    isRelative s = true ↔
      (pieces s.toList).head? = some ['.'] ∨ (pieces s.toList).head? = some ['.', '.'] := by
  rw [head?_pieces, Option.some.injEq, Option.some.injEq, isRelative]
  rcases s.toList with _ | ⟨c, _ | ⟨d, _ | ⟨e, rest⟩⟩⟩
  · simp
  · by_cases dot : c = '.' <;> by_cases slash : c = '/' <;> simp_all
  · by_cases dot : c = '.' <;> by_cases slash : c = '/' <;> by_cases dot' : d = '.' <;>
      by_cases slash' : d = '/' <;> simp_all
  · by_cases dot : c = '.' <;> by_cases slash : c = '/' <;> by_cases dot' : d = '.' <;>
      by_cases slash' : d = '/' <;> by_cases slash'' : e = '/' <;> simp_all

/-- What stands behind a slash does not matter. -/
theorem isRelative_append_slash (a b : String) : isRelative (a ++ "/" ++ b) = isRelative a := by
  have head : (pieces (a ++ "/" ++ b).toList).head? = (pieces a.toList).head? := by
    rw [String.toList_append, String.toList_append, List.append_assoc]
    exact (congrArg List.head? (pieces_append_slash _ _)).trans
      (List.head?_append_of_ne_nil _ (pieces_ne_nil _))
  rw [Bool.eq_iff_iff, isRelative_iff, isRelative_iff, head]

theorem isAbsolute_of_isRelative {s : String} (relative : isRelative s = true) :
    (Path.mk s).isAbsolute = false := by
  rw [isRelative_iff, head?_pieces] at relative
  rw [Bool.eq_false_iff, isAbsolute, ne_eq, beq_iff_eq]
  intro absolute
  cases chars : s.toList with
  | nil => simp [chars] at relative
  | cons c cs =>
    obtain rfl : c = '/' := by simpa [chars] using absolute
    simp [chars] at relative

/-- A relative specifier is resolved behind the directory of the file. -/
theorem resolve?_of_isRelative {t : TsConfig} {s : String} {file : Path}
    (relative : isRelative s = true) :
    t.resolve? s file = some ((file.parent?.getD ⟨""⟩ ++ ⟨s⟩).normalize.moduleKey) := by
  rw [resolve?, if_pos relative]

/-! ## Endings -/

/-- What a plain name may be followed by: nothing, a source extension, or the `index` of a
directory, with or without an extension. -/
inductive IsEnding : String → Prop
  | plain : IsEnding ""
  | extension {e : String} : e ∈ sourceExtensions → IsEnding ("." ++ e)
  | folder : IsEnding "/index"
  | folderExtension {e : String} : e ∈ sourceExtensions → IsEnding ("/index." ++ e)

/-- The stack of a directory, with the segments of a specifier folded onto it. -/
def walk (directory : Path) (s : String) : List Path.Component :=
  pushAll directory.isAbsolute directory.normalComponents.reverse (segments s.toList)

section Walk

variable (directory : Path) {base n : String}

theorem walk_slash (name : IsName n) :
    walk directory (base ++ "/" ++ n) = .name n :: walk directory base := by
  rw [walk, segments_slash, pushAll_append, segments_of_name name]
  rfl

theorem isInner_of_mem_walk : ∀ c ∈ (walk directory base).reverse, c.IsInner := by
  intro c member
  rcases mem_pushAll (List.mem_reverse.1 member) with inDirectory | segment
  · exact isInner_of_mem_normalComponents (List.mem_reverse.1 inDirectory)
  · exact isInner_of_mem_segments segment

theorem normalize_of_isRelative (relative : isRelative base = true) :
    (directory ++ ⟨base⟩).normalize =
      ofComponents directory.isAbsolute (walk directory base).reverse :=
  normalize_append (isAbsolute_of_isRelative relative)

theorem normalize_slash (relative : isRelative base = true) (name : IsName n) :
    (directory ++ ⟨base ++ "/" ++ n⟩).normalize =
      ofComponents directory.isAbsolute ((walk directory base).reverse ++ [.name n]) := by
  rw [normalize_of_isRelative directory (by rwa [isRelative_append_slash]),
    walk_slash directory name, List.reverse_cons]

/-- The key of a path that ends with a name. -/
theorem moduleKey_slash (relative : isRelative base = true) (name : IsName n)
    (stem : IsName (sourceStem n)) :
    (directory ++ ⟨base ++ "/" ++ n⟩).normalize.moduleKey =
      if sourceStem n = "index" then (directory ++ ⟨base⟩).normalize
      else (directory ++ ⟨base ++ "/" ++ sourceStem n⟩).normalize := by
  rw [normalize_slash directory relative name, normalize_of_isRelative directory relative,
    normalize_slash directory relative stem,
    moduleKey_ofComponents (isInner_of_mem_walk directory) name stem]

/-- The key of a module in a directory is its plain path, whatever its name ends with. -/
theorem moduleKey_of_isEnding (relative : isRelative base = true) (module : IsModuleName n)
    {ending : String} (ends : IsEnding ending) :
    (directory ++ ⟨base ++ "/" ++ n ++ ending⟩).normalize.moduleKey =
      (directory ++ ⟨base ++ "/" ++ n⟩).normalize := by
  have index : IsName "index" := by decide
  have folder : isRelative (base ++ "/" ++ n) = true := by rwa [isRelative_append_slash]
  have respelled {s s' : String} (same : s = s') : (directory ++ ⟨s⟩).normalize.moduleKey =
      (directory ++ ⟨s'⟩).normalize.moduleKey := by rw [same]
  cases ends with
  | plain =>
    have stem := module.sourceStem_eq
    have key := moduleKey_slash directory relative module.isName
      (by rw [stem]; exact module.isName)
    rw [stem, if_neg module.noIndex] at key
    exact (respelled String.append_empty).trans key
  | @extension e source =>
    have stem := sourceStem_append module.isName source
    have key := moduleKey_slash directory relative
      (isName_append module.isName source) (by rw [stem]; exact module.isName)
    rw [stem, if_neg module.noIndex] at key
    exact (respelled (by simp only [String.append_assoc])).trans key
  | folder =>
    have stem : sourceStem "index" = "index" := by decide +kernel
    have key := moduleKey_slash directory folder index (by rwa [stem])
    exact (respelled (by simp only [String.append_assoc]; rfl)).trans (key.trans (if_pos stem))
  | @folderExtension e source =>
    have stem := sourceStem_append index source
    have key := moduleKey_slash directory folder (isName_append index source)
      (by rwa [stem])
    have joined : "/index." = "/" ++ "index" ++ "." := by decide
    exact (respelled (by simp only [joined, String.append_assoc])).trans (key.trans (if_pos stem))

end Walk

/-! ## Detours -/

/-- A way that leads back to where it begins: a single dot, or a name and the way back from it. -/
inductive IsDetour : String → Prop
  | stay : IsDetour "."
  | back {n : String} : IsName n → IsDetour (n ++ "/..")

/-- A specifier with detours behind some of its slashes. -/
inductive Detoured (s : String) : String → Prop
  | direct : Detoured s s
  | around {front back detour : String} : Detoured s (front ++ "/" ++ back) → IsDetour detour →
      Detoured s (front ++ "/" ++ detour ++ "/" ++ back)

theorem pushAll_detour {detour : String} (h : IsDetour detour) (absolute : Bool)
    (stack : List Path.Component) : pushAll absolute stack (segments detour.toList) = stack := by
  cases h with
  | stay => rfl
  | @back n name =>
    have joined : "/.." = "/" ++ ".." := by decide
    rw [joined, ← String.append_assoc, segments_slash, segments_of_name name]
    rfl

namespace Detoured

variable {s u : String}

theorem append (h : Detoured s u) (ending : String) : Detoured (s ++ ending) (u ++ ending) := by
  induction h with
  | direct => exact .direct
  | @around front back detour _ isDetour ih =>
    rw [String.append_assoc] at ih ⊢
    exact .around ih isDetour

theorem isRelative_eq (h : Detoured s u) : isRelative u = isRelative s := by
  induction h with
  | direct => rfl
  | around _ _ ih => rw [← ih, isRelative_append_slash, isRelative_append_slash,
      isRelative_append_slash]

theorem walk_eq (h : Detoured s u) (directory : Path) : walk directory u = walk directory s := by
  induction h with
  | direct => rfl
  | around _ isDetour ih =>
    rw [← ih, walk, walk, segments_slash, segments_slash, segments_slash, pushAll_append,
      pushAll_append, pushAll_append, pushAll_detour isDetour]

theorem normalize_eq (h : Detoured s u) (relative : isRelative s = true) (directory : Path) :
    (directory ++ ⟨u⟩).normalize = (directory ++ ⟨s⟩).normalize := by
  rw [normalize_of_isRelative directory relative,
    normalize_of_isRelative directory (h.isRelative_eq.trans relative),
    h.walk_eq]

end Detoured

/-! ## Spellings -/

/-- A relative specifier that ends with the plain name of a module. -/
inductive IsPlain : String → Prop
  | name {base n : String} : isRelative (base ++ "/" ++ n) = true → IsModuleName n →
      IsPlain (base ++ "/" ++ n)

/-- A specifier with detours and an ending. -/
inductive Spells (s : String) : String → Prop
  | spelled {u ending : String} : Detoured s u → IsEnding ending → Spells s (u ++ ending)

/-- A spelling resolves to the plain path behind the directory of the file. -/
theorem resolve?_of_spells {s u : String} (plain : IsPlain s) (spells : Spells s u) (t : TsConfig)
    (file : Path) :
    t.resolve? u file = some (file.parent?.getD ⟨""⟩ ++ ⟨s⟩).normalize := by
  cases plain with
  | @name base n relative module =>
    cases spells with
    | @spelled u ending around ends =>
      have detoured := around.append ending
      rw [isRelative_append_slash] at relative
      have whole : isRelative (base ++ "/" ++ n ++ ending) = true := by
        rwa [String.append_assoc, isRelative_append_slash]
      rw [resolve?_of_isRelative (detoured.isRelative_eq.trans whole), detoured.normalize_eq whole,
        moduleKey_of_isEnding _ relative module ends]

/-- All spellings of a relative module resolve to its path behind the directory of the importing
file, so any two of them name the same module; and spellings of two modules name the same one only
if these have the same path. -/
theorem spellings_identified (t : TsConfig) (file : Path) :
    (∀ s u, IsPlain s → Spells s u →
      t.resolve? u file = some (file.parent?.getD ⟨""⟩ ++ ⟨s⟩).normalize) ∧
    ∀ s s' u v, IsPlain s → IsPlain s' → Spells s u → Spells s' v →
      (t.sameModule u v file = true ↔
        (file.parent?.getD ⟨""⟩ ++ ⟨s⟩).normalize =
          (file.parent?.getD ⟨""⟩ ++ ⟨s'⟩).normalize) := by
  refine ⟨fun s u plain spells => resolve?_of_spells plain spells t file, ?_⟩
  intro s s' u v plain plain' spells spells'
  rw [sameModule_iff, identity_of_resolved (resolve?_of_spells plain spells t file),
    identity_of_resolved (resolve?_of_spells plain' spells' t file), Sum.inr.injEq]
  exact ⟨normalize_eq_of_components, congrArg components⟩

/-- An index file behind a detour, and another file name; the file one directory above is another
module. -/
theorem spellings_identified_detour :
    let t : TsConfig := ⟨⟨"/project/tsconfig.json"⟩, none, [], ⟨"/project"⟩⟩
    let file : Path := ⟨"/project/src/Card.tsx"⟩
    (IsPlain "./ui/theme" ∧ Spells "./ui/theme" "./ui/x/../theme/index.tsx" ∧
        t.resolve? "./ui/x/../theme/index.tsx" file = some ⟨"/project/src/ui/theme"⟩) ∧
      (Spells "./ui/theme" "./ui/theme.js" ∧
        t.sameModule "./ui/x/../theme/index.tsx" "./ui/theme.js" file = true) ∧
      (IsPlain "./theme" ∧ Spells "./theme" "./theme" ∧
        t.sameModule "./ui/x/../theme/index.tsx" "./theme" file = false) := by
  intro t file
  have module : IsModuleName "theme" := ⟨by decide, by decide, by decide +kernel⟩
  have plain : IsPlain "./ui/theme" :=
    @IsPlain.name "./ui" "theme" (by decide +kernel) module
  have above : IsPlain "./theme" := @IsPlain.name "." "theme" (by decide +kernel) module
  have around : Detoured "./ui/theme" "./ui/x/../theme" :=
    @Detoured.around _ "./ui" "theme" "x/.." .direct (@IsDetour.back "x" (by decide))
  have index : Spells "./ui/theme" "./ui/x/../theme/index.tsx" :=
    .spelled around (@IsEnding.folderExtension "tsx" (by decide))
  have script : Spells "./ui/theme" "./ui/theme.js" :=
    .spelled .direct (@IsEnding.extension "js" (by decide))
  have itself : Spells "./theme" "./theme" := .spelled .direct .plain
  have identified := spellings_identified t file
  have path : (file.parent?.getD ⟨""⟩ ++ ⟨"./ui/theme"⟩).normalize =
      ⟨"/project/src/ui/theme"⟩ := by
    decide +kernel
  have other : (file.parent?.getD ⟨""⟩ ++ ⟨"./ui/theme"⟩).normalize ≠
      (file.parent?.getD ⟨""⟩ ++ ⟨"./theme"⟩).normalize := by
    decide +kernel
  refine ⟨⟨plain, index, ?_⟩, ⟨script, ?_⟩, above, itself, ?_⟩
  · rw [identified.1 _ _ plain index, path]
  · exact (identified.2 _ _ _ _ plain plain index script).2 rfl
  · rw [Bool.eq_false_iff]
    exact fun same => other ((identified.2 _ _ _ _ plain above index itself).1 same)

end TsConfig

end ThemeMigration
