import Mathlib.Data.List.Chain
import Mathlib.Logic.Relation
import ThemeMigration.Proofs.TsConfig.Inheritance

/-!
# Chains of extended files

Which files a `tsconfig` extends is a relation between paths, and nothing keeps it from branching or
from coming back to a file.  A load does not look for files that it has seen: it follows every
chain, and what bounds it is the number of steps alone.  So it succeeds exactly if every file in
reach can be read and no chain is too long, and a circle in reach makes it fail.
-/

namespace ThemeMigration.TsConfig

/-! ## Reading one file -/

/-- There is a file at the path, in UTF-8, and what is left of it without comments and trailing
commas is JSON. -/
def Readable (t : FileTree) (p : Path) : Prop :=
  t.isFile p = true ∧ ∃ text config, t.readText? p = some text ∧
    Json.parse? (Json.strip text) = some config

/-- The file at one path extends the file at another one, as one of the entries names it. -/
def Extends (t : FileTree) (p q : Path) : Prop :=
  ∃ config, readJson t p = .ok config ∧
    ∃ entry ∈ extendsList config, NamesFile entry ∧ extendedFile t (directoryOf p) entry = q

instance (t : FileTree) (p q : Path) : Decidable (Extends t p q) :=
  match read : readJson t p with
  | .ok config => decidable_of_iff
      (∃ entry ∈ extendsList config, NamesFile entry ∧ extendedFile t (directoryOf p) entry = q)
      (by simp [Extends, read])
  | .error _ => isFalse (by simp [Extends, read])

/-- Files behind a file, each one extended by the one before it. -/
def Chain (t : FileTree) (p : Path) (chain : List Path) : Prop :=
  List.IsChain (Extends t) (p :: chain)

section

variable {t : FileTree} {p q : Path}

theorem readJson_eq_ok_iff {config : Json} :
    readJson t p = .ok config ↔
      ∃ text, t.readText? p = some text ∧ Json.parse? (Json.strip text) = some config := by
  rw [readJson]
  cases t.readText? p with
  | none => simp
  | some text => cases parsed : Json.parse? (Json.strip text) <;> simp [parsed]

theorem isFile_of_readText? {text : String} (h : t.readText? p = some text) :
    t.isFile p = true := by
  rw [FileTree.readText?, FileTree.read] at h
  rw [FileTree.isFile]
  split at h
  · rename_i content read
    split at read
    · rename_i found
      rw [found]
    · cases read
    · cases read
  · cases h

theorem readable_iff : Readable t p ↔ ∃ config, readJson t p = .ok config := by
  simp only [readJson_eq_ok_iff]
  constructor
  · rintro ⟨_, text, config, read, parsed⟩
    exact ⟨config, text, read, parsed⟩
  · rintro ⟨config, text, read, parsed⟩
    exact ⟨isFile_of_readText? read, text, config, read, parsed⟩

theorem extends_iff_mem_bases {f : ReadFile} (read : readJson t f.path = .ok f.config) :
    Extends t f.path q ↔ q ∈ f.bases t := by
  simp only [Extends, read, Except.ok.injEq, exists_eq_left', ReadFile.bases, List.mem_map,
    List.mem_filter, decide_eq_true_eq, and_assoc]
  rfl

end

/-! ## Hierarchies and chains -/

/-- Things with a property whose images are the members of a list, in their order. -/
theorem exists_map_eq {α β : Type} {S : β → Prop} {f : β → α} {as : List α}
    (each : ∀ a ∈ as, ∃ b, S b ∧ f b = a) : ∃ bs : List β, (∀ b ∈ bs, S b) ∧ bs.map f = as := by
  induction as with
  | nil => exact ⟨[], by simp⟩
  | cons a as ih =>
    rcases List.forall_mem_cons.1 each with ⟨⟨b, holds, rfl⟩, rest⟩
    rcases ih rest with ⟨bs, all, rfl⟩
    exact ⟨b :: bs, List.forall_mem_cons.2 ⟨holds, all⟩, rfl⟩

section

variable {t : FileTree} {p : Path} {n : Nat}

/-- The files in reach can be read, and the chains have fewer steps than the number. -/
structure Tame (t : FileTree) (n : Nat) (p : Path) : Prop where
  readable : ∀ q, Relation.ReflTransGen (Extends t) p q → Readable t q
  short : ∀ chain, Chain t p chain → chain.length < n

theorem not_tame_zero : ¬Tame t 0 p :=
  fun h => absurd (h.short [] (.singleton p)) (Nat.lt_irrefl 0)

theorem tame_succ_iff :
    Tame t (n + 1) p ↔ Readable t p ∧ ∀ q, Extends t p q → Tame t n q := by
  constructor
  · intro h
    refine ⟨h.readable p .refl, fun q step => ⟨fun r reach => ?_, fun chain linked => ?_⟩⟩
    · exact h.readable r (.head step reach)
    · exact Nat.lt_of_succ_lt_succ (h.short (q :: chain) (.cons_cons step linked))
  · rintro ⟨readable, below⟩
    refine ⟨fun q reach => ?_, fun chain linked => ?_⟩
    · rcases reach.cases_head with rfl | ⟨r, step, rest⟩
      · exact readable
      · exact (below r step).readable q rest
    · cases chain with
      | nil => exact Nat.succ_pos n
      | cons q chain =>
        rcases List.isChain_cons_cons.1 linked with ⟨step, rest⟩
        exact Nat.succ_lt_succ ((below q step).short chain rest)

/-- Under the path there is a hierarchy of fewer steps than the number. -/
def Spanned (t : FileTree) (n : Nat) (p : Path) : Prop :=
  ∃ h : Hierarchy, (h.IsRead t ∧ h.height < n) ∧ h.path = p

theorem Hierarchy.IsRead.readable {h : Hierarchy} (hr : h.IsRead t) : Readable t h.path := by
  cases hr with
  | node read _ _ _ => exact readable_iff.2 ⟨_, read⟩

theorem spanned_succ_iff :
    Spanned t (n + 1) p ↔ Readable t p ∧ ∀ q, Extends t p q → Spanned t n q := by
  constructor
  · rintro ⟨h, ⟨hr, low⟩, rfl⟩
    refine ⟨hr.readable, fun q step => ?_⟩
    cases hr with
    | @node f bases read named _ below =>
      have inBases : q ∈ f.bases t := (extends_iff_mem_bases read).1 step
      rw [← named] at inBases
      rcases List.mem_map.1 inBases with ⟨b, member, rfl⟩
      have lower := (Hierarchy.heightAbove_le_iff bases n).1 (Nat.le_of_lt_succ low)
      exact ⟨b, ⟨below b member, lower b member⟩, rfl⟩
  · rintro ⟨readable, below⟩
    rcases readable_iff.1 readable with ⟨config, read⟩
    let f : ReadFile := ⟨p, config⟩
    have spanned : ∀ q ∈ f.bases t, Spanned t n q := fun q member =>
      below q ((extends_iff_mem_bases (f := f) read).2 member)
    -- one hierarchy under each base, in the order of the bases
    rcases exists_map_eq spanned with ⟨bases, all, named⟩
    refine ⟨.node f bases, ⟨.node read named ?_ fun b member => (all b member).1, ?_⟩, rfl⟩
    · exact fun b member => (all b member).1.readable.1
    · exact Nat.lt_succ_of_le
        ((Hierarchy.heightAbove_le_iff bases n).2 fun b member => (all b member).2)

theorem spanned_iff_tame : Spanned t n p ↔ Tame t n p := by
  induction n generalizing p with
  | zero => exact iff_of_false (fun ⟨_, ⟨_, low⟩, _⟩ => Nat.not_lt_zero _ low) not_tame_zero
  | succ n ih => rw [spanned_succ_iff, tame_succ_iff, forall₂_congr fun q _ => ih]

end

/-! ## Circles -/

/-- Behind a file from which a circle can be reached there is another such file. -/
theorem exists_extends_of_circle {t : FileTree} {p c : Path}
    (reach : Relation.ReflTransGen (Extends t) p c)
    (circle : Relation.TransGen (Extends t) c c) :
    ∃ q, Extends t p q ∧ Relation.ReflTransGen (Extends t) q c := by
  rcases reach.cases_head with rfl | later
  · exact Relation.TransGen.head'_iff.1 circle
  · exact later

/-- From such a file there are chains of every length. -/
theorem exists_chain_of_circle {t : FileTree} {p c : Path}
    (reach : Relation.ReflTransGen (Extends t) p c)
    (circle : Relation.TransGen (Extends t) c c) (n : Nat) :
    ∃ chain, Chain t p chain ∧ chain.length = n := by
  induction n generalizing p with
  | zero => exact ⟨[], .singleton p, rfl⟩
  | succ n ih =>
    rcases exists_extends_of_circle reach circle with ⟨q, step, rest⟩
    rcases ih rest with ⟨chain, linked, length⟩
    exact ⟨q :: chain, .cons_cons step linked, congrArg Nat.succ length⟩

/-! ## When a load succeeds -/

/-- A load succeeds exactly if the path leads to a file, every file in reach of its normal path can
be read, and no chain from there has more than eight steps.  If a circle is in reach, it fails. -/
theorem load_succeeds_iff (t : FileTree) (p : Path) :
    ((∃ c, load t p = .ok c) ↔
      t.isFile p = true ∧
        (∀ q, Relation.ReflTransGen (Extends t) (t.workingDirectory ++ p).normalize q →
          Readable t q) ∧
        ∀ chain, Chain t (t.workingDirectory ++ p).normalize chain → chain.length ≤ 8) ∧
      ∀ q, Relation.ReflTransGen (Extends t) (t.workingDirectory ++ p).normalize q →
        Relation.TransGen (Extends t) q q → ∃ e, load t p = .error e := by
  have succeeds : (∃ c, load t p = .ok c) ↔
      t.isFile p = true ∧ Tame t (maxDepth + 1) (t.workingDirectory ++ p).normalize := by
    rw [← spanned_iff_tame, Spanned]
    simp only [load_eq_ok_iff, Nat.lt_succ_iff]
    constructor
    · rintro ⟨_, there, h, hr, top, low, _⟩
      exact ⟨there, h, ⟨hr, low⟩, top⟩
    · rintro ⟨there, h, ⟨hr, low⟩, top⟩
      exact ⟨_, there, h, hr, top, low, rfl⟩
  refine ⟨succeeds.trans (and_congr_right fun _ => ⟨fun h => ?_, fun h => ?_⟩), ?_⟩
  · exact ⟨h.readable, fun chain linked => Nat.le_of_lt_succ (h.short chain linked)⟩
  · exact ⟨h.1, fun chain linked => Nat.lt_succ_of_le (h.2 chain linked)⟩
  · intro q reach circle
    cases loaded : load t p with
    | error e => exact ⟨e, rfl⟩
    | ok c =>
      have tame := (succeeds.1 ⟨c, loaded⟩).2
      rcases exists_chain_of_circle reach circle (maxDepth + 1) with ⟨chain, linked, length⟩
      exact absurd (tame.short chain linked) (Nat.not_lt.2 (Nat.le_of_eq length.symm))

/-! ## A circle beside a file that can be read -/

namespace Circle

/-- A file over one that extends nothing and one that extends it in turn. -/
def project : FileTree where
  entries := [
    (["project"], .directory),
    (["project", "tsconfig.json"],
      .file "\x7b\"extends\":[\"./base\",\"./web.json\"]\x7d".toUTF8),
    (["project", "base.json"],
      .file "\x7b\"compilerOptions\":\x7b\"baseUrl\":\"src\"\x7d\x7d".toUTF8),
    (["project", "web.json"], .file "\x7b\"extends\":\"../project/tsconfig\"\x7d".toUTF8)]
  workingDirectory := ⟨"/project"⟩

end Circle

/-- The base that can be read does not save the load from the circle behind the other one. -/
theorem load_succeeds_iff_circle :
    Relation.TransGen (Extends Circle.project) ⟨"/project/tsconfig.json"⟩
        ⟨"/project/tsconfig.json"⟩ ∧
      ∃ e, load Circle.project ⟨"tsconfig.json"⟩ = .error e := by
  have there : Extends Circle.project ⟨"/project/tsconfig.json"⟩ ⟨"/project/web.json"⟩ := by
    decide +kernel
  have back : Extends Circle.project ⟨"/project/web.json"⟩ ⟨"/project/tsconfig.json"⟩ := by
    decide +kernel
  have circle := (Relation.TransGen.single there).tail back
  refine ⟨circle, (load_succeeds_iff Circle.project ⟨"tsconfig.json"⟩).2 _ ?_ circle⟩
  rw [show (Circle.project.workingDirectory ++ (⟨"tsconfig.json"⟩ : Path)).normalize =
    ⟨"/project/tsconfig.json"⟩ by decide +kernel]

end ThemeMigration.TsConfig
