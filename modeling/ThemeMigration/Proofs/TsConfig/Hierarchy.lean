import ThemeMigration.TsConfig.Load

/-!
# Hierarchies of tsconfigs

A `tsconfig` stands over the files that it extends, each of them over those that it extends, and so
on.  A file tree has at most one such hierarchy under a path.  Packages have no place in it, and
no options are combined yet.
-/

namespace ThemeMigration.TsConfig

/-- An entry of an extends list that is the path of a file. -/
def NamesFile (entry : String) : Prop :=
  ∃ opening ∈ ["./", "../", "/"], opening.toList <+: entry.toList

theorem namesFile_iff (entry : String) : namesFile entry = true ↔ NamesFile entry := by
  have root : (Path.mk entry).isAbsolute = true ↔ "/".toList <+: entry.toList := by
    rw [Path.isAbsolute, beq_iff_eq]
    change entry.toList.head? = some '/' ↔ ['/'] <+: entry.toList
    cases entry.toList <;> simp [List.cons_prefix_cons, eq_comm]
  simp [namesFile, NamesFile, root, or_assoc]

instance : DecidablePred NamesFile := fun entry => decidable_of_iff _ (namesFile_iff entry)

/-- A `tsconfig` with the value that is read from it. -/
structure ReadFile where
  path : Path
  config : Json

namespace ReadFile

def directory (f : ReadFile) : Path := directoryOf f.path

/-- What the file says about an option of the compiler. -/
def option? (f : ReadFile) (name : String) : Option Json :=
  (f.config.member? "compilerOptions").bind fun options => options.member? name

/-- The base directory that the file sets. -/
def baseUrl? (f : ReadFile) : Option Path :=
  ((f.option? "baseUrl").bind Json.string?).map fun s => (f.directory ++ ⟨s⟩).normalize

/-- The patterns of a path map with their targets. -/
def pathMap (members : List (String × Json)) : List (String × List String) :=
  (KeyTable.ofList members).entries.map fun m =>
    (m.1, (m.2.array?.getD []).filterMap Json.string?)

/-- The path map that the file sets, with the directory of the file. -/
def paths? (f : ReadFile) : Option (List (String × List String) × Path) :=
  ((f.option? "paths").bind Json.object?).map fun members => (pathMap members, f.directory)

/-- The files that the file extends. -/
def bases (t : FileTree) (f : ReadFile) : List Path :=
  ((extendsList f.config).filter (NamesFile ·)).map (extendedFile t f.directory)

theorem ownOptions_eq (f : ReadFile) :
    ownOptions f.directory f.config = ⟨f.baseUrl?, f.paths?⟩ := by
  simp only [ownOptions, baseUrl?, paths?, option?, Option.bind_assoc]
  rfl

end ReadFile

/-- A file over the hierarchies of the files that it extends, in the order of its list. -/
inductive Hierarchy where
  | node (file : ReadFile) (bases : List Hierarchy)

namespace Hierarchy

def file : Hierarchy → ReadFile
  | node f _ => f

def path (h : Hierarchy) : Path := h.file.path

mutual

/-- The most steps from the top of a hierarchy to one of its files. -/
def height : Hierarchy → Nat
  | node _ bases => heightAbove bases

def heightAbove : List Hierarchy → Nat
  | [] => 0
  | b :: bases => max (b.height + 1) (heightAbove bases)

end

theorem heightAbove_le_iff (bases : List Hierarchy) (n : Nat) :
    heightAbove bases ≤ n ↔ ∀ b ∈ bases, b.height < n := by
  induction bases with
  | nil => simp [heightAbove]
  | cons b bases ih =>
    rw [heightAbove, Nat.max_le, ih, List.forall_mem_cons, Nat.succ_le_iff]

/-- The hierarchy as a file tree has it. -/
inductive IsRead (t : FileTree) : Hierarchy → Prop where
  | node {f : ReadFile} {bases : List Hierarchy} (read : readJson t f.path = .ok f.config)
      (named : bases.map path = f.bases t) (there : ∀ b ∈ bases, t.isFile b.path = true)
      (below : ∀ b ∈ bases, IsRead t b) : IsRead t (node f bases)

theorem IsRead.unique {t : FileTree} {h k : Hierarchy} (hr : h.IsRead t) (kr : k.IsRead t)
    (same : h.path = k.path) : h = k := by
  induction hr generalizing k with
  | @node f bases read named _ _ ih =>
    cases kr with
    | @node g others read' named' _ below' =>
      have file : f = g := by
        obtain ⟨p, config⟩ := f
        obtain ⟨q, config'⟩ := g
        obtain rfl : p = q := same
        obtain rfl : config = config' := Except.ok.inj (read.symm.trans read')
        rfl
      subst file
      have paths : bases.map path = others.map path := named.trans named'.symm
      have length : bases.length = others.length := by simpa using congrArg List.length paths
      congr 1
      refine List.ext_getElem length fun i inside inside' => ?_
      refine ih _ (List.getElem_mem inside) (below' _ (List.getElem_mem inside')) ?_
      simpa [inside, inside'] using congrArg (fun l => l[i]?) paths

end Hierarchy

end ThemeMigration.TsConfig
