import ThemeMigration.Config.Basic
import ThemeMigration.TsConfig.Basic

/-!
# The theme accessor

The function that components call for the theme: the module that exports it, its name there, and
the name that components bind its result to.  Files below a directory may import it from a module
of their own.  An import names the accessor module when its specifier is one of the configured
spellings or resolves to the same module as one of them.
-/

namespace ThemeMigration

structure Accessor where
  moduleName : String
  exportName : String
  binding : String
  aliases : List String
  overrides : List PathOverride
  root : Path
  deriving DecidableEq, Repr, Inhabited

namespace Accessor

def ofConfig (c : Config) (root : Path) : Accessor where
  moduleName := c.accessorModule
  exportName := c.accessorExport
  binding := c.accessorBinding
  aliases := c.accessor.aliases
  overrides := c.accessor.overrides
  root := root

/-- A directory without leading `./` and without trailing slashes. -/
def trimDirectory (cs : List Char) : List Char :=
  ((dropDots cs).reverse.dropWhile (· == '/')).reverse
where
  dropDots : List Char → List Char
    | '.' :: '/' :: rest => dropDots rest
    | cs => cs

/-- Whether an override holds for a file, given relative to the root. -/
def overrideHolds (relative : Path) (o : PathOverride) : Bool :=
  let directory := trimDirectory o.directory.toList
  !directory.isEmpty && relative.startsWith ⟨String.ofList directory⟩

/-- The specifier of a new import in a file. -/
def specifierFor (a : Accessor) (file : Path) : String :=
  match a.overrides.find? (overrideHolds (file.below a.root)) with
  | some o => o.moduleName
  | none => a.moduleName

/-- The configured specifiers of the accessor module for a file. -/
def spellings (a : Accessor) (file : Path) : List String :=
  a.moduleName :: a.specifierFor file :: a.aliases

/-- Whether a specifier in a file names the accessor module.  Its text is compared with all
spellings before anything is resolved. -/
def namesModule (a : Accessor) (t : TsConfig) (specifier : String) (file : Path) : Bool :=
  (a.spellings file).contains specifier ||
    (a.spellings file).any fun s => t.sameModule specifier s file

/-- The comparison of the texts is a short cut only. -/
theorem namesModule_eq_any (a : Accessor) (t : TsConfig) (specifier : String) (file : Path) :
    a.namesModule t specifier file =
      (a.spellings file).any fun s => t.sameModule specifier s file := by
  rw [namesModule, Bool.or_eq_right_iff_imp]
  intro listed
  refine List.any_eq_true.2 ⟨specifier, List.contains_iff_mem.1 listed, ?_⟩
  rw [TsConfig.sameModule, beq_self_eq_true, Bool.true_or]

end Accessor

end ThemeMigration
