import ThemeMigration.Component.Binding
import ThemeMigration.Component.Literals
import ThemeMigration.Pruning
import ThemeMigration.SourceFile

/-!
# Migration of a file

The colour literals of a script's components are replaced by the expressions of their tokens, each
component that had one replaced binds the accessor, and the accessor is imported.  A component in
which the binding would declare a name twice is left alone.  All edits refer to the text that was
read and are applied in one pass; after that, imports that the changes left without a reference are
removed.
-/

namespace ThemeMigration

open Script

/-- What decides about the files of a run. -/
structure Migration where
  root : Path
  palette : Palette
  accessor : Accessor
  tsconfig : TsConfig
  wrappers : List String
  dryRun : Bool
  deriving Repr, Inhabited

/-- What the migration of one file came to. -/
structure FileCounts where
  components : Nat := 0
  literals : LiteralCounts := {}
  importAdded : Bool := false
  bindingsInserted : Nat := 0
  importsRemoved : Nat := 0
  deriving DecidableEq, Repr, Inhabited

namespace Migration

/-- A component with the replacements in its body. -/
structure Recoloring where
  component : Component
  edits : List Edit
  counts : LiteralCounts
  deriving Repr, Inhabited

namespace Recoloring

def ofComponent (p : Palette) (source : String) (c : Component) : Recoloring :=
  ⟨c, c.replacements p source, c.literalCounts p source⟩

/-- Whether a literal of the component is replaced. -/
def isEffective (r : Recoloring) : Bool := r.counts.replaced > 0

/-- The replacements in a component that can take the binding, or no replacement at all. -/
def settled (r : Recoloring) (source : String) (b : BindingStatement) : Recoloring :=
  if r.isEffective && r.component.isBlocked source b then
    { r with edits := [], counts := r.counts.withdraw }
  else r

end Recoloring

/-- The import and the bindings that changed components need. -/
structure Synthesis where
  edits : List Edit
  importAdded : Bool
  bindingsInserted : Nat
  deriving DecidableEq, Repr, Inhabited

/-- The synthesis for the components that had a literal replaced. -/
def synthesize (a : Accessor) (file : SourceFile) (imports : Imports)
    (recolorings : List Recoloring) : Synthesis :=
  let affected := recolorings.filter Recoloring.isEffective
  let unbound := affected.filter fun r => !r.component.hasBinding
  let binding : BindingStatement := ⟨a.binding, imports.callee a⟩
  let insertion := if affected.isEmpty then none else imports.insertion? a file.path
  { edits := insertion.toList ++ unbound.flatMap fun r => r.component.insertion file.text binding
    importAdded := insertion.isSome
    bindingsInserted := unbound.length }

/-- What a file becomes. -/
structure Outcome where
  /-- The new text, if it differs from the old one. -/
  text : Option String
  counts : FileCounts
  deriving DecidableEq, Repr, Inhabited

/-- The migration that a configuration asks for. -/
def ofConfig (c : Config) (root : Path) (t : TsConfig) : Except ConfigError Migration :=
  (TokenTable.ofConfig c.mapping).map fun tokens =>
    { root
      palette := ⟨tokens, ⟨c.replacement.extraColorProperties⟩⟩
      accessor := .ofConfig c root
      tsconfig := t
      wrappers := c.wrappers
      dryRun := c.dryRun }

/-- The import section of a file. -/
def imports (m : Migration) (file : SourceFile) : Imports :=
  Imports.ofSource file.source file.path m.accessor m.tsconfig

/-- The binding that the components of a file take. -/
def binding (m : Migration) (imports : Imports) : BindingStatement :=
  ⟨m.accessor.binding, imports.callee m.accessor⟩

/-- The replacements in all components of a file, with blocked components left alone. -/
def recolorings (m : Migration) (file : SourceFile) (b : BindingStatement) : List Recoloring :=
  (Component.detect file.source m.wrappers b).map fun c =>
    (Recoloring.ofComponent m.palette file.text c).settled file.text b

/-- What is to be done about a file: what becomes of its components, and what they need besides. -/
structure Plan where
  recolorings : List Recoloring
  synthesis : Synthesis
  deriving Repr, Inhabited

namespace Plan

/-- How many literals of the file were dealt with in which way. -/
def literals (p : Plan) : LiteralCounts := p.recolorings.foldl (fun n r => n + r.counts) {}

/-- The edits of the file: the replacements, then the import, then the bindings. -/
def edits (p : Plan) : List Edit := p.recolorings.flatMap (·.edits) ++ p.synthesis.edits

end Plan

def plan (m : Migration) (file : SourceFile) : Plan :=
  let imports := m.imports file
  let recolorings := m.recolorings file (m.binding imports)
  ⟨recolorings, synthesize m.accessor file imports recolorings⟩

/-- The text of a file under all its edits. -/
def edited (m : Migration) (file : SourceFile) : String :=
  Edit.applyAll file.text (m.plan file).edits

/-- The edited text without stale imports, and how many were removed.  A text that cannot be read
any more is not pruned. -/
def pruned (file : SourceFile) (edited : String) : String × Nat :=
  match SourceFile.parse file.path file.source.language edited with
  | .error _ => (edited, 0)
  | .ok s => (Pruning.prune? (References.names file.source) s).getD (edited, 0)

/-- The migration of a file. -/
def transform (m : Migration) (file : SourceFile) : Outcome :=
  let plan := m.plan file
  if plan.literals.replaced == 0 then
    ⟨none, { components := plan.recolorings.length, literals := plan.literals }⟩
  else
    let (text, removed) := pruned file (Edit.applyAll file.text plan.edits)
    { text := if digestChanged file.digest text then some text else none
      counts :=
        { components := plan.recolorings.length
          literals := plan.literals
          importAdded := plan.synthesis.importAdded
          bindingsInserted := plan.synthesis.bindingsInserted
          importsRemoved := removed } }

end Migration

end ThemeMigration
