import ThemeMigration.Accessor
import ThemeMigration.BindingStatement
import ThemeMigration.Collected
import ThemeMigration.ColorProperties
import ThemeMigration.CommandLine
import ThemeMigration.Component.Basic
import ThemeMigration.Component.Binding
import ThemeMigration.Component.Literals
import ThemeMigration.Config.Basic
import ThemeMigration.Config.Load
import ThemeMigration.Config.Toml
import ThemeMigration.Digest
import ThemeMigration.Discovery
import ThemeMigration.Edits
import ThemeMigration.Error
import ThemeMigration.FileTree
import ThemeMigration.Glob.Basic
import ThemeMigration.Glob.Lexeme
import ThemeMigration.Glob.Match
import ThemeMigration.Glob.Reader
import ThemeMigration.IgnoreRules
import ThemeMigration.Imports
import ThemeMigration.Json.Comments
import ThemeMigration.Json.Reader
import ThemeMigration.Json.Token
import ThemeMigration.Json.Value
import ThemeMigration.KeyTable
import ThemeMigration.Main
import ThemeMigration.Migration
import ThemeMigration.Path.Basic
import ThemeMigration.Path.Normal
import ThemeMigration.Proofs.Edits.Landing
import ThemeMigration.Proofs.Edits.Order
import ThemeMigration.Proofs.Text.Slice
import ThemeMigration.Pruning
import ThemeMigration.References
import ThemeMigration.Report
import ThemeMigration.Run
import ThemeMigration.Script.Binding
import ThemeMigration.Script.Cursor
import ThemeMigration.Script.Grammar.Expressions
import ThemeMigration.Script.Grammar.Functions
import ThemeMigration.Script.Grammar.Markup
import ThemeMigration.Script.Grammar.Modules
import ThemeMigration.Script.Grammar.Patterns
import ThemeMigration.Script.Grammar.Rules
import ThemeMigration.Script.Grammar.Statements
import ThemeMigration.Script.Grammar.Types
import ThemeMigration.Script.Kind
import ThemeMigration.Script.Language
import ThemeMigration.Script.Literal
import ThemeMigration.Script.Semicolon
import ThemeMigration.Script.Source
import ThemeMigration.Script.SyntaxTree
import ThemeMigration.Script.Token
import ThemeMigration.SourceFile
import ThemeMigration.Text.Blank
import ThemeMigration.Text.Slice
import ThemeMigration.Text.Uppercase
import ThemeMigration.TokenTable
import ThemeMigration.Toml.Lexeme
import ThemeMigration.Toml.Reader
import ThemeMigration.Toml.Value
import ThemeMigration.Toml.Writer
import ThemeMigration.TsConfig.Basic
import ThemeMigration.TsConfig.Load
import ThemeMigration.Proofs.Component.Literals
import ThemeMigration.Proofs.Component.Selectivity
import ThemeMigration.Proofs.Component.Detection
import ThemeMigration.Proofs.Component.Insertion
import ThemeMigration.Proofs.Imports.Insertion
import ThemeMigration.Proofs.Component.Counts
import ThemeMigration.Proofs.Migration.Plan
import ThemeMigration.Proofs.Migration.Disjoint
import ThemeMigration.Proofs.Migration.Frame
import ThemeMigration.Proofs.Migration.Regrowth
import ThemeMigration.Proofs.Component.Alike
import ThemeMigration.Proofs.Migration.Untouched
import ThemeMigration.Proofs.Imports.Locals
import ThemeMigration.Proofs.Migration.Reimport
import ThemeMigration.Proofs.Migration.Unpruned
import ThemeMigration.Proofs.Migration.Redetection
import ThemeMigration.Proofs.Migration.ChangedBody
import ThemeMigration.Proofs.Migration.Idempotence
import ThemeMigration.Proofs.Script.Scopes
import ThemeMigration.Proofs.Component.Resolution
import ThemeMigration.Proofs.Component.Precedence
import ThemeMigration.Proofs.Migration.BoundBeforeUse
import ThemeMigration.Proofs.Migration.Scoping
import ThemeMigration.Proofs.Migration.BodyNames
import ThemeMigration.Proofs.Path.Order
import ThemeMigration.Proofs.Report.Merging
import ThemeMigration.Proofs.Run.Schedule
import ThemeMigration.Proofs.Migration.BindingOnce
import ThemeMigration.Proofs.Imports.Alias
import ThemeMigration.Proofs.Imports.AttachedComments
import ThemeMigration.Proofs.Imports.ModuleScope
import ThemeMigration.Proofs.Imports.Growth
import ThemeMigration.Proofs.Imports.Singularity
import ThemeMigration.Proofs.Path.Names
import ThemeMigration.Proofs.FileTree.Places
import ThemeMigration.Proofs.Discovery.Places
import ThemeMigration.Proofs.Run.Course
import ThemeMigration.Proofs.Run.Visits
import ThemeMigration.Proofs.Run.Isolation
import ThemeMigration.Proofs.Report.Balance
import ThemeMigration.Proofs.Run.Consistency
import ThemeMigration.Proofs.Run.Rehearsal
import ThemeMigration.Proofs.Run.Acceptance
import ThemeMigration.Proofs.CommandLine.Exit
import ThemeMigration.Proofs.Migration.Accounting
import ThemeMigration.Proofs.Script.Gaps
import ThemeMigration.Proofs.Component.ScopeNames
import ThemeMigration.Proofs.Imports.Bindings
import ThemeMigration.Proofs.Migration.ImportsKept
import ThemeMigration.Proofs.Script.Moving
import ThemeMigration.Proofs.Pruning.Form
import ThemeMigration.Proofs.Pruning.Narrowing
import ThemeMigration.Proofs.Pruning.Exactness
import ThemeMigration.Proofs.TsConfig.Hierarchy
import ThemeMigration.Proofs.TsConfig.Inheritance
import ThemeMigration.Proofs.TsConfig.Chains
import ThemeMigration.Proofs.Config.Tables
import ThemeMigration.Proofs.Config.Validity
import ThemeMigration.Proofs.Config.Layers
import ThemeMigration.Proofs.Json.Spelling
import ThemeMigration.Proofs.Json.Layout
import ThemeMigration.Proofs.Json.Reading
import ThemeMigration.Proofs.Json.Rendering
import ThemeMigration.Proofs.Json.Stripping
import ThemeMigration.Proofs.Toml.Strings
import ThemeMigration.Proofs.Toml.Words
import ThemeMigration.Proofs.Toml.Documents
import ThemeMigration.Proofs.Toml.Building
import ThemeMigration.Proofs.Config.Document
import ThemeMigration.Proofs.Config.RoundTrip
import ThemeMigration.Proofs.Edits.Stepwise
import ThemeMigration.Proofs.Text.Bytes
import ThemeMigration.Proofs.Text.Trimming
import ThemeMigration.Proofs.TokenTable.Overriding
import ThemeMigration.Proofs.FileTree.Reordering
import ThemeMigration.Proofs.Discovery.Selection
import ThemeMigration.Proofs.Script.Comments
import ThemeMigration.Proofs.Component.Comments
import ThemeMigration.Proofs.Edits.Conflicts
import ThemeMigration.Proofs.Imports.Head
import ThemeMigration.Proofs.Component.Candidates
import ThemeMigration.Proofs.Text.Lines
import ThemeMigration.Proofs.Component.Placement
import ThemeMigration.Proofs.Path.Normal
import ThemeMigration.Proofs.Path.Keys
import ThemeMigration.Proofs.TsConfig.Identity
import ThemeMigration.Proofs.TsConfig.Spellings
import ThemeMigration.Proofs.Pruning.Rebuilding
import ThemeMigration.Proofs.TsConfig.PathMap
import ThemeMigration.Proofs.Json.Lines
import ThemeMigration.Proofs.Migration.Overrides
import ThemeMigration.Proofs.Migration.ValidNames
import ThemeMigration.Proofs.Migration.DefaultTokens
