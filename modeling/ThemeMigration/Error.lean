import ThemeMigration.Path.Basic

/-!
# Errors

One type of error for each part of a run, and one that joins them.  An error has a stable code
and a message; its coded form shows both.  Errors of the configuration and of discovery end a run,
the others belong to one file and are collected beside the report.
-/

namespace ThemeMigration

/-- A message behind its code. -/
def coded (code message : String) : String := "[" ++ code ++ "] " ++ message

inductive ConfigError where
  | fileNotFound (path : String)
  /-- A configuration text or a `tsconfig` that is malformed. -/
  | malformed (path message : String)
  | validationFailed (field message : String)
  | invalidValue (field message : String)
  deriving DecidableEq, Repr, Inhabited

namespace ConfigError

def code : ConfigError → String := fun _ => "CONFIG_ERROR"

def message : ConfigError → String
  | fileNotFound path => s!"Config file not found: {path}"
  | malformed path detail => s!"Config parse error in {path}: {detail}"
  | validationFailed field detail => s!"Config validation failed for {field}: {detail}"
  | invalidValue field detail => s!"Invalid config value for {field}: {detail}"

end ConfigError

inductive ScanError where
  | invalidPattern (pattern message : String)
  | rootNotFound (path : Path)
  | walk (path : Path) (message : String)
  | cancelled
  deriving DecidableEq, Repr, Inhabited

namespace ScanError

def code : ScanError → String
  | invalidPattern .. => "INVALID_PATTERN"
  | cancelled => "CANCELLED"
  | _ => "SCAN_ERROR"

def message : ScanError → String
  | invalidPattern pattern detail => s!"Invalid glob pattern {pattern}: {detail}"
  | rootNotFound path => s!"Scan root does not exist: {path.text}"
  | walk path detail => s!"Walk error under {path.text}: {detail}"
  | cancelled => "Scan cancelled"

end ScanError

/-- Why a source file cannot be migrated. -/
inductive SourceError where
  | unreadable (path : Path) (cause : String)
  | notUtf8 (path : Path)
  | unsupportedLanguage (extension : String)
  | parserFailed (path : Path) (message : String)
  | syntaxErrors (path : Path) (count firstLine : Nat)
  deriving DecidableEq, Repr, Inhabited

namespace SourceError

def code : SourceError → String
  | unsupportedLanguage _ => "UNSUPPORTED_LANGUAGE"
  | _ => "PARSE_ERROR"

def message : SourceError → String
  | unreadable path cause => s!"IO error reading {path.text}: {cause}"
  | notUtf8 path => s!"File is not valid UTF-8: {path.text}"
  | unsupportedLanguage ext => s!"Unsupported language: {ext}"
  | parserFailed path detail => s!"Tree-sitter error parsing {path.text}: {detail}"
  | syntaxErrors path count line =>
    s!"{count} syntax error(s) in {path.text}, first at line {line}"

end SourceError

/-- A file that could not be written. -/
structure WriteError where
  path : Path
  cause : String
  deriving DecidableEq, Repr, Inhabited

namespace WriteError

def code (_ : WriteError) : String := "WRITE_ERROR"

def message (e : WriteError) : String := s!"IO error writing {e.path.text}: {e.cause}"

end WriteError

inductive RunError where
  | config (error : ConfigError)
  | scan (error : ScanError)
  | source (error : SourceError)
  | write (error : WriteError)
  | cancelled
  deriving DecidableEq, Repr, Inhabited

namespace RunError

def code : RunError → String
  | config e => e.code
  | scan e => e.code
  | source e => e.code
  | write e => e.code
  | cancelled => "CANCELLED"

def message : RunError → String
  | config e => "Configuration error: " ++ e.message
  | scan e => "Scan error: " ++ e.message
  | source e => "Parse error: " ++ e.message
  | write e => "Write error: " ++ e.message
  | cancelled => "Pipeline cancelled"

/-- Whether the error ends the run. -/
def isFatal : RunError → Bool
  | config _ | scan _ => true
  | _ => false

end RunError

end ThemeMigration
