import ThemeMigration.Digest
import ThemeMigration.Error
import ThemeMigration.Script.Source

/-!
# Source files

A script with the path it was read from.  The extension of the path decides the language.
-/

namespace ThemeMigration

open Script

structure SourceFile where
  path : Path
  source : Source

namespace SourceFile

/-- The source of a text in a language, or the error of the file it belongs to. -/
def parse (path : Path) (language : Language) (text : String) : Except SourceError Source :=
  match Source.parse language text with
  | .ok s => .ok s
  | .error line => .error (.syntaxErrors path 1 line)

/-- The source file of a text. -/
def ofText (path : Path) (text : String) : Except SourceError SourceFile :=
  match Language.ofExtension? path.extension? with
  | none => .error (.unsupportedLanguage (path.extension?.getD ""))
  | some language => (parse path language text).map fun s => ⟨path, s⟩

def text (f : SourceFile) : String := f.source.text

def digest (f : SourceFile) : UInt64 := ThemeMigration.digest f.text.toUTF8

end SourceFile

end ThemeMigration
