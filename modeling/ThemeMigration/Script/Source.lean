import ThemeMigration.Script.Grammar.Modules

/-!
# Sources

A source is a text with its tree.  The tree is checked against the text when the source is made,
so every source comes with a well-formed tree, and a text that the grammar does not accept has no
source.
-/

namespace ThemeMigration.Script

structure Source where
  language : Language
  text : String
  tree : SyntaxTree
  wellFormed : tree.wellFormed text = true

namespace Source

/-- The source of a text, or the line on which the first statement stands that the grammar of the
language does not accept. -/
def parse (language : Language) (text : String) : Except Nat Source :=
  match Grammar.read language text with
  | .error offset => .error ((Text.slice text 0 offset).toList.count '\n' + 1)
  | .ok (bare, comments) =>
    let tree := bare.weave comments
    if h : tree.wellFormed text = true then .ok ⟨language, text, tree, h⟩ else .error 1

/-- The statements of a source, comments among them. -/
def statements (s : Source) : List SyntaxTree := s.tree.named

/-- The text that a node of the source covers. -/
def textOf (s : Source) (t : SyntaxTree) : String := t.text s.text

theorem text_of_parse {language : Language} {text : String} {s : Source}
    (h : parse language text = .ok s) : s.text = text ∧ s.language = language := by
  simp only [parse] at h
  split at h
  · cases h
  · split at h
    · cases h
      exact ⟨rfl, rfl⟩
    · cases h

end Source

end ThemeMigration.Script
