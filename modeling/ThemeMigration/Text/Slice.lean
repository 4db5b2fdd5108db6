/-!
# Byte offsets in a text

Positions in a source are byte offsets of its UTF-8 form, and a span is a half-open interval of
them.  A slice between two character boundaries is the text between them; `lineIndent` reads the
blanks that open the line of an offset.
-/

namespace ThemeMigration

/-- The bytes from `start` up to, and without, `stop`. -/
structure Span where
  start : Nat
  stop : Nat
  deriving DecidableEq, Repr, Inhabited

namespace Span

def size (s : Span) : Nat := s.stop - s.start

/-- The empty interval at an offset. -/
def point (offset : Nat) : Span := ⟨offset, offset⟩

/-- `inner` lies between the two ends of `outer`. -/
def Contains (outer inner : Span) : Prop := outer.start ≤ inner.start ∧ inner.stop ≤ outer.stop

instance (outer inner : Span) : Decidable (outer.Contains inner) :=
  inferInstanceAs (Decidable (_ ∧ _))

theorem Contains.refl (s : Span) : s.Contains s := ⟨Nat.le_refl _, Nat.le_refl _⟩

theorem Contains.trans {a b c : Span} (h : a.Contains b) (k : b.Contains c) : a.Contains c :=
  ⟨Nat.le_trans h.1 k.1, Nat.le_trans k.2 h.2⟩

end Span

namespace Text

/-- The text between two byte offsets. -/
def slice (s : String) (start stop : Nat) : String := String.Pos.Raw.extract s ⟨start⟩ ⟨stop⟩

/-- The text from a byte offset to the end. -/
def sliceFrom (s : String) (start : Nat) : String := slice s start s.utf8ByteSize

/-- The text that a span covers. -/
def sliceSpan (s : String) (span : Span) : String := slice s span.start span.stop

/-- Whether an offset stands between two characters, or at one of the two ends. -/
def isBoundary (s : String) (offset : Nat) : Bool := String.Pos.Raw.isValid s ⟨offset⟩

/-- The number of bytes of characters. -/
def byteLength (cs : List Char) : Nat := cs.foldr (fun c n => c.utf8Size + n) 0

@[simp] theorem byteLength_nil : byteLength [] = 0 := rfl

@[simp] theorem byteLength_cons (c : Char) (cs : List Char) :
    byteLength (c :: cs) = c.utf8Size + byteLength cs := by
  simp [byteLength]

@[simp] theorem byteLength_append (cs ds : List Char) :
    byteLength (cs ++ ds) = byteLength cs + byteLength ds := by
  induction cs with
  | nil => simp
  | cons c cs ih => simp [ih, Nat.add_assoc]

/-- The offset of the first character of the line that `offset` lies on. -/
def lineStart (s : String) (offset : Nat) : Nat :=
  offset - byteLength ((slice s 0 offset).toList.reverse.takeWhile (· != '\n'))

/-- The spaces and tabs that open the line of an offset. -/
def lineIndent (s : String) (offset : Nat) : String :=
  String.ofList ((sliceFrom s (lineStart s offset)).toList.takeWhile fun c => c == ' ' || c == '\t')

end Text

end ThemeMigration
