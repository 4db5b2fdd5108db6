import ThemeMigration.Text.Slice

/-!
# Edits

An edit replaces a span of a text; an empty span inserts.  All edits of a file refer to the text
it was read as and are applied in one pass, in the order of their spans, so whatever lies outside
the spans stays byte for byte.  Edits of equal spans keep the order they were recorded in.  An
edit that begins before the end of an applied one, or ends beyond the text, is dropped.
-/

namespace ThemeMigration

structure Edit where
  span : Span
  replacement : String
  deriving DecidableEq, Repr, Inhabited

namespace Edit

def replace (span : Span) (replacement : String) : Edit := ⟨span, replacement⟩

def insert (offset : Nat) (replacement : String) : Edit := ⟨.point offset, replacement⟩

/-- The order of application: by the start of the span, then by its end. -/
def precedes (a b : Edit) : Bool :=
  a.span.start < b.span.start || (a.span.start == b.span.start && a.span.stop ≤ b.span.stop)

/-- An edit put in front of the first of the sorted edits that it precedes. -/
def insertSorted (e : Edit) : List Edit → List Edit
  | [] => [e]
  | f :: fs => if e.precedes f then e :: f :: fs else f :: insertSorted e fs

/-- The edits in the order of application. -/
def sorted (edits : List Edit) : List Edit := edits.foldr insertSorted []

/-- Whether an edit can be applied behind the given offset of a text of the given size. -/
def fits (size cursor : Nat) (e : Edit) : Bool := cursor ≤ e.span.start && e.span.stop ≤ size

/-- The text from an offset on under sorted edits. -/
def applyFrom (text : String) (cursor : Nat) : List Edit → String
  | [] => Text.sliceFrom text cursor
  | e :: es =>
    if e.fits text.utf8ByteSize cursor then
      Text.slice text cursor e.span.start ++ e.replacement ++ applyFrom text e.span.stop es
    else applyFrom text cursor es

/-- The text with the edits applied. -/
def applyAll (text : String) (edits : List Edit) : String := applyFrom text 0 (sorted edits)

/-- The edits that take effect, in the order of application. -/
def acceptedFrom (size cursor : Nat) : List Edit → List Edit
  | [] => []
  | e :: es =>
    if e.fits size cursor then e :: acceptedFrom size e.span.stop es
    else acceptedFrom size cursor es

theorem applyFrom_acceptedFrom (text : String) (cursor : Nat) (edits : List Edit) :
    applyFrom text cursor (acceptedFrom text.utf8ByteSize cursor edits) =
      applyFrom text cursor edits := by
  induction edits generalizing cursor with
  | nil => rfl
  | cons e es ih =>
    by_cases h : e.fits text.utf8ByteSize cursor = true
    · simp only [acceptedFrom, h, if_true, applyFrom, ih]
    · simp only [acceptedFrom, h, Bool.false_eq_true, if_false, applyFrom, ih]

end Edit

end ThemeMigration
