/-
Spans, edits and documents: the half-open ranges of a text that edits replace.
-/
namespace Amend

/-- The half-open range of `length` characters from `start`. -/
structure Span where
  start : Int
  length : Int
  deriving DecidableEq, Repr

namespace Span

/-- The first offset after the span. -/
def stop (span : Span) : Int :=
  span.start + span.length

/-- Does the span lie within a text of this size? -/
def fits (span : Span) (size : Int) : Bool :=
  0 ≤ span.start && 0 ≤ span.length && span.stop ≤ size

end Span

/-- Replace the characters of `span` by `text`. -/
structure Edit where
  span : Span
  text : String
  deriving DecidableEq, Repr

namespace Edit

/-- Replace `length` characters from `start`. -/
def replace (start length : Int) (text : String) : Edit :=
  ⟨⟨start, length⟩, text⟩

/-- Put a text in at an offset. -/
def insert (start : Int) (text : String) : Edit :=
  replace start 0 text

/-- Take `length` characters out. -/
def delete (start length : Int) : Edit :=
  replace start length ""

end Edit

/-- The text of a file as it was when it was first read. -/
structure Document where
  path : String
  text : String
  deriving DecidableEq, Repr

/-- The number of characters of a document. -/
def Document.size (document : Document) : Nat :=
  document.text.length

end Amend
