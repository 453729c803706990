/-!
# Spans

A structural parser reports the units of a document as a flat list of spans, a unit before the
units inside it.  Offsets count characters.
-/

namespace SelectionLadder

/-- A unit that a parser has found, under the parser's name for it. -/
structure Span where
  tag : String
  start : Nat
  stop : Nat
deriving DecidableEq, Repr, Inhabited

/-- Why a span does not fit a document. -/
inductive SpanError where
  /-- The span stops before it starts. -/
  | reversed (span : Span)
  /-- The span stops after the document does, which has this length. -/
  | outOfBounds (span : Span) (length : Nat)
deriving DecidableEq

/-- What the error says. -/
def SpanError.message : SpanError → String
  | reversed s => s!"Invalid span '{s.tag}': start {s.start} is after end {s.stop}"
  | outOfBounds s length =>
    s!"Span '{s.tag}' ends at {s.stop}, past the end of the text ({length})"

/-- The fault of a span in a document of this length, if it has one. -/
def Span.fault? (s : Span) (length : Nat) : Option SpanError :=
  if s.start > s.stop then some (.reversed s)
  else if s.stop > length then some (.outOfBounds s length)
  else none

end SelectionLadder
