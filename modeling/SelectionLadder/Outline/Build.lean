import SelectionLadder.Outline.Basic
import SelectionLadder.Text.Basic

/-!
# Building outlines

The outline of a document from the spans of a parser.  Spans with ignored tags are dropped, which
leaves their text to the units around them; the other spans are put in order, completed to a
forest of parts that covers the document, and placed.
-/

namespace SelectionLadder

/-- The prefixes of tags that are ignored unless settings say otherwise. -/
def defaultIgnored : List String := ["formatting", "hmd-list-indent"]

/-- The tag starts with one of the prefixes; the empty prefix does not count. -/
def Ignores (ignored : List String) (tag : String) : Prop :=
  ∃ p ∈ ignored, p ≠ "" ∧ p.toList <+: tag.toList

instance (ignored : List String) (tag : String) : Decidable (Ignores ignored tag) :=
  inferInstanceAs (Decidable (∃ p ∈ ignored, _))

/-- The spans that are not ignored, in order of their starts; spans that start together keep
their order, so a unit stays before the units inside it. -/
def keptSpans (ignored : List String) (spans : List Span) : List Span :=
  (spans.filter fun s => ¬ Ignores ignored s.tag).mergeSort fun a b => a.start ≤ b.start

/-- The forest of parts of a document, and its root. -/
def partTree (length : Nat) (spans : List Span) : Part × Forest Part :=
  rooted length (.ofParts (cover length (spans.map Span.part)))

namespace Outline

/-- The outline of a document of this length with these parts. -/
def ofPartTree (length : Nat) (tree : Part × Forest Part) : Outline :=
  ofTree length ⟨tree.1, 0, length⟩ ((frame tree.1 tree.2 tree.2.framed).place 0 length)

/-- Builds the outline of a text.  A span that is reversed or stops after the text does is an
error, also when it is ignored; the first one in the list is reported. -/
def build (ignored : List String) (spans : List Span) (text : List Char) :
    Except SpanError Outline :=
  match spans.findSome? (·.fault? text.length) with
  | some e => .error e
  | none => .ok (ofPartTree text.length (partTree text.length (keptSpans ignored spans)))

end Outline

end SelectionLadder
