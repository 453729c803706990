import SelectionLadder.Span
import SelectionLadder.Wire.Basic

/-!
# Positions, ranges and spans on the wire
-/

namespace SelectionLadder

/-! ## Positions -/

/-- The encoded form of a position. -/
def Position.toJson (p : Position) : Json :=
  .object [("line", .nat p.line), ("column", .nat p.column)]

/-- Decodes a position. -/
def Position.ofJson (j : Json) : Except Wire.Error Position := do
  match ← Wire.record [⟨"line", none⟩, ⟨"column", none⟩] j with
  | [line, column] => return ⟨← Wire.natural line, ← Wire.natural column⟩
  | _ => throw .undecodable

/-! ## Ranges -/

/-- The encoded form of a range. -/
def Range.toJson (r : Range) : Json :=
  .object [("from", r.start.toJson), ("to", r.stop.toJson)]

/-- Decodes a range, whose ends have to be in order. -/
def Range.ofJson (j : Json) : Except Wire.Error Range := do
  match ← Wire.record [⟨"from", none⟩, ⟨"to", none⟩] j with
  | [start, stop] =>
    let ends := (← Position.ofJson start, ← Position.ofJson stop)
    (Range.ofEnds ends.1 ends.2).mapError .reversed
  | _ => throw .undecodable

/-! ## Spans -/

/-- The encoded form of a span. -/
def Span.toJson (s : Span) : Json :=
  .object [("tag", .string s.tag), ("from", .nat s.start), ("to", .nat s.stop)]

/-- Decodes a span, whose ends may be in any order. -/
def Span.ofJson (j : Json) : Except Wire.Error Span := do
  match ← Wire.record [⟨"tag", none⟩, ⟨"from", none⟩, ⟨"to", none⟩] j with
  | [tag, start, stop] =>
    return ⟨← Wire.string tag, ← Wire.natural start, ← Wire.natural stop⟩
  | _ => throw .undecodable

end SelectionLadder
