import SelectionLadder.Engine.Basic

/-!
# Lines and chunks

A source of spans for any text: the document, its lines, and the chunks of each line, which are
the longest stretches without a blank.
-/

namespace SelectionLadder

/-- The chunks of characters of which the first has this offset. -/
def chunkSpans (offset : Nat) (line : Line) : List Span :=
  let runs := line.splitBy fun a b => (a == ' ') == (b == ' ')
  let step (found : List Span × Nat) (run : List Char) :=
    let stop := found.2 + run.length
    (if run.contains ' ' then found.1 else found.1 ++ [⟨"Chunk", found.2, stop⟩], stop)
  (runs.foldl step ([], offset)).1

/-- The spans of lines of which the first starts at this offset. -/
def lineSpans (offset : Nat) : List Line → List Span
  | [] => []
  | line :: rest =>
    let stop := offset + line.length
    ⟨"Line", offset, stop⟩ :: chunkSpans offset line ++ lineSpans (stop + 1) rest

/-- The source that finds lines and chunks. -/
def SpanSource.lines : SpanSource := fun cs =>
  ⟨"Document", 0, cs.length⟩ :: lineSpans 0 (splitLines cs)

end SelectionLadder
