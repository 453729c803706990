import SelectionLadder.Ladder.Decision
import SelectionLadder.Ladder.Snapshot

/-!
# Shrinking

The decision for the next smaller selection.  It selects only text that is selected already, and
restores the cursor where nothing smaller than the selection but larger than a caret is left.
-/

namespace SelectionLadder.Snapshot

/-- The part of a range that is selected, or a caret at the origin when there is none. -/
def clip (s : Snapshot) (r : Range) : Range :=
  (r.intersection s.selection).getD (.caret s.origin)

/-- From a part of one line: to the cursor from inside the word, to the word from elsewhere on
the line of the origin. -/
def shrinkWithinLine (s : Snapshot) : Decision :=
  if s.word.Contains s.selection then .restoreCursor s.origin
  else if s.line.Contains s.selection then .selectWord (s.clip s.word)
  else .noOp

/-- From several lines: to the line from inside the paragraph, or else to the paragraph. -/
def shrinkLines (s : Snapshot) : Decision :=
  if s.paragraph.Contains s.selection then .selectLine (s.clip s.line)
  else .selectParagraph (s.clip s.paragraph)

/-- The next smaller selection by the units of the text. -/
def shrinkTextual (s : Snapshot) : Decision :=
  if s.selection.IsEmpty then .noOp
  else if s.selection.IsSingleLine then s.shrinkWithinLine
  else s.shrinkLines

/-- The part of a range that is selected, if that is less than the selection. -/
def innerPart? (s : Snapshot) (r : Range) : Option Range :=
  (r.intersection s.selection).filter fun part => s.selection.StrictlyContains part

/-- The selected part of the topmost node for which that is less than the selection.  Nodes that
cut through the word are passed over, as they are on the way up. -/
def innerNode? (s : Snapshot) (around : Surroundings) : Option Range :=
  (around.chain.reverse.filter fun r => ¬ r.Crosses s.word).findSome? s.innerPart?

/-- The next smaller selection by the outline: the selected part of a node, or of the word if
that is the larger one, or the cursor. -/
def shrinkStructural (s : Snapshot) (around : Surroundings) : Decision :=
  if s.selection.IsEmpty then .noOp
  else if s.word.Contains s.selection then .restoreCursor s.origin
  else match s.innerNode? around, s.innerPart? s.word with
    | some node, some word =>
      if word.StrictlyContains node then .selectWord word else .selectNode node
    | some node, none => .selectNode node
    | none, some word => .selectWord word
    | none, none => .restoreCursor s.origin

/-- The next smaller selection, before carets are told apart. -/
def shrinkTarget (s : Snapshot) : Decision :=
  match s.surroundings with
  | some around => s.shrinkStructural around
  | none => s.shrinkTextual

/-- The next smaller selection.  What would select nothing restores the cursor. -/
def shrink (s : Snapshot) : Decision :=
  match s.shrinkTarget.target with
  | some r => if r.IsEmpty then .restoreCursor s.origin else s.shrinkTarget
  | none => s.shrinkTarget

end SelectionLadder.Snapshot
