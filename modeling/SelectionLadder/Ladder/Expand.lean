import SelectionLadder.Ladder.Decision
import SelectionLadder.Ladder.Snapshot

/-!
# Expanding

The decision for the next larger selection.  Without an outline the rungs are word, line,
paragraph and document; with one they are word, the nodes around the origin, the union of the
blocks and the document.
-/

namespace SelectionLadder.Snapshot

/-- From a caret: the first unit of the text that is not itself a caret. -/
def expandCaret (s : Snapshot) : Decision :=
  if ¬ s.word.IsEmpty then .selectWord s.word
  else if ¬ s.line.IsEmpty then .selectLine s.line
  else if ¬ s.paragraph.IsEmpty then .selectParagraph s.paragraph
  else .selectDocument s.document

/-- From a part of one line: the first unit of the text that is larger.  A paragraph that is
already selected is not selected again. -/
def expandWithinLine (s : Snapshot) : Decision :=
  if s.word.StrictlyContains s.selection then .selectWord s.word
  else if s.line.StrictlyContains s.selection then .selectLine s.line
  else if s.paragraph = s.selection then .selectDocument s.document
  else .selectParagraph s.paragraph

/-- From several lines: all of the paragraphs at both ends, or else the document. -/
def expandLines (s : Snapshot) : Decision :=
  if s.paragraphUnion.StrictlyContains s.selection then .selectUnion s.paragraphUnion
  else .selectDocument s.document

/-- The next larger selection by the units of the text. -/
def expandTextual (s : Snapshot) : Decision :=
  if s.selection.IsEmpty then s.expandCaret
  else if s.selection.IsSingleLine then s.expandWithinLine
  else s.expandLines

/-- From a caret by the outline: the word, or else the deepest node that is not a caret. -/
def expandCaretAmong (s : Snapshot) (around : Surroundings) : Decision :=
  if ¬ s.word.IsEmpty then .selectWord s.word
  else match around.chain.find? fun r => ¬ r.IsEmpty with
    | some r => .selectNode r
    | none => .selectDocument s.document

/-- From a selection by the outline: the union of the blocks if it is larger, or else the
document. -/
def expandToBlocks (s : Snapshot) (around : Surroundings) : Decision :=
  match around.blocks with
  | some r => if r.StrictlyContains s.selection then .selectUnion r else .selectDocument s.document
  | none => .selectDocument s.document

/-- The next larger selection by the outline: the word, the deepest node that is larger, the
union of the blocks, or the document. -/
def expandStructural (s : Snapshot) (around : Surroundings) : Decision :=
  if s.selection.IsEmpty then s.expandCaretAmong around
  else if s.word.StrictlyContains s.selection then .selectWord s.word
  else match around.chain.find? fun r => r.StrictlyContains s.selection with
    | some r => .selectNode r
    | none => s.expandToBlocks around

/-- The next larger selection. -/
def expand (s : Snapshot) : Decision :=
  match s.surroundings with
  | some around => s.expandStructural around
  | none => s.expandTextual

end SelectionLadder.Snapshot
