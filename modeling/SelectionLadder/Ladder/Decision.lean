import SelectionLadder.Range

/-!
# Decisions

What a command selects next, and as which kind of unit.
-/

namespace SelectionLadder

/-- The outcome of one command. -/
inductive Decision where
  | selectWord (r : Range)
  | selectLine (r : Range)
  | selectParagraph (r : Range)
  /-- The paragraphs or blocks that hold the two ends of the selection. -/
  | selectUnion (r : Range)
  /-- A node of the outline. -/
  | selectNode (r : Range)
  | selectDocument (r : Range)
  /-- Back to a caret at the origin, which is forgotten. -/
  | restoreCursor (p : Position)
  | noOp
deriving DecidableEq

namespace Decision

/-- The decision as it is shown. -/
def name : Decision → String
  | selectWord _ => "select-word"
  | selectLine _ => "select-line"
  | selectParagraph _ => "select-paragraph"
  | selectUnion _ => "select-union"
  | selectNode _ => "select-node"
  | selectDocument _ => "select-document"
  | restoreCursor _ => "restore-cursor"
  | noOp => "no-op"

/-- The range that the decision selects, a caret where it restores the cursor. -/
def target : Decision → Option Range
  | selectWord r | selectLine r | selectParagraph r | selectUnion r | selectNode r
  | selectDocument r => some r
  | restoreCursor p => some (.caret p)
  | noOp => none

end Decision

end SelectionLadder
