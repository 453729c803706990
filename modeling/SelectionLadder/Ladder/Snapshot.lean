import SelectionLadder.Range

/-!
# Snapshots

Everything that a decision depends on: the selection, the origin, and the units of the text around
them.  A snapshot is taken once for each command.
-/

namespace SelectionLadder

/-- The nodes of an outline around the origin and the selection. -/
structure Surroundings where
  /-- The nodes that hold the origin, from the deepest upwards and without the root. -/
  chain : List Range
  /-- From the block at the first selected character to the block at the last one, where blocks
  are the children of the root. -/
  blocks : Option Range
deriving DecidableEq

/-- What a command sees. -/
structure Snapshot where
  selection : Range
  origin : Position
  /-- The word at the origin, or a caret there. -/
  word : Range
  /-- The line of the origin. -/
  line : Range
  /-- The paragraph of the origin. -/
  paragraph : Range
  /-- From the paragraph at the start of the selection to the one at its stop. -/
  paragraphUnion : Range
  document : Range
  /-- Present when there is an outline to go by. -/
  surroundings : Option Surroundings
deriving DecidableEq

end SelectionLadder
