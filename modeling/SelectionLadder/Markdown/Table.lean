import SelectionLadder.Markdown.Block
import SelectionLadder.Unicode.Punctuation

/-!
# Table rows

A row is cut into cells at its pipes.  All rows of a table have as many cells as its head has
columns: cells are added to short rows and dropped from long ones.
-/

namespace SelectionLadder.Markdown

/-- The text of a cell up to a pipe that no backslash escapes, and the row from the pipe on. -/
def cutCell : List Located → List Located × List Located
  | [] => ([], [])
  | [c] => if c.char = '|' then ([], [c]) else ([c], [])
  | c :: d :: rest =>
    if c.char = '|' then ([], c :: d :: rest)
    else if c.char = '\\' ∧ Unicode.isAsciiPunctuation d.char then
      let (cell, after) := cutCell rest
      (c :: d :: cell, after)
    else
      let (cell, after) := cutCell (d :: rest)
      (c :: cell, after)

/-- At most `count` cells of a row whose text has this stop.  A cell starts after a pipe and goes
up to the next one; after the last pipe there is no cell unless there is text. -/
def cutCells (textStop : Nat) : Nat → List Located → List Block
  | 0, _ => []
  | count + 1, cs =>
    let cell := if (cs.head?.map (·.char)) = some '|' then cs.drop 1 else cs
    let inner := cell.dropWhile fun c => isBlank c.char
    if inner = [] then []
    else
      let (content, rest) := cutCell inner
      ⟨some .tableCell, headOffset textStop cell, headOffset textStop rest, content⟩ ::
        cutCells textStop count rest

/-- Blocks side by side, without others in them. -/
def sideBySide : List Block → Forest Block
  | [] => .empty
  | b :: rest => .tree b .empty (sideBySide rest)

/-- A row with this many columns on a line that ends at `stop`, unless it has no cell. -/
def tableRow? (tag : Tag) (columns : Nat) (c : Cursor) (line : SourceLine) :
    Option (Forest Block) :=
  let cells := cutCells line.textStop (c.rest.length + 1) c.located
  if cells = [] then none
  else
    let filler : Block := ⟨some .tableCell, line.stop, line.stop, []⟩
    let all := cells.take columns ++ List.replicate (columns - cells.length) filler
    some (.tree ⟨some tag, c.offset, line.stop, []⟩ (sideBySide all) .empty)

end SelectionLadder.Markdown
