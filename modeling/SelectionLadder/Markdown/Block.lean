import SelectionLadder.Forest
import SelectionLadder.Markdown.Source

/-!
# Blocks

A document is a forest of blocks.  Quotes, lists and list items contain other blocks and stay open
from line to line; a line continues them if its margin has what they ask for.  The blocks that are
open, from the innermost outwards, make the state of reading, together with what has been seen of
empty lines, since these decide whether a list is loose.

The text of a loose list's items is in paragraphs; in a tight list it is not.
-/

namespace SelectionLadder.Markdown

/-- What a unit of a document is. -/
inductive Tag where
  | blockquote
  | bulletList
  | orderedList
  | listItem
  | paragraph
  | heading (level : Nat)
  | codeBlock
  | table
  | tableHead
  | tableRow
  | tableCell
  | emphasis
  | strong
  | strikethrough
  | inlineCode
  | link
  | image
deriving DecidableEq, Repr

/-- The tag as it is reported. -/
def Tag.name : Tag → String
  | blockquote => "Blockquote"
  | bulletList => "BulletList"
  | orderedList => "OrderedList"
  | listItem => "ListItem"
  | paragraph => "Paragraph"
  | heading level => s!"Heading{level}"
  | codeBlock => "CodeBlock"
  | table => "Table"
  | tableHead => "TableHead"
  | tableRow => "TableRow"
  | tableCell => "TableCell"
  | emphasis => "Emphasis"
  | strong => "Strong"
  | strikethrough => "Strikethrough"
  | inlineCode => "InlineCode"
  | link => "Link"
  | image => "Image"

/-- A block.  Text that belongs to its container alone has no tag. -/
structure Block where
  tag : Option Tag
  start : Nat
  stop : Nat
  /-- The text of the block, in which other units may lie. -/
  content : List Located := []
deriving Repr, Inhabited

/-- A block that contains other blocks. -/
inductive Container where
  | quote
  /-- A list whose items have this character in their markers. -/
  | list (mark : Char) (tight : Bool)
  /-- A list item whose content is indented by so many columns. -/
  | item (indent : Nat)
deriving DecidableEq, Repr

namespace Container

/-- The tag of the container.  Lists are numbered where the marker ends in one of two marks. -/
def tag : Container → Tag
  | quote => .blockquote
  | list mark _ => if mark = '.' ∨ mark = ')' then .orderedList else .bulletList
  | item _ => .listItem

/-- Steps over a quote mark and the column after it. -/
def quoteMark? (c : Cursor) : Option Cursor :=
  if c.rest.head? = some '>' then some ((c.advance 1).skip 1).2 else none

/-- Steps over the margin by which a line continues the container. -/
def enter? (container : Container) (c : Cursor) : Option Cursor :=
  match container with
  | quote => quoteMark? (c.skip 3).2
  | list _ _ => some c
  | item indent =>
    let (missing, after) := c.skip indent
    if missing = 0 ∨ after.rest = [] then some after else none

/-- Steps over the margins of as many containers as the line continues, the outermost first;
gives their number. -/
def enterAll : List Container → Cursor → Nat × Cursor
  | [], c => (0, c)
  | container :: rest, c =>
    match container.enter? c with
    | some c => let (count, c) := enterAll rest c; (count + 1, c)
    | none => (0, c)

end Container

/-! ## Reading state -/

/-- A container that may still go on, and the blocks in it so far. -/
structure OpenBlock where
  container : Container
  start : Nat
  inside : Forest Block := .empty

/-- What has been read. -/
structure Document where
  /-- The open containers, the innermost first. -/
  opened : List OpenBlock := []
  /-- The blocks that are complete and in no open container. -/
  finished : Forest Block := .empty
  /-- The place after the marker of a list item that had nothing else on its line. -/
  emptyItem : Option Nat := none
  /-- The last line was empty. -/
  afterBlank : Bool := false
  /-- The labels that have a definition. -/
  labels : List (List Char) := []

/-- The children of items without the tags of paragraphs. -/
def untagParagraphs : Forest Block → Forest Block
  | .empty => .empty
  | .tree b below rest =>
    .tree (if b.tag = some .paragraph then { b with tag := none } else b) below
      (untagParagraphs rest)

/-- The items of a tight list: their own text is in no paragraph. -/
def tighten : Forest Block → Forest Block
  | .empty => .empty
  | .tree b below rest => .tree b (untagParagraphs below) (tighten rest)

namespace OpenBlock

/-- The container is a list. -/
def isList (o : OpenBlock) : Bool :=
  match o.container with
  | .list _ _ => true
  | _ => false

/-- The container is a list item. -/
def isItem (o : OpenBlock) : Bool :=
  match o.container with
  | .item _ => true
  | _ => false

/-- The container is a list in which no empty line has separated anything. -/
def isTightList (o : OpenBlock) : Bool :=
  match o.container with
  | .list _ tight => tight
  | _ => false

/-- A list becomes loose. -/
def loosen (o : OpenBlock) : OpenBlock :=
  match o.container with
  | .list mark _ => { o with container := .list mark false }
  | _ => o

/-- The complete block. -/
def finish (o : OpenBlock) (stop : Nat) : Forest Block :=
  .tree ⟨some o.container.tag, o.start, stop, []⟩
    (if o.isTightList then tighten o.inside else o.inside) .empty

end OpenBlock

namespace Document

/-- The open containers, the outermost first. -/
def containers (d : Document) : List Container := (d.opened.map (·.container)).reverse

/-- Steps over the margin of a line that continues all open containers. -/
def inside? (d : Document) (line : SourceLine) : Option Cursor :=
  let (count, c) := Container.enterAll d.containers line.cursor
  if count = d.opened.length then some c else none

/-- Adds blocks to the innermost open container. -/
def add (d : Document) (blocks : Forest Block) : Document :=
  match d.opened with
  | [] => { d with finished := d.finished ++ blocks }
  | o :: rest => { d with opened := { o with inside := o.inside ++ blocks } :: rest }

/-- Opens a container. -/
def openBlock (d : Document) (container : Container) (start : Nat) : Document :=
  { d with opened := { container, start } :: d.opened }

/-- Closes the innermost open container. -/
def close (d : Document) (stop : Nat) : Document :=
  match d.opened with
  | [] => d
  | o :: rest =>
    let closed := { d with opened := rest }.add (o.finish stop)
    if o.isTightList then { closed with emptyItem := none } else closed

/-- Closes the innermost `count` containers. -/
def closeMany (stop : Nat) : Nat → Document → Document
  | 0, d => d
  | count + 1, d => closeMany stop count (d.close stop)

/-! ## Lists -/

/-- Ends an item that has had nothing since its marker but an empty line. -/
def finishEmptyItem (d : Document) : Document :=
  let closed := match d.emptyItem with
    | some stop =>
      if d.afterBlank && (d.opened.head?.any OpenBlock.isItem) then d.close stop else d
    | none => d
  { closed with emptyItem := none }

/-- Closes a list that is not continued.  If a line was empty, the list makes loose the list that
the innermost open item belongs to. -/
def finishList (d : Document) (stop : Nat) : Document :=
  let d := d.finishEmptyItem
  let d := if d.opened.head?.any OpenBlock.isList then d.close stop else d
  if d.afterBlank then
    { d with
      afterBlank := false
      opened := match d.opened with
        | item :: list :: rest => item :: list.loosen :: rest
        | few => few }
  else d

/-- Continues the open list, which becomes loose if a line was empty, or opens a new one if there
is none or it has other markers. -/
def continueList (d : Document) (start : Nat) (mark : Char) : Document :=
  let d := d.finishEmptyItem
  let fresh (d : Document) : Document :=
    { d.openBlock (.list mark true) start with afterBlank := false }
  match d.opened with
  | [] => fresh d
  | o :: rest =>
    match o.container with
    | .list openMark _ =>
      if openMark = mark then
        if d.afterBlank then { d with opened := o.loosen :: rest, afterBlank := false } else d
      else fresh (d.finishList start)
    | _ => fresh (d.finishList start)

/-- Takes note of an empty line.  It separates nothing directly inside a quote; the content of an
item that has none so far may stand at any column after it. -/
def meetBlank (d : Document) : Document :=
  match d.opened with
  | [] => { d with afterBlank := true }
  | o :: rest =>
    match o.container with
    | .quote => d
    | .item _ =>
      if d.emptyItem.isSome then
        { d with afterBlank := true, opened := { o with container := .item 0 } :: rest }
      else { d with afterBlank := true }
    | .list _ _ => { d with afterBlank := true }

end Document

end SelectionLadder.Markdown
