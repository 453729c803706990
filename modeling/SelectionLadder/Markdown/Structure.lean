import SelectionLadder.Markdown.Html
import SelectionLadder.Markdown.Marker
import SelectionLadder.Markdown.Reference
import SelectionLadder.Markdown.Table

/-!
# The block structure of a document

Reading goes block by block.  A line first continues the containers that are open, then opens new
ones, and what is left of it starts a leaf: a code block, a heading, a table, a paragraph, or
something without units, such as a rule, a piece of HTML or a definition.  A leaf takes further
lines as long as they continue it.
-/

namespace SelectionLadder.Markdown

namespace Document

/-! ## What ends a paragraph -/

/-- What follows the margin starts a block that ends a paragraph, tables aside. -/
def startsBlock (sameContainer : Bool) (cs : List Char) (next : Option SourceLine) : Bool :=
  cs = [] || isRule cs || (headingLevel? cs).isSome || (fence? cs).isSome ||
    cs.head? = some '>' || itemInterrupts sameContainer cs next || Html.interrupts cs

/-- The number of columns of a table whose head is `cs` and whose second line is `next`. -/
def tableColumns? (d : Document) (cs : List Char) (next : Option SourceLine) : Option Nat := do
  let columns ← headerColumns? cs
  let below ← (← next.map d.inside?)
  if delimiterColumns? below.rest = some columns then some columns else none

/-- What a line does to the paragraph before it. -/
inductive Continuation where
  | ends
  /-- The paragraph was a heading, and this line underlines it. -/
  | underlines (level : Nat)
  | adds (content : List Located)

/-- A line continues a paragraph if it starts nothing else, in any container.  Only in the same
container can it underline a heading or start a table.  What is indented by four columns starts
nothing. -/
def continuation (d : Document) (line : SourceLine) (next : Option SourceLine) : Continuation :=
  let (count, c) := Container.enterAll d.containers line.cursor
  let same := count = d.opened.length
  let (missing, inner) := c.skip 4
  let text := inner.skipAll
  let plain := if text.rest = [] then .ends else .adds text.located
  if missing = 0 then plain
  else
    match if same then underlineLevel? inner.rest else none with
    | some level => .underlines level
    | none =>
      if startsBlock same inner.rest next ∨ (same ∧ (d.tableColumns? inner.rest next).isSome) then
        .ends
      else plain

/-- The lines of a paragraph after its first one. -/
structure Gathered where
  content : List Located
  /-- The level, if the paragraph is a heading. -/
  level : Option Nat
  stop : Nat
  /-- The lines after the paragraph. -/
  rest : List SourceLine

/-- Gathers the lines that continue a paragraph after its line `last`. -/
def gather (d : Document) (last : SourceLine) : List SourceLine → Gathered
  | [] => ⟨[], none, last.stop, []⟩
  | line :: rest =>
    match d.continuation line rest.head? with
    | .ends => ⟨[], none, last.stop, line :: rest⟩
    | .underlines level => ⟨[], some level, line.stop, rest⟩
    | .adds content =>
      let more := d.gather line rest
      { more with content := ⟨'\n', last.textStop⟩ :: content ++ more.content }

/-! ## Leaves

Each function is given the document so far, the cursor at the leaf, its first line, and the lines
after that; it gives the document with the leaf, and the lines that are left. -/

/-- The document after a leaf, and the lines that are left. -/
abbrev Step := Document × List SourceLine

/-- A leaf without other blocks in it. -/
def addLeaf (d : Document) (tag : Tag) (start stop : Nat) (content : List Located) : Document :=
  d.add (.tree ⟨some tag, start, stop, content⟩ .empty .empty)

/-- The rows of a table after its head: where they stop, and the lines that are left. -/
def tableRows (d : Document) (columns stop : Nat) :
    List SourceLine → Forest Block × Nat × List SourceLine
  | [] => (.empty, stop, [])
  | line :: rest =>
    let row? := do
      let c := (← d.inside? line).skipAll
      if startsBlock true c.rest rest.head? then none else tableRow? .tableRow columns c line
    match row? with
    | some row =>
      let (rows, stop, left) := d.tableRows columns line.stop rest
      (row ++ rows, stop, left)
    | none => (.empty, stop, line :: rest)

/-- A paragraph, a heading that is underlined, or a table. -/
def readText (d : Document) (c : Cursor) (line : SourceLine) (rest : List SourceLine) : Step :=
  match d.tableColumns? c.rest rest.head?, rest with
  | some columns, delimiters :: body =>
    let (rows, stop, left) := d.tableRows columns delimiters.stop body
    let head := (tableRow? .tableHead columns c line).getD .empty
    (d.add (.tree ⟨some .table, c.offset, stop, []⟩ (head ++ rows) .empty), left)
  | _, _ =>
    let more := d.gather line rest
    let tag := match more.level with
      | some level => .heading level
      | none => .paragraph
    (d.addLeaf tag c.offset more.stop (c.located ++ more.content), more.rest)

/-- A definition, unless the text starts with none. -/
def readDefinition? (d : Document) (c : Cursor) (line : SourceLine) (rest : List SourceLine) :
    Option Step := do
  let text := c.rest ++ unlocate (d.gather line rest).content
  let (label, left) ← definition? text
  let lines := text.count '\n' + 1 - if left = [] then 0 else left.count '\n' + 1
  some ({ d with labels := label :: d.labels }, (line :: rest).drop lines)

/-- A heading that starts with number signs. -/
def readHeading (d : Document) (level : Nat) (c : Cursor) (line : SourceLine) : Document :=
  d.addLeaf (.heading level) c.offset line.stop
    ((c.located.drop level).dropWhile fun ch => isBlank ch.char)

/-- The lines of an indented code block after its line `last`.  `stop` is where the last line that
was not empty stops.  The answer is the final stop, whether the last line was empty, and the lines
that are left. -/
def indentedLines (d : Document) (stop : Nat) (blank : Bool) (last : SourceLine) :
    List SourceLine → Nat × Bool × List SourceLine
  | [] => (stop, blank, [])
  | line :: rest =>
    if last.ending = ['\r'] then
      d.indentedLines (if blank then stop else line.stop) blank line rest
    else
      let inner? := do
        let (missing, inner) := (← d.inside? line).skip 4
        if missing = 0 ∨ inner.rest = [] then some inner else none
      match inner? with
      | none => (stop, blank, line :: rest)
      | some inner =>
        if inner.rest = [] ∧ line.ending = [] then (stop, blank, line :: rest)
        else
          d.indentedLines (if inner.isBlank then stop else line.stop) inner.isBlank line rest

/-- A code block that is indented by four columns. -/
def readIndented (d : Document) (c : Cursor) (line : SourceLine) (rest : List SourceLine) : Step :=
  let (stop, blank, left) := d.indentedLines line.stop false line rest
  ({ d.addLeaf .codeBlock c.offset stop [] with afterBlank := blank }, left)

/-- The lines of a fenced code block after its line `last`, up to the closing fence: where the
block stops, and the lines that are left. -/
def fencedLines (d : Document) (mark : Char) (length indent : Nat) (last : SourceLine) :
    List SourceLine → Nat × List SourceLine
  | [] => (last.stop, [])
  | line :: rest =>
    if last.ending = ['\r'] then d.fencedLines mark length indent line rest
    else
      match d.inside? line with
      | none => (last.stop, line :: rest)
      | some c =>
        let inner := (c.skip indent).2
        let (missing, fence) := inner.skip (4 - indent)
        match if missing = 0 then none else closingFence? mark length fence.rest with
        | some width => (fence.offset + width, rest)
        | none => d.fencedLines mark length indent line rest

/-- A code block between fences of `length` marks, the first of which is indented. -/
def readFenced (d : Document) (mark : Char) (length indent : Nat) (c : Cursor)
    (line : SourceLine) (rest : List SourceLine) : Step :=
  let (stop, left) := d.fencedLines mark length indent line rest
  (d.addLeaf .codeBlock c.offset stop [], left)

/-- The characters occur somewhere. -/
def occurs (marker cs : List Char) : Bool := (Html.dropThrough marker cs).isSome

/-- The lines after a block of HTML that goes on until a line has its end.  The last line of the
block so far is `line`, and `cs` is what it has after its margin. -/
def longHtml (d : Document) (marker : List Char) (line : SourceLine) (cs : List Char) :
    List SourceLine → List SourceLine
  | [] => []
  | next :: rest =>
    if line.ending = ['\r'] then d.longHtml marker next (cs ++ next.chars) rest
    else if occurs marker cs then next :: rest
    else
      match d.inside? next with
      | some c => d.longHtml marker next c.rest rest
      | none => next :: rest

/-- The lines after a block of HTML that goes on until an empty line. -/
def shortHtml (d : Document) (line : SourceLine) : List SourceLine → List SourceLine
  | [] => []
  | next :: rest =>
    if line.ending ≠ ['\r'] ∧ (d.inside? next).all Cursor.isBlank then next :: rest
    else d.shortHtml next rest

/-- The lines after a block of HTML, if the line starts one. -/
def readHtml? (d : Document) (c : Cursor) (line : SourceLine) (rest : List SourceLine) :
    Option (List SourceLine) :=
  match c.rest with
  | '<' :: cs =>
    match Html.blockEnd? cs with
    | some marker => some (d.longHtml marker line c.rest rest)
    | none =>
      if Html.startsElement cs || Html.isLoneTag cs then some (d.shortHtml line rest) else none
  | _ => none

/-- The leaf that what is left of a line starts. -/
def readLeaf (d : Document) (c : Cursor) (line : SourceLine) (rest : List SourceLine) : Step :=
  let (missing, inner) := c.skip 4
  if missing = 0 then d.readIndented inner line rest
  else
    match d.readHtml? inner line rest with
    | some left => (d, left)
    | none =>
      if isRule inner.rest then (d, rest)
      else
        match headingLevel? inner.rest, fence? inner.rest with
        | some level, _ => (d.readHeading level inner line, rest)
        | none, some (mark, length) => d.readFenced mark length (4 - missing) inner line rest
        | none, none =>
          (d.readDefinition? inner line rest).getD (d.readText inner line rest)

/-! ## Containers -/

/-- Opens the containers that start at a cursor, at most `count` of them.  The last part of the
answer says that the line ends with the marker of a list item. -/
def openContainers (line : SourceLine) : Nat → Document → Cursor → Document × Cursor × Bool
  | 0, d, c => (d, c, false)
  | count + 1, d, c =>
    let (missing, inner) := c.skip 4
    let outer := 4 - missing
    if missing = 0 then (d, c, false)
    else
      match listItem? outer inner with
      | some (mark, indent, content) =>
        let start := inner.offset - outer
        let d := (d.continueList start mark).openBlock (.item indent) start
        if content.isBlank then ({ d with emptyItem := some line.stop }, content, true)
        else openContainers line count d content
      | none =>
        match Container.quoteMark? inner with
        | some content =>
          openContainers line count ((d.finishList line.start).openBlock .quote inner.offset)
            content
        | none => (d, c, false)

/-- Reads one block, or one empty line. -/
def readBlock (d : Document) (line : SourceLine) (rest : List SourceLine) : Step :=
  let (count, c) := Container.enterAll d.containers line.cursor
  let d := closeMany line.start (d.opened.length - count) d
  let (d, c, marker) := openContainers line (line.chars.length + 1) d c
  if marker then (d, rest)
  else if c.isBlank then (d.meetBlank, rest)
  else (d.finishList line.start).readLeaf c line rest

/-- Reads at most `count` blocks, and closes everything at the end of the document. -/
def readBlocks (stop : Nat) : Nat → Document → List SourceLine → Document
  | 0, d, _ => d
  | _ + 1, d, [] => closeMany stop d.opened.length d
  | count + 1, d, line :: rest =>
    let (d, left) := d.readBlock line rest
    readBlocks stop count d left

/-- The blocks of a text. -/
def ofChars (cs : List Char) : Document :=
  let lines := sourceLines cs
  readBlocks (byteLength cs) (lines.length + 1) {} lines

end Document

end SelectionLadder.Markdown
