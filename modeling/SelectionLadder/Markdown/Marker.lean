import SelectionLadder.Markdown.Source

/-!
# Markers at the start of a line

How rules, headings, fences, list items and tables show themselves.  The functions are given what
follows the margin of a line.
-/

namespace SelectionLadder.Markdown

/-- A rule: three or more of one of three marks and nothing else but spaces and tabs. -/
def isRule (cs : List Char) : Bool :=
  match cs with
  | mark :: _ =>
    (mark == '*' || mark == '-' || mark == '_') &&
      cs.all (fun c => c == mark || c == ' ' || c == '\t') && 3 ≤ cs.count mark
  | [] => false

/-- The level of a heading that starts with number signs. -/
def headingLevel? (cs : List Char) : Option Nat :=
  let level := (cs.takeWhile (· = '#')).length
  if 1 ≤ level ∧ level ≤ 6 ∧ ((cs.drop level).head?.all isGap) then some level else none

/-- The level of a heading that the line underlines. -/
def underlineLevel? (cs : List Char) : Option Nat :=
  match cs with
  | mark :: _ =>
    if (cs.dropWhile (· = mark)).all isBlank then
      if mark = '=' then some 1 else if mark = '-' then some 2 else none
    else none
  | [] => none

/-- The mark and the length of a fence that opens a code block.  A fence of backticks has no
further backtick on its line. -/
def fence? (cs : List Char) : Option (Char × Nat) :=
  match cs with
  | mark :: _ =>
    let length := (cs.takeWhile (· = mark)).length
    if (mark = '`' ∧ ¬ (cs.drop length).contains '`' ∨ mark = '~') ∧ 3 ≤ length then
      some (mark, length)
    else none
  | [] => none

/-- The number of characters of a fence that closes a code block, with the spaces after it. -/
def closingFence? (mark : Char) (length : Nat) (cs : List Char) : Option Nat :=
  if length ≤ (cs.takeWhile (· = mark)).length ∧ (cs.dropWhile (· = mark)).all (· = ' ') then
    some cs.length
  else none

/-! ## List items -/

/-- The characters of bullets. -/
def isBullet (c : Char) : Bool := c == '-' || c == '+' || c == '*'

/-- A marker of a list item: the bullet, or the character after a number, and the width of it
all.  A number has at most nine digits. -/
structure Marker where
  mark : Char
  number : Option Nat
  width : Nat

/-- The marker of a list item, before what follows it is looked at. -/
def marker? (cs : List Char) : Option Marker :=
  match cs with
  | c :: _ =>
    if isBullet c then some ⟨c, none, 1⟩
    else
      let digits := cs.takeWhile Char.isDigit
      match cs.drop digits.length with
      | mark :: _ =>
        if 1 ≤ digits.length ∧ digits.length ≤ 9 ∧ (mark = '.' ∨ mark = ')') then
          some ⟨mark, some (digits.foldl (fun n d => 10 * n + (d.toNat - '0'.toNat)) 0),
            digits.length + 1⟩
        else none
      | [] => none
  | [] => none

/-- A list item at a cursor that is indented by `outer` columns: the character of its marker, how
far its content is indented, and the place of the content.  Up to four columns may lie between the
marker and the content; if there are more, only the first belongs to the marker. -/
def listItem? (outer : Nat) (c : Cursor) : Option (Char × Nat × Cursor) := do
  let m ← marker? c.rest
  if m.number.isNone && isRule c.rest then none
  else
    let (missing, after) := (c.advance m.width).skip 1
    if missing = 0 ∨ after.rest = [] then
      let indent := outer + m.width + 1
      let (missing, inner) := after.skip 4
      if after.isBlank ∨ missing = 0 then some (m.mark, indent, after)
      else some (m.mark, indent + (4 - missing), inner)
    else none

/-- Whether a list item can end a paragraph of the same container.  An item can that is a bullet
or has the number one, unless it is empty and an empty line follows. -/
def itemInterrupts (sameContainer : Bool) (cs : List Char) (next : Option SourceLine) : Bool :=
  match marker? cs with
  | some m =>
    let after := cs.drop m.width
    after.head?.all (fun c => c == ' ' || c == '\t') &&
      (!sameContainer ||
        ((m.number.isNone || m.number == some 1) &&
          !(after.all isBlank && next.all SourceLine.isEmpty)))
  | none => false

/-! ## Tables -/

/-- The number of pipes that no backslash escapes, and what follows the last of them. -/
def pipes : List Char → Nat × List Char
  | [] => (0, [])
  | '\\' :: _ :: cs => pipes cs
  | c :: cs =>
    let (count, after) := pipes cs
    if c = '|' then (count + 1, if count = 0 then cs else after) else (count, after)

/-- The number of columns of a line that has pipes.  A pipe at either end delimits no column. -/
def headerColumns? (cs : List Char) : Option Nat :=
  let (count, after) := pipes cs
  if count = 0 then none
  else
    let leading := if (cs.dropWhile isBlank).head? = some '|' then 1 else 0
    some (count - leading + if after.all isBlank then 0 else 1)

/-- The columns of the line below a table's head from some column on.  `fresh` holds before the
first mark of a column, `dashed` once the column has a hyphen. -/
def delimiterCells (fresh dashed : Bool) : List Char → Option Nat
  | [] => some (if fresh then 0 else 1)
  | c :: cs =>
    if c = ' ' then delimiterCells fresh dashed cs
    else if c = ':' then delimiterCells false dashed cs
    else if c = '-' then delimiterCells false true cs
    else if c = '|' then
      if dashed then (delimiterCells true false cs).map (· + 1) else none
    else none

/-- The number of columns of the line below a table's head, which has hyphens in every column and
a pipe at least. -/
def delimiterColumns? (cs : List Char) : Option Nat :=
  let indent := (cs.takeWhile (· = ' ')).length
  let inner := cs.drop indent
  if indent ≤ 3 ∧ inner ≠ [] ∧ inner.contains '|' ∧ inner.contains '-' then
    delimiterCells true false (if inner.head? = some '|' then inner.drop 1 else inner)
  else none

end SelectionLadder.Markdown
