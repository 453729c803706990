/-!
# Markdown source

A document is read line by line.  Places in it are given in bytes of its UTF-8 form, so every
character and line carries the number of bytes before it.

A `Cursor` is a place in the margin of a line, where blocks are told apart by how far they are
indented.  A tab fills up to the next multiple of four columns, and a cursor may stand inside a
tab, with some of its columns still to come.
-/

namespace SelectionLadder.Markdown

/-- How many bytes the characters take. -/
def byteLength (cs : List Char) : Nat := cs.foldr (fun c bytes => c.utf8Size + bytes) 0

/-! ## Characters -/

/-- A character and the number of bytes before it. -/
structure Located where
  char : Char
  offset : Nat
deriving DecidableEq, Repr, Inhabited

/-- The number of bytes up to the end of the character. -/
def Located.stop (c : Located) : Nat := c.offset + c.char.utf8Size

/-- The characters of which the first has this offset. -/
def locate (offset : Nat) : List Char → List Located
  | [] => []
  | c :: cs => ⟨c, offset⟩ :: locate (offset + c.utf8Size) cs

/-- The characters alone. -/
def unlocate (cs : List Located) : List Char := cs.map (·.char)

/-- The offset of the first character, or `stop` when there is none. -/
def headOffset (stop : Nat) : List Located → Nat
  | [] => stop
  | c :: _ => c.offset

/-- A space, a tab, or one of the two line separators that stay within a line. -/
def isBlank (c : Char) : Bool := c == ' ' || c == '\t' || c == '\x0b' || c == '\x0c'

/-- A blank or the end of a line. -/
def isGap (c : Char) : Bool := isBlank c || c == '\n' || c == '\r'

/-! ## Lines -/

/-- A line and the line break that ends it, which only the last line may lack. -/
structure SourceLine where
  start : Nat
  chars : List Char
  ending : List Char
deriving DecidableEq, Repr, Inhabited

namespace SourceLine

/-- The number of bytes up to the line break. -/
def textStop (l : SourceLine) : Nat := l.start + byteLength l.chars

/-- The number of bytes up to the next line. -/
def stop (l : SourceLine) : Nat := l.textStop + byteLength l.ending

/-- There is nothing but blanks. -/
def isEmpty (l : SourceLine) : Bool := l.chars.all isBlank

end SourceLine

/-- The lines of a text with their line breaks: a line feed, a carriage return, or both. -/
def cutLines : List Char → List (List Char × List Char)
  | [] => []
  | '\n' :: cs => ([], ['\n']) :: cutLines cs
  | '\r' :: '\n' :: cs => ([], ['\r', '\n']) :: cutLines cs
  | '\r' :: cs => ([], ['\r']) :: cutLines cs
  | c :: cs =>
    match cutLines cs with
    | [] => [([c], [])]
    | (line, ending) :: rest => (c :: line, ending) :: rest

/-- The lines, of which the first has this offset. -/
def placeLines (offset : Nat) : List (List Char × List Char) → List SourceLine
  | [] => []
  | (chars, ending) :: rest =>
    let line : SourceLine := ⟨offset, chars, ending⟩
    line :: placeLines line.stop rest

/-- The lines of a text. -/
def sourceLines (cs : List Char) : List SourceLine := placeLines 0 (cutLines cs)

/-! ## Cursors -/

/-- A place in a line. -/
structure Cursor where
  offset : Nat
  /-- How many characters there are since the last tab or the start of the line. -/
  sinceTab : Nat
  /-- How many columns of a tab are still to come. -/
  pending : Nat
  rest : List Char
deriving Repr, Inhabited

/-- The place at the start of a line. -/
def SourceLine.cursor (l : SourceLine) : Cursor := ⟨l.start, 0, 0, l.chars⟩

/-- Steps over `n` columns of spaces and tabs, as far as there are any; gives the number of
columns that are missing. -/
def skipColumns (offset sinceTab : Nat) : Nat → List Char → Nat × Cursor
  | 0, cs => (0, ⟨offset, sinceTab, 0, cs⟩)
  | n + 1, [] => (n + 1, ⟨offset, sinceTab, 0, []⟩)
  | n + 1, c :: cs =>
    if c = ' ' then skipColumns (offset + 1) (sinceTab + 1) n cs
    else if c = '\t' then
      let width := 4 - sinceTab % 4
      if width ≤ n + 1 then skipColumns (offset + 1) 0 (n + 1 - width) cs
      else (0, ⟨offset + 1, 0, width - (n + 1), cs⟩)
    else (n + 1, ⟨offset, sinceTab, 0, c :: cs⟩)

namespace Cursor

/-- Steps over `n` columns, as far as there are any; gives the number of columns missing. -/
def skip (c : Cursor) (n : Nat) : Nat × Cursor :=
  if n ≤ c.pending then (0, { c with pending := c.pending - n })
  else skipColumns c.offset c.sinceTab (n - c.pending) c.rest

/-- Steps over all spaces and tabs. -/
def skipAll (c : Cursor) : Cursor :=
  let blanks := c.rest.takeWhile fun ch => ch = ' ' ∨ ch = '\t'
  ⟨c.offset + blanks.length, c.sinceTab + blanks.length, 0,
    c.rest.dropWhile fun ch => ch = ' ' ∨ ch = '\t'⟩

/-- Steps over the first `n` characters, which are in ASCII. -/
def advance (c : Cursor) (n : Nat) : Cursor :=
  ⟨c.offset + n, c.sinceTab + n, c.pending, c.rest.drop n⟩

/-- There is nothing but blanks. -/
def isBlank (c : Cursor) : Bool := c.rest.all Markdown.isBlank

/-- The characters that follow. -/
def located (c : Cursor) : List Located := locate c.offset c.rest

end Cursor

end SelectionLadder.Markdown
