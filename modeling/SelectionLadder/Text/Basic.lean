import SelectionLadder.Range

/-!
# Texts

A text is a list of lines, of which there is at least one.  A place in a text can be given as a
`Position` or as an offset, the number of characters before it; a line break counts as one
character.  `Text.offsetAt` and `Text.positionAt` go from one to the other, and `Text.clamp` moves
any position to the nearest one that the text has.
-/

namespace SelectionLadder

/-- A line without its line break. -/
abbrev Line := List Char

/-- The lines of a text, cut at every line feed. -/
def splitLines : List Char → List Line
  | [] => [[]]
  | c :: cs =>
    if c = '\n' then [] :: splitLines cs
    else match splitLines cs with
      | [] => [[c]]
      | line :: lines => (c :: line) :: lines

theorem splitLines_ne_nil (cs : List Char) : splitLines cs ≠ [] := by
  cases cs with
  | nil => simp [splitLines]
  | cons c cs =>
    rw [splitLines]
    split
    · simp
    · split <;> simp

/-- A text as its lines.  The empty text has one empty line. -/
structure Text where
  lines : List Line
  lines_ne_nil : lines ≠ []
deriving DecidableEq

namespace Text

/-- The text with these characters. -/
def ofChars (cs : List Char) : Text := ⟨splitLines cs, splitLines_ne_nil cs⟩

instance : Inhabited Text := ⟨ofChars []⟩

/-- The characters of the text. -/
def chars (t : Text) : List Char := List.intercalate ['\n'] t.lines

/-- The line with this number, if there is one. -/
def line? (t : Text) (n : Nat) : Option Line := t.lines[n]?

/-- The number of the last line. -/
def lastLine (t : Text) : Nat := t.lines.length - 1

/-- The length of a line; a line that does not exist has length zero. -/
def lineLength (t : Text) (n : Nat) : Nat := ((t.line? n).map List.length).getD 0

/-- The position after the last character. -/
def stop (t : Text) : Position := ⟨t.lastLine, t.lineLength t.lastLine⟩

/-- The position is on a line of the text and not past its end. -/
def Inside (t : Text) (p : Position) : Prop :=
  p.line ≤ t.lastLine ∧ p.column ≤ t.lineLength p.line

instance (t : Text) (p : Position) : Decidable (t.Inside p) :=
  inferInstanceAs (Decidable (_ ∧ _))

/-- The nearest position of the text: first the line is limited, then the column. -/
def clamp (t : Text) (p : Position) : Position :=
  let line := min p.line t.lastLine
  ⟨line, min p.column (t.lineLength line)⟩

theorem inside_clamp (t : Text) (p : Position) : t.Inside (t.clamp p) :=
  ⟨Nat.min_le_right _ _, Nat.min_le_right _ _⟩

theorem inside_zero (t : Text) : t.Inside .zero :=
  ⟨Nat.zero_le _, Nat.zero_le _⟩

/-! ## Offsets -/

/-- How many characters lines have, with a line break after each of them. -/
def charCount (lines : List Line) : Nat := lines.foldr (fun line count => line.length + 1 + count) 0

/-- How many characters stand before a position; a position past an end counts as that end. -/
def offsetAt (t : Text) (p : Position) : Nat :=
  let line := min p.line t.lastLine
  charCount (t.lines.take line) + min p.column (t.lineLength line)

/-- The position at an offset into lines of which the first has number `n`. -/
def positionIn : List Line → Nat → Nat → Position
  | [], n, _ => ⟨n, 0⟩
  | [line], n, offset => ⟨n, min offset line.length⟩
  | line :: next :: rest, n, offset =>
    if offset ≤ line.length then ⟨n, offset⟩
    else positionIn (next :: rest) (n + 1) (offset - (line.length + 1))

/-- The position at an offset; an offset past the end counts as the end. -/
def positionAt (t : Text) (offset : Nat) : Position := positionIn t.lines 0 offset

/-- How many characters the text has. -/
def length (t : Text) : Nat := t.offsetAt t.stop

/-- The characters between the ends of a range. -/
def slice (t : Text) (r : Range) : List Char :=
  (t.chars.drop (t.offsetAt r.start)).take (t.offsetAt r.stop - t.offsetAt r.start)

end Text

end SelectionLadder
