import SelectionLadder.Text.Basic
import SelectionLadder.Unicode.Space
import SelectionLadder.Word.Ascii

/-!
# Word, line, paragraph and document

The units of a text around a position, from small to large.  None of them looks at the structure
of the document: a paragraph is a run of lines that are not blank.

The position may lie outside the text.  The line then is a caret, and the paragraph is the one at
the last line.
-/

namespace SelectionLadder.Text

/-- The word that touches the position, or a caret there when no word does. -/
def wordRange (t : Text) (m : Matcher) (p : Position) : Range :=
  match (t.line? p.line).bind (m.wordAt · p.column) with
  | some w =>
    ⟨⟨p.line, w.start⟩, ⟨p.line, w.stop⟩,
      Position.le_of_column_le (Nat.le_of_lt w.start_lt_stop)⟩
  | none => .caret p

/-- The word that the text itself finds at a position, without a matcher to go by: the ASCII word
that touches it, if the position has a line and a word does. -/
def wordAt? (t : Text) (p : Position) : Option Range :=
  (t.line? p.line).bind fun line =>
    (Matcher.ascii.wordAt line p.column).map fun w =>
      ⟨⟨p.line, w.start⟩, ⟨p.line, w.stop⟩,
        Position.le_of_column_le (Nat.le_of_lt w.start_lt_stop)⟩

/-- The whole line of the position. -/
def lineRange (t : Text) (p : Position) : Range :=
  ⟨.lineStart p.line, ⟨p.line, t.lineLength p.line⟩, Position.le_of_column_le (Nat.zero_le _)⟩

/-- The line has only spaces, or does not exist. -/
def IsBlank (t : Text) (n : Nat) : Prop :=
  (t.line? n).all (·.all Unicode.isSpace) = true

instance (t : Text) (n : Nat) : Decidable (t.IsBlank n) :=
  inferInstanceAs (Decidable (_ = true))

/-! ## Paragraphs -/

/-- The first line of the block of lines that ends at line `n`: line `n` and the lines before it
back to the nearest blank one. -/
def blockStart (t : Text) : Nat → Nat
  | 0 => 0
  | n + 1 => if t.IsBlank n then n + 1 else t.blockStart n

/-- The last line of the block of lines that starts at line `n`, which has `after` lines after
it: line `n` and the lines after it up to the nearest blank one. -/
def blockStop (t : Text) (n : Nat) : Nat → Nat
  | 0 => n
  | after + 1 => if t.IsBlank (n + 1) then n else t.blockStop (n + 1) after

theorem blockStart_le (t : Text) (n : Nat) : t.blockStart n ≤ n := by
  induction n with
  | zero => exact Nat.le_refl 0
  | succ n ih =>
    rw [blockStart]
    split
    · exact Nat.le_refl _
    · exact Nat.le_succ_of_le ih

theorem le_blockStop (t : Text) (n after : Nat) : n ≤ t.blockStop n after := by
  induction after generalizing n with
  | zero => exact Nat.le_refl n
  | succ after ih =>
    rw [blockStop]
    split
    · exact Nat.le_refl n
    · exact Nat.le_trans (Nat.le_succ n) (ih (n + 1))

/-- The block of lines around the position.  Its line may itself be blank; the block then has
the lines that join it on either side. -/
def paragraphRange (t : Text) (p : Position) : Range :=
  let n := min p.line t.lastLine
  let stop := t.blockStop n (t.lastLine - n)
  ⟨.lineStart (t.blockStart n), ⟨stop, t.lineLength stop⟩, by
    have hstart := t.blockStart_le n
    have hstop : n ≤ stop := t.le_blockStop n _
    rw [Position.le_def]
    simp only [Position.lineStart]
    omega⟩

/-- The whole text. -/
def documentRange (t : Text) : Range := ⟨.zero, t.stop, Position.zero_le _⟩

end SelectionLadder.Text
