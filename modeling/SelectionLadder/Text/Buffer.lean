import SelectionLadder.Text.Basic

/-!
# Buffers

An editor as the selection commands see it: a text, the two ends of one selection, and a version
that changes with the text.  Both ends are always positions of the text.
-/

namespace SelectionLadder

/-- A text with a selection. -/
structure Buffer where
  text : Text
  /-- The end of the selection that stays. -/
  anchor : Position
  /-- The end of the selection that moves. -/
  head : Position
  /-- How often the text has been replaced. -/
  version : Nat
  anchor_inside : text.Inside anchor
  head_inside : text.Inside head

namespace Buffer

/-- A buffer of the text with the caret at its start. -/
def ofText (text : Text) : Buffer :=
  ⟨text, .zero, .zero, 0, text.inside_zero, text.inside_zero⟩

/-- Replaces the text and keeps the selection as far as the new text has it. -/
def setText (b : Buffer) (text : Text) : Buffer :=
  ⟨text, text.clamp b.anchor, text.clamp b.head, b.version + 1,
    text.inside_clamp _, text.inside_clamp _⟩

/-- Selects from an anchor to a head. -/
def setSelection (b : Buffer) (anchor head : Position) : Buffer :=
  ⟨b.text, b.text.clamp anchor, b.text.clamp head, b.version,
    b.text.inside_clamp _, b.text.inside_clamp _⟩

/-- Puts the caret at a position. -/
def setCursor (b : Buffer) (p : Position) : Buffer := b.setSelection p p

/-- The selected range, whichever end is the anchor. -/
def selection (b : Buffer) : Range := .spanning b.anchor b.head

/-- The selected characters. -/
def selectedChars (b : Buffer) : List Char := b.text.slice b.selection

end Buffer

end SelectionLadder
