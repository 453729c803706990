import SelectionLadder.Word.Basic

/-!
# ASCII words

The words of a line are the maximal runs of ASCII letters, digits and low lines.
-/

namespace SelectionLadder

/-- A letter or digit of ASCII, or the low line. -/
def isWordChar (c : Char) : Bool := c.isAlphanum || c == '_'

/-- The maximal runs of word characters and of other characters, in order. -/
def asciiPieces (line : Line) : List Piece :=
  (line.splitBy fun a b => isWordChar a == isWordChar b).map fun run =>
    ⟨run, run.any isWordChar⟩

/-- The matcher of maximal runs of word characters. -/
def Matcher.ascii : Matcher := .ofCut asciiPieces

end SelectionLadder
