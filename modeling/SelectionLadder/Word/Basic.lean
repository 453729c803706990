import SelectionLadder.Text.Basic

/-!
# Words of a line

A word is a non-empty interval of columns.  Every way of finding words cuts the line into
consecutive pieces and says which of them are words; `wordsFrom` turns such a cut into columns, so
words come in order, do not overlap and stay inside the line.
-/

namespace SelectionLadder

/-- A word as the columns from `start` up to `stop`. -/
structure Word where
  start : Nat
  stop : Nat
  start_lt_stop : start < stop
deriving DecidableEq

/-- A column touches a word when it lies in it or at one of its ends. -/
def Word.Touches (w : Word) (column : Nat) : Prop := w.start ≤ column ∧ column ≤ w.stop

instance (w : Word) (column : Nat) : Decidable (w.Touches column) :=
  inferInstanceAs (Decidable (_ ∧ _))

/-- A way of finding the words of a line. -/
abbrev Matcher := Line → List Word

/-- The first word that touches the column. -/
def Matcher.wordAt (m : Matcher) (line : Line) (column : Nat) : Option Word :=
  (m line).find? fun w => w.Touches column

/-- A stretch of a line that is a word or stands between words. -/
structure Piece where
  chars : Line
  isWord : Bool

/-- The words of a line that is cut into pieces, the first of which starts at `column`. -/
def wordsFrom (column : Nat) : List Piece → List Word
  | [] => []
  | piece :: rest =>
    let stop := column + piece.chars.length
    if h : piece.isWord ∧ column < stop then ⟨column, stop, h.2⟩ :: wordsFrom stop rest
    else wordsFrom stop rest

/-- The matcher that cuts lines this way. -/
def Matcher.ofCut (cut : Line → List Piece) : Matcher := fun line => wordsFrom 0 (cut line)

end SelectionLadder
