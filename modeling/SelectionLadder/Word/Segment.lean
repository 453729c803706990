import SelectionLadder.Unicode.Letter
import SelectionLadder.Unicode.WordBreak
import SelectionLadder.Word.Basic

/-!
# Word segments

Cuts a line at the default word boundaries of Unicode.  Whether there is a boundary between two
characters depends on the classes of a few characters on each side; marks, formatting characters
and joiners belong to the character before them and are otherwise passed over.  A segment is a word
when it holds a letter or a number.
-/

namespace SelectionLadder

open Unicode

namespace Unicode.WordBreak

/-- Sticks to the character before it. -/
def attaches : WordBreak → Bool
  | extend | format | joiner => true
  | _ => false

/-- Ends a line, so there are boundaries on both sides. -/
def endsLine : WordBreak → Bool
  | carriageReturn | lineFeed | newline => true
  | _ => false

/-- A letter of a script that separates words. -/
def isLetter : WordBreak → Bool
  | letter | hebrewLetter => true
  | _ => false

/-- May stand between two letters of a word. -/
def joinsLetters : WordBreak → Bool
  | midLetter | midNumberLetter | singleQuote => true
  | _ => false

/-- May stand between two digits of a number. -/
def joinsDigits : WordBreak → Bool
  | midNumber | midNumberLetter | singleQuote => true
  | _ => false

/-- Goes together with a connector such as the low line. -/
def joinsConnector : WordBreak → Bool
  | letter | hebrewLetter | numeric | katakana => true
  | _ => false

end Unicode.WordBreak

open Unicode.WordBreak

/-- The first class that does not attach to the one before it, and `other` if there is none. -/
def firstSignificant (classes : List WordBreak) : WordBreak :=
  ((classes.dropWhile attaches).head?).getD .other

/-- The second class that does not attach to the one before it. -/
def secondSignificant (classes : List WordBreak) : WordBreak :=
  firstSignificant ((classes.dropWhile attaches).tail)

/-- The class of the first character that does not attach to the one before it. -/
def nextSignificant (cs : List Char) : WordBreak :=
  ((cs.find? fun c => !(wordBreak c).attaches).map wordBreak).getD .other

/-- The number of regional indicators right before the place is odd.  The classes are given last
first; those that attach are passed over. -/
def oddIndicators : List WordBreak → Bool
  | [] => false
  | k :: before =>
    if k.attaches then oddIndicators before
    else k = .regionalIndicator && !oddIndicators before

/-- The classes hold together, seen from the last two before the place and the first two after it.
The number of regional indicators before the place is odd when `odd` is set. -/
def holdTogether (beforeLast last first second : WordBreak) (odd : Bool) : Bool :=
  (last.isLetter && first.isLetter)
    || (last.isLetter && first.joinsLetters && second.isLetter)
    || (beforeLast.isLetter && last.joinsLetters && first.isLetter)
    || (last = .hebrewLetter && first = .singleQuote)
    || (last = .hebrewLetter && first = .doubleQuote && second = .hebrewLetter)
    || (beforeLast = .hebrewLetter && last = .doubleQuote && first = .hebrewLetter)
    || (last = .numeric && (first = .numeric || first.isLetter))
    || (last.isLetter && first = .numeric)
    || (beforeLast = .numeric && last.joinsDigits && first = .numeric)
    || (last = .numeric && first.joinsDigits && second = .numeric)
    || (last = .katakana && first = .katakana)
    || ((last.joinsConnector || last = .extendNumberLetter) && first = .extendNumberLetter)
    || (last = .extendNumberLetter && first.joinsConnector)
    || (last = .regionalIndicator && first = .regionalIndicator && odd)

/-- There is no boundary before the character `c`.  The classes before it are given last first, the
characters after it are `rest`. -/
def joins (before : List WordBreak) (c : Char) (rest : List Char) : Bool :=
  match before with
  | [] => false
  | last :: _ =>
    let first := wordBreak c
    if last = .carriageReturn && first = .lineFeed then true
    else if last.endsLine || first.endsLine then false
    else if last = .joiner && isPictographic c then true
    else if last = .space && first = .space then true
    else if first.attaches then true
    else
      holdTogether (secondSignificant before) (firstSignificant before) first
        (nextSignificant rest) (oddIndicators before)

/-- The segments of a line of which `current` has been read of the current one, last character
first, and `before` are the classes of all that has been read, last first. -/
def segmentsFrom (before : List WordBreak) (current : List Char) : List Char → List Line
  | [] => if current.isEmpty then [] else [current.reverse]
  | c :: cs =>
    if current.isEmpty || joins before c cs then
      segmentsFrom (wordBreak c :: before) (c :: current) cs
    else current.reverse :: segmentsFrom (wordBreak c :: before) [c] cs

/-- The stretches of a line between word boundaries. -/
def segments (line : Line) : List Line := segmentsFrom [] [] line

/-- The segments of a line, of which those with a letter or a number are words. -/
def segmentPieces (line : Line) : List Piece :=
  (segments line).map fun segment => ⟨segment, segment.any isAlphanumeric⟩

/-- The matcher of word segments. -/
def Matcher.unicode : Matcher := .ofCut segmentPieces

end SelectionLadder
