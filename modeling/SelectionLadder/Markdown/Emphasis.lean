import SelectionLadder.Markdown.Block
import SelectionLadder.Unicode.Punctuation
import SelectionLadder.Unicode.Space

/-!
# Emphasis

Runs of asterisks, low lines and tildes mark emphasis.  What stands next to a run decides whether
it can open, close or do both.  A run that can close is matched with the nearest earlier run that
fits; runs between the two are text.  Matched marks enclose a unit for every pair of marks, from
the inside out, and one for a single mark that is left.
-/

namespace SelectionLadder.Markdown

/-- A unit of the document and the bytes where it starts and stops. -/
structure Event where
  tag : Tag
  start : Nat
  stop : Nat
deriving DecidableEq, Repr

/-! ## Runs -/

/-- A longest stretch of one mark. -/
structure Run where
  mark : Char
  offset : Nat
  length : Nat
  opens : Bool
  closes : Bool
deriving DecidableEq, Repr

/-- The run may stand inside a word: asterisks may, and tildes if there are two. -/
def intraword (mark : Char) (length : Nat) : Bool := mark == '*' || (mark == '~' && length > 1)

/-- Whether a run between these characters can open.  It does if it is followed by text that it
does not divide from text before it. -/
def canOpen (mark : Char) (length : Nat) (before after : Option Char) : Bool :=
  match after with
  | none => false
  | some next =>
    !Unicode.isSpace next &&
      match before with
      | none => true
      | some last =>
        (mark == '*' && !Unicode.isPunctuation next) || (mark == '~' && length > 1) ||
          (mark == '~' && last == '~' && !Unicode.isPunctuation next) ||
          Unicode.isSpace last || Unicode.isPunctuation last

/-- Whether a run between these characters can close. -/
def canClose (mark : Char) (length : Nat) (before after : Option Char) : Bool :=
  match before with
  | none => false
  | some last =>
    !Unicode.isSpace last &&
      match after with
      | none => true
      | some next =>
        (intraword mark length && !Unicode.isPunctuation last) || (mark == '~' && last == '~') ||
          Unicode.isSpace next || Unicode.isPunctuation next

/-- The run of these marks between these characters, unless it is text. -/
def run? (mark : Char) (offset length : Nat) (before after : Option Char) : Option Run :=
  let opens := canOpen mark length before after
  let closes := canClose mark length before after
  if (opens || closes) && (mark != '~' || length ≤ 2) then
    some ⟨mark, offset, length, opens, closes⟩
  else none

/-! ## Matching -/

/-- The marks of a run that can still open. -/
structure Opener where
  run : Run
  offset : Nat
  count : Nat

/-- A run can be closed by another one of the same mark.  Runs of tildes have equal lengths.  If
one of the runs can do both, the sum of the lengths is no multiple of three unless the closing one
is. -/
def Opener.fits (o : Opener) (closer : Run) : Bool :=
  let both := (closer.opens && closer.closes) || (o.run.opens && o.run.closes)
  o.run.mark == closer.mark && (closer.mark != '~' || o.run.length == closer.length) &&
    (!both || (closer.length + o.run.length) % 3 != 0 || closer.length % 3 == 0)

/-- The nearest opener that fits, and the ones before it. -/
def findOpener (closer : Run) : List Opener → Option (Opener × List Opener)
  | [] => none
  | o :: rest => if o.fits closer then some (o, rest) else findOpener closer rest

/-- The units that `count` marks before `openStop` and as many from `closeStart` on enclose. -/
def enclosed (mark : Char) (openStop closeStart : Nat) : Nat → List Event
  | 0 => []
  | 1 => [⟨if mark = '~' then .strikethrough else .emphasis, openStop - 1, closeStart + 1⟩]
  | count + 2 =>
    ⟨if mark = '~' then .strikethrough else .strong, openStop - 2, closeStart + 2⟩ ::
      enclosed mark (openStop - 2) (closeStart + 2) count

/-- The runs so far that can open, the last one first, and the units found. -/
structure Matching where
  openers : List Opener := []
  found : List Event := []

/-- Matches the `count` marks of a run from `offset` on, with at most `fuel` other runs. -/
def Matching.closeRun (run : Run) : Nat → (offset count : Nat) → Matching → Matching
  | 0, offset, count, m =>
    if count > 0 ∧ run.opens then { m with openers := ⟨run, offset, count⟩ :: m.openers } else m
  | fuel + 1, offset, count, m =>
    match if run.closes ∧ count > 0 then findOpener run m.openers else none with
    | some (o, earlier) =>
      let used := min count o.count
      let left := if used < o.count then { o with count := o.count - used } :: earlier else earlier
      closeRun run fuel (offset + used) (count - used)
        ⟨left, enclosed run.mark (o.offset + o.count) offset used ++ m.found⟩
    | none =>
      if count > 0 ∧ run.opens then { m with openers := ⟨run, offset, count⟩ :: m.openers } else m

/-- The units that runs mark. -/
def emphasis (runs : List Run) : List Event :=
  (runs.foldl (fun m run => m.closeRun run run.length run.offset run.length) ({} : Matching)).found

end SelectionLadder.Markdown
