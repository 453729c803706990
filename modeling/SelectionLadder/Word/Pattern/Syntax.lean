/-!
# Patterns

The patterns that a word can be described by: characters of a class, assertions about the place,
sequences, ordered alternatives and repetitions.  Groups only group; what they capture is not kept.
-/

namespace SelectionLadder.Pattern

/-- A set of characters. -/
abbrev CharSet := Char → Bool

/-- The other letter of the same ASCII pair, for a letter. -/
def otherCase (c : Char) : Option Char :=
  if c.isLower then some c.toUpper else if c.isUpper then some c.toLower else none

namespace CharSet

/-- The one character. -/
def single (c : Char) : CharSet := fun x => x == c

/-- The characters from `first` to `last`. -/
def range (first last : Char) : CharSet := fun x => first ≤ x && x ≤ last

/-- No character. -/
def none : CharSet := fun _ => false

/-- The characters of either set. -/
def union (a b : CharSet) : CharSet := fun x => a x || b x

/-- The characters that are not in the set. -/
def complement (a : CharSet) : CharSet := fun x => !a x

/-- Adds the other case of every ASCII letter of the set. -/
def foldCase (a : CharSet) : CharSet := fun x => a x || (otherCase x).any a

/-- The characters of any of the ranges. -/
def ofRanges (ranges : List (Char × Char)) : CharSet :=
  fun x => ranges.any fun r => r.1 ≤ x && x ≤ r.2

/-- ASCII digits. -/
def digit : CharSet := range '0' '9'

/-- ASCII white space: tab, line feed, vertical tab, form feed, carriage return and blank. -/
def space : CharSet := fun x => (0x9 ≤ x.val && x.val ≤ 0xD) || x.val == 0x20

/-- ASCII letters and digits, and the low line. -/
def word : CharSet := fun x => x.isAlphanum || x == '_'

end CharSet

/-- What is asserted about a place. -/
inductive Look where
  /-- The start of the line. -/
  | start
  /-- The end of the line. -/
  | stop
  /-- The start, or after a line feed. -/
  | startLF
  /-- The end, or before a line feed. -/
  | stopLF
  /-- The start, or after a line feed or a carriage return, but not inside such a pair. -/
  | startCRLF
  /-- The end, or before a line feed or a carriage return, but not inside such a pair. -/
  | stopCRLF
  | wordBoundary
  | notWordBoundary
  | wordStart
  | wordStop
  /-- No word character before. -/
  | wordStartHalf
  /-- No word character after. -/
  | wordStopHalf
deriving DecidableEq, Repr

/-- The assertion holds between the two characters; at an end there is none. -/
def Look.holds (look : Look) (before after : Option Char) : Bool :=
  let wordBefore := before.any CharSet.word
  let wordAfter := after.any CharSet.word
  match look with
  | start => before.isNone
  | stop => after.isNone
  | startLF => before.isNone || before == some '\n'
  | stopLF => after.isNone || after == some '\n'
  | startCRLF =>
    before.isNone || before == some '\n' || (before == some '\r' && after != some '\n')
  | stopCRLF =>
    after.isNone || after == some '\r' || (after == some '\n' && before != some '\r')
  | wordBoundary => wordBefore != wordAfter
  | notWordBoundary => wordBefore == wordAfter
  | wordStart => !wordBefore && wordAfter
  | wordStop => wordBefore && !wordAfter
  | wordStartHalf => !wordBefore
  | wordStopHalf => !wordAfter

/-- A pattern. -/
inductive Regex where
  /-- Matches the empty stretch. -/
  | empty
  /-- Matches one character of the set. -/
  | char (set : CharSet)
  /-- Matches the empty stretch where the assertion holds. -/
  | look (look : Look)
  /-- Matches one stretch after the other. -/
  | seq (first second : Regex)
  /-- Matches either, and the first one rather than the second. -/
  | alt (first second : Regex)
  /-- Matches at least `least` times and at most `most` times, as often as possible if `greedy`. -/
  | repetition (least : Nat) (most : Option Nat) (greedy : Bool) (sub : Regex)

namespace Regex

/-- The patterns one after the other. -/
def sequence : List Regex → Regex
  | [] => .empty
  | [r] => r
  | r :: rest => .seq r (sequence rest)

/-- The patterns as alternatives, in order of preference. -/
def alternatives : List Regex → Regex
  | [] => .empty
  | [r] => r
  | r :: rest => .alt r (alternatives rest)

/-- The pattern may match the empty stretch. -/
def matchesEmpty : Regex → Bool
  | empty => true
  | char _ => false
  | look _ => true
  | seq a b => a.matchesEmpty && b.matchesEmpty
  | alt a b => a.matchesEmpty || b.matchesEmpty
  | repetition least _ _ sub => least == 0 || sub.matchesEmpty

/-- An estimate of the size of the machine for the pattern, in machine states. -/
def weight : Regex → Nat
  | empty => 1
  | char _ => 1
  | look _ => 1
  | seq a b => a.weight + b.weight
  | alt a b => 2 + a.weight + b.weight
  | repetition least none _ sub => max least 1 * sub.weight + 3
  | repetition least (some most) _ sub =>
    least * sub.weight + (most - least) * (sub.weight + 1) + 1

end Regex

end SelectionLadder.Pattern
