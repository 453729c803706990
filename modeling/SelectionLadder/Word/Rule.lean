import SelectionLadder.Word.Ascii
import SelectionLadder.Word.Pattern.Machine
import SelectionLadder.Word.Pattern.Parser
import SelectionLadder.Word.Segment

/-!
# Word rules

Which characters make a word is a setting: a rule names one of the matchers.  A rule given by a
pattern describes one character of a word, or a few; words are the longest stretches that the
pattern matches over and over.
-/

namespace SelectionLadder

/-- A description of the characters that make words. -/
inductive WordRule where
  | ascii
  | unicode
  | pattern (description : String)
deriving DecidableEq

/-- Why a rule has no matcher. -/
inductive PatternError where
  /-- The pattern has no characters. -/
  | empty
  /-- The pattern cannot be read, or its machine would be too large. -/
  | malformed (description : String)
deriving DecidableEq

/-- The pattern of words for the pattern of what they are made of: one or more times over. -/
def wordPattern (description : String) : List Char :=
  "(?:".toList ++ description.toList ++ ")+".toList

/-- The largest machine that is built, in states. -/
def maxWeight : Nat := 327680

/-- The matcher for a rule. -/
def WordRule.matcher : WordRule → Except PatternError Matcher
  | ascii => .ok .ascii
  | unicode => .ok .unicode
  | pattern description =>
    if description = "" then .error .empty
    else match Pattern.Regex.ofChars? (wordPattern description) with
      | none => .error (.malformed description)
      | some r =>
        if r.weight ≤ maxWeight then .ok (.ofCut (Pattern.Machine.ofRegex r).pieces)
        else .error (.malformed description)

end SelectionLadder
