import SelectionLadder.Json.Reading
import SelectionLadder.Wire.Basic
import SelectionLadder.Word.Rule

/-!
# Word rules on the wire

A rule is an object whose member `kind` names its form; the form `pattern` takes its description
from the member `class`.  Other members are ignored.  A rule may also be an array of the form and
then the description, if there is one.

The members may come in any order.  So where a rule is asked for while its text is read, all values
but that of `kind` are first taken in and used when the object has been read to its end.
-/

namespace SelectionLadder

open Json (Fault Reading)

namespace WordRule

/-- The forms of rules. -/
inductive Form where
  | ascii
  | unicode
  | pattern
deriving DecidableEq

/-- Asks for the name of a form. -/
def Form.ofReading (r : Reading) : Except Fault Form := do
  match ← r.asString with
  | "ascii" => return ascii
  | "unicode" => return unicode
  | "pattern" => return pattern
  | _ => throw .unfit

/-- How many arrays and objects may be open inside a rule. -/
def maxDepth : Nat := 124

/-- The rule of a form whose other values have been taken in under these names. -/
def ofMembers (form : Form) (members : List (String × Reading)) : Except Fault WordRule :=
  match form with
  | .ascii => .ok .ascii
  | .unicode => .ok .unicode
  | .pattern =>
    match members.filter fun m => m.1 = "class" with
    | [(_, .string (some description))] => .ok (.pattern description)
    | _ => .error .unfit

/-- The rule of a form whose other values have been taken in in order. -/
def ofItems (form : Form) (items : List Reading) : Except Fault WordRule :=
  match form, items with
  | .ascii, [] => .ok .ascii
  | .unicode, [] => .ok .unicode
  | .pattern, [.string (some description)] => .ok (.pattern description)
  | _, _ => .error .unfit

/-- One member of a rule: the form, which is given once, or a value to be taken in. -/
def member (found : Option Form × List (String × Reading)) (m : Option String × Reading) :
    Except Fault (Option Form × List (String × Reading)) :=
  match m.1 with
  | none => .error .malformed
  | some name =>
    if name = "kind" then
      if found.1.isSome then .error .unfit
      else (Form.ofReading m.2).map fun form => (some form, found.2)
    else (m.2.hold maxDepth).map fun _ => (found.1, found.2 ++ [(name, m.2)])

/-- Asks for a rule. -/
def ofReading : Reading → Except Fault WordRule
  | .object members fault => do
    let (form, held) ← members.foldlM member (none, [])
    Reading.finish fault
    match form with
    | some form => ofMembers form held
    | none => throw .unfit
  | .array (form :: items) fault => do
    let form ← Form.ofReading form
    for item in items do item.hold maxDepth
    Reading.finish fault
    ofItems form items
  | .array [] fault => do
    Reading.finish fault
    throw .unfit
  | r => .error r.refusal

/-- Decodes a rule.  A value has been read to its end before, so its other members may be of any
depth. -/
def ofJson : Json → Except Wire.Error WordRule
  | .object members =>
    match members.lookup "kind", members.lookup "class" with
    | some (.string "ascii"), _ => .ok .ascii
    | some (.string "unicode"), _ => .ok .unicode
    | some (.string "pattern"), some (.string description) => .ok (.pattern description)
    | _, _ => .error .undecodable
  | .array [.string "ascii"] => .ok .ascii
  | .array [.string "unicode"] => .ok .unicode
  | .array [.string "pattern", .string description] => .ok (.pattern description)
  | _ => .error .undecodable

/-- The encoded form of a rule. -/
def toJson : WordRule → Json
  | ascii => .object [("kind", .string "ascii")]
  | unicode => .object [("kind", .string "unicode")]
  | pattern description =>
    .object [("kind", .string "pattern"), ("class", .string description)]

end WordRule

end SelectionLadder
