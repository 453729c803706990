import SelectionLadder.Ladder.Decision
import SelectionLadder.Wire.Place

/-!
# Kinds and decisions on the wire

A choice without a value is encoded as its name, a choice with a value as an object whose only
member has that name.  A choice without a value also decodes from such an object that holds null.
-/

namespace SelectionLadder

/-- Decodes the name of a choice and its value, which is null for a name alone. -/
def Wire.choice : Json → Except Wire.Error (String × Option Json)
  | .string name => .ok (name, none)
  | .object [(name, value)] => .ok (name, some value)
  | _ => .error .undecodable

/-- The choice has no value. -/
def Wire.noValue : Option Json → Except Wire.Error Unit
  | none | some .null => .ok ()
  | _ => .error .undecodable

/-- The value that a choice must have. -/
def Wire.value : Option Json → Except Wire.Error Json
  | some j => .ok j
  | none => .error .undecodable

/-! ## Kinds -/

namespace Kind

/-- The names of the kinds that have no value. -/
def plainNames : List (String × Kind) :=
  [("Document", document), ("Paragraph", paragraph), ("Blockquote", blockquote),
   ("CodeBlock", codeBlock), ("BulletList", bulletList), ("OrderedList", orderedList),
   ("ListItem", listItem), ("Table", table), ("TableHead", tableHead), ("TableRow", tableRow),
   ("TableCell", tableCell), ("Emphasis", emphasis), ("Strong", strong),
   ("Strikethrough", strikethrough), ("InlineCode", inlineCode), ("Link", link),
   ("Image", image), ("Text", text)]

/-- The encoded form of a kind. -/
def toJson (k : Kind) : Json :=
  match k with
  | heading level => .object [("Heading", .nat level.toNat)]
  | other tag => .object [("Other", .string tag)]
  | _ => .string (((plainNames.find? fun entry => entry.2 = k).map (·.1)).getD "")

/-- Decodes a kind.  The level of a heading is any number of 8 bits. -/
def ofJson (j : Json) : Except Wire.Error Kind := do
  let (name, value) ← Wire.choice j
  if name = "Heading" then
    let level ← Wire.natural (← Wire.value value)
    if level < 256 then return heading (UInt8.ofNat level) else throw .undecodable
  else if name = "Other" then return other (← Wire.string (← Wire.value value))
  else match plainNames.lookup name with
    | some k => do
      Wire.noValue value
      return k
    | none => throw .undecodable

end Kind

/-! ## Decisions -/

namespace Decision

/-- The encoded form of a decision. -/
def toJson : Decision → Json
  | selectWord r => .object [("SelectWord", r.toJson)]
  | selectLine r => .object [("SelectLine", r.toJson)]
  | selectParagraph r => .object [("SelectParagraph", r.toJson)]
  | selectUnion r => .object [("SelectUnion", r.toJson)]
  | selectNode r => .object [("SelectNode", r.toJson)]
  | selectDocument r => .object [("SelectDocument", r.toJson)]
  | restoreCursor p => .object [("RestoreCursor", p.toJson)]
  | noOp => .string "NoOp"

/-- The decisions that select a range, by name. -/
def selections : List (String × (Range → Decision)) :=
  [("SelectWord", selectWord), ("SelectLine", selectLine), ("SelectParagraph", selectParagraph),
   ("SelectUnion", selectUnion), ("SelectNode", selectNode), ("SelectDocument", selectDocument)]

/-- Decodes a decision. -/
def ofJson (j : Json) : Except Wire.Error Decision := do
  let (name, value) ← Wire.choice j
  if name = "NoOp" then
    Wire.noValue value
    return noOp
  else if name = "RestoreCursor" then return restoreCursor (← Position.ofJson (← Wire.value value))
  else match selections.lookup name with
    | some select => return select (← Range.ofJson (← Wire.value value))
    | none => throw .undecodable

end Decision

end SelectionLadder
