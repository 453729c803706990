import SelectionLadder.Json.Printer
import SelectionLadder.Settings.Basic
import SelectionLadder.Wire.WordRule

/-!
# Settings documents

Settings are kept as JSON.  Every field may be missing and then has its default, so a document
needs to name only what it changes; fields that are not settings are passed over.
-/

namespace SelectionLadder

open Json (Fault Reading)

/-- Asks for a rule or null. -/
def WordRule.ofReadingOrNull : Reading → Except Fault (Option WordRule)
  | .null => .ok none
  | r => (WordRule.ofReading r).map some

namespace WordSettings

/-- The encoded form. -/
def toJson (s : WordSettings) : Json :=
  .object [("enabled", .bool s.enabled), ("rule", (s.rule.map WordRule.toJson).getD .null)]

/-- Asks for word settings. -/
def ofReading (r : Reading) : Except Fault WordSettings := do
  let (enabled, rule) ←
    r.asRecord "enabled" Reading.asBool "rule" WordRule.ofReadingOrNull
  let default : WordSettings := {}
  return ⟨enabled.getD default.enabled, rule.getD default.rule⟩

end WordSettings

namespace StructureSettings

/-- The encoded form. -/
def toJson (s : StructureSettings) : Json :=
  .object
    [("enabled", .bool s.enabled), ("ignored_kinds", .array (s.ignoredKinds.map Json.string))]

/-- Asks for structure settings. -/
def ofReading (r : Reading) : Except Fault StructureSettings := do
  let (enabled, ignored) ←
    r.asRecord "enabled" Reading.asBool "ignored_kinds" (Reading.asList Reading.asString)
  let default : StructureSettings := {}
  return ⟨enabled.getD default.enabled, ignored.getD default.ignoredKinds⟩

end StructureSettings

namespace Settings

/-- The encoded form. -/
def toJson (s : Settings) : Json :=
  .object [("word", s.word.toJson), ("structure", s.structural.toJson)]

/-- Asks for settings. -/
def ofReading (r : Reading) : Except Fault Settings := do
  let (word, structural) ←
    r.asRecord "word" WordSettings.ofReading "structure" StructureSettings.ofReading
  return ⟨word.getD {}, structural.getD {}⟩

/-- The settings of a document, after which nothing may follow. -/
def ofText (text : String) : Except Fault Settings := do
  let (r, rest) := Reading.ofText text
  let s ← ofReading r
  if rest = [] then return s else throw .malformed

/-- The settings that a value encodes. -/
def ofJson (j : Json) : Except Fault Settings := ofReading (.ofJson j)

/-- The document that holds these settings. -/
def toText (s : Settings) : String := s.toJson.pretty

end Settings

end SelectionLadder
