import SelectionLadder.Outline.Build
import SelectionLadder.Word.Rule

/-!
# Settings

What a user can choose: whether commands stop at words and by which rule words are found, and
whether the outline is used and which tags it ignores.
-/

namespace SelectionLadder

/-- How words are treated. -/
structure WordSettings where
  /-- Commands stop at words. -/
  enabled : Bool := true
  /-- How words are found; without a rule the editor decides. -/
  rule : Option WordRule := none
deriving DecidableEq, Inhabited

/-- How the structure of the document is treated. -/
structure StructureSettings where
  /-- Commands go by the outline. -/
  enabled : Bool := true
  /-- The prefixes of tags that are dropped before an outline is built. -/
  ignoredKinds : List String := defaultIgnored
deriving DecidableEq, Inhabited

/-- All settings. -/
structure Settings where
  word : WordSettings := {}
  structural : StructureSettings := {}
deriving DecidableEq, Inhabited

end SelectionLadder
