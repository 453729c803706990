import SelectionLadder.Engine.Structure
import SelectionLadder.Ladder.Expand
import SelectionLadder.Ladder.Shrink
import SelectionLadder.Text.Tiers

/-!
# Commands

A command takes a snapshot of the editor, decides, and then applies the decision.  Taking the
snapshot may store the origin and cache an outline; only applying changes the selection.
-/

namespace SelectionLadder

/-- Why a command or a call has no effect. -/
inductive EngineError where
  /-- A command without an editor. -/
  | notConfigured
  /-- An editor has to be given. -/
  | missingEditor
deriving DecidableEq

/-- What the error says. -/
def EngineError.message : EngineError → String
  | notConfigured => "Selection engine has no editor bound"
  | missingEditor => "An editor is required"

namespace Engine

/-- Binds the given editor; there has to be one. -/
def bind (e : Engine) : Option Buffer → Except EngineError Engine
  | some editor => .ok (e.setEditor editor)
  | none => .error .missingEditor

/-- What a command sees, and the engine after looking. -/
def snapshot (e : Engine) (b : Buffer) : Snapshot × Engine :=
  let selection := b.selection
  let origin := e.origin.inEffect selection b.anchor
  let word := if e.settings.word.enabled then b.text.wordRange e.matcher origin else .caret origin
  let anchored := { e with origin := some origin }
  let (outline, looked) :=
    if e.settings.structural.enabled then anchored.currentOutline b else (none, anchored)
  let seen :=
    { selection
      origin
      word
      line := b.text.lineRange origin
      paragraph := b.text.paragraphRange origin
      paragraphUnion :=
        (b.text.paragraphRange selection.start).union (b.text.paragraphRange selection.stop)
      document := b.text.documentRange
      surroundings := outline.map fun o => surroundings o b.text origin word selection }
  (seen, looked)

/-- Brings the editor to what a decision says. -/
def apply (e : Engine) (b : Buffer) (d : Decision) : Engine :=
  match d with
  | .selectWord r | .selectLine r | .selectParagraph r | .selectUnion r | .selectNode r
  | .selectDocument r => { e with editor := some (b.setSelection r.start r.stop) }
  | .restoreCursor p => { e with editor := some (b.setCursor p), origin := none }
  | .noOp => e

/-- Runs the command that decides this way. -/
def run (e : Engine) (decide : Snapshot → Decision) : Except EngineError (Decision × Engine) :=
  match e.editor with
  | none => .error .notConfigured
  | some b =>
    let (seen, looked) := e.snapshot b
    .ok (decide seen, looked.apply b (decide seen))

/-- Grows the selection to the next larger unit. -/
def expand (e : Engine) : Except EngineError (Decision × Engine) := e.run Snapshot.expand

/-- Shrinks the selection to the next smaller unit. -/
def shrink (e : Engine) : Except EngineError (Decision × Engine) := e.run Snapshot.shrink

end Engine

end SelectionLadder
