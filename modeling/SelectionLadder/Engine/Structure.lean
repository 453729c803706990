import SelectionLadder.Engine.Basic
import SelectionLadder.Ladder.Snapshot

/-!
# The structure that a command goes by

`Engine.currentOutline` says which outline is in effect, and `surroundings` what it has around the
origin and the selection.
-/

namespace SelectionLadder

namespace Engine

/-- The outline that the source gives for a buffer, if its spans fit the text. -/
def builtOutline? (e : Engine) (source : SpanSource) (b : Buffer) : Option Outline :=
  (Outline.build e.settings.structural.ignoredKinds (source b.text.chars) b.text.chars).toOption

/-- The outline cached for this version of the buffer. -/
def cachedOutline? (e : Engine) (b : Buffer) : Option Outline :=
  (e.cache.filter fun c => c.version = b.version).map (·.outline)

/-- The outline to go by, and the engine after looking for it.  An outline of the host wins over
a source, but only counts if it has the length of the text.  An outline from the source is taken
from the cache, or is built and then cached; while its spans do not fit the text there is none. -/
def currentOutline (e : Engine) (b : Buffer) : Option Outline × Engine :=
  match e.outline with
  | some o => (if o.length = b.text.length then some o else none, e)
  | none =>
    match e.source with
    | none => (none, e)
    | some source =>
      match e.cachedOutline? b with
      | some o => (some o, e)
      | none =>
        let built := e.builtOutline? source b
        (built, { e with
          cache := built.map fun o => ⟨b.version, o⟩
          sourceCalls := e.sourceCalls + 1 })

end Engine

/-- The range of a text between two offsets of which the first is not larger. -/
def Text.rangeAt (t : Text) (start stop : Nat) : Range :=
  .spanning (t.positionAt start) (t.positionAt stop)

/-- The range of the node with this identifier. -/
def Outline.rangeOf? (o : Outline) (t : Text) (id : NodeId) : Option Range :=
  (o.node? id).map fun n => t.rangeAt n.start n.stop

/-- The range of the block at an offset: the second node of the path there. -/
def Outline.blockAt? (o : Outline) (t : Text) (offset : Nat) : Option Range :=
  (o.pathAt offset)[1]?.bind (o.rangeOf? t)

/-- From the block at the first selected character to the block at the last one. -/
def Outline.blocksOver? (o : Outline) (t : Text) (selection : Range) : Option Range := do
  let first := t.offsetAt selection.start
  let last := max (t.offsetAt selection.stop - 1) first
  return (← o.blockAt? t first).union (← o.blockAt? t last)

/-- The nodes of the outline around the origin and the selection.  The nodes are looked up at the
first character of the word if there is one: a caret behind a word touches it, but the node that
starts at the caret need not hold the word. -/
def surroundings (o : Outline) (t : Text) (origin : Position) (word selection : Range) :
    Surroundings where
  chain :=
    let place := if word.IsEmpty then origin else word.start
    ((o.pathAt (t.offsetAt place)).tail.reverse).filterMap (o.rangeOf? t)
  blocks := o.blocksOver? t selection

end SelectionLadder
