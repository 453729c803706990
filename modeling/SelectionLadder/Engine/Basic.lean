import SelectionLadder.Ladder.Origin
import SelectionLadder.Outline.Basic
import SelectionLadder.Settings.Basic
import SelectionLadder.Text.Buffer

/-!
# Engines

An engine serves one editor.  It keeps the origin from one command to the next and knows where
the structure of the document comes from: an outline that the host supplies, or a source that
finds spans in a text.  An outline that is built from a source is kept for the version of the
buffer that it was built for.
-/

namespace SelectionLadder

/-- Finds the units of a text. -/
abbrev SpanSource := List Char → List Span

/-- An outline and the version of the buffer that it was built for. -/
structure CachedOutline where
  version : Nat
  outline : Outline
deriving DecidableEq

/-- The state of the selection commands for one editor. -/
structure Engine where
  editor : Option Buffer := none
  origin : Origin := none
  settings : Settings := {}
  /-- How words are found. -/
  matcher : Matcher := .ascii
  /-- The outline that the host has supplied. -/
  outline : Option Outline := none
  source : Option SpanSource := none
  cache : Option CachedOutline := none
  /-- How often a source has been asked for spans. -/
  sourceCalls : Nat := 0

namespace Engine

/-- An engine with default settings and no editor. -/
def new : Engine := {}

/-- An engine with these settings, unless their word rule has no matcher. -/
def ofSettings (settings : Settings) : Except PatternError Engine := do
  let matcher ← match settings.word.rule with
    | some rule => rule.matcher
    | none => pure .ascii
  return { settings, matcher }

/-- Binds an editor.  The origin stays, cached outlines do not. -/
def setEditor (e : Engine) (editor : Buffer) : Engine :=
  { e with editor := some editor, cache := none }

/-- Supplies or removes the host's outline. -/
def setOutline (e : Engine) (outline : Option Outline) : Engine := { e with outline }

/-- Supplies or removes the source of spans. -/
def setSource (e : Engine) (source : Option SpanSource) : Engine :=
  { e with source, cache := none }

/-- Stores or forgets the origin. -/
def setOrigin (e : Engine) (origin : Origin) : Engine := { e with origin }

/-- Changes the bound editor in place, if there is one. -/
def mapEditor (e : Engine) (f : Buffer → Buffer) : Engine := { e with editor := e.editor.map f }

end Engine

end SelectionLadder
