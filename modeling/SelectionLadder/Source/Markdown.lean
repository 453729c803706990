import SelectionLadder.Engine.Basic
import SelectionLadder.Markdown.Inline
import SelectionLadder.Markdown.Structure

/-!
# The Markdown source

The units of a document in the order in which they open, a unit before the units inside it.  They
are found with places in bytes, and reported as spans with places in characters.
-/

namespace SelectionLadder

namespace Markdown

/-- The units of blocks and of the text in them. -/
def blockEvents (labels : List (List Char)) : Forest Block → List Event
  | .empty => []
  | .tree b below rest =>
    (b.tag.map fun tag => ⟨tag, b.start, b.stop⟩).toList ++ inlineEvents labels b.content ++
      blockEvents labels below ++ blockEvents labels rest

/-- The units of a text. -/
def events (cs : List Char) : List Event :=
  let d := Document.ofChars cs
  blockEvents d.labels d.finished

/-- How many characters start in the first `bytes` bytes of the text.  A place inside a character
counts as the place before it. -/
def charOffset (bytes : Nat) : List Char → Nat
  | [] => 0
  | c :: cs => if bytes < c.utf8Size then 0 else charOffset (bytes - c.utf8Size) cs + 1

/-- The span that reports a unit of a text. -/
def Event.span (cs : List Char) (e : Event) : Span :=
  ⟨e.tag.name, charOffset e.start cs, charOffset e.stop cs⟩

/-- The spans that report the units of a text: the document, then the units. -/
def spans (cs : List Char) (events : List Event) : List Span :=
  ⟨"Document", 0, cs.length⟩ :: events.map (Event.span cs)

end Markdown

/-- The source that finds the units of Markdown. -/
def SpanSource.markdown : SpanSource := fun cs => Markdown.spans cs (Markdown.events cs)

end SelectionLadder
