import SelectionLadder.Forest
import SelectionLadder.Kind
import SelectionLadder.Span

/-!
# Parts of a document

A part is a stretch of the document with a kind.  Building an outline starts from the spans of a
parser and makes a forest of parts in three steps.

* `cover` puts a text part wherever no span lies, so that the parts cover the document.
* `Forest.ofParts` makes a forest of a flat list.  At every level the kind of the first part
  divides the list: each part of that kind is a root, and the parts up to the next root go below
  it.
* `frame` gives text of a part that lies before the first or after the last of its children a
  leaf of its own.
-/

namespace SelectionLadder

/-- A stretch of a document with a kind. -/
structure Part where
  kind : Kind
  start : Nat
  stop : Nat
deriving DecidableEq, Repr, Inhabited

/-- The part that a span reports. -/
def Span.part (s : Span) : Part := ⟨Kind.ofTag s.tag, s.start, s.stop⟩

/-- A text part for the offsets from `start` up to `stop`, if there are any. -/
def textBetween (start stop : Nat) : List Part :=
  if start < stop then [⟨.text, start, stop⟩] else []

/-! ## Covering the document -/

/-- The parts with text parts in the gaps.  Everything before `cursor` is covered.  A document
part covers nothing, so the gaps between the units inside it are filled as well. -/
def coverFrom (length cursor : Nat) : List Part → List Part
  | [] => textBetween cursor length
  | p :: ps =>
    let cursor' := if p.kind = .document then cursor else max cursor p.stop
    textBetween cursor p.start ++ p :: coverFrom length cursor' ps

/-- The parts, in order of their starts, with text parts in the gaps. -/
def cover (length : Nat) (ps : List Part) : List Part := coverFrom length 0 ps

/-! ## Grouping -/

/-- The forest that a flat list of parts describes. -/
def Forest.ofParts : List Part → Forest Part
  | [] => .empty
  | p :: ps =>
    .tree p (ofParts (ps.takeWhile fun q => q.kind ≠ p.kind))
      (ofParts (ps.dropWhile fun q => q.kind ≠ p.kind))
termination_by ps => ps.length
decreasing_by
  · exact Nat.lt_succ_of_le (List.takeWhile_sublist _).length_le
  · exact Nat.lt_succ_of_le (List.dropWhile_sublist _).length_le

/-- One tree for the whole document.  A sole tree is that already if its root is a document or
text that spans the whole document; otherwise a document part is put above the forest. -/
def rooted (length : Nat) : Forest Part → Part × Forest Part
  | .tree p below .empty =>
    if p.start = 0 ∧ p.stop = length ∧ (p.kind = .document ∨ p.kind = .text) then (p, below)
    else (⟨.document, 0, length⟩, .tree p below .empty)
  | f => (⟨.document, 0, length⟩, f)

/-! ## Text of a part itself -/

/-- The largest stop in a forest, and at least `least`. -/
def Forest.reach (least : Nat) : Forest Part → Nat
  | .empty => least
  | .tree p below rest => rest.reach (below.reach (max least p.stop))

/-- The largest stop in the last tree of a forest. -/
def Forest.lastReach (default : Nat) : Forest Part → Nat
  | .empty => default
  | .tree p below .empty => below.reach p.stop
  | .tree _ _ rest => rest.lastReach default

/-- A forest of leaves. -/
def Forest.leavesOf : List Part → Forest Part
  | [] => .empty
  | p :: ps => .tree p .empty (leavesOf ps)

/-- The children of `p`, of which `inner` is the final form, between leaves for the text of `p`
before and after them. -/
def frame (p : Part) (children inner : Forest Part) : Forest Part :=
  match children.firstRoot? with
  | none => inner
  | some first =>
    .leavesOf (textBetween p.start first.start) ++ inner ++
      .leavesOf (textBetween (children.lastReach p.stop) p.stop)

/-- Frames the children of every part. -/
def Forest.framed : Forest Part → Forest Part
  | .empty => .empty
  | .tree p below rest => .tree p (frame p below below.framed) rest.framed

end SelectionLadder
