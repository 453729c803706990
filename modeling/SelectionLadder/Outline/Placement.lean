import SelectionLadder.Outline.Part

/-!
# Placing parts

What parsers report may overlap, cross or leave gaps.  Placing gives every part of a tree the
stretch of the document that it occupies: the children of a part divide its stretch among them, so
siblings are contiguous and the leaves tile the document.
-/

namespace SelectionLadder

/-- A part with the stretch of the document that it occupies. -/
structure PlacedPart where
  part : Part
  start : Nat
  stop : Nat
deriving DecidableEq, Repr, Inhabited

/-- Where the first tree of a forest starts: where it was reported to start, but not before
`earliest` and not after `latest`.  An empty forest starts at `latest`. -/
def Forest.startWithin (earliest latest : Nat) : Forest Part → Nat
  | .empty => latest
  | .tree p _ _ => max earliest (min p.start latest)

/-- Places the trees of a forest side by side from `start` to `stop`.  The first tree starts at
`start`, each later one where it was reported, as far as order and `stop` allow, and each tree
stops where the next one starts. -/
def Forest.place (start stop : Nat) : Forest Part → Forest PlacedPart
  | .empty => .empty
  | .tree p below rest =>
    let next := rest.startWithin start stop
    .tree ⟨p, start, next⟩ (below.place start next) (rest.place next stop)

end SelectionLadder
