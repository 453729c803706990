import SelectionLadder.Range

/-!
# The origin

The origin is the position that a run of commands started from.  It stays the same while it lies
in the selection, which is how shrinking finds its way back to where expanding started.
-/

namespace SelectionLadder

/-- The origin, if there is one. -/
abbrev Origin := Option Position

/-- The origin in effect: the stored one while something is selected and it lies in the
selection, and the anchor otherwise. -/
def Origin.inEffect (stored : Origin) (selection : Range) (anchor : Position) : Position :=
  match stored with
  | some p => if ¬ selection.IsEmpty ∧ selection.Holds p then p else anchor
  | none => anchor

/-- The origin after a command has looked it up. -/
def Origin.ensure (stored : Origin) (selection : Range) (anchor : Position) : Origin :=
  some (stored.inEffect selection anchor)

end SelectionLadder
